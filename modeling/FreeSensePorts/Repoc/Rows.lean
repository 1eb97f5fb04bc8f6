import FreeSensePorts.Core.Fields
import FreeSensePorts.Core.Read
import FreeSensePorts.Repoc.Bound
import FreeSensePorts.Repoc.Selection

/-!
# The rows between the validator and the shell

The validator writes its rows to a file, the fields joined by `|` and the rows by line feeds, and the
shell reads the file into eleven variables.  Each field was let through by a check of its own; what
these have in common is `Plain`, so the shell has the rows as they were (`shellTuples_rowsFile`).  No
rows would be read as one empty line, but the validator does not get to writing that (`rows_ne_nil`).
-/

namespace FreeSense.Repoc

open List Php Shell

/-! ## The file -/

def Row.fields (row : Row) : List Text :=
  [row.name, row.description, row.version, row.systemUrl, row.packagesUrl, row.train, row.abi,
    row.altabi, row.osversion, row.default, row.mirrorUrl]

/-- The variables of the shell, in the order in which they are read. -/
def Row.ofVariables (v : List Text) : Row where
  name := v.getD 0 []
  description := v.getD 1 []
  version := v.getD 2 []
  systemUrl := v.getD 3 []
  packagesUrl := v.getD 4 []
  train := v.getD 5 []
  abi := v.getD 6 []
  altabi := v.getD 7 []
  osversion := v.getD 8 []
  default := v.getD 9 []
  mirrorUrl := v.getD 10 []

/-- `implode("|", …)`. -/
def Row.encode (row : Row) : Text := ['|'].intercalate row.fields

/-- `implode("\n", $rows) . "\n"`. -/
def rowsFile (rows : List Row) : Text := ['\n'].intercalate (rows.map Row.encode) ++ ['\n']

/-- What `read` gives, line by line. -/
def shellTuples (file : Text) : List Row :=
  (readLines file).map fun line => Row.ofVariables (readVariables '|' 11 line)

/-- The rows of the loop: `[ -n "${name}" ] || continue`. -/
def shellRows (file : Text) : List Row := (shellTuples file).filter fun row => row.name ≠ []

/-! ## Plain texts -/

/-- No separator, no line feed and no zero. -/
def Plain (s : Text) : Prop := ∀ c ∈ s, c ≠ '|' ∧ c ≠ '\n' ∧ c ≠ '\x00'

instance (s : Text) : Decidable (Plain s) := List.decidableBAll _ s

namespace Plain

variable {s t : Text}

lemma nil : Plain [] := by decide

lemma append (hs : Plain s) (ht : Plain t) : Plain (s ++ t) := forall_mem_append.2 ⟨hs, ht⟩

lemma of_all {p : Char → Bool} (hp : p '|' = false ∧ p '\n' = false ∧ p '\x00' = false)
    (h : ∀ c ∈ s, p c = true) : Plain s := by
  intro c hc
  have hpc := h c hc
  refine ⟨?_, ?_, ?_⟩
  · rintro rfl
    rw [hp.1] at hpc
    cases hpc
  · rintro rfl
    rw [hp.2.1] at hpc
    cases hpc
  · rintro rfl
    rw [hp.2.2] at hpc
    cases hpc

lemma of_digits (h : isDigits s = true) : Plain s := by
  simp only [isDigits, decide_eq_true_eq] at h
  exact of_all (p := Char.isDigit) (by decide) (all_eq_true.1 h.2)

lemma of_hex64 (h : isHex64 s = true) : Plain s := by
  simp only [isHex64, decide_eq_true_eq] at h
  exact of_all (p := fun c => c.isDigit ∨ 'a' ≤ c ∧ c ≤ 'f') (by decide) (all_eq_true.1 h.2)

lemma of_channelName (h : isChannelName s = true) : Plain s := by
  cases s with
  | nil => exact nil
  | cons c cs =>
    simp only [isChannelName, decide_eq_true_eq] at h
    refine of_all (p := fun c => c.isDigit ∨ c.isLower ∨ c = '.' ∨ c = '-') (by decide) ?_
    rw [forall_mem_cons]
    refine ⟨decide_eq_true ?_, all_eq_true.1 h.2⟩
    rcases h.1 with hc | hc
    · exact .inl hc
    · exact .inr (.inl hc)

lemma of_safeText {v : Value} (h : safeText v = true) : Plain v.text := by
  cases v with
  | str s =>
    simp only [safeText, decide_eq_true_eq] at h
    exact of_all (p := fun c => c ≠ '|' ∧ c ≠ '\r' ∧ c ≠ '\n' ∧ c ≠ '\x00') (by decide)
      (all_eq_true.1 h.2)
  | _ => exact nil

lemma intercalate (hs : Plain s) {parts : List Text} (h : ∀ part ∈ parts, Plain part) :
    Plain (s.intercalate parts) := by
  intro c hc
  by_contra hbad
  refine notMem_intercalate (fun hmem => hbad (hs c hmem)) (fun part hpart hmem => ?_) hc
  exact hbad (h part hpart c hmem)

lemma of_splitOn (h : ∀ part ∈ s.splitOn '.', isDigits part = true) : Plain s := by
  have hs : ['.'].intercalate (s.splitOn '.') = s := intercalate_splitOn '.'
  rw [← hs]
  exact intercalate (by decide) fun part hpart => of_digits (h part hpart)

lemma of_train (h : isTrain s = true) : Plain s := by
  refine of_splitOn ?_
  unfold isTrain at h
  split at h
  · next a b hs =>
      rw [hs]
      simpa using h
  · cases h

lemma of_versionParts {v : ℕ × ℕ × ℕ} (h : versionParts (.str s) = .ok v) : Plain s := by
  refine of_splitOn ?_
  unfold versionParts at h
  simp only at h
  split at h
  · next a b c hs =>
      split_ifs at h with hd
      rw [hs]
      simpa using hd
  · cases h

lemma unsigned (n : ℕ) : Plain (unsigned n) := fun _ hc =>
  ⟨fun heq => not_mem_unsigned (by decide) (heq ▸ hc),
    fun heq => not_mem_unsigned (by decide) (heq ▸ hc),
    fun heq => not_mem_unsigned (by decide) (heq ▸ hc)⟩

lemma toText (n : ℤ) : Plain (toText n) := by
  cases n with
  | ofNat n => exact unsigned n
  | negSucc n =>
    have htext : Php.toText (.negSucc n) = '-' :: FreeSense.unsigned (n + 1) := by
      show ("-" ++ Nat.repr (n + 1)).toList = _
      rw [String.toList_append]
      rfl
    rw [htext]
    exact append (s := ['-']) (by decide) (unsigned _)

end Plain

/-! ## The fields of a row -/

section Fields

variable {arch : Arch} {installed : Text} {schema : Schema}

/-- The texts of the platform that get into a row. -/
structure Arch.Plain (arch : Arch) : Prop where
  package : Repoc.Plain arch.package
  abi : Repoc.Plain arch.abi.head ∧ Repoc.Plain arch.abi.tail
  altabi : Repoc.Plain arch.altabi.head ∧ Repoc.Plain arch.altabi.tail

lemma plain_of_archOf {machine processor : String} (h : archOf machine processor = some arch) :
    arch.Plain := by
  have hamd64 : amd64.Plain := ⟨by decide, by decide, by decide⟩
  have haarch64 : aarch64.Plain := ⟨by decide, by decide, by decide⟩
  unfold archOf at h
  split_ifs at h
  · exact Option.some.inj h ▸ hamd64
  · exact Option.some.inj h ▸ hamd64
  · exact Option.some.inj h ▸ haarch64

lemma plain_url {c v : Value} {kind : Kind} {train packageArch : Text} (htrain : Plain train)
    (harch : Plain packageArch) (h : validateComponent c kind train schema packageArch = .ok v) :
    Plain (v.get urlKey).text := by
  obtain ⟨rfl, hok⟩ := validateComponent_ok h
  by_cases hnull : v = .null
  · rw [hnull]
    exact .nil
  · obtain ⟨f, -, hhex, hurl⟩ := (hok hnull).fingerprint
    have hf := Plain.of_hex64 hhex
    have hslash : Plain "/".toList := by decide
    rw [hurl]
    cases kind with
    | system => exact ((Plain.append (by decide) hf).append hslash).append harch
    | mirror => exact ((Plain.append (by decide) hf).append hslash).append harch
    | packages =>
      exact ((((Plain.append (by decide) htrain).append hslash).append hf).append hslash).append harch

lemma plain_version {v version : Value} {train : Text} (htrain : Plain train)
    (h : channelVersion schema v train = .ok version) : Plain version.text := by
  unfold channelVersion at h
  split_ifs at h
  · simp only [bind_eq_ok, require_eq_ok, pure_eq_ok, exists_const] at h
    obtain ⟨parts, hparts, -, rfl⟩ := h
    rw [versionParts_str hparts] at hparts
    exact .of_versionParts hparts
  · rw [← pure_eq_ok.1 h]
    exact htrain.append (by decide)

lemma plain_row {key : Key} {channel : Value} {c : Checked} {row : Row} (harch : arch.Plain)
    (h : validateChannel arch installed schema key channel = .ok c) (hrow : c.row = some row) :
    ∀ field ∈ row.fields, Plain field := by
  cases key with
  | int n => simp [validateChannel] at h
  | str name =>
    simp only [validateChannel, bind_eq_ok, require_eq_ok, pure_eq_ok, exists_const] at h
    obtain ⟨⟨hname, -, -⟩, ⟨hdescr, htrain, -⟩, version, hversion, ⟨-, -, -, -, hsome, hgroup⟩,
      system, hsys, packages, hpkg, mirror, hmir, -, -, -, -, -, -, eligible, -, rfl⟩ := h
    simp only [Option.ite_none_right_eq_some, Option.some.injEq] at hrow
    obtain ⟨-, rfl⟩ := hrow
    obtain ⟨major, hmajor⟩ := Option.isSome_iff_exists.mp hsome
    obtain ⟨habi, hdigits⟩ := AbiPattern.group_eq_some hmajor
    obtain ⟨haltabi, -⟩ := AbiPattern.group_eq_some (hgroup.symm.trans hmajor)
    replace htrain := Plain.of_train htrain
    replace hdigits := Plain.of_digits hdigits
    simp only [Row.fields, forall_mem_cons]
    refine ⟨.of_channelName hname, .of_safeText hdescr, plain_version htrain hversion,
      plain_url htrain harch.package hsys, plain_url htrain harch.package hpkg, htrain, ?_, ?_, ?_, ?_,
      plain_url htrain harch.package hmir, forall_mem_nil _⟩
    · rw [habi]
      exact (harch.abi.1.append hdigits).append harch.abi.2
    · rw [haltabi]
      exact (harch.altabi.1.append hdigits).append harch.altabi.2
    · split_ifs
      · exact .nil
      · exact .toText _
    · split_ifs
      · decide
      · decide

end Fields

/-! ## There and back -/

lemma shellTuples_rowsFile {rows : List Row} (hne : rows ≠ [])
    (h : ∀ row ∈ rows, ∀ field ∈ row.fields, Plain field) : shellTuples (rowsFile rows) = rows := by
  have hlines : ∀ line ∈ rows.map Row.encode, '\n' ∉ line ∧ '\x00' ∉ line := by
    intro line hline
    obtain ⟨row, hrow, rfl⟩ := mem_map.1 hline
    exact ⟨notMem_intercalate (by decide) fun field hf hc => (h row hrow field hf _ hc).2.1 rfl,
      notMem_intercalate (by decide) fun field hf hc => (h row hrow field hf _ hc).2.2 rfl⟩
  rw [shellTuples, rowsFile, readLines_intercalate (by simpa using hne) hlines, map_map]
  refine (map_congr_left fun row hrow => ?_).trans (map_id rows)
  have hread : readVariables '|' row.fields.length row.encode = row.fields :=
    readVariables_intercalate fun field hf hc => (h row hrow field hf _ hc).1 rfl
  exact congrArg Row.ofVariables hread

lemma rows_ne_nil {d : Document} {name : Text} (hok : ∀ c ∈ d.checked, RowOk c)
    (hc : d.complete name = some true) (he : d.eligible name = some true) : d.rows ≠ [] := by
  obtain ⟨c, hfind, hcomplete⟩ := Option.map_eq_some_iff.1 hc
  rw [Document.eligible, hfind, Option.map_some, Option.some.injEq] at he
  have hmem := mem_reverse.1 (mem_of_find?_eq_some hfind)
  obtain ⟨row, hrow⟩ := (hok c hmem).exists_row hcomplete he
  exact ne_nil_of_mem (mem_filterMap.2 ⟨c, hmem, hrow⟩)

lemma suffixes_unique : ∀ s ∈ suffixes, ∀ t ∈ suffixes, s <:+ t → s = t := by decide +kernel

lemma name_eq_of_file {product file : Text} {r r' : Row}
    (h : file ∈ (rowWrites product r).map Write.name)
    (h' : file ∈ (rowWrites product r').map Write.name) : r.name = r'.name := by
  obtain ⟨s, hs, rfl⟩ := mem_rowWrites h
  obtain ⟨t, ht, heq⟩ := mem_rowWrites h'
  have hst : s = t := by
    rcases suffix_or_suffix_of_suffix (suffix_append _ s) ⟨_, heq.symm⟩ with hle | hle
    · exact suffixes_unique s hs t ht hle
    · exact (suffixes_unique t ht s hs hle).symm
  rw [hst] at heq
  exact append_cancel_left (append_cancel_right heq)

section Documents

variable {decode : Bytes → Value} {arch : Arch} {installed : Text} {raw : Bytes} {d : Document}

lemma rowOk_of_validate (h : validateDocument decode arch installed raw = .ok d) :
    ∀ c ∈ d.checked, RowOk c := by
  intro c hc
  obtain ⟨e, -, he⟩ := exists_of_mem_mapM (validateDocument_checked h).1 hc
  exact validateChannel_row he

lemma plain_of_validate (harch : arch.Plain)
    (h : validateDocument decode arch installed raw = .ok d) :
    ∀ row ∈ d.rows, ∀ field ∈ row.fields, Plain field := by
  intro row hrow
  obtain ⟨c, hc, hcrow⟩ := mem_filterMap.1 hrow
  obtain ⟨e, -, he⟩ := exists_of_mem_mapM (validateDocument_checked h).1 hc
  exact plain_row harch he hcrow

/-- **The rows are handed over without loss.**  `read` gives the rows of the validator, the loop skips
none of them, and no file is written for two channels.  There is a row whenever the file is written. -/
theorem rows_handed_over {machine processor : String} (harch : archOf machine processor = some arch)
    (h : validateDocument decode arch installed raw = .ok d) :
    (d.rows ≠ [] → shellTuples (rowsFile d.rows) = d.rows) ∧
    shellRows (rowsFile d.rows) = d.rows ∧
    (∀ baseline selected writes a,
      validatePayload decode arch installed raw baseline selected writes = .ok a →
        shellTuples (rowsFile a.document.rows) = d.rows) ∧
    ∀ product, ∀ r ∈ d.rows, ∀ r' ∈ d.rows, r.name ≠ r'.name →
      ((rowWrites product r).map Write.name).Disjoint ((rowWrites product r').map Write.name) := by
  have htuples : d.rows ≠ [] → shellTuples (rowsFile d.rows) = d.rows := fun hne =>
    shellTuples_rowsFile hne (plain_of_validate (plain_of_archOf harch) h)
  refine ⟨htuples, ?_, ?_, fun product r _ r' _ hne file hr hr' => hne (name_eq_of_file hr hr')⟩
  · by_cases hne : d.rows = []
    · rw [hne]
      rfl
    · rw [shellRows, htuples hne, filter_eq_self]
      intro row hrow
      obtain ⟨c, hc, hcrow⟩ := mem_filterMap.1 hrow
      have hok := rowOk_of_validate h c hc
      exact decide_eq_true ((hok.row row hcrow).1 ▸ hok.name_ne_nil)
  · intro baseline selected writes a ha
    obtain ⟨hdoc, -, hcomplete, heligible, -⟩ := validatePayload_ok ha
    obtain rfl : a.document = d := Except.ok.inj (hdoc.symm.trans h)
    exact htuples (rows_ne_nil (rowOk_of_validate h) hcomplete heligible)

end Documents

theorem rows_handed_over_sample :
    ∃ d, validateDocument samplePlatform.jsonDecode amd64 "1.0.0".toList [1, 1] = .ok d ∧
      archOf "amd64" "amd64" = some amd64 ∧ d.rows.length = 2 ∧
      shellTuples (rowsFile d.rows) = d.rows := by
  have hlength : ((validateDocument samplePlatform.jsonDecode amd64 "1.0.0".toList [1, 1]).toOption.map
      fun d => d.rows.length) = some 2 := by decide +kernel
  obtain ⟨d, hd, hrows⟩ := exists_ok_of_view (fun d : Document => d.rows.length) hlength
  have harch : archOf "amd64" "amd64" = some amd64 := rfl
  refine ⟨d, hd, harch, hrows, (rows_handed_over harch hd).1 fun hnil => ?_⟩
  rw [hnil] at hrows
  cases hrows

end FreeSense.Repoc
