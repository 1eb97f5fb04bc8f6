import Mathlib.Data.Char
import Mathlib.Data.List.Lex
import Mathlib.Data.List.Sort
import FreeSensePorts.Repoc.Undisturbed

/-!
# The selected channel

The validator starts from `SELECTED`, and takes the default where that is empty or not eligible.  The
shell looks whether the staging directory has a file for `SELECTED`, and takes the row with `yes` in
its column for the default otherwise.  Its choice is the marker of the new directory, from which the
next run reads `SELECTED` (`selectedChannel`).  The two agree.

The shell reads a text of `PRODUCT` as a pattern in `${marker##*/${PRODUCT}-repo-}`; here it is
taken literally.  That the keys of a PHP array differ is a hypothesis on the decoder.
-/

namespace FreeSense.Repoc

open List Php Shell

/-! ## `SELECTED` -/

def Tree.names : Tree → List Text
  | .empty => []
  | .file name _ rest => name :: rest.names
  | .dir _ _ rest => rest.names

def markerSuffix : Text := ".default".toList

/-- The pattern `"${PRODUCT}-repo-"*.default`. -/
def isMarker (product name : Text) : Bool :=
  (base product []).isPrefixOf name && markerSuffix.isSuffixOf (name.drop (base product []).length)

def markerChannel (product name : Text) : Text :=
  let channel := name.drop (base product []).length
  channel.take (channel.length - markerSuffix.length)

/-- The channel of the first marker; the shell sorts the names. -/
def markedChannel (product : Text) (tree : Tree) : Text :=
  (((tree.names.filter (isMarker product)).insertionSort (· ≤ ·)).head?.map
    (markerChannel product)).getD []

/-- Not `"" | *[!a-z0-9.-]* | [!a-z0-9]*`. -/
def isConfigured (value : Text) : Bool :=
  value ≠ [] ∧ value.all (fun c => c.isLower ∨ c.isDigit ∨ c = '.' ∨ c = '-') = true ∧
    value.head?.all (fun c => c.isLower ∨ c.isDigit) = true

/-- `SELECTED`, with the value of `FREESENSE_SELECTED_CHANNEL`. -/
def selectedChannel (product : Text) (tree : Tree) (configured : Text) : Text :=
  if isConfigured configured then configured else markedChannel product tree

/-! ## The files of the staging directory -/

variable {product file : Text} {row : Row} {rows : List Row} {t : Tree}

lemma Tree.hasFile_iff : ∀ t : Tree, t.hasFile file = true ↔ file ∈ t.names
  | .empty => by simp [Tree.hasFile, Tree.names]
  | .file n _ rest => by
    rw [Tree.hasFile, Tree.names, Bool.or_eq_true, beq_iff_eq, Tree.hasFile_iff rest,
      mem_cons, eq_comm]
  | .dir _ _ rest => by rw [Tree.hasFile, Tree.names, Tree.hasFile_iff rest]

lemma Tree.names_put (f : Text → Text) : ∀ t : Tree,
    (t.put file f).names = if file ∈ t.names then t.names else t.names ++ [file]
  | .empty => by simp [Tree.put, Tree.names]
  | .file n content rest => by
    by_cases hn : n = file
    · simp [Tree.put, Tree.names, hn]
    · simp only [Tree.put, if_neg hn, Tree.names, Tree.names_put f rest, mem_cons,
        Ne.symm hn, false_or]
      split_ifs <;> rfl
  | .dir n sub rest => by rw [Tree.put, Tree.names, Tree.names_put f rest, Tree.names]

def Write.name : Write → Text
  | .over name _ => name
  | .append name _ => name

lemma Write.names_apply (w : Write) (t : Tree) :
    (w.apply t).names = if w.name ∈ t.names then t.names else t.names ++ [w.name] := by
  cases w <;> exact Tree.names_put _ t

lemma Write.mem_names_apply (w : Write) (t : Tree) :
    file ∈ (w.apply t).names ↔ file ∈ t.names ∨ file = w.name := by
  rw [Write.names_apply]
  split_ifs with hw
  · exact ⟨.inl, by rintro (h | rfl) <;> assumption⟩
  · rw [mem_append, mem_singleton]

lemma mem_names_foldl (l : List Write) (t : Tree) :
    file ∈ (l.foldl (fun t w => w.apply t) t).names ↔ file ∈ t.names ∨ file ∈ l.map Write.name := by
  induction l generalizing t with
  | nil => simp
  | cons w l ih =>
    rw [foldl_cons, ih, Write.mem_names_apply, map_cons, mem_cons, or_assoc]

/-- The suffixes of a row's files; the first is written for every row. -/
def suffixes : List Text :=
  [".conf", ".name", ".descr", ".version", ".abi", ".altabi", ".osversion"].map String.toList

lemma mem_rowWrites (h : file ∈ (rowWrites product row).map Write.name) :
    ∃ suffix ∈ suffixes, file = base product row.name ++ suffix := by
  simp only [rowWrites, suffixes, map_append, mem_append, map_cons, map_nil,
    mem_cons, not_mem_nil, or_false, Write.name] at h ⊢
  rcases h with ((rfl | h) | h) | h
  · exact ⟨_, .inl rfl, rfl⟩
  · split_ifs at h
    · simp at h
    · exact ⟨_, .inl rfl, by simpa [Write.name] using h⟩
  · rcases h with rfl | rfl | rfl | rfl | rfl
    · exact ⟨_, .inr (.inl rfl), rfl⟩
    · exact ⟨_, .inr (.inr (.inl rfl)), rfl⟩
    · exact ⟨_, .inr (.inr (.inr (.inl rfl))), rfl⟩
    · exact ⟨_, .inr (.inr (.inr (.inr (.inl rfl)))), rfl⟩
    · exact ⟨_, .inr (.inr (.inr (.inr (.inr (.inl rfl))))), rfl⟩
  · split_ifs at h
    · simp at h
    · exact ⟨_, .inr (.inr (.inr (.inr (.inr (.inr rfl))))), by simpa [Write.name] using h⟩

lemma conf_mem_rowWrites : base product row.name ++ ".conf".toList ∈
    (rowWrites product row).map Write.name := by
  simp only [rowWrites, map_append, map_cons, map_nil, mem_append,
    mem_singleton, Write.name]
  exact .inl (.inl (.inl trivial))

lemma getLast?_of_suffix {b suffix : Text} (h : suffix ≠ []) :
    (b ++ suffix).getLast? = suffix.getLast? := by
  rw [getLast?_append, Option.or_of_isSome (by simpa using h)]

lemma suffixes_spec : ∀ suffix ∈ suffixes, suffix ≠ [] ∧ suffix.getLast? ≠ some 't' ∧
    (suffix.getLast? = some 'f' → suffix = ".conf".toList) := by
  decide +kernel

lemma not_marker_of_rowWrites (h : file ∈ (rowWrites product row).map Write.name) :
    ¬ markerSuffix <:+ file := by
  obtain ⟨suffix, hs, rfl⟩ := mem_rowWrites h
  obtain ⟨hne, hlast, -⟩ := suffixes_spec suffix hs
  rintro ⟨b, hb⟩
  have hlast' := congrArg List.getLast? hb
  rw [getLast?_of_suffix hne, getLast?_of_suffix (by decide)] at hlast'
  exact hlast (hlast'.symm.trans (by decide))

lemma conf_of_rowWrites {channel : Text}
    (h : base product channel ++ ".conf".toList ∈ (rowWrites product row).map Write.name) :
    row.name = channel := by
  obtain ⟨suffix, hs, heq⟩ := mem_rowWrites h
  obtain ⟨hne, -, hconf⟩ := suffixes_spec suffix hs
  have hlast := congrArg List.getLast? heq
  rw [getLast?_of_suffix hne, getLast?_of_suffix (by decide)] at hlast
  obtain rfl := hconf (hlast.symm.trans (by decide))
  exact (append_cancel_left (append_cancel_right heq)).symm

lemma mem_names_foldl_row (rows : List Row) (g : Staging) :
    file ∈ (rows.foldl (Staging.row product) g).tree.names ↔ file ∈ g.tree.names ∨
      ∃ row ∈ rows, row.name ≠ [] ∧ file ∈ (rowWrites product row).map Write.name := by
  induction rows generalizing g with
  | nil => simp
  | cons row rows ih =>
    have hrow : file ∈ (g.row product row).tree.names ↔ file ∈ g.tree.names ∨
        row.name ≠ [] ∧ file ∈ (rowWrites product row).map Write.name := by
      by_cases hn : row.name = []
      · simp [Staging.row, hn]
      · rw [Staging.row, if_neg hn, mem_names_foldl]
        simp only [ne_eq, hn, not_false_eq_true, true_and]
    rw [foldl_cons, ih, hrow, or_assoc]
    simp only [mem_cons, exists_eq_or_imp]

lemma conf_mem_iff {channel : Text} :
    base product channel ++ ".conf".toList ∈ (Staging.ofRows product rows).tree.names ↔
      ∃ row ∈ rows, row.name ≠ [] ∧ row.name = channel := by
  rw [Staging.ofRows, mem_names_foldl_row]
  constructor
  · rintro (h | ⟨row, hmem, hne, h⟩)
    · simp [Tree.names] at h
    · exact ⟨row, hmem, hne, conf_of_rowWrites h⟩
  · rintro ⟨row, hmem, hne, rfl⟩
    exact .inr ⟨row, hmem, hne, conf_mem_rowWrites⟩

lemma not_marker_of_mem (h : file ∈ (Staging.ofRows product rows).tree.names) :
    ¬ markerSuffix <:+ file := by
  rw [Staging.ofRows, mem_names_foldl_row] at h
  rcases h with h | ⟨row, -, -, h⟩
  · simp [Tree.names] at h
  · exact not_marker_of_rowWrites h

/-- `DEFAULT_NAME`, if the rows with `yes` are all of one channel. -/
lemma defaultName_eq {channel : Text} (rows : List Row) (g : Staging)
    (hyes : ∀ row ∈ rows, row.default = yes → row.name = channel)
    (hg : g.defaultName = channel ∨ ∃ row ∈ rows, row.name ≠ [] ∧ row.default = yes) :
    (rows.foldl (Staging.row product) g).defaultName = channel := by
  induction rows generalizing g with
  | nil => simpa using hg
  | cons row rows ih =>
    refine ih _ (fun r hr => hyes r (mem_cons_of_mem _ hr)) ?_
    have hrow := hyes row mem_cons_self
    rcases hg with hg | ⟨r, hr, hne, hy⟩
    · left
      unfold Staging.row
      split_ifs with hn hd
      · exact hg
      · exact hrow hd
      · exact hg
    · rcases mem_cons.1 hr with rfl | hr
      · left
        rw [Staging.row, if_neg hne]
        exact (if_pos hy).trans (hrow hy)
      · exact .inr ⟨r, hr, hne, hy⟩

/-! ## The validator's side -/

structure RowOk (c : Checked) : Prop where
  name : isChannelName c.name = true
  row : ∀ row, c.row = some row → row.name = c.name ∧ c.complete = true ∧ c.eligible = true ∧
    (row.default = yes ↔ c.isDefault = true)
  exists_row : c.complete = true → c.eligible = true → ∃ row, c.row = some row

variable {c : Checked} {source : Source} {a : Accepted}

lemma RowOk.name_ne_nil (h : RowOk c) : c.name ≠ [] := by
  intro hnil
  have := h.name
  rw [hnil] at this
  cases this

lemma validateChannel_row {arch : Arch} {installed : Text} {schema : Schema} {key : Key}
    {channel : Value} (h : validateChannel arch installed schema key channel = .ok c) :
    RowOk c := by
  cases key with
  | int n => simp [validateChannel] at h
  | str name =>
    simp only [validateChannel, bind_eq_ok, require_eq_ok, pure_eq_ok, exists_const] at h
    obtain ⟨⟨hname, -, -⟩, -, version, -, -, system, -, packages, -, mirror, -, -, -, -, -, -, -,
      eligible, -, rfl⟩ := h
    have hno : "no".toList ≠ yes := by decide
    refine ⟨hname, fun row hrow => ?_, fun hc he => ?_⟩
    · simp only [Option.ite_none_right_eq_some, Option.some.injEq] at hrow
      obtain ⟨⟨hc, he⟩, rfl⟩ := hrow
      refine ⟨rfl, hc, he, ?_⟩
      simp only [decide_eq_true_eq]
      split_ifs with hd
      · exact iff_of_true rfl hd
      · exact iff_of_false hno hd
    · exact ⟨_, if_pos ⟨hc, he⟩⟩

/-- What the two sides rely on in an accepted document: names that differ, and one default. -/
structure Consistent (d : Document) : Prop where
  ok : ∀ c ∈ d.checked, RowOk c
  nodup : (d.checked.map Checked.name).Nodup
  default : ∃ c ∈ d.checked, c.isDefault = true ∧ c.name = d.defaultName ∧
    ∀ c' ∈ d.checked, c'.isDefault = true → c' = c

section Documents

variable {decode : Bytes → Value} {arch : Arch} {installed : Text} {raw : Bytes} {d : Document}

lemma names_of_documentOk (h : DocumentOk decode arch installed raw d) :
    ((decode raw).get channelsKey).entries.map Prod.fst =
      d.checked.map fun c => Key.str c.name := by
  rw [← h.doc, ← List.forall₂_eq_eq_eq, List.forall₂_map_left_iff, List.forall₂_map_right_iff]
  exact h.channels.imp fun _ _ hec => hec.key

theorem consistent_of_validate (h : validateDocument decode arch installed raw = .ok d)
    (hkeys : (((decode raw).get channelsKey).entries.map Prod.fst).Nodup) : Consistent d := by
  obtain ⟨hmap, hone, -⟩ := validateDocument_checked h
  refine ⟨fun c hc => ?_, ?_, ?_⟩
  · obtain ⟨e, -, he⟩ := exists_of_mem_mapM hmap hc
    exact validateChannel_row he
  · rw [names_of_documentOk (validateDocument_ok h)] at hkeys
    exact List.Nodup.of_map Key.str (by rwa [map_map])
  · obtain ⟨c, hc⟩ := length_eq_one_iff.1 hone
    have hmem : ∀ c', c' ∈ d.checked ∧ c'.isDefault = true ↔ c' = c := fun c' => by
      rw [← mem_filter, hc, mem_singleton]
    obtain ⟨hin, hd⟩ := (hmem c).2 rfl
    exact ⟨c, hin, hd, by simp [Document.defaultName, hc], fun c' h' hd' => (hmem c').1 ⟨h', hd'⟩⟩

lemma Consistent.find (h : Consistent d) (hc : c ∈ d.checked) :
    (d.checked.reverse.find? fun c' => c'.name = c.name) = some c := by
  cases hf : d.checked.reverse.find? fun c' => c'.name = c.name with
  | none => exact absurd (find?_eq_none.1 hf c (mem_reverse.2 hc)) (by simp)
  | some c' =>
    have hname : c'.name = c.name := by simpa using find?_some hf
    have hmem := mem_reverse.1 (mem_of_find?_eq_some hf)
    rw [inj_on_of_nodup_map h.nodup hmem hc hname]

lemma Consistent.eligible (h : Consistent d) (hc : c ∈ d.checked) :
    d.eligible c.name = some c.eligible := by
  rw [Document.eligible, h.find hc, Option.map_some]

/-- A channel that is complete and eligible has a row, and nobody else has one of its name. -/
lemma Consistent.exists_row (h : Consistent d) {name : Text} (hc : d.complete name = some true)
    (he : d.eligible name = some true) : ∃ c ∈ d.checked, c.name = name ∧
      ∃ row ∈ d.rows, row.name = name ∧ c.row = some row := by
  obtain ⟨c, hfind, hcomplete⟩ := Option.map_eq_some_iff.1 hc
  have hname : c.name = name := by simpa using find?_some hfind
  have hmem := mem_reverse.1 (mem_of_find?_eq_some hfind)
  have heligible : c.eligible = true := by
    rw [← hname, h.eligible hmem] at he
    exact Option.some.inj he
  obtain ⟨row, hrow⟩ := (h.ok c hmem).exists_row hcomplete heligible
  exact ⟨c, hmem, hname, row, mem_filterMap.2 ⟨c, hmem, hrow⟩,
    ((h.ok c hmem).row row hrow).1.trans hname, hrow⟩

/-- **The two computations agree.**  If the validator accepts a channel, the marker the shell writes
is the one of this channel, and the directory has its configuration file. -/
theorem marked_eq (product : Text) (h : Consistent d) {sel : Text} (hc : d.complete (d.effective sel) = some true)
    (he : d.eligible (d.effective sel) = some true) :
    (Staging.ofRows product d.rows).marked product sel =
        (markerWrite product (d.effective sel)).apply (Staging.ofRows product d.rows).tree ∧
      base product (d.effective sel) ++ ".conf".toList ∈
        (Staging.ofRows product d.rows).tree.names := by
  obtain ⟨c, hmem, hname, row, hrow, hrowname, hcrow⟩ := h.exists_row hc he
  have hne : row.name ≠ [] := by
    rw [hrowname, ← hname]
    exact (h.ok c hmem).name_ne_nil
  have hconf : base product (d.effective sel) ++ ".conf".toList ∈
      (Staging.ofRows product d.rows).tree.names := conf_mem_iff.2 ⟨row, hrow, hne, hrowname⟩
  refine ⟨?_, hconf⟩
  -- the channel is the default one whenever the shell gets to its `elif`
  have hdefault : d.effective sel = d.defaultName →
      (Staging.ofRows product d.rows).defaultName = d.effective sel := by
    intro heq
    obtain ⟨c₀, hmem₀, hd₀, hname₀, hone⟩ := h.default
    have hcc₀ : c = c₀ :=
      inj_on_of_nodup_map h.nodup hmem hmem₀ (hname.trans (heq.trans hname₀.symm))
    refine defaultName_eq d.rows _ (fun r hr hyes => ?_) (.inr ⟨row, hrow, hne, ?_⟩)
    · obtain ⟨c', hmem', hrow'⟩ := mem_filterMap.1 hr
      obtain ⟨hn, -, -, hd⟩ := (h.ok c' hmem').row r hrow'
      rw [hn, hone c' hmem' (hd.1 hyes), hname₀, heq]
    · exact ((h.ok c hmem).row row hcrow).2.2.2.2 (hcc₀ ▸ hd₀)
  have helif : d.effective sel = d.defaultName →
      ¬ (sel ≠ [] ∧ (Staging.ofRows product d.rows).tree.hasFile
        (base product sel ++ ".conf".toList) = true) →
      (Staging.ofRows product d.rows).marked product sel =
        (markerWrite product (d.effective sel)).apply (Staging.ofRows product d.rows).tree := by
    intro heq hif
    rw [Staging.marked, if_neg hif, hdefault heq, if_pos (hrowname ▸ hne)]
  by_cases hsel : sel = []
  · refine helif ?_ (fun hif => hif.1 hsel)
    simp [Document.effective, hsel]
  · by_cases hel : d.eligible sel = some false
    · -- not eligible: the default for the validator, and no file for the shell
      refine helif (by simp [Document.effective, hsel, hel]) fun hif => ?_
      obtain ⟨r, hr, -, hrn⟩ := conf_mem_iff.1 ((Tree.hasFile_iff _).1 hif.2)
      obtain ⟨c', hmem', hrow'⟩ := mem_filterMap.1 hr
      obtain ⟨hn, -, he', -⟩ := (h.ok c' hmem').row r hrow'
      have := h.eligible hmem'
      rw [← hn, hrn, hel, he'] at this
      cases this
    · have heq : d.effective sel = sel := by simp [Document.effective, hsel, hel]
      rw [heq] at hconf ⊢
      rw [Staging.marked, if_pos ⟨hsel, (Tree.hasFile_iff _).2 hconf⟩]

end Documents

/-! ## The marker -/

def marker (product channel : Text) : Text := base product channel ++ markerSuffix

lemma marker_eq (product channel : Text) :
    marker product channel = base product [] ++ (channel ++ markerSuffix) := by
  simp [marker, base]

lemma isMarker_marker (product channel : Text) : isMarker product (marker product channel) = true := by
  rw [marker_eq, isMarker, drop_left, Bool.and_eq_true, isPrefixOf_iff_prefix,
    isSuffixOf_iff_suffix]
  exact ⟨prefix_append _ _, suffix_append _ _⟩

lemma markerChannel_marker (product channel : Text) :
    markerChannel product (marker product channel) = channel := by
  rw [marker_eq, markerChannel]
  simp

lemma suffix_of_isMarker (h : isMarker product file = true) : markerSuffix <:+ file := by
  rw [isMarker, Bool.and_eq_true, isSuffixOf_iff_suffix] at h
  exact h.2.trans (drop_suffix _ _)

/-- A marker in a directory without any is its only one, and is read back. -/
lemma markers_apply (product channel : Text) (h : ∀ file ∈ t.names, ¬ markerSuffix <:+ file) :
    ((markerWrite product channel).apply t).names.filter markerSuffix.isSuffixOf =
        [marker product channel] ∧
      markedChannel product ((markerWrite product channel).apply t) = channel := by
  have hsuffix : markerSuffix <:+ marker product channel := suffix_append _ _
  have hnew : marker product channel ∉ t.names := fun hmem => h _ hmem hsuffix
  have hnames : ((markerWrite product channel).apply t).names = t.names ++ [marker product channel] :=
    (Write.names_apply _ t).trans (if_neg hnew)
  have hnone : t.names.filter markerSuffix.isSuffixOf = [] := by
    rw [filter_eq_nil_iff]
    exact fun file hf hs => h file hf (isSuffixOf_iff_suffix.1 hs)
  have hnone' : t.names.filter (isMarker product) = [] := by
    rw [filter_eq_nil_iff]
    exact fun file hf hs => h file hf (suffix_of_isMarker hs)
  rw [markedChannel, hnames, filter_append, filter_append, hnone, hnone',
    filter_singleton, filter_singleton,
    isSuffixOf_iff_suffix.2 hsuffix, isMarker_marker]
  exact ⟨rfl, by simp [markerChannel_marker]⟩

/-! ## A run and the next -/

section Runs

variable {p : Platform} {i : Input} {cache : Option Bytes}

lemma validate_of_loadBaked (h : loadBaked p i = some (source, a)) :
    ∃ raw, validate p i raw none = .ok a := by
  unfold loadBaked at h
  cases hb : i.baked with
  | none => rw [hb] at h; cases h
  | some raw =>
    rw [hb] at h
    cases hv : validate p i raw none with
    | ok a' => simp only [hv] at h; cases h; exact ⟨raw, hv⟩
    | error code => simp only [hv] at h; cases h

lemma validate_of_loadFallback (h : loadFallback p cache i = some (source, a)) :
    ∃ raw, validate p i raw none = .ok a := by
  unfold loadFallback at h
  cases cache with
  | none => exact validate_of_loadBaked h
  | some raw =>
    cases hv : validate p i raw none with
    | ok a' => simp only [hv] at h; cases h; exact ⟨raw, hv⟩
    | error code =>
      simp only [hv] at h
      split_ifs at h
      exact validate_of_loadBaked h

lemma validate_of_repoc (h : (repoc p cache i).2 = some (source, a)) :
    ∃ raw baseline, validate p i raw baseline = .ok a := by
  unfold repoc at h
  by_cases hn : i.nofetch = true
  · rw [if_pos hn] at h
    exact (validate_of_loadBaked h).imp fun _ hraw => ⟨none, hraw⟩
  · rw [if_neg hn] at h
    cases hl : livePayload p i with
    | none =>
      rw [hl] at h
      exact (validate_of_loadFallback h).imp fun _ hraw => ⟨none, hraw⟩
    | some raw =>
      rw [hl] at h
      cases hv : validate p i raw cache with
      | ok a' =>
        simp only [hv] at h
        split_ifs at h
        cases h
        exact ⟨raw, cache, hv⟩
      | error code =>
        simp only [hv] at h
        split_ifs at h
        exact (validate_of_loadFallback h).imp fun _ hraw => ⟨none, hraw⟩

/-- The run that finds this directory and this configured channel. -/
def Input.reading (i : Input) (product : Text) (tree : Tree) (configured : Text) : Input :=
  { i with selected := selectedChannel product tree configured }

/-- **The selected channel of a run**, over any directory or none.  If a run succeeds, the new directory
has one marker; it is the marker of the channel the validator has worked for, which is complete and
eligible and has its configuration file there; and a run after it reads this channel back, unless it
has a configured one. -/
theorem selection_agrees {repos : Option Tree} {configured : Text} {t : Sh}
    (hkeys : ∀ raw, (((p.jsonDecode raw).get channelsKey).entries.map Prod.fst).Nodup)
    (h : Exits p product (i.reading product (repos.getD .empty) configured) (.startAt repos cache) 0 t) :
    ∃ source a tree,
      (repoc p cache (i.reading product (repos.getD .empty) configured)).2 = some (source, a) ∧
      t.dir .repos = some tree ∧
      a.channel = a.document.effective (selectedChannel product (repos.getD .empty) configured) ∧
      a.document.complete a.channel = some true ∧ a.document.eligible a.channel = some true ∧
      tree.names.filter markerSuffix.isSuffixOf = [marker product a.channel] ∧
      tree.hasFile (base product a.channel ++ ".conf".toList) = true ∧
      ∀ (next : Input) (configured' : Text), isConfigured configured' = false →
        (next.reading product tree configured').selected = a.channel := by
  obtain ⟨⟨source, a⟩, hrepoc⟩ := Option.ne_none_iff_exists'.1 (accepted_of_success h)
  obtain ⟨raw, baseline, hval⟩ := validate_of_repoc hrepoc
  obtain ⟨hdoc, hchannel, hcomplete, heligible, -⟩ := validatePayload_ok hval
  have hcons := consistent_of_validate hdoc (hkeys raw)
  obtain ⟨c, hmem, hname, row, hrow, hrowname, -⟩ := hcons.exists_row hcomplete heligible
  have hne : row.name ≠ [] := by
    rw [hrowname, ← hname]
    exact (hcons.ok c hmem).name_ne_nil
  obtain ⟨-, hdir, -⟩ := exitOf_of_accepted product repos hrepoc hrow hne
  rw [exitOf_of_success h] at hdir
  obtain ⟨hmarked, hconf⟩ := marked_eq product hcons (hchannel ▸ hcomplete) (hchannel ▸ heligible)
  rw [← hchannel] at hmarked hconf
  have htree : t.dir .repos =
      some ((markerWrite product a.channel).apply (Staging.ofRows product a.document.rows).tree) := by
    rw [hdir, complete, hmarked]
  obtain ⟨hone, hread⟩ := markers_apply product a.channel
    fun file (hf : file ∈ (Staging.ofRows product a.document.rows).tree.names) =>
      not_marker_of_mem hf
  refine ⟨source, a, _, hrepoc, htree, hchannel, hcomplete, heligible, hone, ?_, fun _ c hc => ?_⟩
  · exact (Tree.hasFile_iff _).2 ((Write.mem_names_apply _ _).2 (.inl hconf))
  · rw [Input.reading, selectedChannel, if_neg (by simp [hc]), hread]

end Runs

def sampleOld : Tree := .file "FreeSense-repo-beta.default".toList [] .empty

lemma sampleDocument_keys (m n : ℕ) :
    ((sampleDocument m n).get channelsKey).entries.map Prod.fst =
      [.str "stable".toList, .str "beta".toList] := by
  have hschema : Key.str "schema_version".toList ≠ .str channelsKey := by decide +kernel
  have hchannels : Key.str "channels".toList = .str channelsKey := rfl
  simp only [sampleDocument, obj, map_cons, map_nil, Entries.ofList, Value.get,
    Entries.get?, hschema, hchannels, if_true, if_false, Option.none_or, Option.some_or,
    Option.getD_some, Value.entries, Entries.toList]

lemma samplePlatform_keys (raw : Bytes) :
    (((samplePlatform.jsonDecode raw).get channelsKey).entries.map Prod.fst).Nodup := by
  match raw with
  | [a, b] =>
    show (((sampleDocument a.toNat b.toNat).get channelsKey).entries.map Prod.fst).Nodup
    rw [sampleDocument_keys]
    decide +kernel
  | [x, a, b] =>
    have hnone : (samplePlatform.jsonDecode [x, a, b]).get channelsKey = .null := by
      have hkeys : Key.str "schema_version".toList ≠ .str channelsKey ∧
          Key.str "payload".toList ≠ .str channelsKey ∧
          Key.str "signature".toList ≠ .str channelsKey := by decide +kernel
      simp only [samplePlatform, obj, map_cons, map_nil, Entries.ofList, Value.get,
        Entries.get?, hkeys, if_false, Option.none_or, Option.getD_none]
    rw [hnone]
    exact nodup_nil
  | [] => exact nodup_nil
  | [_] => exact nodup_nil
  | _ :: _ :: _ :: _ :: _ => exact nodup_nil

lemma exits_of_status {p : Platform} {i : Input} {s : Sh} (h : (exitOf p product i s).1 = 0) :
    Exits p product i s 0 (exitOf p product i s).2 :=
  h ▸ exits_exitOf p product i s

def sampleNext (tree : Tree) : Input :=
  (sampleInput "stable" 1 1).reading "FreeSense".toList tree []

def sampleEnd : ℕ × Sh :=
  exitOf samplePlatform "FreeSense".toList (sampleNext sampleOld) (Sh.start sampleOld none)

theorem selection_agrees_beta :
    sampleEnd.1 = 0 ∧ ∃ source a tree,
      (repoc samplePlatform none (sampleNext sampleOld)).2 = some (source, a) ∧
      sampleEnd.2.dir .repos = some tree ∧
      tree.names.filter markerSuffix.isSuffixOf = [marker "FreeSense".toList a.channel] ∧
      (sampleNext tree).selected = a.channel := by
  have hstatus : sampleEnd.1 = 0 := by decide +kernel
  have hexits : Exits samplePlatform "FreeSense".toList (sampleNext ((some sampleOld).getD .empty))
      (.startAt (some sampleOld) none) 0 sampleEnd.2 := exits_of_status hstatus
  obtain ⟨source, a, tree, hrepoc, hdir, -, -, -, hone, -, hread⟩ :=
    selection_agrees samplePlatform_keys hexits
  have hnext : (sampleNext tree).selected = a.channel := hread (sampleInput "stable" 1 1) [] rfl
  exact ⟨hstatus, source, a, tree, hrepoc, hdir, hone, hnext⟩

end FreeSense.Repoc
