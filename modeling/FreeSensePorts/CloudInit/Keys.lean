import FreeSensePorts.CloudInit.KeyStores
import Mathlib.Data.List.TakeWhile

/-!
# The keys are lines

What `valid_keys` accepts is a list of texts, and what it returns are their stripped forms, each
where it occurs first (`FirstOccurrences`).  A key has no line feed in it, so that both places it is
written to are read back line by line: the file `authorized_keys`, and the field of the account, which
is the same text in base64.  Its own part in base64 is what Python's decoder takes, which may have too
many `=` at its end.
-/

namespace FreeSense.CloudInit

open Python Xml Element
open List hiding get

variable {lib : Library}


/-! ## Keys are lines -/

lemma drop_length_takeWhile (p : Char → Bool) (l : Text) :
    l.drop (l.takeWhile p).length = l.dropWhile p := by
  have h : (l.takeWhile p ++ l.dropWhile p).drop (l.takeWhile p).length = l.dropWhile p :=
    drop_left
  rwa [takeWhile_append_dropWhile] at h

/-- The parts of a key. -/
lemma keyMatch_shape {s encoded : Text} (h : keyMatch s = some encoded) :
    ∃ kind ∈ keyTypes, ∃ tail, s = kind ++ ' ' :: (encoded ++ tail) ∧
      (∀ c ∈ encoded, isBase64 c = true ∨ c = '=') ∧ encoded.count '=' ≤ 3 ∧
      (tail = [] ∨ tail.head? = some ' ' ∧ '\n' ∉ tail) := by
  unfold keyMatch at h
  simp only at h
  split_ifs at h with hcond
  obtain ⟨hkind, hbody, hpad, htail⟩ := hcond
  obtain rfl := Option.some.inj h
  rw [← drop_drop, ← drop_drop, drop_length_takeWhile, drop_length_takeWhile,
    drop_length_takeWhile] at htail
  rw [← drop_drop, drop_length_takeWhile] at hbody hpad ⊢
  rw [drop_length_takeWhile] at hpad ⊢
  cases hcons : s.dropWhile (· ≠ ' ') with
  | nil =>
    rw [hcons] at hbody
    exact absurd rfl hbody
  | cons c rest =>
    have hc := head?_dropWhile_not (· ≠ ' ') s
    rw [hcons] at hc
    obtain rfl : c = ' ' := by simpa using hc
    rw [hcons, drop_succ_cons] at htail hpad
    refine ⟨_, hkind, (rest.dropWhile isBase64).dropWhile (· = '='), ?_, ?_, ?_, htail⟩
    · rw [drop_succ_cons, drop_zero, append_assoc, takeWhile_append_dropWhile,
        takeWhile_append_dropWhile, ← hcons, takeWhile_append_dropWhile]
    · intro c hc
      rcases mem_append.mp hc with hc | hc
      · exact .inl (mem_takeWhile_imp hc)
      · exact .inr (by simpa using mem_takeWhile_imp hc)
    · rw [drop_succ_cons, count_append,
        count_eq_zero.mpr fun hin => absurd (mem_takeWhile_imp hin) (by decide), zero_add]
      exact count_le_length.trans hpad

lemma of_keyMatch {s encoded : Text} (h : keyMatch s = some encoded) : '\n' ∉ s ∧ s ≠ [] := by
  obtain ⟨kind, hkind, tail, rfl, hencoded, -, htail⟩ := keyMatch_shape h
  have hlines : ∀ kind ∈ keyTypes, '\n' ∉ kind := by decide
  refine ⟨?_, by simp⟩
  simp only [mem_append, mem_cons, not_or]
  refine ⟨hlines kind hkind, by decide, fun hin => ?_, fun hin => ?_⟩
  · exact absurd (hencoded _ hin) (by decide)
  · rcases htail with rfl | htail
    · exact absurd hin not_mem_nil
    · exact htail.2 hin

lemma validKey_ok {value : Value} {key : Text} (h : validKey lib value = .ok key) :
    ∃ s encoded decoded, value = .str s ∧ key = lib.unicode.strip s ∧
      keyMatch key = some encoded ∧ Base64.decodeStrict encoded = some decoded ∧
      16 ≤ decoded.length := by
  have hnil : keyMatch [] = none := by decide
  unfold validKey at h
  simp only at h
  split at h
  · cases h
  · next encoded hmatch =>
      split at h
      · cases h
      · next decoded hdecoded =>
          split_ifs at h with hlt
          · cases h
          · obtain rfl := Except.ok.inj h
            cases value with
            | str s => exact ⟨s, encoded, decoded, rfl, rfl, hmatch, hdecoded, not_lt.mp hlt⟩
            | _ => exact absurd (hnil.symm.trans hmatch) (by simp)

lemma of_validKeys {value : Value} {keys : List Text} (h : validKeys lib value = .ok keys) :
    ∀ key ∈ keys, '\n' ∉ key ∧ key ≠ [] := by
  unfold validKeys at h
  split at h
  · cases h
    simp
  · next values =>
      refine foldlM_invariant (I := fun _ keys => ∀ key ∈ keys, '\n' ∉ key ∧ key ≠ [])
        (fun {v l acc acc'} hacc hv => ?_) values [] keys (by simp) h
      simp only [bind_eq_ok, pure_eq_ok] at hv
      obtain ⟨key, hkey, rfl⟩ := hv
      obtain ⟨_, _, _, -, -, hmatch, -⟩ := validKey_ok hkey
      split_ifs
      · exact hacc
      · intro k hk
        rcases mem_append.mp hk with hk | hk
        · exact hacc k hk
        · obtain rfl := mem_singleton.mp hk
          exact of_keyMatch hmatch
  · cases h

lemma splitOn_keyLines {keys : List Text} (hkeys : ∀ key ∈ keys, '\n' ∉ key) (hne : keys ≠ []) :
    (keyLines keys).splitOn '\n' = keys ++ [[]] := by
  have hjoin : (join (lit "\n") keys).splitOn '\n' = keys :=
    splitOn_intercalate '\n' hkeys hne
  rw [keyLines, show lit "\n" = ['\n'] from rfl, splitOn_append_cons_self]
  exact congrArg (· ++ [[]]) hjoin

/-! ## The part in base64 -/

/-- A line of the file: the type of a key, a space, at least 16 bytes in base64, and a comment. -/
def KeyLine (key : Text) : Prop :=
  ∃ kind ∈ keyTypes, ∃ encoded comment bytes, key = kind ++ ' ' :: (encoded ++ comment) ∧
    (comment = [] ∨ comment.head? = some ' ') ∧ Base64.decode encoded = some bytes ∧
    16 ≤ bytes.length

/-- The second word of a key. -/
def encodedPart (key : Text) : Text := ((key.dropWhile (· ≠ ' ')).drop 1).takeWhile (· ≠ ' ')

lemma encodedPart_eq {kind encoded comment : Text} (hkind : kind ∈ keyTypes) (hblank : ' ' ∉ encoded)
    (hcomment : comment = [] ∨ comment.head? = some ' ') :
    encodedPart (kind ++ ' ' :: (encoded ++ comment)) = encoded := by
  have hno : ∀ c ∈ kind, decide (c ≠ ' ') = true := all_eq_true.mp
    (all_eq_true.mp (show keyTypes.all (fun k => k.all (· ≠ ' ')) = true by decide) kind hkind)
  have hne : ∀ c ∈ encoded, decide (c ≠ ' ') = true := fun c hc =>
    decide_eq_true (ne_of_mem_of_not_mem hc hblank)
  rw [encodedPart, dropWhile_append_of_pos hno, dropWhile_cons_of_neg (by simp),
    drop_one, tail_cons, takeWhile_append_of_pos hne]
  rcases comment with _ | ⟨c, comment⟩
  · exact append_nil _
  · obtain rfl : c = ' ' := by simpa using hcomment
    rw [takeWhile_cons_of_neg (by simp), append_nil]

/-- **A key that is accepted** has its part in base64 exactly if that part is made of groups of four. -/
lemma keyLine_iff {value : Value} {key : Text} (h : validKey lib value = .ok key) :
    KeyLine key ↔ 4 ∣ (encodedPart key).length := by
  obtain ⟨s, encoded, bytes, -, -, hmatch, hdecoded, hlong⟩ := validKey_ok h
  obtain ⟨kind, hkind, comment, rfl, hsigns, hpad, hcomment⟩ := keyMatch_shape hmatch
  have hcomment' := hcomment.imp_right And.left
  have hblank : ' ' ∉ encoded := fun hin => absurd (hsigns _ hin) (by decide)
  constructor
  · rintro ⟨kind', hkind', encoded', comment', bytes', heq, hcomment'', hdecode, -⟩
    rw [heq, encodedPart_eq hkind' (Base64.blank_not_mem_of_decode hdecode) hcomment'']
    exact Base64.dvd_length_of_decode hdecode
  · intro hlen
    rw [encodedPart_eq hkind hblank hcomment'] at hlen
    rw [Base64.decodeStrict_eq hpad hlen] at hdecoded
    exact ⟨kind, hkind, encoded, comment, bytes, rfl, hcomment', hdecoded, hlong⟩

/-- **What the list of the keys is.** -/
lemma validKeys_spec {values : List Value} {keys : List Text}
    (h : validKeys lib (.list values) = .ok keys) :
    (∃ texts : List Text, values = texts.map Value.str ∧
      FirstOccurrences (texts.map lib.unicode.strip) keys) ∧
      ∀ key ∈ keys, KeyLine key ↔ 4 ∣ (encodedPart key).length := by
  have hinv := foldlM_invariant (I := fun rest keys =>
      (∃ texts : List Text, values = texts.map Value.str ++ rest ∧
        FirstOccurrences (texts.map lib.unicode.strip) keys) ∧
        ∀ key ∈ keys, KeyLine key ↔ 4 ∣ (encodedPart key).length)
    (fun {value rest acc acc'} hacc hstep => ?_) values [] keys
    ⟨⟨[], rfl, .nil⟩, by simp⟩ h
  · simpa only [List.append_nil] using hinv
  · simp only [bind_eq_ok, pure_eq_ok] at hstep
    obtain ⟨key, hkey, rfl⟩ := hstep
    obtain ⟨⟨texts, rfl, hfirst⟩, hlines⟩ := hacc
    obtain ⟨s, _, _, rfl, rfl, -⟩ := validKey_ok hkey
    refine ⟨⟨texts ++ [s], by simp, ?_⟩, fun key hin => ?_⟩
    · rw [List.map_append]
      split_ifs with hin
      · exact hfirst.seen hin
      · exact hfirst.new hin
    · split_ifs at hin
      · exact hlines key hin
      · rcases List.mem_append.mp hin with hin | hin
        · exact hlines key hin
        · rw [List.mem_singleton.mp hin]
          exact keyLine_iff hkey

/-- **No key is two lines.**  If `valid_keys` accepts a list, each of its keys is one line of the file
and of the field of the account, and these have no other lines.  The lines have a part in base64
exactly if the second word of each key is made of groups of four. -/
theorem validKeys_lines {values : List Value} {keys : List Text}
    (h : validKeys lib (.list values) = .ok keys) :
    (∃ texts : List Text, values = texts.map Value.str ∧
        FirstOccurrences (texts.map lib.unicode.strip) keys) ∧
      (∀ {metadata : Dict} {detected : List Detected} {files files' : Files},
        get metadata "ssh_authorized_keys" = .list values → keys ≠ [] →
        apply lib metadata detected files = .ok (true, files') →
        (∃ lines, files'.authorizedKeys = some lines ∧ lines.splitOn '\n' = keys ++ [[]]) ∧
        ∃ field lines, accountKeys files' = some field ∧ decodedKeys field = some lines ∧
          lines.splitOn '\n' = keys ++ [[]]) ∧
      ((∀ key ∈ keys, KeyLine key) ↔ ∀ key ∈ keys, 4 ∣ (encodedPart key).length) := by
  obtain ⟨hlist, hlines⟩ := validKeys_spec h
  refine ⟨hlist, fun {metadata detected files files'} hmeta hne hcall => ?_, forall₂_congr hlines⟩
  obtain ⟨keys', encoded, hkeys', hencoded, haccount, hfile⟩ := accountKeys_apply hcall
  have hsame := keys_of_importedKeys hkeys'
  rw [hmeta, h] at hsame
  obtain rfl := Except.ok.inj hsame
  have hsplit : (keyLines keys).splitOn '\n' = keys ++ [[]] :=
    splitOn_keyLines (fun key hkey => (of_validKeys h key hkey).1) hne
  rw [if_neg hne] at hfile
  refine ⟨⟨_, hfile, hsplit⟩, ?_⟩
  cases encoded with
  | none =>
    rw [encodedKeys, if_neg hne] at hencoded
    split_ifs at hencoded
    cases hencoded
  | some field => exact ⟨field, _, haccount, decodedKeys_encodedKeys hencoded, hsplit⟩

def twoKeys : List Text :=
  [lit "ssh-ed25519 AAAAC3NzaC1lZDI1NTE5AAAA me", lit "ssh-rsa AAAAB3NzaC1yc2EAAAADAQ=="]

def twoValues : List Value :=
  [" ssh-ed25519 AAAAC3NzaC1lZDI1NTE5AAAA me", "ssh-rsa AAAAB3NzaC1yc2EAAAADAQ==",
    "ssh-ed25519 AAAAC3NzaC1lZDI1NTE5AAAA me\n"].map fun s => .str (lit s)

def twoMetadata : Dict :=
  [(lit "instance_id", .str (lit "i-1")), (lit "ssh_authorized_keys", .list twoValues)]

theorem validKeys_lines_two :
    let files' := (outcome sampleLibrary twoMetadata sampleDetected bootFiles).2
    validKeys sampleLibrary (.list twoValues) = .ok twoKeys ∧
      apply sampleLibrary twoMetadata sampleDetected bootFiles = .ok (true, files') ∧
      (∃ lines, files'.authorizedKeys = some lines ∧ lines.splitOn '\n' = twoKeys ++ [[]]) ∧
      (∃ field lines, accountKeys files' = some field ∧ decodedKeys field = some lines ∧
        lines.splitOn '\n' = twoKeys ++ [[]]) ∧ ∀ key ∈ twoKeys, KeyLine key := by
  intro files'
  obtain ⟨keys, hkeys, rfl⟩ := exists_ok_of_view id
    (x := validKeys sampleLibrary (.list twoValues)) (c := twoKeys) (by decide +kernel)
  have hcall : apply sampleLibrary twoMetadata sampleDetected bootFiles = .ok (true, files') :=
    apply_eq_true (by decide +kernel)
  have hboth := (validKeys_lines hkeys).2.1 rfl (by decide) hcall
  exact ⟨hkeys, hcall, hboth.1, hboth.2, (validKeys_lines hkeys).2.2.mpr (by decide +kernel)⟩

/-- **Too many `=`**: the key is accepted, and its second word is not base64. -/
theorem surplus_padding_accepted :
    let key := lit "ssh-ed25519 AAAAC3NzaC1lZDI1NTE5AAAA="
    validKeys sampleLibrary (.list [.str key]) = .ok [key] ∧
      Base64.decode (encodedPart key) = none ∧ ¬KeyLine key := by
  intro key
  obtain ⟨keys, hkeys, rfl⟩ := exists_ok_of_view id
    (x := validKeys sampleLibrary (.list [.str key])) (c := [key]) (by decide +kernel)
  refine ⟨hkeys, by decide +kernel, fun hline => ?_⟩
  have hlen := (validKeys_spec hkeys).2 key (by simp)
  exact absurd (hlen.mp hline) (by decide +kernel)

end FreeSense.CloudInit
