import FreeSensePorts.CloudInit.Calls
import FreeSensePorts.Core.Hex

/-!
# Hardware addresses

`normalize_network` reads each group of a hardware address with `int(part, 16)`, writes it back with
at least two digits, and looks at the length of the whole: for six groups of one or two digits that
is the address in its usual form (`canonical`).  But `int` takes blanks, a sign, `0x`, underscores, and
numbers of any size (`Hex.Numeral`), so that the length comes out right for texts that are no address
(`Loose`).
-/

namespace FreeSense.CloudInit

open List Python

variable {lib : Library}

def macDocument (s : Text) : Value :=
  .dict [(lit "interfaces", .list [.dict [(lit "mac", .str s)]])]

/-- What is stored for the address, if it is accepted. -/
def storedMac (lib : Library) (s : Text) : Option Text :=
  match normalizeNetwork lib (macDocument s) with
  | .ok [item] => item.mac
  | _ => none

def Accepted (lib : Library) (s : Text) : Prop :=
  ∃ items, normalizeNetwork lib (macDocument s) = .ok items

def groups (s : Text) : List Text := s.splitOn ':'

/-- Six groups of one or two hexadecimal digits. -/
def IsMac (s : Text) : Prop := (groups s).length = 6 ∧ ∀ g ∈ groups s, Hex.isByte g = true

def canonical (s : Text) : Text := join [':'] ((groups s).map Hex.twoDigits)

def address48 (s : Text) : ℕ := Nat.ofDigits 256 ((groups s).map Hex.value).reverse

/-- **What the program is meant to do** with a text. -/
structure MacExact (lib : Library) (s : Text) : Prop where
  accepts : Accepted lib s ↔ IsMac s
  stores : IsMac s → storedMac lib s = some (canonical s)

/-- The number of characters `f"{n:02x}"` writes. -/
def width (n : ℤ) : ℕ :=
  let digits := (Nat.toDigits 16 n.natAbs).length
  if n < 0 then digits + 1 else max 2 digits

/-- A group is written as this numeral, where characters beyond ASCII stand for those of ASCII. -/
def Spells (lib : Library) (g : Text) (n : Hex.Numeral) : Prop := g.map lib.unicode.asciiChar = n.text

/-- No address, but every group is some numeral, and with their values written in two digits or more
there are 17 characters, colons included. -/
def Loose (lib : Library) (s : Text) : Prop :=
  ¬IsMac s ∧ ∃ ns : List Hex.Numeral, Forall₂ (Spells lib) (groups s) ns ∧
    (ns.map fun n => width n.value).sum + ns.length = 18

/-! ## The loop -/

lemma length_hex02 (n : ℤ) : (hex02 n).length = width n := by
  simp only [hex02, width]
  split_ifs
  · rfl
  · rw [length_append, length_replicate]
    omega

lemma length_join_colon {l : List Text} (hne : l ≠ []) :
    (join [':'] l).length + 1 = (l.map List.length).sum + l.length := by
  induction l with
  | nil => exact absurd rfl hne
  | cons s l ih =>
    cases l with
    | nil => simp [join]
    | cons t l =>
      have hih := ih (by simp)
      have hjoin : join [':'] (s :: t :: l) = s ++ ':' :: join [':'] (t :: l) := rfl
      rw [hjoin, length_append, length_cons, map_cons, sum_cons,
        length_cons]
      omega

lemma networkItem_mac (s : Text) : networkItem lib ([], [], []) (.dict [(lit "mac", .str s)]) = (do
    let mac ← itemMac lib (.str s)
    return ([], mac.toList, [⟨[(lit "mac", .str s)], none, mac, []⟩])) := by
  have hraw : networkItem lib ([], [], []) (.dict [(lit "mac", .str s)]) = (do
      let mac ← itemMac lib (.str s)
      if (none : Option Text).any (· ∈ []) || mac.any (· ∈ []) then invalid "duplicate interface mapping"
      return ([] ++ (none : Option Text).toList, [] ++ mac.toList,
        [] ++ [⟨[(lit "mac", .str s)], none, mac, []⟩])) := rfl
  rw [hraw]
  refine bind_congr fun mac => ?_
  cases mac with
  | none => rfl
  | some mac => rfl

lemma normalizeNetwork_macDocument (s : Text) : normalizeNetwork lib (macDocument s) = (do
    let mac ← itemMac lib (.str s)
    return [⟨[(lit "mac", .str s)], none, mac, []⟩]) := by
  have hdoc : normalizeNetwork lib (macDocument s) = (do
      let acc ← [Value.dict [(lit "mac", .str s)]].foldlM (networkItem lib) ([], [], [])
      return acc.2.2) := rfl
  rw [hdoc, foldlM_cons, networkItem_mac]
  simp only [foldlM_nil, bind_assoc, pure_bind]

lemma groups_ne_nil (s : Text) : groups s ≠ [] := splitOn_ne_nil _ _

/-- **When an address is accepted**, and what is stored then. -/
lemma itemMac_eq_ok {s : Text} {mac : Option Text} : itemMac lib (.str s) = .ok mac ↔
    ∃ ns, (groups s).mapM (lib.unicode.intOfText 16) = some ns ∧
      (ns.map width).sum + ns.length = 18 ∧ mac = some (join [':'] (ns.map hex02)) := by
  rw [itemMac, ← groups]
  cases hns : (groups s).mapM (lib.unicode.intOfText 16) with
  | none => simp
  | some ns =>
    have hne : ns.map hex02 ≠ [] := by
      intro hnil
      rw [map_eq_nil_iff.mp hnil] at hns
      cases hgroups : groups s with
      | nil => exact groups_ne_nil s hgroups
      | cons g gs =>
        rw [hgroups] at hns
        simp [Option.bind_eq_some_iff] at hns
    have hlen := length_join_colon hne
    rw [length_map, map_map, show List.length ∘ hex02 = width from funext length_hex02]
      at hlen
    have hmac : join ":".toList (ns.map hex02) = join [':'] (ns.map hex02) := rfl
    simp only [Option.some.injEq, exists_eq_left', hmac]
    split_ifs with h17
    · simp only [invalid_ne_ok, false_iff, not_and]
      omega
    · rw [Except.ok.injEq, eq_comm]
      exact (and_iff_right (by omega)).symm

/-- **The accepted texts.** -/
lemma accepted_iff {s : Text} : Accepted lib s ↔
    ∃ ns : List Hex.Numeral, Forall₂ (Spells lib) (groups s) ns ∧
      (ns.map fun n => width n.value).sum + ns.length = 18 := by
  have hread := fun ns => @Hex.mapM_eq_some_iff _ _ _ _ _ _
    (fun g v => Hex.intOfText_eq_some (u := lib.unicode) (s := g) (v := v)) (groups s) ns
  simp only [Accepted, normalizeNetwork_macDocument, bind_eq_ok, pure_eq_ok, itemMac_eq_ok]
  constructor
  · rintro ⟨_, mac, ⟨ns, hns, hlen, -⟩, -⟩
    obtain ⟨numerals, hspells, rfl⟩ := (hread ns).mp hns
    exact ⟨numerals, hspells, by simpa [Function.comp_def] using hlen⟩
  · rintro ⟨numerals, hspells, hlen⟩
    exact ⟨_, _, ⟨_, (hread _).mpr ⟨numerals, hspells, rfl⟩, by simpa [Function.comp_def] using hlen,
      rfl⟩, rfl⟩

lemma storedMac_eq {s : Text} {mac : Text} (h : itemMac lib (.str s) = .ok (some mac)) :
    storedMac lib s = some mac := by
  rw [storedMac, normalizeNetwork_macDocument, h]
  rfl

/-! ## Addresses -/

lemma canonical_eq {s : Text} (h : IsMac s) :
    canonical s = join [':'] (((groups s).map Hex.value).map fun n : ℕ => hex02 n) := by
  rw [map_map]
  exact congrArg (join [':']) (map_congr_left fun g hg => (Hex.hex02_value (h.2 g hg)).symm)

lemma IsMac.mapM {s : Text} (h : IsMac s) : (groups s).mapM (lib.unicode.intOfText 16)
    = some ((groups s).map fun g => (Hex.value g : ℤ)) :=
  Hex.mapM_eq_some fun g hg => Hex.intOfText_byte (h.2 g hg)

lemma IsMac.itemMac {s : Text} (h : IsMac s) : itemMac lib (.str s) = .ok (some (canonical s)) := by
  have hwidth : ∀ g ∈ groups s, width (Hex.value g) = 2 := fun g hg => by
    rw [← length_hex02, Hex.hex02_value (h.2 g hg), Hex.length_twoDigits (h.2 g hg)]
  have hwidths : (groups s).map (width ∘ fun g => (Hex.value g : ℤ)) = (groups s).map fun _ => 2 :=
    map_congr_left hwidth
  refine itemMac_eq_ok.mpr ⟨_, h.mapM, ?_, ?_⟩
  · rw [map_map, length_map, hwidths, map_const', h.1]
    rfl
  · rw [canonical_eq h, map_map, map_map]
    rfl

/-- Two addresses are stored as one text exactly if they are the same 48 bits. -/
lemma storedMac_eq_iff {s t : Text} (hs : IsMac s) (ht : IsMac t) :
    storedMac lib s = storedMac lib t ↔ address48 s = address48 t := by
  rw [storedMac_eq hs.itemMac, storedMac_eq ht.itemMac, Option.some.injEq]
  -- the groups come back from either
  have hgroups : ∀ {s}, IsMac s → (canonical s).splitOn ':' = (groups s).map Hex.twoDigits := by
    intro s hs
    refine splitOn_intercalate ':' (fun g hg => ?_) (by simpa using groups_ne_nil s)
    obtain ⟨g', hg', rfl⟩ := mem_map.mp hg
    exact Hex.colon_notMem_twoDigits (hs.2 g' hg')
  have hvalues : ∀ {s}, IsMac s → ((canonical s).splitOn ':').map Hex.value
      = (groups s).map Hex.value := by
    intro s hs
    rw [hgroups hs, map_map]
    exact map_congr_left fun g hg => Hex.value_twoDigits (hs.2 g hg)
  constructor
  · intro heq
    rw [address48, ← hvalues hs, heq, hvalues ht, address48]
  · intro heq
    have hlt : ∀ {s}, IsMac s → ∀ n ∈ ((groups s).map Hex.value).reverse, n < 256 := by
      intro s hs n hn
      obtain ⟨g, hg, rfl⟩ := mem_map.mp (mem_reverse.mp hn)
      exact Hex.value_lt (hs.2 g hg)
    have hsame := Nat.ofDigits_inj_of_len_eq (by decide) (by simp [hs.1, ht.1]) (hlt hs) (hlt ht) heq
    rw [canonical_eq hs, canonical_eq ht, reverse_injective hsame]

lemma IsMac.accepted {s : Text} (h : IsMac s) : Accepted lib s := by
  rw [Accepted, normalizeNetwork_macDocument, h.itemMac]
  exact ⟨_, rfl⟩

/-- **Which texts are treated as hardware addresses should be.**  All but the loose ones; and of the
addresses, two are stored as the same text exactly if they are the same. -/
theorem macExact_iff (lib : Library) :
    (∀ s, MacExact lib s ↔ ¬Loose lib s) ∧
      ∀ s t, IsMac s → IsMac t → (storedMac lib s = storedMac lib t ↔ address48 s = address48 t) := by
  refine ⟨fun s => ?_, fun s t hs ht => storedMac_eq_iff hs ht⟩
  rw [Loose, ← accepted_iff, not_and_or, not_not]
  constructor
  · rintro ⟨haccepts, -⟩
    by_cases h : IsMac s
    · exact .inl h
    · exact .inr fun hacc => h (haccepts.mp hacc)
  · intro h
    exact ⟨⟨fun hacc => h.resolve_right fun hno => hno hacc, IsMac.accepted⟩,
      fun h => storedMac_eq h.itemMac⟩

/-- A prefix, five groups, and a blank with a sign. -/
theorem loose_accepted :
    (Accepted sampleLibrary (lit "0x1:2:3:4:5:6") ∧ ¬IsMac (lit "0x1:2:3:4:5:6")) ∧
      (Accepted sampleLibrary (lit "12345:1:1:1:1") ∧ ¬IsMac (lit "12345:1:1:1:1")) ∧
      storedMac sampleLibrary (lit " -1:2:3:4:5:6") = some (lit "-1:02:03:04:05:06") := by
  have haccepted : ∀ {s}, (storedMac sampleLibrary s).isSome = true → Accepted sampleLibrary s := by
    intro s h
    cases hitems : normalizeNetwork sampleLibrary (macDocument s) with
    | ok items => exact ⟨items, hitems⟩
    | error e => simp [storedMac, hitems] at h
  refine ⟨⟨haccepted (by decide +kernel), fun h => ?_⟩, ⟨haccepted (by decide +kernel), fun h => ?_⟩,
    by decide +kernel⟩
  · exact absurd (h.2 (lit "0x1") (by decide +kernel)) (by decide)
  · exact absurd h.1 (by decide +kernel)

end FreeSense.CloudInit
