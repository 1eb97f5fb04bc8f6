import FreeSensePorts.Core.Python
import Mathlib.Data.Nat.Digits.Defs

/-!
# Numbers in hexadecimal

A byte as one or two hexadecimal digits (`isByte`), as `int(s, 16)` reads it and `f"{n:02x}"` writes
it; and all that `int(s, 16)` reads (`Numeral`).
-/

namespace FreeSense.Hex

open List Python

variable {s : Text}

def digits : List Char := "0123456789abcdefABCDEF".toList

def value (s : Text) : ℕ := s.foldl (fun n c => n * 16 + Text.digit c) 0

def isByte (s : Text) : Bool := (s.length = 1 ∨ s.length = 2) ∧ s.all fun c => digits.contains c

def twoDigits (s : Text) : Text := List.replicate (2 - s.length) '0' ++ s.map Char.toLower

lemma length_of_isByte (h : isByte s = true) : s.length = 1 ∨ s.length = 2 :=
  (of_decide_eq_true h).1

lemma mem_digits_of_isByte (h : isByte s = true) : ∀ c ∈ s, c ∈ digits := fun c hc =>
  contains_iff_mem.mp (all_eq_true.mp (of_decide_eq_true h).2 c hc)

lemma of_isByte {P : Text → Bool} (one : (digits.all fun c => P [c]) = true)
    (two : (digits.all fun c => digits.all fun d => P [c, d]) = true) (h : isByte s = true) :
    P s = true := by
  have hdigits := mem_digits_of_isByte h
  rcases length_of_isByte h with hlen | hlen
  · obtain ⟨c, rfl⟩ := length_eq_one_iff.mp hlen
    exact all_eq_true.mp one c (hdigits c mem_cons_self)
  · obtain ⟨c, d, rfl⟩ := length_eq_two.mp hlen
    have hc := all_eq_true.mp two c (hdigits c mem_cons_self)
    exact all_eq_true.mp hc d (hdigits d (by simp))

lemma value_lt (h : isByte s = true) : value s < 256 :=
  of_decide_eq_true (of_isByte (P := fun s => value s < 256) (by decide +kernel) (by decide +kernel) h)

lemma hex02_value (h : isByte s = true) : hex02 (value s) = twoDigits s :=
  of_decide_eq_true (of_isByte (P := fun s => hex02 (value s) = twoDigits s) (by decide +kernel)
    (by decide +kernel) h)

lemma value_twoDigits (h : isByte s = true) : value (twoDigits s) = value s :=
  of_decide_eq_true (of_isByte (P := fun s => value (twoDigits s) = value s) (by decide +kernel)
    (by decide +kernel) h)

lemma length_twoDigits (h : isByte s = true) : (twoDigits s).length = 2 := by
  rw [twoDigits, length_append, length_replicate, length_map]
  rcases length_of_isByte h with hlen | hlen <;> omega

lemma colon_notMem_twoDigits (h : isByte s = true) : ':' ∉ twoDigits s :=
  of_decide_eq_true (of_isByte (P := fun s => ':' ∉ twoDigits s) (by decide +kernel)
    (by decide +kernel) h)

lemma mapM_eq_some {α β : Type} {f : α → Option β} {g : α → β} {l : List α}
    (h : ∀ a ∈ l, f a = some (g a)) : l.mapM f = some (l.map g) := by
  induction l with
  | nil => rfl
  | cons a l ih =>
    rw [mapM_cons, h a mem_cons_self, ih fun b hb => h b (mem_cons_of_mem _ hb)]
    rfl

lemma mapM_eq_some_iff {α β γ : Type} {f : α → Option β} {p : α → γ → Prop} {v : γ → β}
    (hf : ∀ a b, f a = some b ↔ ∃ c, p a c ∧ b = v c) {l : List α} {bs : List β} :
    l.mapM f = some bs ↔ ∃ cs, Forall₂ p l cs ∧ bs = cs.map v := by
  induction l generalizing bs with
  | nil => simp [eq_comm]
  | cons a l ih =>
    simp only [mapM_cons, Option.bind_eq_bind, Option.bind_eq_some_iff, hf, ih, forall₂_cons_left_iff]
    constructor
    · rintro ⟨_, ⟨c, hc, rfl⟩, _, ⟨cs, hcs, rfl⟩, hbs⟩
      exact ⟨c :: cs, ⟨c, cs, hc, hcs, rfl⟩, (Option.some.inj hbs).symm⟩
    · rintro ⟨_, ⟨c, cs, hc, hcs, rfl⟩, rfl⟩
      exact ⟨_, ⟨c, hc, rfl⟩, _, ⟨cs, hcs, rfl⟩, rfl⟩

/-! ## Numerals -/

/-- A numeral as `int(s, 16)` takes it: blanks around it, a sign, the prefix `0x` with an underscore
behind it or without, and digits with single underscores between them. -/
structure Numeral where
  before : Text
  sign : Text
  base : Text
  groups : List Text
  after : Text
  before_blank : ∀ c ∈ before, Text.isSpace c = true
  sign_mem : sign ∈ [[], ['+'], ['-']]
  base_mem : base ∈ [[], ['0', 'x'], ['0', 'X'], ['0', 'x', '_'], ['0', 'X', '_']]
  groups_ne : groups ≠ []
  groups_digits : ∀ g ∈ groups, g ≠ [] ∧ ∀ c ∈ g, c ∈ digits
  after_blank : ∀ c ∈ after, Text.isSpace c = true

namespace Numeral

variable (n : Numeral)

/-- The numeral between the blanks. -/
def core : Text := n.sign ++ (n.base ++ ['_'].intercalate n.groups)

def text : Text := n.before ++ (n.core ++ n.after)

def value : ℤ := (if n.sign = ['-'] then -1 else 1) * (Hex.value n.groups.flatten : ℤ)

end Numeral

lemma mem_digits_iff {c : Char} : Text.isDigitIn 16 c = true ↔ c ∈ digits := by
  have hall : ∀ n < 128, Text.isDigitIn 16 (Char.ofNat n) = decide (Char.ofNat n ∈ digits) := by
    decide +kernel
  by_cases hlt : c.toNat < 128
  · rw [← Char.ofNat_toNat c, hall _ hlt, decide_eq_true_iff]
  · have hdigit : c.isDigit = false := by
      simp [Char.isDigit, UInt32.le_iff_toNat_le]
      intro _
      omega
    have halpha : c.isAlpha = false := by
      delta Char.isAlpha Char.isUpper Char.isLower
      simp [UInt32.le_iff_toNat_le]
      omega
    have hout : c ∉ digits := by
      intro hmem
      have hsmall : ∀ d ∈ digits, d.toNat < 128 := forall_iff_forall_mem.mp (by decide +kernel)
      exact hlt (hsmall c hmem)
    simp [Text.isDigitIn, Text.digit, hdigit, halpha, hout]

/-- Characters of a numeral that are no digits of it. -/
lemma not_mem_digits : ∀ c ∈ ['+', '-', 'x', 'X', '_'], c ∉ digits :=
  forall_iff_forall_mem.mp (by decide +kernel)

lemma natOfText_eq_some {t : Text} {m : ℕ} : Unicode.natOfText 16 t = some m ↔
    ∃ gs : List Text, gs ≠ [] ∧ (∀ g ∈ gs, g ≠ [] ∧ ∀ c ∈ g, c ∈ digits) ∧
      t = ['_'].intercalate gs ∧ m = value gs.flatten := by
  have hnat : Unicode.natOfText 16 t = some m ↔
      (∀ g ∈ t.splitOn '_', g ≠ [] ∧ ∀ c ∈ g, c ∈ digits) ∧ m = value (t.splitOn '_').flatten := by
    simp only [Unicode.natOfText]
    generalize t.splitOn '_' = gs
    have hbad : (gs.any (·.isEmpty) || !gs.flatten.all (Text.isDigitIn 16)) = true ↔
        ¬∀ g ∈ gs, g ≠ [] ∧ ∀ c ∈ g, c ∈ digits := by
      simp only [← mem_digits_iff, ← Bool.not_eq_false, not_iff_not]
      simp [forall_and]
    rw [show decide (16 = 10) = false from rfl, Bool.false_and, Bool.or_false]
    by_cases hgroups : ∀ g ∈ gs, g ≠ [] ∧ ∀ c ∈ g, c ∈ digits
    · rw [if_neg (mt hbad.mp (not_not.mpr hgroups)), Option.some.injEq, eq_comm]
      exact (and_iff_right hgroups).symm
    · rw [if_pos (hbad.mpr hgroups)]
      exact iff_of_false nofun fun h => hgroups h.1
  rw [hnat]
  constructor
  · rintro ⟨hgroups, rfl⟩
    exact ⟨t.splitOn '_', splitOn_ne_nil _ _, hgroups, (intercalate_splitOn '_').symm, rfl⟩
  · rintro ⟨gs, hne, hgroups, rfl, rfl⟩
    have hsplit : (['_'].intercalate gs).splitOn '_' = gs :=
      splitOn_intercalate '_' (fun g hg hmem => not_mem_digits '_' (by simp) ((hgroups g hg).2 _ hmem)) hne
    rw [hsplit]
    exact ⟨hgroups, rfl⟩

lemma strip_append {before core after : Text} (hbefore : ∀ c ∈ before, Text.isSpace c = true)
    (hne : core ≠ []) (hcore : ∀ c ∈ core, Text.isSpace c = false)
    (hafter : ∀ c ∈ after, Text.isSpace c = true) : ascii.strip (before ++ (core ++ after)) = core := by
  have hstart : ∀ {l : Text} (r : Text), l ≠ [] → (∀ c ∈ l, Text.isSpace c = false) →
      (l ++ r).dropWhile Text.isSpace = l ++ r := by
    intro l r hl hblank
    obtain ⟨c, l, rfl⟩ := exists_cons_of_ne_nil hl
    simp [hblank c mem_cons_self]
  have hspace : ascii.isSpace = Text.isSpace := rfl
  rw [Unicode.strip, hspace, dropWhile_append_of_pos hbefore, hstart after hne hcore, reverse_append,
    dropWhile_append_of_pos (fun c hc => hafter c (mem_reverse.mp hc)), ← append_nil core.reverse,
    hstart [] (by simpa using hne) (fun c hc => hcore c (mem_reverse.mp hc)), append_nil, reverse_reverse]

lemma exists_strip (t : Text) : ∃ before after : Text, t = before ++ (ascii.strip t ++ after) ∧
    (∀ c ∈ before, Text.isSpace c = true) ∧ ∀ c ∈ after, Text.isSpace c = true := by
  set r := (t.dropWhile ascii.isSpace).reverse with hr
  refine ⟨t.takeWhile ascii.isSpace, (r.takeWhile ascii.isSpace).reverse, ?_, ?_, ?_⟩
  · rw [Unicode.strip, ← reverse_append, takeWhile_append_dropWhile, reverse_reverse,
      takeWhile_append_dropWhile]
  · exact fun c hc => mem_takeWhile_imp hc
  · exact fun c hc => mem_takeWhile_imp (mem_reverse.mp hc)

lemma exists_signOf (t : Text) : ∃ sign ∈ [[], ['+'], ['-']], t = sign ++ (Text.signOf t).2 ∧
    (Text.signOf t).1 = if sign = ['-'] then -1 else 1 := by
  unfold Text.signOf
  split
  · exact ⟨['-'], by simp, rfl, rfl⟩
  · exact ⟨['+'], by simp, rfl, rfl⟩
  · exact ⟨[], by simp, rfl, rfl⟩

lemma exists_dropBase (t : Text) :
    ∃ base ∈ [[], ['0', 'x'], ['0', 'X'], ['0', 'x', '_'], ['0', 'X', '_']],
      t = base ++ Unicode.dropBase 16 t := by
  unfold Unicode.dropBase
  split
  · split_ifs with hx
    · rcases hx with ⟨-, rfl | rfl⟩ <;> split
      · exact ⟨['0', 'x', '_'], by simp, rfl⟩
      · exact ⟨['0', 'x'], by simp, rfl⟩
      · exact ⟨['0', 'X', '_'], by simp, rfl⟩
      · exact ⟨['0', 'X'], by simp, rfl⟩
    · exact ⟨[], by simp, rfl⟩
  · exact ⟨[], by simp, rfl⟩

namespace Numeral

variable (n : Numeral)

lemma mem_intercalate {gs : List Text} {d : Char} (h : d ∈ ['_'].intercalate gs) :
    d = '_' ∨ ∃ g ∈ gs, d ∈ g := by
  induction gs with
  | nil => cases h
  | cons g gs ih =>
    cases gs with
    | nil => exact Or.inr ⟨g, mem_cons_self, by simpa [intercalate] using h⟩
    | cons g' gs =>
      have hcons : ['_'].intercalate (g :: g' :: gs) = g ++ '_' :: ['_'].intercalate (g' :: gs) := rfl
      rw [hcons, mem_append, mem_cons] at h
      rcases h with h | rfl | h
      · exact Or.inr ⟨g, mem_cons_self, h⟩
      · exact Or.inl rfl
      · refine (ih h).imp_right fun hex => ?_
        obtain ⟨l, hl, hd⟩ := hex
        exact ⟨l, mem_cons_of_mem g hl, hd⟩

/-- The digits start with one, and there is no other prefix in them. -/
lemma exists_cons : ∃ c rest, ['_'].intercalate n.groups = c :: rest ∧ c ∈ digits ∧
    ∀ d ∈ rest, d ∈ digits ∨ d = '_' := by
  obtain ⟨g, gs, hgs⟩ := exists_cons_of_ne_nil n.groups_ne
  have hmem : ∀ d ∈ ['_'].intercalate n.groups, d ∈ digits ∨ d = '_' := by
    intro d hd
    rcases mem_intercalate hd with rfl | ⟨l, hl, hd⟩
    · exact Or.inr rfl
    · exact Or.inl ((n.groups_digits l hl).2 d hd)
  obtain ⟨hne, hdigits⟩ := n.groups_digits g (by simp [hgs])
  obtain ⟨c, g, rfl⟩ := exists_cons_of_ne_nil hne
  obtain ⟨rest, hrest⟩ : ∃ rest, ['_'].intercalate n.groups = c :: rest := by
    rw [hgs]
    cases gs with
    | nil => exact ⟨g, by simp [intercalate]⟩
    | cons g' gs => exact ⟨_, rfl⟩
  refine ⟨c, rest, hrest, hdigits c mem_cons_self, fun d hd => hmem d ?_⟩
  rw [hrest]
  exact mem_cons_of_mem c hd

lemma signOf_core : Text.signOf n.core
    = (if n.sign = ['-'] then -1 else 1, n.base ++ ['_'].intercalate n.groups) := by
  obtain ⟨c, rest, hcons, hc, -⟩ := n.exists_cons
  have hstart : ∃ d t, n.base ++ ['_'].intercalate n.groups = d :: t ∧ d ∈ digits := by
    have hbase := n.base_mem
    simp only [mem_cons, not_mem_nil, or_false] at hbase
    rcases hbase with h | h | h | h | h <;> rw [h, hcons]
    · exact ⟨c, rest, rfl, hc⟩
    all_goals exact ⟨'0', _, rfl, by decide +kernel⟩
  obtain ⟨d, t, hd, hdigit⟩ := hstart
  have hsign := n.sign_mem
  simp only [mem_cons, not_mem_nil, or_false] at hsign
  rcases hsign with h | h | h <;> rw [core, h]
  · rw [hd, Text.signOf]
    · simp
    · intro _ heq
      exact not_mem_digits '-' (by simp) ((cons.inj heq).1 ▸ hdigit)
    · intro _ heq
      exact not_mem_digits '+' (by simp) ((cons.inj heq).1 ▸ hdigit)
  · rfl
  · rfl

lemma dropBase_groups :
    Unicode.dropBase 16 (n.base ++ ['_'].intercalate n.groups) = ['_'].intercalate n.groups := by
  obtain ⟨c, rest, hcons, hc, hrest⟩ := n.exists_cons
  have hunderscore : c ≠ '_' := fun h => not_mem_digits '_' (by simp) (h ▸ hc)
  have hbase := n.base_mem
  simp only [mem_cons, not_mem_nil, or_false] at hbase
  rcases hbase with h | h | h | h | h <;> rw [h, hcons]
  · rw [nil_append, Unicode.dropBase.eq_def]
    split
    · rename_i x rest' heq
      rw [heq, if_neg]
      rintro ⟨-, hx⟩
      rcases hrest x (by simp [(cons.inj heq).2]) with hdigit | rfl
      · rcases hx with rfl | rfl
        · exact not_mem_digits 'x' (by simp) hdigit
        · exact not_mem_digits 'X' (by simp) hdigit
      · rcases hx with hx | hx <;> exact absurd hx (by decide)
    · rfl
  all_goals simp [Unicode.dropBase, hunderscore]

lemma core_ne_nil : n.core ≠ [] := by
  obtain ⟨c, rest, hcons, -⟩ := n.exists_cons
  simp [core, hcons]

lemma not_blank_core : ∀ c ∈ n.core, Text.isSpace c = false := by
  have hfront : ∀ {ls : List Text}, (ls.Forall fun l => l.Forall fun c => Text.isSpace c = false) →
      ∀ l ∈ ls, ∀ c ∈ l, Text.isSpace c = false := fun h l hl =>
    forall_iff_forall_mem.mp (forall_iff_forall_mem.mp h l hl)
  have hdigits : ∀ c ∈ digits, Text.isSpace c = false := forall_iff_forall_mem.mp (by decide +kernel)
  intro c hc
  rw [core, mem_append, mem_append] at hc
  rcases hc with hc | hc | hc
  · exact hfront (by decide +kernel) _ n.sign_mem c hc
  · exact hfront (by decide +kernel) _ n.base_mem c hc
  · rcases mem_intercalate hc with rfl | ⟨g, hg, hc⟩
    · decide
    · exact hdigits c ((n.groups_digits g hg).2 c hc)

end Numeral

/-- **What `int(s, 16)` reads.** -/
theorem intOfText_eq_some {u : Unicode} {s : Text} {v : ℤ} : u.intOfText 16 s = some v ↔
    ∃ n : Numeral, s.map u.asciiChar = n.text ∧ v = n.value := by
  simp only [Unicode.intOfText, Option.map_eq_some_iff, natOfText_eq_some]
  constructor
  · rintro ⟨m, ⟨gs, hne, hgroups, hbody, rfl⟩, rfl⟩
    obtain ⟨before, after, htext, hbefore, hafter⟩ := exists_strip (s.map u.asciiChar)
    obtain ⟨sign, hsign, hcore, hvalue⟩ := exists_signOf (ascii.strip (s.map u.asciiChar))
    obtain ⟨base, hbase, hdrop⟩ := exists_dropBase
      (Text.signOf (ascii.strip (s.map u.asciiChar))).2
    refine ⟨⟨before, sign, base, gs, after, hbefore, hsign, hbase, hne, hgroups, hafter⟩, ?_, ?_⟩
    · rw [Numeral.text, Numeral.core, ← hbody, ← hdrop, ← hcore, ← htext]
    · rw [hvalue, Numeral.value]
  · rintro ⟨n, htext, rfl⟩
    rw [htext, Numeral.text, strip_append n.before_blank n.core_ne_nil n.not_blank_core n.after_blank,
      n.signOf_core]
    exact ⟨_, ⟨n.groups, n.groups_ne, n.groups_digits, n.dropBase_groups, rfl⟩, rfl⟩

lemma map_asciiChar {u : Unicode} (h : ∀ c ∈ s, c ∈ digits) : s.map u.asciiChar = s := by
  have hsmall : ∀ c ∈ digits, c.toNat < 127 := forall_iff_forall_mem.mp (by decide +kernel)
  exact (map_congr_left fun c hc => if_pos (hsmall c (h c hc))).trans s.map_id

/-- **What `int` makes of a byte.** -/
lemma intOfText_byte {u : Unicode} (h : isByte s = true) : u.intOfText 16 s = some (value s : ℤ) := by
  have hdigits := mem_digits_of_isByte h
  have hne : s ≠ [] := by
    rintro rfl
    exact absurd h (by decide)
  refine intOfText_eq_some.mpr ⟨⟨[], [], [], [s], [], by simp, by simp, by simp, by simp, ?_, by simp⟩,
    ?_, ?_⟩
  · simpa using ⟨hne, hdigits⟩
  · rw [map_asciiChar hdigits]
    simp [Numeral.text, Numeral.core, intercalate]
  · simp [Numeral.value]

end FreeSense.Hex
