import Mathlib.Data.Int.Basic
import Mathlib.Data.List.Basic
import Mathlib.Algebra.Ring.Int.Defs
import Mathlib.Algebra.Ring.Nat
import Mathlib.Data.List.TakeWhile

/-!
# Strings of the C library

A string is the list of its characters, without the terminator.  The sources look only at ASCII, so
a character stands for a byte.  `strtol` is read with base `0`, the only base it is called with.
-/

namespace FreeSense

open List

abbrev Text := List Char

/-- Named, so that the membership tests of all developments share one proof. -/
instance instLawfulBEqText : LawfulBEq Text := List.instLawfulBEq

namespace Text

def isSpace (c : Char) : Bool := c = ' ' ∨ 9 ≤ c.toNat ∧ c.toNat ≤ 13

/-- `strcasecmp(s, t) == 0`. -/
def eqIgnoreCase (s t : Text) : Bool := s.map Char.toLower = t.map Char.toLower

/-- The value of a digit, in any base up to 36. -/
def digit (c : Char) : ℕ :=
  if c.isDigit then c.toNat - '0'.toNat
  else if c.isAlpha then c.toLower.toNat - 'a'.toNat + 10
  else 36

def isDigitIn (base : ℕ) (c : Char) : Bool := digit c < base

def number (base : ℕ) (ds : Text) : ℕ := ds.foldl (fun n c => n * base + digit c) 0

/-- The base a numeral announces, and the numeral without the announcement of base 16.  `0x` counts
only in front of a digit. -/
def baseOf : Text → ℕ × Text
  | '0' :: x :: d :: rest =>
    if x.toLower = 'x' ∧ isDigitIn 16 d then (16, d :: rest) else (8, '0' :: x :: d :: rest)
  | '0' :: rest => (8, '0' :: rest)
  | s => (10, s)

/-- The sign of a numeral, and the numeral without it. -/
def signOf : Text → ℤ × Text
  | '-' :: rest => (-1, rest)
  | '+' :: rest => (1, rest)
  | s => (1, s)

/-- `strtol(s, &q, 0)`: the value, cut to a `long`, and what `q` points to. -/
def strtol (s : Text) : ℤ × Text :=
  let (sign, t) := signOf (s.dropWhile isSpace)
  let (base, t) := baseOf t
  let ds := t.takeWhile (isDigitIn base)
  if ds = [] then (0, s)
  else (max (-2 ^ 63) (min (2 ^ 63 - 1) (sign * number base ds)), t.drop ds.length)

def toInt (v : ℤ) : ℤ := Int.bmod v (2 ^ 32)

/-- The number a text spells for `strtol`, if it is one from its start to its end, before it is cut
to a `long`. -/
def written (s : Text) : Option ℤ :=
  let (sign, t) := signOf (s.dropWhile isSpace)
  let (base, t) := baseOf t
  if t ≠ [] ∧ t.takeWhile (isDigitIn base) = t then some (sign * number base t) else none

example : strtol "24".toList = (24, []) := by decide +kernel
example : strtol " -0x1fz".toList = (-31, ['z']) := by decide +kernel
example : toInt (strtol "4294967320".toList).1 = 24 := by decide +kernel

/-- **A text `strtol` reads to its end** is a number, and its value that number cut to a `long`. -/
lemma strtol_eq_nil {s : Text} {v : ℤ} : strtol s = (v, []) ∧ s ≠ [] ↔
    ∃ n, written s = some n ∧ v = max (-2 ^ 63) (min (2 ^ 63 - 1) n) := by
  by_cases hs : s = []
  · subst hs
    simp [written, signOf, baseOf]
  · unfold strtol written
    generalize signOf (s.dropWhile isSpace) = signed
    simp only
    generalize baseOf signed.2 = based
    obtain ⟨base, t⟩ := based
    by_cases hds : t.takeWhile (isDigitIn base) = []
    · have hnone : ¬(t ≠ [] ∧ t.takeWhile (isDigitIn base) = t) := by
        rintro ⟨hne, heq⟩
        exact hne (heq.symm.trans hds)
      rw [if_pos hds, if_neg hnone]
      simp [hs]
    · have hdrop : t.drop (t.takeWhile (isDigitIn base)).length = [] ↔
          t.takeWhile (isDigitIn base) = t := by
        rw [drop_eq_nil_iff]
        exact ⟨fun hle => (List.takeWhile_prefix _).eq_of_length_le hle, fun heq => by rw [heq]⟩
      have hne : t ≠ [] := by
        rintro rfl
        exact hds rfl
      rw [if_neg hds, Prod.mk.injEq, hdrop]
      by_cases heq : t.takeWhile (isDigitIn base) = t
      · simp [hs, hne, heq, eq_comm]
      · simp [heq]

end Text

/-! ## Pieces -/

section Pieces

variable {α : Type*} (p : α → Bool)

lemma exists_piece (xs : List α) : (∀ x ∈ xs, p x = false) ∨
    ∃ piece sep rest, (∀ x ∈ piece, p x = false) ∧ p sep = true ∧ xs = piece ++ sep :: rest := by
  induction xs with
  | nil => exact .inl fun x hx => absurd hx not_mem_nil
  | cons x xs ih =>
    cases hx : p x with
    | true => exact .inr ⟨[], x, xs, fun y hy => absurd hy not_mem_nil, hx, rfl⟩
    | false =>
      rcases ih with hall | ⟨piece, sep, rest, hpiece, hsep, rfl⟩
      · exact .inl (forall_mem_cons.mpr ⟨hx, hall⟩)
      · exact .inr ⟨x :: piece, sep, rest, forall_mem_cons.mpr ⟨hx, hpiece⟩, hsep, rfl⟩

@[elab_as_elim]
lemma pieces_induction {P : List α → Prop} (last : ∀ piece, (∀ x ∈ piece, p x = false) → P piece)
    (step : ∀ piece sep rest, (∀ x ∈ piece, p x = false) → p sep = true → P rest →
      P (piece ++ sep :: rest)) (xs : List α) : P xs := by
  induction hn : xs.length using Nat.strong_induction_on generalizing xs with
  | _ n ih =>
    rcases exists_piece p xs with hall | ⟨piece, sep, rest, hpiece, hsep, rfl⟩
    · exact last xs hall
    · refine step piece sep rest hpiece hsep (ih rest.length ?_ rest rfl)
      rw [← hn, length_append, length_cons]
      omega

end Pieces

/-! ## Bytes -/

/-- A buffer as a string: up to its first NUL. -/
def cstr (buf : List UInt8) : List UInt8 := buf.takeWhile (· ≠ 0)

lemma cstr_eq {buf : List UInt8} (h : 0 ∉ buf) : cstr buf = buf := by
  rw [cstr, takeWhile_eq_self_iff]
  exact fun b hb => decide_eq_true fun heq => h (heq ▸ hb)

/-- The bytes a text stands for. -/
def Text.bytes (s : Text) : List UInt8 := s.map fun c => UInt8.ofNat c.toNat

def Text.ofBytes (bs : List UInt8) : Text := bs.map fun b => Char.ofNat b.toNat

lemma Text.bytes_ofBytes (bs : List UInt8) : (Text.ofBytes bs).bytes = bs := by
  simp only [Text.bytes, Text.ofBytes, map_map]
  refine (map_congr_left fun b _ => ?_).trans bs.map_id
  have hvalid : b.toNat.isValidChar := Or.inl (by have := b.toNat_lt; omega)
  have hchar : (Char.ofNat b.toNat).toNat = b.toNat := by
    rw [Char.ofNat, dif_pos hvalid]
    rfl
  rw [Function.comp_apply, hchar, UInt8.ofNat_toNat, id_eq]

end FreeSense
