import Mathlib.Data.Nat.Digits.Lemmas
import FreeSensePorts.Core.Printer

/-!
# Lines of fields

A line is split at its commas.  A number in decimal has none, and the number can be read off its
text.
-/

namespace FreeSense

open List

/-- The fields of a line. -/
def fields (line : Text) : List Text := line.splitOnP fun c => c = ','

variable {field : Text} {n k : ℕ} {c : Char}

theorem fields_cons (h : ',' ∉ field) (rest : Text) :
    fields (field ++ ',' :: rest) = field :: fields rest := by
  refine splitOnP_append_cons_of_forall_mem (fun c hc => ?_) ',' (by simp) rest
  have hne : c ≠ ',' := by
    rintro rfl
    exact h hc
  simpa using hne

theorem fields_last (h : ',' ∉ field) : fields field = [field] := by
  refine splitOnP_eq_singleton fun c hc => ?_
  have hne : c ≠ ',' := by
    rintro rfl
    exact h hc
  simpa using hne

/-- Fields with a comma behind each. -/
def row (fs : List Text) : Text := fs.flatMap fun f => f ++ ",".toList

lemma row_append (fs gs : List Text) : row (fs ++ gs) = row fs ++ row gs := by
  rw [row, flatMap_append, row, row]

theorem fields_row {fs : List Text} (h : ∀ f ∈ fs, ',' ∉ f) (rest : Text) :
    fields (row fs ++ rest) = fs ++ fields rest := by
  induction fs with
  | nil => rfl
  | cons f fs ih =>
    have hline : row (f :: fs) ++ rest = f ++ ',' :: (row fs ++ rest) := by
      simp [row]
    rw [hline, fields_cons (h f mem_cons_self), ih fun g hg => h g (mem_cons_of_mem f hg),
      cons_append]

/-! ## Numbers -/

theorem unsigned_eq (n : ℕ) : unsigned n = Nat.toDigits 10 n := by
  rw [unsigned, Nat.toString_eq_ofList_toDigits, String.toList_ofList]

theorem unsigned_injective {m : ℕ} (h : unsigned m = unsigned n) : m = n := by
  rw [unsigned_eq, unsigned_eq] at h
  rw [← @Nat.ofDigitChars_ten_toDigits m, h, Nat.ofDigitChars_ten_toDigits]

theorem isDigit_of_mem_unsigned (h : c ∈ unsigned n) : c.isDigit = true := by
  rw [unsigned_eq] at h
  exact Nat.isDigit_of_mem_toDigits (by decide) (by decide) h

theorem not_mem_unsigned (hc : c.isDigit = false) : c ∉ unsigned n := by
  intro h
  rw [isDigit_of_mem_unsigned h] at hc
  cases hc

theorem unsigned_ne_nil (n : ℕ) : unsigned n ≠ [] := by
  rw [unsigned_eq]
  exact Nat.toDigits_ne_nil

theorem length_unsigned_le (hk : 0 < k) (hn : n < 10 ^ k) : (unsigned n).length ≤ k := by
  rw [unsigned_eq]
  exact (Nat.length_toDigits_le_iff (by decide) hk).2 hn

theorem length_padded (hk : 0 < k) (hn : n < 10 ^ k) : (padded k n).length = k := by
  have hle := length_unsigned_le hk hn
  rw [padded, length_append, length_replicate]
  omega

theorem not_mem_padded (hc : c.isDigit = false) : c ∉ padded k n := by
  intro h
  rcases mem_append.1 h with h | h
  · rw [eq_of_mem_replicate h] at hc
    exact absurd hc (by decide)
  · exact not_mem_unsigned hc h

/-- The characters of a number in base `b`. -/
theorem exists_digitChar_of_mem_toDigits {b : ℕ} (hb : 1 < b) (h : c ∈ Nat.toDigits b n) :
    ∃ d < b, c = Nat.digitChar d := by
  induction n using Nat.strongRecOn with
  | ind n ih =>
    rw [Nat.toDigits_eq_if hb] at h
    by_cases hn : n < b
    · rw [if_pos hn, mem_singleton] at h
      exact ⟨n, hn, h⟩
    · rw [if_neg hn, mem_append, mem_singleton] at h
      rcases h with h | h
      · exact ih (n / b) (Nat.div_lt_self (by omega) hb) h
      · exact ⟨n % b, Nat.mod_lt n (by omega), h⟩

end FreeSense
