import Mathlib.Data.List.Basic
import Mathlib.Tactic

/-!
# Receiving from a stream

A stream socket keeps the order of what is sent and not its pieces.  A way to cut a stream is the list
of its chunks, and a receive that asks for `n` takes from the first chunk only, at most `n`.  An empty
chunk is a receive that fails for the moment; after the last chunk the stream is closed.

`recv_spec` is all that the readers need to know of a receive.  `after n` is what is left once `n`
elements were received, and `Whole n` says that the next `n` are in one chunk.
-/

namespace FreeSense.Chunks

open List

variable {β : Type*}

/-- A receive of at most `n` elements, and the chunks that are left.  `none` is the end of the
stream. -/
def recv (n : ℕ) : List (List β) → Option (List β) × List (List β)
  | [] => (none, [])
  | c :: cs => (some (c.take n), if c.length ≤ n then cs else c.drop n :: cs)

/-- The chunks behind the next `n` elements. -/
def after : ℕ → List (List β) → List (List β)
  | _, [] => []
  | n, c :: cs => if n < c.length then c.drop n :: cs else after (n - c.length) cs

/-- The next `n` elements are in one chunk. -/
def Whole (n : ℕ) (cs : List (List β)) : Prop := n ≤ (cs.headD []).length

instance (n : ℕ) (cs : List (List β)) : Decidable (Whole n cs) :=
  inferInstanceAs (Decidable (n ≤ _))

/-- No receive fails for the moment. -/
def Flowing (cs : List (List β)) : Prop := ∀ c ∈ cs, c ≠ []

variable {c : List β} {cs : List (List β)} {n : ℕ}

lemma Flowing.singleton (hc : c ≠ []) : Flowing [c] :=
  fun _ hd => mem_singleton.mp hd ▸ hc

lemma flatten_after (n : ℕ) (cs : List (List β)) : (after n cs).flatten = cs.flatten.drop n := by
  induction cs generalizing n with
  | nil => simp [after]
  | cons c cs ih =>
    rw [after, flatten_cons, drop_append]
    split_ifs with hn
    · rw [flatten_cons, Nat.sub_eq_zero_of_le hn.le, drop_zero]
    · rw [ih, drop_eq_nil_of_le (not_lt.mp hn), nil_append]

lemma after_after (m n : ℕ) (cs : List (List β)) : after m (after n cs) = after (n + m) cs := by
  induction cs generalizing n with
  | nil => simp [after]
  | cons c cs ih =>
    by_cases hn : n < c.length
    · rw [after, if_pos hn, after, after, length_drop, drop_drop]
      by_cases hm : n + m < c.length
      · rw [if_pos (by omega), if_pos hm]
      · have hrest : m - (c.length - n) = n + m - c.length := by omega
        rw [if_neg (by omega), if_neg hm, hrest]
    · rw [after, if_neg hn, ih, after, if_neg (by omega), Nat.sub_add_comm (not_lt.mp hn)]

lemma Flowing.after (h : Flowing cs) (n : ℕ) : Flowing (after n cs) := by
  induction cs generalizing n with
  | nil => exact h
  | cons c cs ih =>
    have htail : Flowing cs := fun d hd => h d (mem_cons_of_mem _ hd)
    rw [Chunks.after]
    split_ifs with hn
    · intro d hd
      rcases mem_cons.mp hd with rfl | hd
      · exact fun hnil => absurd (drop_eq_nil_iff.mp hnil) (not_le.mpr hn)
      · exact htail d hd
    · exact ih htail _

lemma Flowing.after_zero (h : Flowing cs) : Chunks.after 0 cs = cs := by
  cases cs with
  | nil => rfl
  | cons c cs =>
    rw [Chunks.after, if_pos (length_pos_of_ne_nil (h c mem_cons_self)), drop_zero]

lemma whole_after (cs : List (List β)) {m : ℕ} (h : m + n ≤ c.length) :
    Whole n (after m (c :: cs)) := by
  rw [after]
  split_ifs
  · rw [Whole, headD_cons, length_drop]
    omega
  · obtain rfl : n = 0 := by omega
    exact Nat.zero_le _

lemma ne_nil_of_flatten (h : 0 < cs.flatten.length) : cs ≠ [] := by
  rintro rfl
  simp at h

/-- **A receive** gets at least one element and at most `n`, and all `n` exactly if they are in one
chunk. -/
theorem recv_spec (h : Flowing cs) (hn : 0 < n) (hcs : cs ≠ []) :
    ∃ k, 0 < k ∧ k ≤ n ∧ k ≤ cs.flatten.length ∧ (k = n ↔ Whole n cs) ∧
      recv n cs = (some (cs.flatten.take k), after k cs) := by
  obtain ⟨c, cs, rfl⟩ := exists_cons_of_ne_nil hcs
  have hc : 0 < c.length := length_pos_of_ne_nil (h c mem_cons_self)
  have htail : Flowing cs := fun d hd => h d (mem_cons_of_mem _ hd)
  refine ⟨min n c.length, by omega, min_le_left _ _, ?_, ?_, ?_⟩
  · rw [flatten_cons, length_append]
    omega
  · rw [Whole, headD_cons]
    omega
  · have htake : (c :: cs).flatten.take (min n c.length) = c.take n := by
      rw [flatten_cons, take_append_of_le_length (min_le_right _ _), ← take_take,
        take_length]
    rw [recv, htake, after]
    by_cases hle : c.length ≤ n
    · rw [if_pos hle, min_eq_right hle, if_neg (lt_irrefl _), Nat.sub_self, htail.after_zero]
    · rw [if_neg hle, min_eq_left (by omega), if_pos (by omega)]

end FreeSense.Chunks
