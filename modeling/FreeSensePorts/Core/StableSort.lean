import Mathlib.Data.List.Sort
import Mathlib.Order.Basic

/-!
# Stable sorting by a key

What it means that one list is another one sorted by a key, with elements of equal key in their old
order, and that merging keeps it.  In a sorted list the elements of one key stand together, so they
are found by going to the first of them and stopping at the first that differs.
-/

namespace FreeSense

open List

variable {α κ : Type} [LinearOrder κ] [DecidableEq κ] {key : α → κ}

def keyLe (key : α → κ) (a b : α) : Bool := key a ≤ key b

structure StableSort (key : α → κ) (l s : List α) : Prop where
  perm : s.Perm l
  sorted : s.Pairwise fun a b => key a ≤ key b
  stable : ∀ k, (s.filter fun a => key a = k) = l.filter fun a => key a = k

theorem StableSort.self_of_length_le {l : List α} (hl : l.length ≤ 1) : StableSort key l l := by
  refine ⟨.refl l, ?_, fun _ => rfl⟩
  match l, hl with
  | [], _ => exact List.Pairwise.nil
  | [a], _ => exact pairwise_singleton _ _

/-- A merge takes the elements of one key from the first list before those of the second. -/
theorem filter_merge (k : κ) {l r : List α} (hl : l.Pairwise fun a b => key a ≤ key b) :
    ((l.merge r (keyLe key)).filter fun a => key a = k) =
      (l.filter fun a => key a = k) ++ r.filter fun a => key a = k := by
  induction l generalizing r with
  | nil => rw [nil_merge, filter_nil, nil_append]
  | cons a l ihl =>
    induction r with
    | nil => rw [merge_right, filter_nil, append_nil]
    | cons b r ihr =>
      rw [cons_merge_cons]
      by_cases hab : key a ≤ key b
      · rw [if_pos (by simpa [keyLe] using hab)]
        by_cases ha : key a = k
        · rw [filter_cons_of_pos (by simpa using ha),
            filter_cons_of_pos (by simpa using ha), ihl hl.of_cons, cons_append]
        · rw [filter_cons_of_neg (by simpa using ha),
            filter_cons_of_neg (by simpa using ha), ihl hl.of_cons]
      · rw [if_neg (by simpa [keyLe] using hab)]
        by_cases hb : key b = k
        · -- everything in the first list is behind this key
          have hnone : ((a :: l).filter fun a => key a = k) = [] := by
            refine filter_eq_nil_iff.2 fun c hc => ?_
            have hac : key a ≤ key c := by
              rcases mem_cons.1 hc with rfl | hc
              · exact le_rfl
              · exact rel_of_pairwise_cons hl hc
            simpa using (hb ▸ (not_le.1 hab).trans_le hac).ne'
          have hpos (l : List α) : ((b :: l).filter fun a => key a = k) =
              b :: l.filter fun a => key a = k := filter_cons_of_pos (by simpa using hb)
          rw [hnone, nil_append, hpos, hpos, ihr, hnone, nil_append]
        · have hneg (l : List α) : ((b :: l).filter fun a => key a = k) =
              l.filter fun a => key a = k := filter_cons_of_neg (by simpa using hb)
          rw [hneg, ihr, hneg]

theorem StableSort.merge {l₁ l₂ s₁ s₂ : List α} (h₁ : StableSort key l₁ s₁)
    (h₂ : StableSort key l₂ s₂) : StableSort key (l₁ ++ l₂) (s₁.merge s₂ (keyLe key)) where
  perm := (merge_perm_append _).trans (h₁.perm.append h₂.perm)
  sorted := by
    have htrans (a b c : α) (hab : keyLe key a b = true) (hbc : keyLe key b c = true) :
        keyLe key a c = true := by
      simp only [keyLe, decide_eq_true_eq] at *
      exact hab.trans hbc
    have htotal (a b : α) : (keyLe key a b || keyLe key b a) = true := by
      simpa [keyLe] using le_total (key a) (key b)
    have hmerge := pairwise_merge htrans htotal s₁ s₂ (by simpa [keyLe] using h₁.sorted)
      (by simpa [keyLe] using h₂.sorted)
    simpa [keyLe] using hmerge
  stable := by
    intro k
    rw [filter_merge k h₁.sorted, h₁.stable, h₂.stable, filter_append]

/-! ## The group of a key -/

theorem takeWhile_eq_filter {s : List α} {k : κ} (hs : s.Pairwise fun a b => key a ≤ key b)
    (hk : ∀ a ∈ s, k ≤ key a) :
    (s.takeWhile fun a => key a = k) = s.filter fun a => key a = k := by
  induction s with
  | nil => rfl
  | cons a s ih =>
    by_cases ha : key a = k
    · rw [takeWhile_cons_of_pos (by simpa using ha), filter_cons_of_pos (by simpa using ha),
        ih hs.of_cons fun b hb => hk b (mem_cons_of_mem _ hb)]
    · have hlt : k < key a := lt_of_le_of_ne (hk a mem_cons_self) (Ne.symm ha)
      rw [takeWhile_cons_of_neg (by simpa using ha),
        filter_cons_of_neg (by simpa using ha), eq_comm, filter_eq_nil_iff]
      intro b hb
      simpa using (hlt.trans_le (rel_of_pairwise_cons hs hb)).ne'

theorem group_eq_filter {s : List α} (hs : s.Pairwise fun a b => key a ≤ key b) (k : κ) :
    ((s.dropWhile fun a => key a ≠ k).takeWhile fun a => key a = k) =
      s.filter fun a => key a = k := by
  induction s with
  | nil => rfl
  | cons a s ih =>
    by_cases ha : key a = k
    · rw [dropWhile_cons_of_neg (by simpa using ha)]
      refine takeWhile_eq_filter hs fun b hb => ?_
      rcases mem_cons.1 hb with rfl | hb
      · exact ha.ge
      · exact ha.ge.trans (rel_of_pairwise_cons hs hb)
    · rw [dropWhile_cons_of_pos (by simpa using ha),
        filter_cons_of_neg (by simpa using ha), ih hs.of_cons]

end FreeSense
