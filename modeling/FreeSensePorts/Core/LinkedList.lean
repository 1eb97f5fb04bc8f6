import Mathlib.Data.List.Basic
import Mathlib.Data.List.Nodup
import Mathlib.Logic.Function.Basic

/-!
# Lists linked in memory

Nodes of any type, each with a pointer to the next one; `none` is the null pointer.  `Chain` says
which nodes a pointer leads to.  A chain ends, so no node occurs in it twice, and writing the pointer
of a node outside it does not change it.
-/

namespace FreeSense.LinkedList

open List

variable {α : Type}

abbrev Next (α : Type) := α → Option α

def Chain (next : Next α) : Option α → List α → Prop
  | p, [] => p = none
  | p, a :: l => p = some a ∧ Chain next (next a) l

variable {next next' : Next α} {p : Option α} {l l₁ l₂ : List α} {a : α}

theorem Chain.head_eq (h : Chain next p l) : p = l.head? := by
  cases l with
  | nil => exact h
  | cons a l => exact h.1

theorem Chain.eq (h₁ : Chain next p l₁) (h₂ : Chain next p l₂) : l₁ = l₂ := by
  induction l₁ generalizing p l₂ with
  | nil =>
    cases l₂ with
    | nil => rfl
    | cons a l₂ => exact absurd (Eq.trans h₁.symm h₂.1) (by simp)
  | cons a l₁ ih =>
    cases l₂ with
    | nil => exact absurd (Eq.trans h₁.1.symm h₂) (by simp)
    | cons b l₂ =>
      obtain rfl : a = b := Option.some_inj.1 (h₁.1.symm.trans h₂.1)
      rw [ih h₁.2 h₂.2]

theorem Chain.suffix (h : Chain next p (l₁ ++ a :: l₂)) : Chain next (some a) (a :: l₂) := by
  induction l₁ generalizing p with
  | nil => exact ⟨rfl, h.2⟩
  | cons b l₁ ih => exact ih h.2

theorem Chain.of_isSuffix (h : Chain next p l) (hs : l₂ <:+ l) : Chain next l₂.head? l₂ := by
  obtain ⟨l₁, rfl⟩ := hs
  cases l₂ with
  | nil => rfl
  | cons a l₂ => exact h.suffix

theorem Chain.nodup (h : Chain next p l) : l.Nodup := by
  induction l generalizing p with
  | nil => exact nodup_nil
  | cons a l ih =>
    refine nodup_cons.2 ⟨fun ha => ?_, ih h.2⟩
    -- the node would lead to two lists of different length
    obtain ⟨l₁, l₂, rfl⟩ := append_of_mem ha
    have hsuffix : Chain next (some a) (a :: l₂) :=
      Chain.suffix (show Chain next p ((a :: l₁) ++ a :: l₂) from h)
    have hwhole : Chain next (some a) (a :: (l₁ ++ a :: l₂)) := ⟨rfl, h.2⟩
    have hlen := congrArg List.length (hsuffix.eq hwhole)
    simp only [length_cons, length_append] at hlen
    omega

theorem Chain.congr (h : Chain next p l) (heq : ∀ a ∈ l, next' a = next a) : Chain next' p l := by
  induction l generalizing p with
  | nil => exact h
  | cons a l ih =>
    refine ⟨h.1, ?_⟩
    rw [heq a mem_cons_self]
    exact ih h.2 fun b hb => heq b (mem_cons_of_mem _ hb)

variable [DecidableEq α]

theorem Chain.update (h : Chain next p l) (v : Option α) (ha : a ∉ l) :
    Chain (Function.update next a v) p l := by
  refine h.congr fun b hb => ?_
  have hne : b ≠ a := by
    rintro rfl
    exact ha hb
  rw [Function.update_of_ne hne]

/-- Writing the null pointer into a node cuts the chain behind it. -/
theorem Chain.cut (h : Chain next p (l₁ ++ a :: l₂)) :
    Chain (Function.update next a none) p (l₁ ++ [a]) ∧
      Chain (Function.update next a none) (next a) l₂ := by
  have hnodup := h.nodup
  refine ⟨?_, (Chain.suffix h).2.update none ?_⟩
  · induction l₁ generalizing p with
    | nil => exact ⟨h.1, by simp [Chain]⟩
    | cons b l₁ ih =>
      rw [cons_append, nodup_cons] at hnodup
      have hne : b ≠ a := by
        rintro rfl
        exact hnodup.1 (mem_append_right _ mem_cons_self)
      refine ⟨h.1, ?_⟩
      rw [Function.update_of_ne hne]
      exact ih h.2 hnodup.2
  · exact (nodup_cons.1 (nodup_append.1 hnodup).2.1).1

end FreeSense.LinkedList
