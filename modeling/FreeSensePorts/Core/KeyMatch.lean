import Mathlib.Data.List.Count
import Mathlib.Data.List.Perm.Basic
import Mathlib.Data.List.Perm.Subperm
import Mathlib.Tactic

/-!
# Matching two lists by a key

Each new element is dropped in favour of the first old element with the same key, which then leaves
the old list.  With `o` the old and `n` the new elements of one key, the pass keeps the first `|n|` of
`o`, drops the first `|o|` of `n`, and leaves the rest of `o` (`on_foldl`, `on_matchAll_taken`).
`perm_of_on` puts the keys together again.
-/

namespace FreeSense.KeyMatch

open List

variable {α β κ : Type*} [DecidableEq κ] (key : α → κ)

def on (k : κ) (l : List α) : List α := l.filter fun a => key a = k

/-- One new element: the old list, and what was chosen so far, newest first. -/
def matchStep (s : List α × List α) (n : α) : List α × List α :=
  match s.1.find? fun o => key o = key n with
  | some o => (s.1.eraseP fun o => key o = key n, o :: s.2)
  | none => (s.1, n :: s.2)

def matchAll (old new : List α) : List α × List α := new.foldl (matchStep key) (old, [])

variable {key}

@[simp] lemma on_cons_eq {a : α} {k : κ} (h : key a = k) (l : List α) :
    on key k (a :: l) = a :: on key k l := by
  simp [on, h]

@[simp] lemma on_cons_ne {a : α} {k : κ} (h : key a ≠ k) (l : List α) :
    on key k (a :: l) = on key k l := by
  simp [on, h]

lemma mem_on {k : κ} {l : List α} {a : α} : a ∈ on key k l ↔ a ∈ l ∧ key a = k := by
  simp [on]

variable (key) in
lemma on_find (k : κ) : ∀ l : List α,
    (l.find? (fun o => key o = k) = none ∧ on key k l = []) ∨
      ∃ o, l.find? (fun o => key o = k) = some o ∧ key o = k ∧
        on key k l = o :: on key k (l.eraseP fun o => key o = k) ∧
        (∀ k', k' ≠ k → on key k' (l.eraseP fun o => key o = k) = on key k' l) ∧
        l.Perm (o :: l.eraseP fun o => key o = k)
  | [] => Or.inl ⟨rfl, rfl⟩
  | a :: l => by
    by_cases ha : key a = k
    · refine Or.inr ⟨a, by simp [ha], ha, ?_, ?_, ?_⟩
      · simp [ha]
      · intro k' hk'
        rw [on_cons_ne (by rw [ha]; exact hk'.symm)]
        simp [ha]
      · simp [ha]
    · have hfind : (a :: l).find? (fun o => key o = k) = l.find? fun o => key o = k := by
        simp [ha]
      have herase : (a :: l).eraseP (fun o => key o = k)
          = a :: l.eraseP fun o => key o = k := by simp [ha]
      rw [hfind, herase, on_cons_ne ha]
      rcases on_find k l with ⟨hnone, hon⟩ | ⟨o, hsome, ho, hon, hne, hperm⟩
      · exact Or.inl ⟨hnone, hon⟩
      · refine Or.inr ⟨o, hsome, ho, ?_, ?_, ?_⟩
        · rw [on_cons_ne ha, hon]
        · intro k' hk'
          by_cases hak : key a = k'
          · rw [on_cons_eq hak, on_cons_eq hak, hne k' hk']
          · rw [on_cons_ne hak, on_cons_ne hak, hne k' hk']
        · exact (hperm.cons a).trans (List.Perm.swap _ _ _)

variable (key) in
lemma matchStep_on (s : List α × List α) (n : α) (k : κ) :
    if key n = k then
      match on key k s.1 with
      | [] => on key k (matchStep key s n).1 = [] ∧ on key k (matchStep key s n).2 = n :: on key k s.2
      | o :: rest => on key k (matchStep key s n).1 = rest ∧
          on key k (matchStep key s n).2 = o :: on key k s.2
    else on key k (matchStep key s n).1 = on key k s.1 ∧
      on key k (matchStep key s n).2 = on key k s.2 := by
  rcases on_find key (key n) s.1 with ⟨hnone, hon⟩ | ⟨o, hsome, ho, hon, hne, -⟩
  · rw [matchStep, hnone]
    split_ifs with hk
    · subst hk
      simp only [hon]
      exact ⟨trivial, on_cons_eq rfl _⟩
    · exact ⟨rfl, on_cons_ne hk _⟩
  · rw [matchStep, hsome]
    split_ifs with hk
    · subst hk
      rw [hon]
      exact ⟨rfl, on_cons_eq ho _⟩
    · exact ⟨hne k (Ne.symm hk), on_cons_ne (by rw [ho]; exact hk) _⟩

variable (key) in
lemma on_foldl (k : κ) : ∀ (new : List α) (s : List α × List α),
    on key k (new.foldl (matchStep key) s).1 = (on key k s.1).drop (on key k new).length ∧
      (on key k (new.foldl (matchStep key) s).2).Perm
        ((on key k s.1).take (on key k new).length ++ (on key k new).drop (on key k s.1).length
          ++ on key k s.2)
  | [], s => by simp [on]
  | n :: new, s => by
    obtain ⟨hleft, htaken⟩ := on_foldl k new (matchStep key s n)
    have hstep := matchStep_on key s n k
    rw [foldl_cons]
    by_cases hk : key n = k
    · rw [if_pos hk] at hstep
      rw [on_cons_eq hk]
      cases hold : on key k s.1 with
      | nil =>
        simp only [hold] at hstep
        rw [hstep.1] at hleft htaken
        rw [hstep.2] at htaken
        refine ⟨by simpa using hleft, htaken.trans ?_⟩
        simp
      | cons o rest =>
        simp only [hold] at hstep
        rw [hstep.1] at hleft htaken
        rw [hstep.2] at htaken
        refine ⟨by simpa using hleft, htaken.trans ?_⟩
        simp only [length_cons, take_succ_cons, drop_succ_cons]
        exact perm_middle
    · rw [if_neg hk] at hstep
      rw [hstep.1] at hleft htaken
      rw [hstep.2] at htaken
      rw [on_cons_ne hk]
      exact ⟨hleft, htaken⟩

variable (key) in
/-- **What is chosen**, by key. -/
theorem on_matchAll_taken (old new : List α) (k : κ) :
    (on key k (matchAll key old new).2).Perm
      ((on key k old).take (on key k new).length ++ (on key k new).drop (on key k old).length) := by
  have h := (on_foldl key k new (old, [])).2
  rwa [show on key k ([] : List α) = [] from rfl, append_nil] at h

/-- Nothing is chosen twice. -/
theorem matchAll_subperm (old new : List α) :
    ((matchAll key old new).1 ++ (matchAll key old new).2).Subperm (old ++ new) := by
  have key' : ∀ (new : List α) (s : List α × List α),
      ((new.foldl (matchStep key) s).1 ++ (new.foldl (matchStep key) s).2).Subperm
        (s.1 ++ s.2 ++ new) := by
    intro new
    induction new with
    | nil => simp [List.Subperm.refl]
    | cons n new ih =>
      intro s
      refine (ih (matchStep key s n)).trans ?_
      rcases on_find key (key n) s.1 with ⟨hnone, -⟩ | ⟨o, hsome, -, -, -, hperm⟩
      · rw [matchStep, hnone]
        refine List.Perm.subperm ?_
        simp only [append_assoc, cons_append]
        exact (perm_middle.symm.append_left s.1)
      · rw [matchStep, hsome]
        have hkeep : (s.1.eraseP (fun o => key o = key n) ++ o :: s.2).Perm (s.1 ++ s.2) :=
          perm_middle.trans (hperm.symm.append_right s.2)
        exact (hkeep.append_right new).subperm.trans
          ((sublist_cons_self n new).append_left _).subperm
  simpa [matchAll] using key' new (old, [])

variable (key) in
/-- Lists that agree on every key agree. -/
theorem perm_of_on [DecidableEq α] {l l' : List α} (h : ∀ k, (on key k l).Perm (on key k l')) :
    l.Perm l' := by
  rw [perm_iff_count]
  intro a
  have := (h (key a)).count_eq a
  simpa [on, count_filter] using this

lemma map_on {key' : β → κ} {f : α → β} (h : ∀ a, key' (f a) = key a) (k : κ) (l : List α) :
    (on key k l).map f = on key' k (l.map f) := by
  induction l with
  | nil => rfl
  | cons a l ih =>
    by_cases hk : key a = k
    · rw [on_cons_eq hk, map_cons, map_cons, on_cons_eq (by rw [h, hk]), ih]
    · rw [on_cons_ne hk, map_cons, on_cons_ne (by rw [h]; exact hk), ih]

end FreeSense.KeyMatch
