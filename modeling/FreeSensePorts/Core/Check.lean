import Mathlib.Data.List.Forall2
import Mathlib.Tactic.SplitIfs

/-!
# Checks with an exit code

A validator is a chain of checks, each with the code it exits with.  The lemmas take an accepted
run of such a chain apart, check by check.
-/

namespace FreeSense

open List

universe u v

variable {ε : Type u} {α β : Type v} {x : Except ε α} {f : α → Except ε β} {b : β} {l : List α}
  {r : List β}

/-- Go on if the condition holds, exit with the code otherwise. -/
def require (c : Prop) [Decidable c] (code : ε) : Except ε Unit :=
  if c then .ok () else .error code

@[simp] lemma require_eq_ok {c : Prop} [Decidable c] {code : ε} {u : Unit} :
    require c code = .ok u ↔ c := by
  unfold require
  split_ifs with h <;> simp [h]

@[simp] lemma bind_eq_ok : (x >>= f) = .ok b ↔ ∃ a, x = .ok a ∧ f a = .ok b := by
  cases x with
  | error e => simp [bind, Except.bind]
  | ok a => simp [bind, Except.bind]

@[simp] lemma pure_eq_ok {a b : α} : (pure a : Except ε α) = .ok b ↔ a = b := by
  simp [pure, Except.pure]

lemma map_eq_ok {f : α → β} : x.map f = .ok b ↔ ∃ a, x = .ok a ∧ f a = b := by
  cases x with
  | error e => simp [Except.map]
  | ok a => simp [Except.map]

lemma exists_ok_of_view {γ : Type v} (view : α → γ) {c : γ} (h : x.toOption.map view = some c) :
    ∃ a, x = .ok a ∧ view a = c := by
  cases x with
  | error e => cases h
  | ok a => exact ⟨a, rfl, Option.some.inj h⟩

lemma forall₂_of_mapM : ∀ {l : List α} {r : List β},
    l.mapM f = .ok r → List.Forall₂ (fun a b => f a = .ok b) l r
  | [], r, h => by
    simp only [mapM_nil, pure_eq_ok] at h
    subst h
    exact .nil
  | a :: l, r, h => by
    simp only [mapM_cons, bind_eq_ok, pure_eq_ok] at h
    obtain ⟨b, hb, r', hr', rfl⟩ := h
    exact .cons hb (forall₂_of_mapM hr')

lemma exists_of_mem_right {R : α → β → Prop} (h : List.Forall₂ R l r) (hb : b ∈ r) :
    ∃ a ∈ l, R a b := by
  induction h with
  | nil => cases hb
  | cons hab _ ih =>
    rcases mem_cons.mp hb with rfl | hb
    · exact ⟨_, mem_cons_self, hab⟩
    · obtain ⟨a, ha, hR⟩ := ih hb
      exact ⟨a, mem_cons_of_mem _ ha, hR⟩

lemma exists_of_mem_mapM (h : l.mapM f = .ok r) (hb : b ∈ r) : ∃ a ∈ l, f a = .ok b :=
  exists_of_mem_right (R := fun a b => f a = .ok b) (forall₂_of_mapM h) hb

/-- Two checks of which one passes whenever the other does, with the same view of the result, do so on
lists. -/
lemma exists_mapM_of {γ : Type v} {f g : α → Except ε β} (view : β → γ)
    (h : ∀ a b, f a = .ok b → ∃ b', g a = .ok b' ∧ view b' = view b) : ∀ {l : List α} {r : List β},
    l.mapM f = .ok r → ∃ r', l.mapM g = .ok r' ∧ r'.map view = r.map view
  | [], r, hr => by
    simp only [mapM_nil, pure_eq_ok] at hr
    subst hr
    exact ⟨[], rfl, rfl⟩
  | a :: l, r, hr => by
    simp only [mapM_cons, bind_eq_ok, pure_eq_ok] at hr
    obtain ⟨b, hb, r₀, hr₀, rfl⟩ := hr
    obtain ⟨b', hb', hview⟩ := h a b hb
    obtain ⟨r', hr', hviews⟩ := exists_mapM_of view h hr₀
    refine ⟨b' :: r', ?_, by rw [map_cons, map_cons, hview, hviews]⟩
    simp only [mapM_cons, bind_eq_ok, pure_eq_ok]
    exact ⟨b', hb', r', hr', rfl⟩

/-- **A loop of checks.**  The invariant speaks of what is still to come as well. -/
lemma foldlM_invariant {f : β → α → Except ε β} {I : List α → β → Prop}
    (hstep : ∀ {a l b b'}, I (a :: l) b → f b a = .ok b' → I l b') (l : List α) (b r : β)
    (hb : I l b) (h : l.foldlM f b = .ok r) : I [] r := by
  induction l generalizing b with
  | nil =>
    rw [foldlM_nil, pure_eq_ok] at h
    exact h ▸ hb
  | cons a l ih =>
    rw [foldlM_cons, bind_eq_ok] at h
    obtain ⟨b', hb', h⟩ := h
    exact ih b' (hstep hb hb') h

lemma exists_of_mem_foldlM {f : β → α → Except ε β} {b r : β} {a : α}
    (h : l.foldlM f b = .ok r) (ha : a ∈ l) : ∃ b₁ b₂, f b₁ a = .ok b₂ := by
  induction l generalizing b with
  | nil => cases ha
  | cons c l ih =>
    rw [foldlM_cons, bind_eq_ok] at h
    obtain ⟨b', hb', h⟩ := h
    rcases mem_cons.mp ha with rfl | ha
    · exact ⟨b, b', hb'⟩
    · exact ih h ha

/-! ## Failing with an error of a kind -/

/-- The run fails, with an error of the kind `P`. -/
def Fails (P : ε → Prop) (x : Except ε α) : Prop := ∃ e, x = .error e ∧ P e

section Fails

variable {P : ε → Prop}

@[simp] lemma not_fails_ok {a : α} : ¬Fails P (.ok a) := by
  rintro ⟨e, he, -⟩
  cases he

@[simp] lemma not_fails_pure {a : α} : ¬Fails P (pure a : Except ε α) := not_fails_ok

@[simp] lemma fails_error {e : ε} : Fails P (.error e : Except ε α) ↔ P e := by
  simp [Fails]

lemma fails_bind : Fails P (x >>= f) ↔ Fails P x ∨ ∃ a, x = .ok a ∧ Fails P (f a) := by
  cases x with
  | error e => simp [bind, Except.bind]
  | ok a => simp [bind, Except.bind]

@[simp] lemma fails_map {f : α → β} : Fails P (f <$> x) ↔ Fails P x := by
  cases x with
  | error e => simp [Functor.map, Except.map]
  | ok a => simp [Functor.map, Except.map]

lemma fails_foldlM {f : β → α → Except ε β} :
    Fails P (l.foldlM f b) ↔
      ∃ front a back b', l = front ++ a :: back ∧ front.foldlM f b = .ok b' ∧ Fails P (f b' a) := by
  induction l generalizing b with
  | nil => simp
  | cons a l ih =>
    rw [foldlM_cons, fails_bind]
    constructor
    · rintro (h | ⟨b₁, hb₁, h⟩)
      · exact ⟨[], a, l, b, rfl, rfl, h⟩
      · obtain ⟨front, a', back, b', rfl, hfront, h⟩ := ih.mp h
        refine ⟨a :: front, a', back, b', rfl, ?_, h⟩
        rw [foldlM_cons, hb₁]
        exact hfront
    · rintro ⟨front, a', back, b', heq, hfront, h⟩
      cases front with
      | nil =>
        obtain ⟨rfl, rfl⟩ := List.cons.inj heq
        obtain rfl : b = b' := pure_eq_ok.mp hfront
        exact .inl h
      | cons c front =>
        obtain ⟨rfl, rfl⟩ := List.cons.inj heq
        rw [foldlM_cons, bind_eq_ok] at hfront
        obtain ⟨b₁, hb₁, hfront⟩ := hfront
        exact .inr ⟨b₁, hb₁, ih.mpr ⟨front, a', back, b', rfl, hfront, h⟩⟩

lemma not_fails_foldlM {f : β → α → Except ε β}
    (hf : ∀ b a, ¬Fails P (f b a)) (l : List α) (b : β) : ¬Fails P (l.foldlM f b) := by
  rw [fails_foldlM]
  rintro ⟨-, a, -, b', -, -, h⟩
  exact hf b' a h

lemma fails_mapM_cons {a : α} :
    Fails P ((a :: l).mapM f) ↔ Fails P (f a) ∨ (∃ b, f a = .ok b) ∧ Fails P (l.mapM f) := by
  simp only [mapM_cons, fails_bind, not_fails_pure, and_false, exists_false, or_false,
    exists_and_right]

lemma not_fails_mapM (hf : ∀ a, ¬Fails P (f a)) (l : List α) : ¬Fails P (l.mapM f) := by
  induction l with
  | nil => exact not_fails_pure
  | cons a l ih =>
    rw [fails_mapM_cons]
    rintro (h | ⟨-, h⟩)
    · exact hf a h
    · exact ih h

/-- Checks that fail with errors of the kind only fail together if one of them does. -/
lemma fails_mapM {f : α → Except ε β}
    (hP : ∀ a, ¬Fails (fun e => ¬P e) (f a)) :
    Fails P (l.mapM f) ↔ ∃ a ∈ l, Fails P (f a) := by
  induction l with
  | nil => simp
  | cons a l ih =>
    rw [fails_mapM_cons, exists_mem_cons_iff, ih]
    cases ha : f a with
    | error e =>
      have he : P e := by simpa [ha] using hP a
      simp [he]
    | ok b => simp

end Fails

end FreeSense
