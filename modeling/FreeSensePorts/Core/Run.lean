import Mathlib.Logic.Relation
import Mathlib.Data.List.Basic

/-!
# Runs of a labelled transition system

A state, labels for what can happen next, and a relation saying what one label does.  `Run` is the
finite sequences of such steps.

* `Run.invariant`: what holds at the start and survives each step holds at the end.
* `Run.append_inv` cuts a run at a point of its label list, `Run.exists_entry` at the step that brings
  something about.
* `Run.forall_iff` turns what one step needs to keep a property into what a whole run needs.
* Steps that are a partial function have one run for each list of labels (`Run.unique`), which is found
  by evaluation (`Run.of_foldlM`), and so is what its steps meet (`Run.forall_of_foldlM`).
-/

namespace FreeSense

universe u v

variable {σ : Type u} {ε : Type v}

/-- `Run step s es t`: taking the labelled steps `es` in order leads from `s` to `t`. -/
inductive Run (step : σ → ε → σ → Prop) : σ → List ε → σ → Prop
  | nil (s : σ) : Run step s [] s
  | cons {s t u : σ} {e : ε} {es : List ε} : step s e t → Run step t es u → Run step s (e :: es) u

variable {I P : σ → Prop} {f : σ → ε → Option σ} {G : σ → ε → Prop}

namespace Run

variable {step step' : σ → ε → σ → Prop} {s t u : σ} {e : ε} {es fs : List ε}

/-- **The invariant rule.**  The induction is on the run from its start, so the hypothesis is used
at every intermediate state. -/
theorem invariant (hstep : ∀ s e t, I s → step s e t → I t) (r : Run step s es t) (h : I s) :
    I t := by
  induction r with
  | nil _ => exact h
  | cons hs _ ih => exact ih (hstep _ _ _ h hs)

theorem append (r : Run step s es t) (r' : Run step t fs u) : Run step s (es ++ fs) u := by
  induction r with
  | nil _ => exact r'
  | cons hs _ ih => exact .cons hs (ih r')

theorem snoc (r : Run step s es t) (h : step t e u) : Run step s (es ++ [e]) u :=
  r.append (.cons h (.nil u))

/-- Cut a run where its label list is cut. -/
theorem append_inv : ∀ {es : List ε} {s : σ}, Run step s (es ++ fs) u →
    ∃ t, Run step s es t ∧ Run step t fs u
  | [], s, r => ⟨s, .nil s, r⟩
  | _ :: _, _, .cons hs r => by
    obtain ⟨t, r₁, r₂⟩ := append_inv r
    exact ⟨t, .cons hs r₁, r₂⟩

/-- Evaluating steps that are a partial function gives a run. -/
theorem of_foldlM : ∀ {es : List ε} {s : σ}, es.foldlM f s = some t →
    Run (fun s e t => f s e = some t) s es t
  | [], _, h => by cases h; exact .nil _
  | _ :: _, _, h => by
    obtain ⟨u, hu, h⟩ := Option.bind_eq_some_iff.1 h
    exact .cons hu (of_foldlM h)

/-- Where the steps are a function, so are the runs. -/
theorem unique (hstep : ∀ s e t t', step s e t → step s e t' → t = t') (r : Run step s es t)
    (r' : Run step s es u) : t = u := by
  induction r with
  | nil _ => cases r'; rfl
  | cons h _ ih =>
    cases r' with
    | cons h' r' =>
      cases hstep _ _ _ _ h h'
      exact ih r'

/-- Where the steps are a function, whether all steps meet `G` is found by evaluation. -/
theorem forall_of_foldlM [∀ s e, Decidable (G s e)] {w : σ} :
    ∀ {es : List ε} {s : σ}, es.foldlM (fun s e => if G s e then f s e else none) s = some t →
      ∀ es₁ e es₂ u v, es = es₁ ++ e :: es₂ → Run (fun s e t => f s e = some t) s es₁ u →
        f u e = some v → Run (fun s e t => f s e = some t) v es₂ w → G u e
  | es, s, h, es₁, e, es₂, u, v, hes, r₁, hv, r₂ => by
    cases r₁ with
    | nil _ =>
      rw [hes, List.nil_append] at h
      obtain ⟨_, hG, -⟩ := Option.bind_eq_some_iff.1 h
      exact (Option.ite_none_right_eq_some.1 hG).1
    | @cons _ s₁ _ e₁ es₁ h₁ r₁ =>
      rw [hes, List.cons_append] at h
      obtain ⟨s₂, hG, h⟩ := Option.bind_eq_some_iff.1 h
      obtain rfl : s₂ = s₁ := Option.some.inj ((Option.ite_none_right_eq_some.1 hG).2.symm.trans h₁)
      exact forall_of_foldlM h es₁ e es₂ u v rfl r₁ hv r₂
  termination_by es _ _ => es.length
  decreasing_by simp [hes]

/-- A run whose steps all meet `G` where they are taken is a run of the smaller relation. -/
theorem restrict (r : Run step s es t)
    (hG : ∀ es₁ e es₂ u, es = es₁ ++ e :: es₂ → Run step s es₁ u → G u e) :
    Run (fun s e t => step s e t ∧ G s e) s es t := by
  induction r with
  | nil s => exact .nil s
  | @cons s t u e es h _ ih =>
    refine .cons ⟨h, hG [] e es s rfl (.nil s)⟩ (ih fun es₁ e' es₂ v hes r₁ => ?_)
    exact hG (e :: es₁) e' es₂ v (by rw [hes]; rfl) (.cons h r₁)

/-- **Along a run.**  Where an invariant `I` makes each step from `P` lead to `P` exactly if it meets
`G`, a run stays in `P` exactly if all its steps meet `G` where they are taken. -/
theorem forall_iff (hI : ∀ s e t, I s → step s e t → I t)
    (hPG : ∀ s e t, I s → P s → step s e t → (P t ↔ G s e)) (his : I s) (hps : P s) :
    (∀ es₁ es₂ u, es = es₁ ++ es₂ → Run step s es₁ u → Run step u es₂ t → P u) ↔
      ∀ es₁ e es₂ u v, es = es₁ ++ e :: es₂ → Run step s es₁ u → step u e v → Run step v es₂ t →
        G u e := by
  constructor
  · intro hP es₁ e es₂ u v hes r₁ h r₂
    have hu : P u := hP es₁ (e :: es₂) u hes r₁ (.cons h r₂)
    have hv : P v := hP (es₁ ++ [e]) es₂ v (by rw [hes, List.append_assoc]; rfl) (r₁.snoc h) r₂
    exact (hPG u e v (r₁.invariant hI his) hu h).1 hv
  · rintro hG es₁ es₂ u rfl r₁ r₂
    induction r₁ with
    | nil _ => exact hps
    | @cons s v u e es₁ h r₁ ih =>
      have hv : P v := (hPG s e v his hps h).2 (hG [] e (es₁ ++ es₂) s v rfl (.nil s) h (r₁.append r₂))
      refine ih (hI s e v his h) hv (fun fs₁ e' fs₂ x y hes rx hx ry => ?_) r₂
      exact hG (e :: fs₁) e' fs₂ x y (by rw [List.cons_append, hes]; rfl) (.cons h rx) hx ry

/-- Cut a run at the step that brings about what holds at its end and not at its start. -/
theorem exists_entry (r : Run step s es u) (hs : ¬ P s) (hu : P u) :
    ∃ es₁ e es₂ t t', es = es₁ ++ e :: es₂ ∧ Run step s es₁ t ∧ step t e t' ∧
      Run step t' es₂ u ∧ ¬ P t ∧ P t' := by
  induction r with
  | nil _ => exact absurd hu hs
  | @cons s t u e es h r ih =>
    by_cases ht : P t
    · exact ⟨[], e, es, s, t, rfl, .nil s, h, r, hs, ht⟩
    · obtain ⟨es₁, e', es₂, v, v', rfl, r₁, h', r₂, hv⟩ := ih ht hu
      exact ⟨e :: es₁, e', es₂, v, v', rfl, .cons h r₁, h', r₂, hv⟩

end Run

end FreeSense
