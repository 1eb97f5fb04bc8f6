import Mathlib.Tactic

/-!
# Shell scripts with one adverse event

A script under `set -e` with an `EXIT` trap and `trap 'exit 1'` for its signals.  A run (`Exec`) falls
through or leaves the script, and at most one thing goes wrong in it: a signal before or after a
command, as a shell runs its traps, or the failure of a command that is marked as fallible.  The flag
of a run says whether that event is still to come.

`wp p Q E` is the condition under which every run of `p` that falls through ends in `Q` and every run
that leaves, to the `EXIT` trap, ends in `E` (`Exec.sound`); loops go through `wp_forEach`.  If a
script fails wherever one of its commands may fail (`Script.Reports`), its runs with status 0 are
undisturbed (`Exec.run_eq`), and what they do is found by evaluation.
-/

namespace FreeSense.Shell

/-- A simple command: what it does, and its exit status in the state before. -/
structure Cmd (σ : Type) where
  run : σ → σ
  status : σ → ℕ
  /-- The command may fail without any effect. -/
  fallible : Bool

def act {σ : Type} (f : σ → σ) : Cmd σ := ⟨f, fun _ => 0, false⟩

/-- `[ … ]`. -/
def test {σ : Type} (b : σ → Bool) : Cmd σ := ⟨id, fun s => if b s then 0 else 1, false⟩

inductive Script (σ : Type)
  | skip
  /-- Under `set -e` a failure leaves the script. -/
  | cmd (c : Cmd σ)
  | seq (p q : Script σ)
  /-- `if c; then p; else q; fi`, where `q` may read `$?`. -/
  | cond (c : Cmd σ) (p : Script σ) (q : ℕ → Script σ)
  | exit (status : ℕ)
  /-- A script that is read off the state. -/
  | read (f : σ → Script σ)

inductive Result
  | done
  | exit (status : ℕ)
  deriving DecidableEq, Repr

variable {σ α : Type}

def Script.forEach (body : α → Script σ) : List α → Script σ
  | [] => .skip
  | x :: l => .seq (body x) (forEach body l)

inductive Exec : Script σ → Bool → σ → Result → Bool → σ → Prop
  | signal {p s} : Exec p true s (.exit 1) false s
  | skip {b s} : Exec .skip b s .done b s
  | cmd {c b s} (h : c.status s = 0) : Exec (.cmd c) b s .done b (c.run s)
  | cmdFail {c b s} (h : c.status s ≠ 0) : Exec (.cmd c) b s (.exit (c.status s)) b (c.run s)
  | cmdFault {c s n} (h : c.fallible = true) (hn : n ≠ 0) :
      Exec (.cmd c) true s (.exit n) false s
  | seq {p q b s b' t r b'' u} (hp : Exec p b s .done b' t) (hq : Exec q b' t r b'' u) :
      Exec (.seq p q) b s r b'' u
  | seqExit {p q b s n b' t} (hp : Exec p b s (.exit n) b' t) : Exec (.seq p q) b s (.exit n) b' t
  | cond {c p q b s r b' t} (h : c.status s = 0) (hp : Exec p b (c.run s) r b' t) :
      Exec (.cond c p q) b s r b' t
  | condFail {c p q b s r b' t} (h : c.status s ≠ 0)
      (hq : Exec (q (c.status s)) b (c.run s) r b' t) : Exec (.cond c p q) b s r b' t
  | condFault {c p q s n r b' t} (h : c.fallible = true) (hn : n ≠ 0)
      (hq : Exec (q n) false s r b' t) : Exec (.cond c p q) true s r b' t
  | exit {n b s} : Exec (.exit n) b s (.exit n) b s
  | read {f b s r b' t} (h : Exec (f s) b s r b' t) : Exec (.read f) b s r b' t

/-! ## The undisturbed run -/

/-- The run in which nothing goes wrong. -/
def Script.run : Script σ → σ → Result × σ
  | .skip, s => (.done, s)
  | .cmd c, s => (if c.status s = 0 then .done else .exit (c.status s), c.run s)
  | .seq p q, s =>
    match p.run s with
    | (.done, t) => q.run t
    | (.exit n, t) => (.exit n, t)
  | .cond c p q, s => if c.status s = 0 then p.run (c.run s) else (q (c.status s)).run (c.run s)
  | .exit n, s => (.exit n, s)
  | .read f, s => (f s).run s

variable {p q : Script σ} {t : σ} {r : Result} {b' : Bool} {c : Cmd σ}

theorem Script.run_seq_done {s : σ} (h : p.run s = (.done, t)) :
    (Script.seq p q).run s = q.run t := by
  rw [Script.run, h]

theorem Script.run_seq_exit {s : σ} {n : ℕ} (h : p.run s = (.exit n, t)) :
    (Script.seq p q).run s = (.exit n, t) := by
  rw [Script.run, h]

theorem Script.run_test (b : σ → Bool) (p : Script σ) (q : ℕ → Script σ) (s : σ) :
    (Script.cond (test b) p q).run s = if b s then p.run s else (q 1).run s := by
  by_cases h : b s = true
  · simp [Script.run, test, h]
  · simp [Script.run, test, h]

/-- Every script has a run, so nothing is said about runs in vain. -/
theorem Exec.of_run (p : Script σ) (b : Bool) (s : σ) : Exec p b s (p.run s).1 b (p.run s).2 := by
  induction p generalizing s with
  | skip => exact .skip
  | cmd c =>
    by_cases h : c.status s = 0
    · simpa [Script.run, h] using Exec.cmd h
    · simpa [Script.run, h] using Exec.cmdFail h
  | seq p q ihp ihq =>
    have hp := ihp s
    rw [Script.run]
    rcases hrun : p.run s with ⟨_ | n, t⟩
    · rw [hrun] at hp
      exact .seq hp (ihq t)
    · rw [hrun] at hp
      exact .seqExit hp
  | cond c p q ihp ihq =>
    by_cases h : c.status s = 0
    · rw [Script.run, if_pos h]
      exact .cond h (ihp _)
    · rw [Script.run, if_neg h]
      exact .condFail h (ihq _ _)
  | exit n => exact .exit
  | read f ih => exact .read (ih s s)

/-! ## Weakest preconditions -/

/-- What has to hold before a script, for `Q` after it and `E` wherever it is left. -/
def wp : Script σ → (Bool → σ → Prop) → (ℕ → σ → Prop) → Bool → σ → Prop
  | .skip, Q, E, b, s => (b = true → E 1 s) ∧ Q b s
  | .cmd c, Q, E, b, s => (b = true → E 1 s) ∧ (c.status s = 0 → Q b (c.run s)) ∧
      (c.status s ≠ 0 → E (c.status s) (c.run s)) ∧
      (c.fallible = true → b = true → ∀ n ≠ 0, E n s)
  | .seq p q, Q, E, b, s => wp p (wp q Q E) E b s
  | .cond c p q, Q, E, b, s => (b = true → E 1 s) ∧ (c.status s = 0 → wp p Q E b (c.run s)) ∧
      (c.status s ≠ 0 → wp (q (c.status s)) Q E b (c.run s)) ∧
      (c.fallible = true → b = true → ∀ n ≠ 0, wp (q n) Q E false s)
  | .exit n, _, E, b, s => (b = true → E 1 s) ∧ E n s
  | .read f, Q, E, b, s => (b = true → E 1 s) ∧ wp (f s) Q E b s

variable {Q Q' : Bool → σ → Prop} {E : ℕ → σ → Prop} {b : Bool} {s : σ}

lemma wp_signal (h : wp p Q E true s) : E 1 s := by
  induction p generalizing Q with
  | seq p q ihp _ => exact ihp h
  | _ => exact h.1 rfl

theorem Exec.sound (h : Exec p b s r b' t) (hwp : wp p Q E b s) :
    (r = .done → Q b' t) ∧ ∀ n, r = .exit n → E n t := by
  induction h generalizing Q with
  | signal => exact ⟨by simp, by rintro n ⟨⟩; exact wp_signal hwp⟩
  | skip => exact ⟨fun _ => hwp.2, by simp⟩
  | cmd hok => exact ⟨fun _ => hwp.2.1 hok, by simp⟩
  | cmdFail hfail => exact ⟨by simp, by rintro n ⟨⟩; exact hwp.2.2.1 hfail⟩
  | cmdFault hc hn => exact ⟨by simp, by rintro n ⟨⟩; exact hwp.2.2.2 hc rfl _ hn⟩
  | seq _ _ ihp ihq => exact ihq ((ihp hwp).1 rfl)
  | seqExit _ ihp => exact ⟨by simp, (ihp hwp).2⟩
  | cond hok _ ih => exact ih (hwp.2.1 hok)
  | condFail hfail _ ih => exact ih (hwp.2.2.1 hfail)
  | condFault hc hn _ ih => exact ih (hwp.2.2.2 hc rfl _ hn)
  | exit => exact ⟨by simp, by rintro n ⟨⟩; exact hwp.2⟩
  | read _ ih => exact ih hwp.2

lemma wp.mono (h : wp p Q E b s) (hQ : ∀ b t, Q b t → Q' b t) : wp p Q' E b s := by
  induction p generalizing Q Q' b s with
  | skip => exact ⟨h.1, hQ _ _ h.2⟩
  | cmd c => exact ⟨h.1, fun hok => hQ _ _ (h.2.1 hok), h.2.2⟩
  | seq p q ihp ihq => exact ihp h fun b t ht => ihq ht hQ
  | cond c p q ihp ihq =>
    refine ⟨h.1, fun hok => ihp (h.2.1 hok) hQ, fun hfail => ihq _ (h.2.2.1 hfail) hQ, ?_⟩
    intro hc hb n hn
    exact ihq n (h.2.2.2 hc hb n hn) hQ
  | exit n => exact h
  | read f ih => exact ⟨h.1, ih s h.2 hQ⟩

lemma wp_seq (h : wp p (wp q Q E) E b s) : wp (.seq p q) Q E b s := h

lemma wp_cmd (hok : c.status s = 0) (hE : b = true → ∀ n ≠ 0, E n s) (hQ : Q b (c.run s)) :
    wp (.cmd c) Q E b s :=
  ⟨fun hb => hE hb 1 one_ne_zero, fun _ => hQ, fun h => absurd hok h, fun _ hb => hE hb⟩

/-- The same for a condition, whose `else` is then the answer to the failure. -/
lemma wp_cond {q : ℕ → Script σ} (hok : c.status s = 0) (hE : b = true → E 1 s)
    (hp : wp p Q E b (c.run s)) (hq : b = true → ∀ n ≠ 0, wp (q n) Q E false s) :
    wp (.cond c p q) Q E b s :=
  ⟨hE, fun _ => hp, fun h => absurd hok h, fun _ hb => hq hb⟩

lemma wp_act {f : σ → σ} (hE : b = true → E 1 s) (hQ : Q b (f s)) : wp (.cmd (act f)) Q E b s :=
  ⟨hE, fun _ => hQ, fun h => absurd rfl h, by simp [act]⟩

lemma wp_test {c : σ → Bool} {q : ℕ → Script σ} (hE : b = true → E 1 s)
    (hp : c s = true → wp p Q E b s) (hq : c s = false → wp (q 1) Q E b s) :
    wp (.cond (test c) p q) Q E b s := by
  refine ⟨hE, ?_, ?_, by simp [test]⟩
  · intro h
    exact hp (by simpa [test] using h)
  · intro h
    have hc : c s = false := by simpa [test] using h
    simpa [test, hc] using hq hc

/-- **Loops.**  The invariant speaks of the elements that are still to come. -/
theorem wp_forEach {body : α → Script σ} (I : List α → Bool → σ → Prop)
    (hE : ∀ b s, I [] b s → b = true → E 1 s)
    (hbody : ∀ x l b s, I (x :: l) b s → wp (body x) (I l) E b s) :
    ∀ (l : List α) (b : Bool) (s : σ), I l b s → wp (.forEach body l) (I []) E b s
  | [], b, s, h => ⟨hE b s h, h⟩
  | x :: l, b, s, h => (hbody x l b s h).mono fun b t ht => wp_forEach I hE hbody l b t ht

/-! ## Success without an event -/

/-- No run of the script succeeds. -/
def Script.Fails (p : Script σ) : Prop := ∀ b s, wp p (fun _ _ => False) (fun n _ => n ≠ 0) b s

/-- Wherever a command may fail, the script fails with it. -/
def Script.Reports : Script σ → Prop
  | .skip | .cmd _ | .exit _ => True
  | .seq p q => p.Reports ∧ q.Reports
  | .cond c p q => p.Reports ∧
      ((c.fallible = false ∧ ∀ n, (q n).Reports) ∨ ∀ n ≠ 0, (q n).Fails)
  | .read f => ∀ s, (f s).Reports

lemma Script.reports_forEach {body : α → Script σ} (h : ∀ x, (body x).Reports) :
    ∀ l, (Script.forEach body l).Reports
  | [] => trivial
  | x :: l => ⟨h x, reports_forEach h l⟩

lemma Script.Fails.exit_ne (hp : p.Fails) (h : Exec p b s r b' t) : ∃ n ≠ 0, r = .exit n := by
  obtain ⟨hdone, hexit⟩ := h.sound (hp b s)
  cases r with
  | done => exact (hdone rfl).elim
  | exit n => exact ⟨n, hexit n rfl, rfl⟩

/-- **A run that succeeds is the undisturbed one**, in a script that reports what goes wrong. -/
theorem Exec.run_eq (h : Exec p b s r b' t) (hp : p.Reports) (hr : ∀ n, r = .exit n → n = 0) :
    p.run s = (r, t) := by
  induction h with
  | signal => exact absurd (hr 1 rfl) one_ne_zero
  | skip => rfl
  | cmd hok => rw [Script.run, if_pos hok]
  | cmdFail hfail => rw [Script.run, if_neg hfail]
  | cmdFault _ hn => exact absurd (hr _ rfl) hn
  | seq _ _ ihp ihq => exact (Script.run_seq_done (ihp hp.1 (by simp))).trans (ihq hp.2 hr)
  | seqExit _ ihp => exact Script.run_seq_exit (ihp hp.1 hr)
  | cond hok _ ih =>
    rw [Script.run, if_pos hok]
    exact ih hp.1 hr
  | condFail hfail hq ih =>
    rcases hp.2 with ⟨-, hq'⟩ | hfails
    · rw [Script.run, if_neg hfail]
      exact ih (hq' _) hr
    · obtain ⟨n, hn, rfl⟩ := (hfails _ hfail).exit_ne hq
      exact absurd (hr n rfl) hn
  | condFault hc hn hq _ =>
    rcases hp.2 with ⟨hnot, -⟩ | hfails
    · exact absurd hc (by simp [hnot])
    · obtain ⟨n, hn, rfl⟩ := (hfails _ hn).exit_ne hq
      exact absurd (hr n rfl) hn
  | exit => rfl
  | read _ ih => exact ih (hp _) hr

end FreeSense.Shell
