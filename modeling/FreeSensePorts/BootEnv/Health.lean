import FreeSensePorts.BootEnv.Model

/-!
# `freesense_be_health`

The service that runs after each boot.  It probes a pending environment every twenty seconds until
three probes in a row succeed or the time is over, and then makes it the one that is booted from now
on, or the one it was upgraded from.  `zfs set` and `bectl activate` succeed where they apply; what
comes from outside is in `Boot`.
-/

namespace FreeSense.BootEnv

open Text

structure Boot where
  /-- `bectl check`. -/
  compatible : Bool
  /-- The tag `system/bootenv/automatic_rollback`. -/
  automaticRollback : Text
  /-- The four tests of the loop, for each round. -/
  probe : ℕ → Bool
  date : Text

inductive Outcome
  | returned (status : ℕ)
  | rebooting
  deriving DecidableEq, Repr

/-- A number as `[` reads it. -/
def testNumber (s : Text) : Option ℤ :=
  let (sign, t) := signOf (s.dropWhile isSpace)
  let ds := t.takeWhile (isDigitIn 10)
  let rest := (t.dropWhile (isDigitIn 10)).dropWhile isSpace
  let v := sign * number 10 ds
  if ds ≠ [] ∧ rest = [] ∧ -2 ^ 63 ≤ v ∧ v < 2 ^ 63 then some v else none

/-- `case "$deadline" in ''|-) deadline=300 ;; esac`. -/
def deadlineOf (s : Text) : Text := if s = [] ∨ s = dash then "300".toList else s

/-- The loop: the last value of `ok`, and how many probes were made.  Where the deadline is not a
number the test of the loop fails, as it does for zero. -/
def probeLoop (probe : ℕ → Bool) (deadline : ℕ) (made elapsed ok : ℕ) : ℕ × ℕ :=
  if elapsed < deadline then
    if probe made then
      if 3 ≤ ok + 1 then (ok + 1, made + 1)
      else probeLoop probe deadline (made + 1) (elapsed + 20) (ok + 1)
    else probeLoop probe deadline (made + 1) (elapsed + 20) 0
  else (ok, made)
  termination_by deadline - elapsed

/-- Calls of `prop_set` in a row. -/
def propSet (name : Text) (l : List (Key × Text)) (s : Bes) : Bes :=
  l.foldl (fun s x => (setProp name x.1 x.2 s).getD s) s

def keep (active : Text) (l : List (Key × Text)) (s : Bes) : Outcome × Bes :=
  match activate active s with
  | none => (.returned 1, s)
  | some s => (.returned 0, propSet active l s)

def rollBack (active rollback : Text) (s : Bes) : Outcome × Bes :=
  let s := propSet active [(.health, failed), (.rollbackattempted, yes)] s
  match activate rollback s with
  | none => (.returned 1, s)
  | some s => (.rebooting, s)

/-- `freesense_be_health_start`. -/
def healthStart (B : Boot) (s : Bes) : Outcome × Bes :=
  let active := s.activeName
  if B.compatible = false ∨ active = [] ∨ s.getProp active .health ≠ pending then (.returned 0, s)
  else
    let rollback := s.getProp active .rollback
    let deadline := ((testNumber (deadlineOf (s.getProp active .verifydeadline))).getD 0).toNat
    if B.automaticRollback = "false".toList then keep active [(.health, healthy)] s
    else if 3 ≤ (probeLoop B.probe deadline 0 0 0).1 then
      keep active [(.health, healthy), (.lastboot, B.date), (.rollback, dash)] s
    else if rollback = [] ∨ rollback = dash then (.returned 1, s)
    else if s.getProp active .rollbackattempted = yes then (.returned 1, s)
    else rollBack active rollback s

/-! ## What a run of the service does -/

variable {s : Bes} {name : Text}

def Env.setProps (l : List (Key × Text)) (e : Env) : Env :=
  { e with props := l.foldl (fun p x => Function.update p x.1 x.2) e.props }

theorem propSet_eq (l : List (Key × Text)) (s : Bes) :
    propSet name l s = s.update name (Env.setProps l) := by
  induction l generalizing s with
  | nil =>
    have henvs : (s.envs.map fun e => if e.name = name then Env.setProps [] e else e) = s.envs :=
      (List.map_congr_left fun e _ => ite_self e).trans (List.map_id _)
    rw [propSet, List.foldl_nil, Bes.update, henvs]
  | cons x l ih =>
    have hstep : propSet name (x :: l) s = propSet name l ((setProp name x.1 x.2 s).getD s) := rfl
    rw [hstep, ih, setProp_getD]
    exact update_update (fun _ => rfl)

/-- What `t` may differ in from `s` after the service has run: properties of the booted environment,
which is not pending any more, and the environment of the following boots. -/
def Settled (s t : Bes) : Prop := ∃ l bootfs,
  t = { s.update s.activeName (Env.setProps l) with bootfs := bootfs } ∧
    ∀ e, (Env.setProps l e).props .health ≠ pending

theorem settled_keep {l : List (Key × Text)} (hl : ∀ e, (Env.setProps l e).props .health ≠ pending) :
    (keep s.activeName l s).2 = s ∨ Settled s (keep s.activeName l s).2 := by
  rw [keep, activate]
  cases s.find? s.activeName with
  | none => exact .inl rfl
  | some e => exact .inr ⟨l, e.id, propSet_eq _ _, hl⟩

theorem settled_rollBack (rollback : Text) : Settled s (rollBack s.activeName rollback s).2 := by
  have hl : ∀ e, (Env.setProps [(.health, failed), (.rollbackattempted, yes)] e).props .health ≠
      pending := fun _ => (by decide : failed ≠ pending)
  rw [rollBack, activate]
  cases hf : (propSet s.activeName [(.health, failed), (.rollbackattempted, yes)] s).find? rollback with
  | none => exact ⟨_, s.bootfs, propSet_eq _ _, hl⟩
  | some e =>
    refine ⟨_, e.id, ?_, hl⟩
    rw [← propSet_eq]
    rfl

theorem healthStart_cases (B : Boot) (s : Bes) :
    (healthStart B s).2 = s ∨ Settled s (healthStart B s).2 := by
  have hne : healthy ≠ pending := by decide
  have hhealthy : ∀ e, (Env.setProps [(.health, healthy)] e).props .health ≠ pending := fun _ => hne
  have hverified : ∀ e, (Env.setProps [(.health, healthy), (.lastboot, B.date), (.rollback, dash)]
      e).props .health ≠ pending := fun _ => hne
  rw [healthStart]
  dsimp only
  split_ifs
  · exact .inl rfl
  · exact settled_keep hhealthy
  · exact settled_keep hverified
  · exact .inl rfl
  · exact .inl rfl
  · exact .inr (settled_rollBack _)

end FreeSense.BootEnv
