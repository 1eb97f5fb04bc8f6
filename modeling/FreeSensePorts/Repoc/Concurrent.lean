import FreeSensePorts.Core.Run
import FreeSensePorts.Repoc.Swap

/-!
# Two runs at once

A run with `-l` takes no lock, so two runs can be in the swap of `Repoc/Materialise` at the same time.
`Local.next` is the next existence test, rename or removal of one run, in the order of the script and
of its trap.  Two runs share `REPOS_DIR` and nothing else: `mktemp` makes up their other names.

Between the two renames of a run there is no `REPOS_DIR`.  If the *existence test* of the other run
falls there, it makes no backup, and whoever comes second moves the staged directory into the first
one's (`Spoiled`).  In all other cases the result is one of the two trees (`Clean`), and under the lock
there are no others.
-/

namespace FreeSense.Repoc.Concurrent

open Shell

/-! ## One run -/

inductive Pc
  | lockf | stage | test | mktempOld | rmdirOld | setAside | install | recover | testBackup | rmBackup
  /-- `cleanup`, with the status it was called with. -/
  | trapBackup (status : ℕ) | trapRepos (status : ℕ) | trapRestore (status : ℕ)
  | trapDrop (status : ℕ) | trapStaged (status : ℕ)
  | exited (status : ℕ)
  deriving DecidableEq, Repr

structure Local where
  pc : Pc
  /-- What the names of its own have. -/
  new : Option Tree
  old : Option Tree
  /-- `STAGED_REPOS` and `BACKUP_REPOS` are not empty. -/
  staged : Bool
  backup : Bool
  deriving DecidableEq

/-- The destination of `mv` after it. -/
def moved (name : Node) (t : Tree) : Option Tree → Tree
  | none => t
  | some d => .dir name t d

/-- The next step of a run that stages `tree`, with `REPOS_DIR` before and after. -/
def Local.next (tree : Tree) (repos : Option Tree) (l : Local) : Option (Option Tree × Local) :=
  match l.pc with
  | .lockf | .exited _ => none
  | .stage => some (repos, { l with pc := .test, new := some tree, staged := true })
  | .test => some (repos, { l with pc := if repos.isSome then .mktempOld else .install })
  | .mktempOld => some (repos, { l with pc := .rmdirOld, old := some .empty, backup := true })
  | .rmdirOld => some (repos, { l with pc := .setAside, old := none })
  | .setAside =>
    match repos with
    | none => some (none, { l with pc := .trapBackup 1 })
    | some t => some (none, { l with pc := .install, old := some (moved .repos t l.old) })
  | .install =>
    match l.new with
    | none => some (repos, { l with pc := .recover })
    | some t =>
      some (some (moved .new t repos), { l with pc := .testBackup, new := none, staged := false })
  | .recover =>
    match l.backup, l.old with
    | true, some t =>
      some (some (moved .old t repos),
        { l with pc := .trapBackup 1, old := none, backup := false })
    | _, _ => some (repos, { l with pc := .trapBackup 1 })
  | .testBackup =>
    some (repos, { l with pc := if l.backup && l.old.isSome then .rmBackup else .trapBackup 0 })
  | .rmBackup => some (repos, { l with pc := .trapBackup 0, old := none, backup := false })
  | .trapBackup n =>
    some (repos, { l with pc := if l.backup && l.old.isSome then .trapRepos n else .trapStaged n })
  | .trapRepos n =>
    some (repos, { l with pc := if repos.isNone then .trapRestore n else .trapDrop n })
  | .trapRestore n =>
    match l.old with
    | none => some (repos, { l with pc := .trapStaged 1 })
    | some t =>
      some (some (moved .old t repos),
        { l with pc := .trapStaged n, old := none, backup := false })
  | .trapDrop n => some (repos, { l with pc := .trapStaged n, old := none, backup := false })
  | .trapStaged n =>
    some (repos, { l with pc := .exited n, new := if l.staged then none else l.new })

/-! ## Both runs -/

structure State where
  repos : Option Tree
  /-- Who holds the lock. -/
  owner : Option Bool
  procs : Bool → Local

def State.setProc (s : State) (i : Bool) (l : Local) : State :=
  { s with procs := Function.update s.procs i l }

def Pc.hasExited : Pc → Bool
  | .exited _ => true
  | _ => false

/-- A step of run `i`.  `lockf` holds the lock until the script it has started exits. -/
def step (trees : Bool → Tree) (s : State) (i : Bool) : Option State :=
  if (s.procs i).pc = .lockf then
    if s.owner.isSome then none
    else some { s.setProc i { s.procs i with pc := .stage } with owner := some i }
  else
    ((s.procs i).next (trees i) s.repos).map fun c =>
      { s.setProc i c.2 with
        repos := c.1
        owner := if c.2.pc.hasExited && s.owner == some i then none else s.owner }

def Step (trees : Bool → Tree) (s : State) (i : Bool) (t : State) : Prop := step trees s i = some t

def init (normal : Bool → Bool) (old : Tree) : State where
  repos := some old
  owner := none
  procs i := ⟨if normal i then .lockf else .stage, none, none, false, false⟩

/-! ## What one step can do -/

/-- Where a run is with respect to its two renames. -/
inductive Phase
  | before | gap | after | failed
  deriving DecidableEq, Repr

def Pc.phase : Pc → Phase
  | .lockf | .stage | .test | .mktempOld | .rmdirOld | .setAside => .before
  | .install => .gap
  | .testBackup | .rmBackup | .trapBackup 0 | .trapStaged 0 | .exited 0 => .after
  | _ => .failed

theorem install_of_gap {pc : Pc} (h : pc.phase = .gap) : pc = .install := by
  unfold Pc.phase at h
  split at h <;> first | rfl | cases h

def Pc.stagedYet : Pc → Bool
  | .test | .mktempOld | .rmdirOld | .setAside | .install => true
  | _ => false

structure Local.Ok (tree : Tree) (l : Local) : Prop where
  new : l.pc.stagedYet = true → l.new = some tree
  old : l.pc = .setAside → l.old = none
  /-- The trap of a successful run finds no backup. -/
  trap : l.pc = .trapBackup 0 → l.backup = false ∨ l.old = none
  noTrap : l.pc ≠ .trapRepos 0 ∧ l.pc ≠ .trapRestore 0 ∧ l.pc ≠ .trapDrop 0

variable {trees : Bool → Tree} {tree old : Tree} {normal : Bool → Bool} {repos r : Option Tree}
  {l m : Local} {s t : State} {i : Bool} {es : List Bool}

theorem Local.Ok.next (hl : l.Ok tree) (h : l.next tree repos = some (r, m)) : m.Ok tree := by
  rcases l with ⟨pc, new, old, staged, backup⟩
  cases pc with
  | testBackup =>
    cases old <;> cases backup <;> simp only [Local.next] at h <;>
      grind [Local.Ok, Pc.stagedYet]
  | trapBackup n =>
    cases old <;> cases backup <;> simp only [Local.next] at h <;>
      grind [Local.Ok, Pc.stagedYet]
  | _ =>
    simp only [Local.next] at h
    grind [Local.Ok, Pc.stagedYet]

/-- A step leaves `REPOS_DIR` alone and stays in its phase; or it is a test that finds nothing, a
rename to the backup, or a rename from the staging directory; or the run has failed. -/
theorem next_cases (hl : l.Ok tree) (h : l.next tree repos = some (r, m)) :
    (r = repos ∧ m.pc.phase = l.pc.phase) ∨
    (l.pc = .test ∧ repos = none ∧ r = none ∧ m.pc.phase = .gap) ∨
    (l.pc.phase = .before ∧ repos.isSome = true ∧ r = none ∧ m.pc.phase = .gap) ∨
    (l.pc.phase = .gap ∧ r = some (moved .new tree repos) ∧ m.pc.phase = .after) ∨
    m.pc.phase = .failed := by
  obtain ⟨hnew, hold, htrap, hno⟩ := hl
  rcases l with ⟨pc, new, old, staged, backup⟩
  cases pc with
  | test => cases repos <;> simp only [Local.next] at h <;> grind [Pc.phase]
  | trapBackup n =>
    cases old <;> cases backup <;> simp only [Local.next] at h <;> grind [Pc.phase]
  | _ =>
    simp only [Local.next] at h
    grind [Pc.phase, Pc.stagedYet]

theorem failed_next (hl : l.Ok tree) (h : l.next tree repos = some (r, m))
    (hf : l.pc.phase = .failed) : m.pc.phase = .failed := by
  obtain ⟨-, -, -, hno⟩ := hl
  rcases l with ⟨pc, new, old, staged, backup⟩
  cases pc <;> simp only [Local.next] at h <;> grind [Pc.phase]

/-! ## Clean and spoiled states -/

abbrev State.phase (s : State) (i : Bool) : Phase := (s.procs i).pc.phase

/-- `REPOS_DIR` is missing between the renames of one run, and otherwise as it was or a staged
tree. -/
def Clean (trees : Bool → Tree) (s : State) : Prop :=
  (∃ i, s.phase i = .gap ∧ s.phase (!i) ≠ .gap ∧ s.repos = none) ∨
    ∃ c, s.repos = some c ∧ ∀ i, s.phase i ≠ .gap ∧ (s.phase i = .after → ∃ k, c = trees k)

/-- Both runs are past their test, and one of them has no backup. -/
def Spoiled (trees : Bool → Tree) (s : State) : Prop :=
  ((∀ i, s.phase i = .gap) ∧ s.repos = none) ∨
    (∃ i, s.phase i = .gap ∧ s.phase (!i) = .after ∧ s.repos = some (trees !i)) ∨
      (∀ i, s.phase i = .after) ∧ ∃ j, s.repos = some (.dir .new (trees j) (trees !j))

structure Inv (trees : Bool → Tree) (s : State) : Prop where
  ok : ∀ i, (s.procs i).Ok (trees i)
  phase : (∃ i, s.phase i = .failed) ∨ Clean trees s ∨ Spoiled trees s

@[simp] theorem setProc_self : (s.setProc i l).procs i = l := Function.update_self ..

@[simp] theorem setProc_not : (s.setProc i l).procs (!i) = s.procs (!i) :=
  Function.update_of_ne (by cases i <;> simp) ..

theorem forall_proc {P : Bool → Prop} (i : Bool) : (∀ k, P k) ↔ P i ∧ P (!i) := by
  cases i <;> simp [and_comm]

/-- A step of the system is a step of one run, or takes the lock. -/
theorem step_cases (h : Step trees s i t) :
    ((s.procs i).pc = .lockf ∧ s.owner = none ∧
      t = { s.setProc i { s.procs i with pc := .stage } with owner := some i }) ∨
    ∃ r m, (s.procs i).next (trees i) s.repos = some (r, m) ∧
      t = { s.setProc i m with
        repos := r
        owner := if m.pc.hasExited && s.owner == some i then none else s.owner } := by
  unfold Step step at h
  split_ifs at h with hl ho
  · exact .inl ⟨hl, by simpa using ho, (Option.some.inj h).symm⟩
  · obtain ⟨⟨r, m⟩, hn, rfl⟩ := Option.map_eq_some_iff.1 h
    exact .inr ⟨r, m, hn, rfl⟩

/-- What a step of run `i` does to the phases and to `REPOS_DIR`. -/
theorem phase_cases (hs : ∀ i, (s.procs i).Ok (trees i)) (h : Step trees s i t) :
    t.phase (!i) = s.phase (!i) ∧
      ((t.repos = s.repos ∧ t.phase i = s.phase i) ∨
      ((s.procs i).pc = .test ∧ s.repos = none ∧ t.repos = none ∧ t.phase i = .gap) ∨
      (s.phase i = .before ∧ s.repos.isSome = true ∧ t.repos = none ∧ t.phase i = .gap) ∨
      (s.phase i = .gap ∧ t.repos = some (moved .new (trees i) s.repos) ∧ t.phase i = .after) ∨
      t.phase i = .failed) := by
  rcases step_cases h with ⟨hl, -, rfl⟩ | ⟨r, m, hn, rfl⟩
  · refine ⟨congrArg (·.pc.phase) setProc_not, .inl ⟨rfl, ?_⟩⟩
    refine (congrArg (·.pc.phase) setProc_self).trans ?_
    show Phase.before = (s.procs i).pc.phase
    rw [hl]
    rfl
  · refine ⟨congrArg (·.pc.phase) setProc_not, ?_⟩
    have hm : State.phase { s.setProc i m with
        repos := r
        owner := if m.pc.hasExited && s.owner == some i then none else s.owner } i = m.pc.phase :=
      congrArg (·.pc.phase) setProc_self
    rw [hm]
    exact next_cases (hs i) hn

theorem ok_step (hs : ∀ i, (s.procs i).Ok (trees i)) (h : Step trees s i t) :
    ∀ i, (t.procs i).Ok (trees i) := by
  rcases step_cases h with ⟨hl, -, rfl⟩ | ⟨r, m, hn, rfl⟩
  · refine (forall_proc i).2 ⟨?_, ?_⟩
    · rw [setProc_self]
      exact ⟨nofun, nofun, nofun, nofun, nofun, nofun⟩
    · rw [setProc_not]
      exact hs _
  · refine (forall_proc i).2 ⟨?_, ?_⟩
    · rw [setProc_self]
      exact (hs i).next hn
    · rw [setProc_not]
      exact hs _

theorem phase_ext (hrepos : t.repos = s.repos) (hi : t.phase i = s.phase i)
    (hj : t.phase (!i) = s.phase (!i)) : (Clean trees t ↔ Clean trees s) ∧
      (Spoiled trees t ↔ Spoiled trees s) := by
  have hall : ∀ k, t.phase k = s.phase k := (forall_proc i).2 ⟨hi, hj⟩
  simp only [Clean, Spoiled, hall, hrepos, and_self]

/-- A test finds nothing between the renames of the other run, and then both are there. -/
theorem spoiled_of_clean (hc : Clean trees s) (hb : s.phase i = .before) (hr : s.repos = none)
    (hr' : t.repos = none) (hi : t.phase i = .gap) (hj : t.phase (!i) = s.phase (!i)) :
    Spoiled trees t := by
  rcases hc with ⟨k, hk, -, -⟩ | ⟨c, hc, -⟩
  · rcases Bool.eq_or_eq_not k i with rfl | rfl
    · rw [hb] at hk; cases hk
    · exact .inl ⟨(forall_proc i).2 ⟨hi, hj.trans hk⟩, hr'⟩
  · rw [hr] at hc; cases hc

theorem phase_test (h : (s.procs i).pc = .test) : s.phase i = .before := by
  rw [State.phase, h]; rfl

/-- From a clean state only a test that finds nothing leads to a spoiled one. -/
theorem clean_step (hs : ∀ i, (s.procs i).Ok (trees i)) (hc : Clean trees s)
    (h : Step trees s i t) :
    (∃ k, t.phase k = .failed) ∨ Clean trees t ∨
      (s.procs i).pc = .test ∧ s.repos = none ∧ Spoiled trees t := by
  obtain ⟨hj, ⟨hr, hi⟩ | ⟨hpc, hr, hr', hi⟩ | ⟨hb, hr, hr', hi⟩ | ⟨hg, hr, hi⟩ | hf⟩ :=
    phase_cases hs h
  · exact .inr (.inl ((phase_ext hr hi hj).1.2 hc))
  · exact .inr (.inr ⟨hpc, hr, spoiled_of_clean hc (phase_test hpc) hr hr' hi hj⟩)
  · rcases hc with ⟨k, -, -, hn⟩ | ⟨c, -, hc⟩
    · rw [hn] at hr; cases hr
    · exact .inr (.inl (.inl ⟨i, hi, hj ▸ (hc (!i)).1, hr'⟩))
  · rcases hc with ⟨k, hk, hk', hn⟩ | ⟨c, -, hc⟩
    · rcases Bool.eq_or_eq_not k i with rfl | rfl
      · refine .inr (.inl (.inr ⟨trees k, by rw [hr, hn]; rfl, (forall_proc k).2 ⟨?_, ?_⟩⟩))
        · rw [hi]; exact ⟨nofun, fun _ => ⟨k, rfl⟩⟩
        · rw [hj]; exact ⟨hk', fun _ => ⟨k, rfl⟩⟩
      · rw [Bool.not_not] at hk'; exact absurd hg hk'
    · exact absurd hg (hc i).1
  · exact .inl ⟨i, hf⟩

/-- In a spoiled state nobody is going to test. -/
theorem ne_before_of_spoiled (hc : Spoiled trees s) (i : Bool) : s.phase i ≠ .before := by
  rcases hc with ⟨hall, -⟩ | ⟨k, hk, hk', -⟩ | ⟨hall, -⟩
  · rw [hall i]; exact nofun
  · rcases Bool.eq_or_eq_not k i with rfl | rfl
    · rw [hk]; exact nofun
    · rw [Bool.not_not] at hk'; rw [hk']; exact nofun
  · rw [hall i]; exact nofun

theorem spoiled_step (hs : ∀ i, (s.procs i).Ok (trees i)) (hc : Spoiled trees s)
    (h : Step trees s i t) : (∃ k, t.phase k = .failed) ∨ Spoiled trees t := by
  have hne := ne_before_of_spoiled hc i
  obtain ⟨hj, ⟨hr, hi⟩ | ⟨hpc, -, -, -⟩ | ⟨hb, -, -, -⟩ | ⟨hg, hr, hi⟩ | hf⟩ := phase_cases hs h
  · exact .inr ((phase_ext hr hi hj).2.2 hc)
  · exact absurd (phase_test hpc) hne
  · exact absurd hb hne
  · rcases hc with ⟨hall, hn⟩ | ⟨k, hk, hk', hc⟩ | ⟨hall, -⟩
    · refine .inr (.inr (.inl ⟨!i, hj.trans (hall _), ?_⟩))
      rw [Bool.not_not, hr, hn]
      exact ⟨hi, rfl⟩
    · rcases Bool.eq_or_eq_not k i with rfl | rfl
      · exact .inr (.inr (.inr ⟨(forall_proc k).2 ⟨hi, hj.trans hk'⟩, k, by rw [hr, hc]; rfl⟩))
      · rw [Bool.not_not, hg] at hk'; cases hk'
    · rw [hall i] at hg; cases hg
  · exact .inl ⟨i, hf⟩

theorem failed_step (hs : ∀ i, (s.procs i).Ok (trees i)) (hf : ∃ k, s.phase k = .failed)
    (h : Step trees s i t) : ∃ k, t.phase k = .failed := by
  obtain ⟨k, hk⟩ := hf
  rcases Bool.eq_or_eq_not k i with rfl | rfl
  · rcases step_cases h with ⟨hl, -, -⟩ | ⟨r, m, hn, rfl⟩
    · rw [State.phase, hl] at hk; cases hk
    · exact ⟨k, (congrArg (·.pc.phase) setProc_self).trans (failed_next (hs k) hn hk)⟩
  · exact ⟨!i, (phase_cases hs h).1.trans hk⟩

theorem Inv.step (hs : Inv trees s) (h : Step trees s i t) : Inv trees t := by
  refine ⟨ok_step hs.ok h, ?_⟩
  rcases hs.phase with hf | hc | hsp
  · exact .inl (failed_step hs.ok hf h)
  · rcases clean_step hs.ok hc h with hf | hc | ⟨-, -, hsp⟩
    · exact .inl hf
    · exact .inr (.inl hc)
    · exact .inr (.inr hsp)
  · rcases spoiled_step hs.ok hsp h with hf | hsp
    · exact .inl hf
    · exact .inr (.inr hsp)

theorem clean_init : Clean trees (init normal old) := by
  refine .inr ⟨old, rfl, fun i => ?_⟩
  cases hn : normal i <;> simp [State.phase, init, hn, Pc.phase]

theorem Inv.init : Inv trees (init normal old) := by
  refine ⟨fun i => ?_, .inr (.inl clean_init)⟩
  cases hn : normal i <;> constructor <;> simp [Concurrent.init, hn, Pc.stagedYet]

theorem Inv.of_run (r : Run (Step trees) s es t) (hs : Inv trees s) : Inv trees t :=
  r.invariant (fun _ _ _ hs h => hs.step h) hs

/-- A run that has failed does not succeed any more. -/
theorem not_failed_of_run (r : Run (Step trees) s es t) (hs : Inv trees s)
    (ht : ∀ k, t.phase k ≠ .failed) : ∀ k, s.phase k ≠ .failed := by
  intro k hk
  have hfail := r.invariant (I := fun s => Inv trees s ∧ ∃ k, s.phase k = .failed)
    (fun _ _ _ hs h => ⟨hs.1.step h, failed_step hs.1.ok hs.2 h⟩) ⟨hs, k, hk⟩
  obtain ⟨k, hk⟩ := hfail.2
  exact ht k hk

/-! ## The end -/

/-- Every existence test of the runs finds a directory. -/
def TestsFind (trees : Bool → Tree) (s : State) (es : List Bool) : Prop :=
  ∀ es₁ i es₂ u, es = es₁ ++ i :: es₂ → Run (Step trees) s es₁ u → (u.procs i).pc = .test →
    u.repos.isSome = true

/-- A directory with a staged one inside is neither of the two. -/
theorem dir_ne (i j : Bool) : Tree.dir .new (trees j) (trees !j) ≠ trees i := by
  intro h
  have hsize := congrArg sizeOf h
  rcases Bool.eq_or_eq_not i j with rfl | rfl
  · simp at hsize
    omega
  · simp at hsize

theorem clean_of_run (r : Run (Step trees) (init normal old) es t)
    (hfind : TestsFind trees (init normal old) es) :
    (∃ k, t.phase k = .failed) ∨ Clean trees t := by
  have r' := r.restrict
    (G := fun (u : State) i => (u.procs i).pc = .test → u.repos.isSome = true) hfind
  refine (r'.invariant (I := fun s => Inv trees s ∧ ((∃ k, s.phase k = .failed) ∨ Clean trees s))
    (fun s i t => ?_) ⟨.init, .inr clean_init⟩).2
  rintro ⟨hs, hf | hc⟩ ⟨h, hg⟩
  · exact ⟨hs.step h, .inl (failed_step hs.ok hf h)⟩
  · refine ⟨hs.step h, ?_⟩
    rcases clean_step hs.ok hc h with hf | hc | ⟨hpc, hn, -⟩
    · exact .inl hf
    · exact .inr hc
    · exact absurd (hg hpc) (by simp [hn])

theorem test_step (h : Step trees s i t) (hpc : (s.procs i).pc = .test) (hr : s.repos = none) :
    t.repos = none ∧ t.phase i = .gap ∧ t.phase (!i) = s.phase (!i) := by
  rcases step_cases h with ⟨hl, -, -⟩ | ⟨r, m, hn, rfl⟩
  · rw [hpc] at hl; cases hl
  · simp only [Local.next, hpc, hr, Option.some.injEq, Prod.mk.injEq] at hn
    obtain ⟨rfl, rfl⟩ := hn
    exact ⟨rfl, congrArg (·.pc.phase) setProc_self, congrArg (·.pc.phase) setProc_not⟩

/-- A test that finds nothing spoils the rest. -/
theorem spoiled_of_test (hs : Inv trees s) (hnf : ∀ k, s.phase k ≠ .failed)
    (hpc : (s.procs i).pc = .test) (hn : s.repos = none)
    (r : Run (Step trees) s (i :: es) t) : (∃ k, t.phase k = .failed) ∨ Spoiled trees t := by
  have hb := phase_test hpc
  have hc : Clean trees s := by
    rcases hs.phase with ⟨k, hk⟩ | hc | hsp
    · exact absurd hk (hnf k)
    · exact hc
    · exact absurd hb (ne_before_of_spoiled hsp i)
  cases r with
  | cons h r =>
    obtain ⟨hr, hi, hj⟩ := test_step h hpc hn
    refine (r.invariant
      (I := fun s => Inv trees s ∧ ((∃ k, s.phase k = .failed) ∨ Spoiled trees s))
      (fun u k v => ?_) ⟨hs.step h, .inr (spoiled_of_clean hc hb hn hr hi hj)⟩).2
    rintro ⟨hu, hf | hsp⟩ h
    · exact ⟨hu.step h, .inl (failed_step hu.ok hf h)⟩
    · exact ⟨hu.step h, spoiled_step hu.ok hsp h⟩

/-! ## The lock -/

/-- A normal run has the lock between taking it and its exit. -/
def Locked (normal : Bool → Bool) (s : State) : Prop :=
  ∀ i, normal i = true → (s.procs i).pc ≠ .lockf → (s.procs i).pc.hasExited = false →
    s.owner = some i

theorem next_started (h : l.next tree repos = some (r, m)) :
    l.pc ≠ .lockf ∧ l.pc.hasExited = false ∧ m.pc ≠ .lockf := by
  rcases l with ⟨pc, new, old, staged, backup⟩
  cases pc <;> simp only [Local.next] at h <;> grind [Pc.hasExited]

theorem Locked.step (hs : Locked normal s) (h : Step trees s i t) : Locked normal t := by
  rcases step_cases h with ⟨hl, ho, rfl⟩ | ⟨r, m, hn, rfl⟩
  · refine (forall_proc i).2 ⟨fun _ _ _ => rfl, fun hk hp he => ?_⟩
    have hself : (s.setProc i { s.procs i with pc := .stage }).procs (!i) = s.procs (!i) :=
      setProc_not
    have := hs (!i) hk (hself ▸ hp) (hself ▸ he)
    rw [ho] at this
    cases this
  · obtain ⟨hl, he, hm⟩ := next_started hn
    have hother : (s.setProc i m).procs (!i) = s.procs (!i) := setProc_not
    have hself : (s.setProc i m).procs i = m := setProc_self
    refine (forall_proc i).2 ⟨fun hk _ he' => ?_, fun hk hp he' => ?_⟩
    · have he' : m.pc.hasExited = false := hself ▸ he'
      simpa [he'] using hs i hk hl he
    · have ho : s.owner = some !i := hs (!i) hk (hother ▸ hp) (hother ▸ he')
      simp [ho]

theorem Locked.of_run (r : Run (Step trees) (init normal old) es t) : Locked normal t := by
  refine r.invariant (fun _ _ _ hs h => hs.step h) fun i hn hp _ => ?_
  simp [init, hn] at hp

theorem run_cut {u : State} {es₁ es₂ : List Bool} (r : Run (Step trees) s (es₁ ++ es₂) t)
    (r₁ : Run (Step trees) s es₁ u) : Run (Step trees) u es₂ t := by
  obtain ⟨v, rv, r₂⟩ := r.append_inv
  have huv : v = u := rv.unique (fun _ _ _ _ h h' => Option.some.inj (h.symm.trans h')) r₁
  exact huv ▸ r₂

/-- Under the lock no test falls between the renames of the other run. -/
theorem testsFind_of_normal (hn : ∀ i, normal i = true)
    (r : Run (Step trees) (init normal old) es t) (ht : ∀ k, t.phase k ≠ .failed) :
    TestsFind trees (init normal old) es := by
  rintro es₁ i es₂ u rfl r₁ hpc
  have hinv : Inv trees u := .of_run r₁ .init
  have hlock : Locked normal u := .of_run r₁
  have hb := phase_test hpc
  have howner : u.owner = some i := hlock i (hn i) (by rw [hpc]; exact nofun) (by rw [hpc]; rfl)
  rcases hinv.phase with ⟨k, hk⟩ | (⟨k, hk, -, -⟩ | ⟨c, hc, -⟩) | hsp
  · exact absurd hk (not_failed_of_run (run_cut r r₁) hinv ht k)
  · -- the other run would have the lock as well
    have hpk := install_of_gap hk
    have hk : u.owner = some k := hlock k (hn k) (by rw [hpk]; exact nofun) (by rw [hpk]; rfl)
    rw [howner] at hk
    cases hk
    rw [hpc] at hpk
    cases hpk
  · rw [hc]; rfl
  · exact absurd hb (ne_before_of_spoiled hsp i)

/-- **Two runs at once.**  When both have exited with success, `REPOS_DIR` is exactly what one of
them has staged if and only if every existence test of the two found a directory.  Between two
normal runs this is always so. -/
theorem coherent_iff (r : Run (Step trees) (init normal old) es t)
    (hexit : ∀ i, (t.procs i).pc = .exited 0) :
    ((∃ i, t.repos = some (trees i)) ↔ TestsFind trees (init normal old) es) ∧
      ((∀ i, normal i = true) → TestsFind trees (init normal old) es) := by
  have hafter : ∀ i, t.phase i = .after := fun i => by rw [State.phase, hexit i]; rfl
  have hnf : ∀ i, t.phase i ≠ .failed := fun i => by rw [hafter i]; exact nofun
  refine ⟨⟨fun ⟨k, hk⟩ => ?_, fun hfind => ?_⟩, fun hn => testsFind_of_normal hn r hnf⟩
  · rintro es₁ i es₂ u rfl r₁ hpc
    have hinv : Inv trees u := .of_run r₁ .init
    have r₂ := run_cut r r₁
    by_contra hnone
    rcases spoiled_of_test hinv (not_failed_of_run r₂ hinv hnf) hpc (by simpa using hnone) r₂ with
      ⟨j, hj⟩ | hsp
    · exact hnf j hj
    · rcases hsp with ⟨hall, -⟩ | ⟨j, hj, -⟩ | ⟨-, j, hj⟩
      · exact absurd ((hafter true).symm.trans (hall true)) nofun
      · exact absurd ((hafter j).symm.trans hj) nofun
      · exact dir_ne k j (Option.some.inj (hj.symm.trans hk))
  · rcases clean_of_run r hfind with ⟨k, hk⟩ | ⟨k, hk, -⟩ | ⟨c, hc, hall⟩
    · exact absurd hk (hnf k)
    · exact absurd ((hafter k).symm.trans hk) nofun
    · obtain ⟨k, rfl⟩ := (hall true).2 (hafter true)
      exact ⟨k, hc⟩

def sampleTrees : Bool → Tree
  | false => .file "FreeSense-repo-stable.conf".toList [] .empty
  | true => .file "FreeSense-repo-baked.conf".toList [] .empty

/-- A normal run and one with `-l`. -/
def oneNormal (i : Bool) : Bool := !i

def inTurn : List Bool := List.replicate 11 false ++ List.replicate 10 true

theorem coherent_iff_inTurn :
    ∃ t, Run (Step sampleTrees) (init oneNormal .empty) inTurn t ∧
      (∀ i, (t.procs i).pc = .exited 0) ∧ t.repos = some (sampleTrees true) ∧
      TestsFind sampleTrees (init oneNormal .empty) inTurn := by
  have h : (inTurn.foldlM (step sampleTrees) (init oneNormal .empty)).map
      (fun t => (((t.procs false).pc, (t.procs true).pc), t.repos))
        = some ((.exited 0, .exited 0), some (sampleTrees true)) := by
    decide +kernel
  obtain ⟨t, ht, h⟩ := Option.map_eq_some_iff.1 h
  simp only [Prod.mk.injEq] at h
  have hexit : ∀ i, (t.procs i).pc = .exited 0 := (forall_proc false).2 h.1
  exact ⟨t, Run.of_foldlM ht, hexit, h.2, (coherent_iff (Run.of_foldlM ht) hexit).1.mp ⟨true, h.2⟩⟩

/-- The run with `-l` tests between the renames of the normal run, and is the first to install. -/
def inBetween : List Bool :=
  List.replicate 6 false ++ List.replicate 6 true ++ List.replicate 5 false

/-- **A run with `-l` during a normal run.**  Both succeed, and `REPOS_DIR` is what the one with `-l`
has staged, with the staging directory of the normal run inside. -/
theorem staged_inside_staged :
    ∃ t, Run (Step sampleTrees) (init oneNormal .empty) inBetween t ∧
      (∀ i, (t.procs i).pc = .exited 0) ∧
      t.repos = some (.dir .new (sampleTrees false) (sampleTrees true)) ∧
      ¬ ∃ i, t.repos = some (sampleTrees i) := by
  have h : (inBetween.foldlM (step sampleTrees) (init oneNormal .empty)).map
      (fun t => ((t.procs false).pc, (t.procs true).pc, t.repos)) =
        some (.exited 0, .exited 0, some (.dir .new (sampleTrees false) (sampleTrees true))) := by
    decide +kernel
  obtain ⟨t, ht, h⟩ := Option.map_eq_some_iff.1 h
  simp only [Prod.mk.injEq] at h
  obtain ⟨h₀, h₁, hr⟩ := h
  refine ⟨t, Run.of_foldlM ht, (forall_proc false).2 ⟨h₀, h₁⟩, hr, ?_⟩
  rintro ⟨i, hi⟩
  exact dir_ne i false (Option.some.inj (hr.symm.trans hi))

end FreeSense.Repoc.Concurrent
