import FreeSensePorts.Core.Run
import FreeSensePorts.Filterdns.Model

/-!
# The locks of `filterdns`

The threads of the daemon as sequences of lock and semaphore operations: `merge_config` (`MergePc`),
one thread of `check_hostname` (`HostPc`), and a thread of `check_action` for each action (`ActPc`).
The addresses are left out.

`merge_config` deletes an action under the write lock: `host_del` takes the host away, posts the
semaphore of the thread and waits for it to end.  The thread looks at its host *before* it takes the
read lock.  If it has found one, or has not yet come past its very first read lock, the two wait for
each other (`waitExit_of_run`).  There is no other way to get stuck.

Which actions are new, deleted or posted is in the label.  A thread that unlocks without holding the
lock changes nothing: FreeBSD answers `EPERM`.
-/

namespace FreeSense.Filterdns.Locks

/-! ## The threads -/

inductive ActPc
  /-- No such action yet. -/
  | absent
  /-- Read from the file, without a thread. -/
  | parsed
  | rdlockFirst | setRunning | unlock | semWait | test | rdlock | work
  /-- After the loop. -/
  | unlockOut | setDying | postExit | setStopped | done
  deriving DecidableEq, Repr

structure Act where
  pc : ActPc
  state : ThrState
  /-- `act->host != NULL`. -/
  host : Bool
  sem : ℕ
  exitSem : ℕ
  deriving DecidableEq, Repr

/-- The last five are the statements of `host_del` for an action. -/
inductive MergePc
  | semWait | wrlock | merging | starting | waking | unlock
  | clearHost (j : ℕ) | testState (j : ℕ) | postSem (j : ℕ) | waitExit (j : ℕ) | postHost (j : ℕ)
  deriving DecidableEq, Repr

inductive HostPc
  | testRefcnt | tryrdlock | posting | unlock | wait | out
  deriving DecidableEq, Repr

/-- Who can hold the read lock. -/
inductive Reader
  | host
  | act (i : ℕ)
  deriving DecidableEq, Repr

structure State where
  /-- `merge_config` has the write lock. -/
  writer : Bool
  readers : Finset Reader
  mergeSem : ℕ
  merge : MergePc
  host : HostPc
  hostSem : ℕ
  refcnt : ℕ
  acts : ℕ → Act

def State.setAct (s : State) (i : ℕ) (a : Act) : State :=
  { s with acts := Function.update s.acts i a }

/-! ## Steps -/

/-- The next operation of the thread of an action, if it does not have to wait. -/
def Act.next (writer : Bool) (a : Act) : Option Act :=
  match a.pc with
  | .absent | .parsed | .done => none
  | .rdlockFirst => if writer then none else some { a with pc := .setRunning }
  | .setRunning => some { a with pc := .unlock, state := .RUNNING }
  | .unlock => some { a with pc := .semWait }
  | .semWait => if a.sem = 0 then none else some { a with pc := .test, sem := a.sem - 1 }
  | .test => some { a with pc := if a.host then .rdlock else .unlockOut }
  | .rdlock => if writer then none else some { a with pc := .work }
  | .work => some { a with pc := .unlock }
  | .unlockOut => some { a with pc := .setDying }
  | .setDying => some { a with pc := .postExit, state := .DYING }
  | .postExit => some { a with pc := .setStopped, exitSem := a.exitSem + 1 }
  | .setStopped => some { a with pc := .done, state := .STOPPED }

/-- What that operation does to the lock. -/
def ActPc.lock (i : ℕ) (readers : Finset Reader) : ActPc → Finset Reader
  | .rdlockFirst | .rdlock => insert (.act i) readers
  | .unlock | .unlockOut => readers.erase (.act i)
  | _ => readers

def actStep (i : ℕ) (s : State) : Option State :=
  ((s.acts i).next s.writer).map fun a =>
    { s.setAct i a with readers := (s.acts i).pc.lock i s.readers }

/-- What the new configuration decides. -/
inductive Choice
  | next
  /-- The file has a line for a new action. -/
  | add (i : ℕ)
  /-- `action_del`. -/
  | del (i : ℕ)
  /-- `action_create`. -/
  | start (i : ℕ)
  deriving DecidableEq, Repr

/-- `state > THR_DYING`. -/
def alive : ThrState → Bool
  | .STOPPED | .DYING => false
  | .STARTING | .RUNNING => true

def mergeStep (c : Choice) (s : State) : Option State :=
  match s.merge, c with
  | .semWait, .next =>
    if s.mergeSem = 0 then none
    else some { s with merge := .wrlock, mergeSem := s.mergeSem - 1 }
  | .wrlock, .next =>
    if s.writer ∨ s.readers ≠ ∅ then none else some { s with merge := .merging, writer := true }
  | .merging, .add i =>
    if (s.acts i).pc = .absent then
      some { s.setAct i ⟨.parsed, .STOPPED, true, 0, 0⟩ with refcnt := s.refcnt + 1 }
    else none
  | .merging, .del i => if (s.acts i).host then some { s with merge := .clearHost i } else none
  | .merging, .next => some { s with merge := .starting }
  | .clearHost j, .next =>
    some { s.setAct j { s.acts j with host := false } with
      refcnt := s.refcnt - 1, merge := .testState j }
  | .testState j, .next =>
    some { s with
      merge := if alive (s.acts j).state then .postSem j else .postHost j }
  | .postSem j, .next =>
    some { s.setAct j { s.acts j with sem := (s.acts j).sem + 1 } with merge := .waitExit j }
  | .waitExit j, .next =>
    if (s.acts j).exitSem = 0 then none
    else some { s.setAct j { s.acts j with exitSem := (s.acts j).exitSem - 1 } with
      merge := .postHost j }
  | .postHost _, .next => some { s with merge := .merging, hostSem := s.hostSem + 1 }
  | .starting, .start i =>
    if (s.acts i).host ∧ (s.acts i).state = .STOPPED then
      some (s.setAct i ⟨.rdlockFirst, .STARTING, true, 0, 0⟩)
    else none
  | .starting, .next => some { s with merge := .waking }
  | .waking, .next => some { s with merge := .unlock, hostSem := s.hostSem + 1 }
  | .unlock, .next => some { s with merge := .semWait, writer := false }
  | _, _ => none

/-- What the lookup and the clock decide. -/
inductive Turn
  | next
  | post (i : ℕ)
  | timeout
  deriving DecidableEq, Repr

def hostStep (c : Turn) (s : State) : Option State :=
  match s.host, c with
  | .testRefcnt, .next =>
    some { s with host := if s.refcnt = 0 then .out else .tryrdlock }
  | .tryrdlock, .next =>
    if s.writer then some { s with host := .wait }
    else some { s with host := .posting, readers := insert .host s.readers }
  | .posting, .post i =>
    if (s.acts i).host then
      some (s.setAct i { s.acts i with sem := (s.acts i).sem + 1 })
    else none
  | .posting, .next => some { s with host := .unlock }
  | .unlock, .next => some { s with host := .wait, readers := s.readers.erase .host }
  | .wait, .next =>
    if s.hostSem = 0 then none
    else some { s with host := .testRefcnt, hostSem := s.hostSem - 1 }
  | .wait, .timeout => some { s with host := .testRefcnt }
  | _, _ => none

inductive Event
  | act (i : ℕ)
  | merge (c : Choice)
  | host (c : Turn)
  /-- `SIGHUP`. -/
  | signal
  deriving DecidableEq, Repr

def step (s : State) : Event → Option State
  | .act i => actStep i s
  | .merge c => mergeStep c s
  | .host c => hostStep c s
  | .signal => some { s with mergeSem := s.mergeSem + 1 }

def Step (s : State) (e : Event) (t : State) : Prop := step s e = some t

/-- The end of `main`: threads for the actions of the first configuration. -/
def init (actions : Finset ℕ) : State where
  writer := false
  readers := ∅
  mergeSem := 0
  merge := .semWait
  host := .testRefcnt
  hostSem := 0
  refcnt := actions.card
  acts i := if i ∈ actions then ⟨.rdlockFirst, .STARTING, true, 0, 0⟩
    else ⟨.absent, .STOPPED, false, 0, 0⟩

/-! ## What one operation of an action can do -/

def ActPc.state : ActPc → ThrState
  | .absent | .parsed | .done => .STOPPED
  | .rdlockFirst | .setRunning => .STARTING
  | .postExit | .setStopped => .DYING
  | _ => .RUNNING

/-- Between a lock and its unlock. -/
def ActPc.reads : ActPc → Bool
  | .setRunning | .unlock | .work => true
  | _ => false

def ActPc.atRdlock : ActPc → Bool
  | .rdlockFirst | .rdlock => true
  | _ => false

/-- Out of the loop. -/
def ActPc.left : ActPc → Bool
  | .unlockOut | .setDying | .postExit | .setStopped | .done => true
  | _ => false

/-- Past the post of `exit_sem`. -/
def ActPc.posted : ActPc → Bool
  | .setStopped | .done => true
  | _ => false

structure Act.Ok (a : Act) : Prop where
  state : a.state = a.pc.state
  absent : a.pc = .absent → a.host = false
  left : a.pc.left = true → a.host = false
  exit : a.pc.posted = false → a.exitSem = 0

variable {w : Bool} {a b : Act} {i j k : ℕ} {s s' t u : State} {actions : Finset ℕ}
  {es fs : List Event}

theorem Act.Ok.next (ha : a.Ok) (h : a.next w = some b) : b.Ok := by
  rcases a with ⟨pc, st, host, sem, x⟩
  cases pc <;> simp only [Act.next] at h <;> grind [Act.Ok, ActPc.state, ActPc.left, ActPc.posted]

theorem Act.next_host (h : a.next w = some b) : b.host = a.host := by
  rcases a with ⟨pc, st, host, sem, x⟩
  cases pc <;> simp only [Act.next] at h <;> grind

theorem Act.next_started (h : a.next w = some b) : b.pc ≠ .absent ∧ b.pc ≠ .parsed := by
  rcases a with ⟨pc, st, host, sem, x⟩
  cases pc <;> simp only [Act.next] at h <;> grind

theorem Act.next_posted (h : a.next w = some b) (ha : a.pc.posted = true → 0 < a.exitSem)
    (hb : b.pc.posted = true) : 0 < b.exitSem := by
  rcases a with ⟨pc, st, host, sem, x⟩
  cases pc <;> simp only [Act.next] at h <;> grind [ActPc.posted]

/-- The semaphore is waited on only after an unlock. -/
theorem Act.next_semWait (h : a.next w = some b) (hb : b.pc = .semWait) : a.pc = .unlock := by
  rcases a with ⟨pc, st, host, sem, x⟩
  cases pc <;> simp only [Act.next] at h <;> grind

/-- Without a host the loop is not entered again, and the write lock holds up who is at a read
lock. -/
theorem Act.next_atRdlock (h : a.next true = some b) (hh : a.host = false) :
    a.pc.atRdlock = false ∧ b.pc.atRdlock = false := by
  rcases a with ⟨pc, st, host, sem, x⟩
  cases pc <;> simp only [Act.next] at h <;> grind [ActPc.atRdlock]

/-! ## The invariant -/

def MergePc.holds : MergePc → Bool
  | .semWait | .wrlock => false
  | _ => true

/-- `act->exit_sem` is going to be posted, or is. -/
structure Act.Awaited (a : Act) : Prop where
  host : a.host = false
  started : a.pc ≠ .absent ∧ a.pc ≠ .parsed
  posted : a.pc.posted = true → 0 < a.exitSem

/-- What `host_del` knows at each of its statements. -/
def MergePc.Ok (acts : ℕ → Act) : MergePc → Prop
  | .clearHost j => (acts j).host = true
  | .testState j => (acts j).host = false ∧ (acts j).pc ≠ .absent
  | .postSem j => (acts j).Awaited
  | .waitExit j => (acts j).Awaited ∧ ((acts j).pc = .semWait → 0 < (acts j).sem)
  | _ => True

structure Inv (s : State) : Prop where
  writer : s.writer = s.merge.holds
  excl : s.writer = true → s.readers = ∅
  acts : ∀ i, (s.acts i).Ok
  reads : ∀ i, (s.acts i).pc.reads = true → .act i ∈ s.readers
  merge : s.merge.Ok s.acts

@[simp] theorem setAct_self : (s.setAct i a).acts i = a := Function.update_self ..

theorem setAct_of_ne (h : k ≠ i) : (s.setAct i a).acts k = s.acts k := Function.update_of_ne h ..

theorem Inv.init : Inv (init actions) where
  writer := rfl
  excl := fun _ => rfl
  acts := fun i => by
    show (if i ∈ actions then _ else _ : Act).Ok
    split_ifs
    · exact ⟨rfl, nofun, nofun, fun _ => rfl⟩
    · exact ⟨rfl, fun _ => rfl, nofun, fun _ => rfl⟩
  reads := fun i h => by
    simp only [Locks.init] at h
    split_ifs at h
    · exact absurd h (by decide)
    · exact absurd h (by decide)
  merge := trivial

variable {r : Finset Reader} {m : MergePc} {c : Choice} {e : Event}

/-- The thread that moves has what it reads under the lock, and the lock of the others is as it
was. -/
theorem mem_lock (h : a.next w = some b) (hb : b.pc.reads = true)
    (hr : a.pc.reads = true → .act i ∈ r) : .act i ∈ a.pc.lock i r := by
  rcases a with ⟨pc, st, host, sem, x⟩
  cases pc <;> simp only [Act.next] at h <;> grind [ActPc.reads, ActPc.lock]

theorem mem_lock_of_ne {pc : ActPc} {x : Reader} (hx : x ≠ .act i) : x ∈ pc.lock i r ↔ x ∈ r := by
  cases pc <;> simp [ActPc.lock, hx]

/-- Under the write lock nobody becomes a reader. -/
theorem lock_of_writer (h : a.next true = some b) : a.pc.lock i ∅ = ∅ := by
  rcases a with ⟨pc, st, host, sem, x⟩
  cases pc <;> simp only [Act.next] at h <;> grind [ActPc.lock]

theorem Act.Awaited.next (ha : a.Awaited) (h : a.next w = some b) : b.Awaited :=
  ⟨(Act.next_host h).trans ha.host, Act.next_started h, Act.next_posted h ha.posted⟩

/-- An operation of an action under the write lock keeps what `host_del` knows.  The thread cannot
come to its `sem_wait` then: it would have to unlock first. -/
theorem MergePc.Ok.next (hm : m.Ok s.acts) (h : (s.acts i).next w = some b)
    (hr : m.holds = true → (s.acts i).pc.reads = false) : m.Ok (s.setAct i b).acts := by
  have hreads : m.holds = true → b.pc ≠ .semWait := fun hh hb => by
    have := hr hh
    rw [Act.next_semWait h hb] at this
    exact absurd this (by decide)
  cases m with
  | clearHost j =>
    by_cases hj : j = i
    · subst hj; simpa [MergePc.Ok] using (Act.next_host h).trans hm
    · simpa [MergePc.Ok, setAct_of_ne hj] using hm
  | testState j =>
    by_cases hj : j = i
    · subst hj; simpa [MergePc.Ok, (Act.next_host h).trans hm.1] using (Act.next_started h).1
    · simpa [MergePc.Ok, setAct_of_ne hj] using hm
  | postSem j =>
    by_cases hj : j = i
    · subst hj; simpa [MergePc.Ok] using Act.Awaited.next hm h
    · simpa [MergePc.Ok, setAct_of_ne hj] using hm
  | waitExit j =>
    by_cases hj : j = i
    · subst hj
      simpa [MergePc.Ok] using ⟨Act.Awaited.next hm.1 h, fun hb => absurd hb (hreads rfl)⟩
    · simpa [MergePc.Ok, setAct_of_ne hj] using hm
  | _ => trivial

theorem actStep_eq_some : actStep i s = some t ↔
    ∃ b, (s.acts i).next s.writer = some b ∧
      t = { s.setAct i b with readers := (s.acts i).pc.lock i s.readers } := by
  simp [actStep, eq_comm]

/-- Nobody reads while `merge_config` has the lock. -/
theorem Inv.not_reads (hs : Inv s) (hw : s.writer = true) (i : ℕ) :
    (s.acts i).pc.reads = false := by
  by_contra h
  simpa [hs.excl hw] using hs.reads i (by simpa using h)

theorem Inv.actStep (hs : Inv s) (h : actStep i s = some t) : Inv t := by
  obtain ⟨b, hb, rfl⟩ := actStep_eq_some.1 h
  refine ⟨hs.writer, fun hw => ?_, fun k => ?_, fun k hk => ?_, ?_⟩
  · have hw : s.writer = true := hw
    rw [hw] at hb
    rw [hs.excl hw]
    exact lock_of_writer hb
  · by_cases hk : k = i
    · subst hk; rw [setAct_self]; exact (hs.acts k).next hb
    · rw [setAct_of_ne hk]; exact hs.acts k
  · by_cases hki : k = i
    · subst hki
      rw [setAct_self] at hk
      exact mem_lock hb hk (hs.reads k)
    · rw [setAct_of_ne hki] at hk
      exact (mem_lock_of_ne (by simpa using hki)).2 (hs.reads k hk)
  · exact hs.merge.next hb fun hm => hs.not_reads (hs.writer.trans hm) i

theorem ok_setAct (hs : ∀ k, (s.acts k).Ok) (ha : a.Ok) (k : ℕ) : ((s.setAct i a).acts k).Ok := by
  by_cases hk : k = i
  · subst hk; rwa [setAct_self]
  · rw [setAct_of_ne hk]; exact hs k

theorem reads_setAct (hs : Inv s) (ha : a.pc.reads = true → (s.acts i).pc.reads = true) (k : ℕ)
    (hk : ((s.setAct i a).acts k).pc.reads = true) : .act k ∈ s.readers := by
  by_cases hki : k = i
  · subst hki; rw [setAct_self] at hk; exact hs.reads k (ha hk)
  · rw [setAct_of_ne hki] at hk; exact hs.reads k hk

/-- The thread of a deleted action was still alive, so it has its post before it. -/
theorem awaited_of_alive (ha : a.Ok) (hh : a.host = false) (h : alive a.state = true) :
    a.Awaited := by
  obtain ⟨hst, -, -, -⟩ := ha
  rw [hst] at h
  rcases a with ⟨pc, st, host, sem, x⟩
  refine ⟨hh, ?_, ?_⟩
  · cases pc <;> simp [alive, ActPc.state] at h ⊢
  · cases pc <;> simp [alive, ActPc.state, ActPc.posted] at h ⊢

theorem Inv.mergeStep (hs : Inv s) (h : mergeStep c s = some t) : Inv t := by
  have hw : ∀ m, s.merge = m → s.writer = m.holds := fun _ he => he ▸ hs.writer
  have hm := hs.merge
  unfold Locks.mergeStep at h
  split at h
  case h_1 he => -- the wait for the signal
    split_ifs at h
    cases h
    exact ⟨(hw _ he :), hs.excl, hs.acts, hs.reads, trivial⟩
  case h_2 he => -- the write lock
    split_ifs at h with hl
    cases h
    exact ⟨rfl, fun _ => by simpa using (not_or.1 hl).2, hs.acts, hs.reads, trivial⟩
  case h_3 i he =>
    split_ifs at h with hi
    cases h
    exact ⟨hs.writer, hs.excl, ok_setAct hs.acts ⟨rfl, nofun, nofun, fun _ => rfl⟩,
      reads_setAct hs nofun, by simp [State.setAct, he, MergePc.Ok]⟩
  case h_4 i he =>
    split_ifs at h with hi
    cases h
    exact ⟨(hw _ he :), hs.excl, hs.acts, hs.reads, hi⟩
  case h_5 he =>
    cases h
    exact ⟨(hw _ he :), hs.excl, hs.acts, hs.reads, trivial⟩
  case h_6 j he => -- the host is taken away
    cases h
    rw [he] at hm
    obtain ⟨hst, habs, -, hexit⟩ := hs.acts j
    refine ⟨(hw _ he :), hs.excl, ok_setAct hs.acts ⟨hst, fun _ => rfl, fun _ => rfl, hexit⟩,
      reads_setAct hs id, ?_⟩
    simp only [MergePc.Ok, setAct_self, true_and]
    exact fun ha => Bool.false_ne_true ((habs ha).symm.trans hm)
  case h_7 j he =>
    cases h
    rw [he] at hm
    refine ⟨?_, hs.excl, hs.acts, hs.reads, ?_⟩
    · split_ifs <;> exact (hw _ he :)
    · split_ifs with ha
      · exact awaited_of_alive (hs.acts j) hm.1 ha
      · trivial
  case h_8 j he => -- the post for the thread
    cases h
    rw [he] at hm
    obtain ⟨hst, habs, hleft, hexit⟩ := hs.acts j
    obtain ⟨hh, hstart, hpost⟩ : (s.acts j).Awaited := hm
    refine ⟨(hw _ he :), hs.excl, ok_setAct hs.acts ⟨hst, habs, hleft, hexit⟩,
      reads_setAct hs id, ?_⟩
    simp only [MergePc.Ok, setAct_self]
    exact ⟨⟨hh, hstart, hpost⟩, fun _ => Nat.succ_pos _⟩
  case h_9 j he => -- the wait for the thread
    split_ifs at h with hx
    cases h
    obtain ⟨hst, habs, hleft, hexit⟩ := hs.acts j
    exact ⟨(hw _ he :), hs.excl,
      ok_setAct hs.acts ⟨hst, habs, hleft, fun hp => by simp [hexit hp]⟩, reads_setAct hs id, trivial⟩
  case h_10 he =>
    cases h
    exact ⟨(hw _ he :), hs.excl, hs.acts, hs.reads, trivial⟩
  case h_11 i he => -- a new thread
    split_ifs at h with hi
    cases h
    exact ⟨hs.writer, hs.excl, ok_setAct hs.acts ⟨rfl, nofun, nofun, fun _ => rfl⟩,
      reads_setAct hs nofun, by simp [State.setAct, he, MergePc.Ok]⟩
  case h_12 he =>
    cases h
    exact ⟨(hw _ he :), hs.excl, hs.acts, hs.reads, trivial⟩
  case h_13 he =>
    cases h
    exact ⟨(hw _ he :), hs.excl, hs.acts, hs.reads, trivial⟩
  case h_14 he =>
    cases h
    exact ⟨rfl, nofun, hs.acts, hs.reads, trivial⟩
  case h_15 => cases h

theorem MergePc.Ok.post (hm : m.Ok s.acts) :
    m.Ok (s.setAct i { s.acts i with sem := (s.acts i).sem + 1 }).acts := by
  cases m with
  | clearHost j => by_cases hj : j = i <;> simp_all [MergePc.Ok, setAct_of_ne]
  | testState j => by_cases hj : j = i <;> simp_all [MergePc.Ok, setAct_of_ne]
  | postSem j =>
    by_cases hj : j = i
    · subst hj; rw [MergePc.Ok, setAct_self]; exact ⟨hm.host, hm.started, hm.posted⟩
    · simpa [MergePc.Ok, setAct_of_ne hj] using hm
  | waitExit j =>
    by_cases hj : j = i
    · subst hj
      rw [MergePc.Ok, setAct_self]
      exact ⟨⟨hm.1.host, hm.1.started, hm.1.posted⟩, fun _ => Nat.succ_pos _⟩
    · simpa [MergePc.Ok, setAct_of_ne hj] using hm
  | _ => trivial

theorem Inv.hostStep {c : Turn} (hs : Inv s) (h : hostStep c s = some t) : Inv t := by
  unfold Locks.hostStep at h
  split at h
  case h_1 => cases h; exact ⟨hs.writer, hs.excl, hs.acts, hs.reads, hs.merge⟩
  case h_2 =>
    split_ifs at h with hl
    · cases h; exact ⟨hs.writer, hs.excl, hs.acts, hs.reads, hs.merge⟩
    · cases h
      exact ⟨hs.writer, fun hw => absurd hw hl, hs.acts,
        fun k hk => Finset.mem_insert_of_mem (hs.reads k hk), hs.merge⟩
  case h_3 i _ =>
    split_ifs at h
    cases h
    obtain ⟨hst, habs, hleft, hexit⟩ := hs.acts i
    exact ⟨hs.writer, hs.excl, ok_setAct hs.acts ⟨hst, habs, hleft, hexit⟩, reads_setAct hs id,
      hs.merge.post⟩
  case h_4 => cases h; exact ⟨hs.writer, hs.excl, hs.acts, hs.reads, hs.merge⟩
  case h_5 =>
    cases h
    exact ⟨hs.writer, fun hw => by simp [hs.excl hw], hs.acts,
      fun k hk => Finset.mem_erase.2 ⟨nofun, hs.reads k hk⟩, hs.merge⟩
  case h_6 =>
    split_ifs at h
    cases h
    exact ⟨hs.writer, hs.excl, hs.acts, hs.reads, hs.merge⟩
  case h_7 => cases h; exact ⟨hs.writer, hs.excl, hs.acts, hs.reads, hs.merge⟩
  case h_8 => cases h

theorem Inv.step (hs : Inv s) (h : Step s e t) : Inv t := by
  cases e with
  | act i => exact hs.actStep h
  | merge c => exact hs.mergeStep h
  | host c => exact hs.hostStep h
  | signal => cases h; exact ⟨hs.writer, hs.excl, hs.acts, hs.reads, hs.merge⟩

theorem Inv.of_run (r : Run Step (Locks.init actions) es s) : Inv s :=
  r.invariant (fun _ _ _ hs h => hs.step h) Inv.init

/-! ## From the end of the host to the wait -/

/-- The operations of one thread alone. -/
def Own (j : ℕ) (s : State) (_ : Unit) (t : State) : Prop := actStep j s = some t

/-- The thread can post `exit_sem` by its own steps, with the write lock where it is. -/
def CanPost (s : State) (j : ℕ) : Prop :=
  ∃ es t, Run (Own j) s es t ∧ t.writer = true ∧ 0 < (t.acts j).exitSem

theorem CanPost.of_posted (hw : s.writer = true) (h : 0 < (s.acts j).exitSem) : CanPost s j :=
  ⟨[], s, .nil s, hw, h⟩

/-- One operation of the thread, whatever it does to the lock. -/
theorem CanPost.of_next (h : (s.acts j).next s.writer = some b)
    (ht : ∀ r, CanPost { s.setAct j b with readers := r } j) : CanPost s j := by
  obtain ⟨es, u, r, hu⟩ := ht ((s.acts j).pc.lock j s.readers)
  exact ⟨() :: es, u, .cons (actStep_eq_some.2 ⟨b, h, rfl⟩) r, hu⟩

theorem canPost_postExit (hw : s.writer = true) (h : (s.acts j).pc = .postExit) : CanPost s j := by
  refine .of_next (by rw [Act.next, h]) fun r => .of_posted hw ?_
  rw [setAct_self]
  exact Nat.succ_pos _

theorem canPost_setDying (hw : s.writer = true) (h : (s.acts j).pc = .setDying) : CanPost s j :=
  .of_next (by rw [Act.next, h]) fun _ => canPost_postExit hw (congrArg Act.pc setAct_self)

theorem canPost_unlockOut (hw : s.writer = true) (h : (s.acts j).pc = .unlockOut) : CanPost s j :=
  .of_next (by rw [Act.next, h]) fun _ => canPost_setDying hw (congrArg Act.pc setAct_self)

theorem canPost_test (hw : s.writer = true) (h : (s.acts j).pc = .test)
    (hh : (s.acts j).host = false) : CanPost s j :=
  .of_next (by rw [Act.next, h]) fun _ =>
    canPost_unlockOut hw ((congrArg Act.pc setAct_self).trans (by simp [hh]))

theorem canPost_semWait (hw : s.writer = true) (h : (s.acts j).pc = .semWait)
    (hh : (s.acts j).host = false) (hsem : 0 < (s.acts j).sem) : CanPost s j :=
  .of_next (b := { s.acts j with pc := .test, sem := (s.acts j).sem - 1 })
    (by simp [Act.next, h, hsem.ne']) fun _ =>
    canPost_test hw (congrArg Act.pc setAct_self) ((congrArg Act.host setAct_self).trans hh)

/-- At one of its read locks the thread does not move. -/
theorem not_canPost_of_atRdlock (hs : Inv s) (hw : s.writer = true)
    (h : (s.acts j).pc.atRdlock = true) : ¬ CanPost s j := by
  rintro ⟨es, t, r, -, hpos⟩
  cases r with
  | nil _ =>
    have hexit : (s.acts j).exitSem = 0 :=
      (hs.acts j).exit (by cases hpc : (s.acts j).pc <;> simp_all [ActPc.atRdlock, ActPc.posted])
    omega
  | cons hstep _ =>
    obtain ⟨b, hb, -⟩ := actStep_eq_some.1 hstep
    cases hpc : (s.acts j).pc <;> simp_all [ActPc.atRdlock, Act.next]

theorem canPost_iff_atRdlock (hs : Inv s) (hm : s.merge = .waitExit j) :
    CanPost s j ↔ (s.acts j).pc.atRdlock = false := by
  have hw : s.writer = true := by rw [hs.writer, hm]; rfl
  have hok := hs.merge
  rw [hm] at hok
  obtain ⟨⟨hh, hstart, hposted⟩, hsem⟩ := hok
  have hread := hs.not_reads hw j
  refine ⟨fun hc => ?_, fun hr => ?_⟩
  · by_contra hr
    exact not_canPost_of_atRdlock hs hw (by simpa using hr) hc
  · cases hpc : (s.acts j).pc with
    | absent => exact absurd hpc hstart.1
    | parsed => exact absurd hpc hstart.2
    | rdlockFirst => simp [hpc, ActPc.atRdlock] at hr
    | rdlock => simp [hpc, ActPc.atRdlock] at hr
    | setRunning => simp [hpc, ActPc.reads] at hread
    | unlock => simp [hpc, ActPc.reads] at hread
    | work => simp [hpc, ActPc.reads] at hread
    | semWait => exact canPost_semWait hw hpc hh (hsem hpc)
    | test => exact canPost_test hw hpc hh
    | unlockOut => exact canPost_unlockOut hw hpc
    | setDying => exact canPost_setDying hw hpc
    | postExit => exact canPost_postExit hw hpc
    | setStopped => exact .of_posted hw (hposted (by rw [hpc]; rfl))
    | done => exact .of_posted hw (hposted (by rw [hpc]; rfl))

/-- A host's thread only posts. -/
theorem hostStep_frame {c : Turn} (h : hostStep c s = some t) : t.merge = s.merge ∧
    ∀ k, (t.acts k).host = (s.acts k).host ∧ (t.acts k).pc = (s.acts k).pc := by
  unfold hostStep at h
  split at h
  case h_3 i _ =>
    split_ifs at h
    cases h
    refine ⟨rfl, fun k => ?_⟩
    by_cases hk : k = i
    · subst hk; rw [setAct_self]; exact ⟨rfl, rfl⟩
    · rw [setAct_of_ne hk]; exact ⟨rfl, rfl⟩
  case h_8 => cases h
  all_goals
    first
    | cases h; exact ⟨rfl, fun _ => ⟨rfl, rfl⟩⟩
    | split_ifs at h <;> cases h <;> exact ⟨rfl, fun _ => ⟨rfl, rfl⟩⟩

/-- A thread at a read lock that is waited for: nothing that can happen ends this. -/
theorem waitExit_of_run (hs : Inv s) (hm : s.merge = .waitExit j)
    (hr : (s.acts j).pc.atRdlock = true) (r : Run Step s es t) : t.merge = .waitExit j := by
  refine (r.invariant (I := fun s => Inv s ∧ s.merge = .waitExit j ∧ (s.acts j).pc.atRdlock = true)
    (fun s e t => ?_) ⟨hs, hm, hr⟩).2.1
  rintro ⟨hs, hm, hr⟩ h
  have hw : s.writer = true := by rw [hs.writer, hm]; rfl
  refine ⟨hs.step h, ?_⟩
  cases e with
  | act i =>
    obtain ⟨b, hb, rfl⟩ := actStep_eq_some.1 h
    by_cases hj : j = i
    · subst hj
      cases hpc : (s.acts j).pc <;> simp_all [ActPc.atRdlock, Act.next]
    · exact ⟨hm, (congrArg (·.pc.atRdlock) (setAct_of_ne hj)).trans hr⟩
  | merge c =>
    have hexit : (s.acts j).exitSem = 0 :=
      (hs.acts j).exit (by cases hpc : (s.acts j).pc <;> simp_all [ActPc.atRdlock, ActPc.posted])
    cases c <;> simp [Step, Locks.step, Locks.mergeStep, hm, hexit] at h
  | host c =>
    obtain ⟨hmerge, hk⟩ := hostStep_frame h
    exact ⟨hmerge.trans hm, (congrArg ActPc.atRdlock (hk j).2).trans hr⟩
  | signal => cases h; exact ⟨hm, hr⟩

/-- `host_del` is past the statement that takes the host away. -/
def MergePc.Past (j : ℕ) : MergePc → Prop
  | .testState k | .postSem k | .waitExit k => k = j
  | _ => False

/-- After that statement: the action stays without a host, and while `host_del` is on its way to the
wait the thread is as much at a read lock as it was. -/
structure Cleared (j : ℕ) (r : Bool) (s : State) : Prop where
  inv : Inv s
  host : (s.acts j).host = false
  present : (s.acts j).pc ≠ .absent
  rdlock : s.merge.Past j → (s.acts j).pc.atRdlock = r

theorem past_mergeStep (hs : Inv s) (hh : (s.acts j).host = false) (hp : (s.acts j).pc ≠ .absent)
    (h : mergeStep c s = some t) :
    (t.acts j).host = false ∧ (t.acts j).pc = (s.acts j).pc ∧
      (t.merge.Past j → s.merge.Past j) := by
  have hm := hs.merge
  -- an update of one action that leaves its place and does not bring a host back
  have hset : ∀ (i : ℕ) (a : Act), (i = j → a.host = false ∧ a.pc = (s.acts j).pc) →
      ((s.setAct i a).acts j).host = false ∧ ((s.setAct i a).acts j).pc = (s.acts j).pc := by
    intro i a ha
    by_cases hj : j = i
    · subst hj; rw [setAct_self]; exact ha rfl
    · rw [setAct_of_ne hj]; exact ⟨hh, rfl⟩
  unfold Locks.mergeStep at h
  split at h
  case h_3 i he =>
    split_ifs at h with hi
    cases h
    obtain ⟨h₁, h₂⟩ := hset i ⟨.parsed, .STOPPED, true, 0, 0⟩ (by rintro rfl; exact absurd hi hp)
    exact ⟨h₁, h₂, id⟩
  case h_6 k he =>
    cases h
    rw [he] at hm
    have hk : k ≠ j := by rintro rfl; exact Bool.false_ne_true (hh.symm.trans hm)
    obtain ⟨h₁, h₂⟩ := hset k { s.acts k with host := false } fun h => absurd h hk
    exact ⟨h₁, h₂, fun h => absurd h hk⟩
  case h_7 k he =>
    cases h
    refine ⟨hh, rfl, fun h => ?_⟩
    rw [he]
    split_ifs at h
    · exact h
    · exact h.elim
  case h_8 k he =>
    cases h
    obtain ⟨h₁, h₂⟩ := hset k { s.acts k with sem := (s.acts k).sem + 1 }
      (by rintro rfl; exact ⟨hh, rfl⟩)
    exact ⟨h₁, h₂, fun h => by rw [he]; exact h⟩
  case h_9 k he =>
    split_ifs at h
    cases h
    obtain ⟨h₁, h₂⟩ := hset k { s.acts k with exitSem := (s.acts k).exitSem - 1 }
      (by rintro rfl; exact ⟨hh, rfl⟩)
    exact ⟨h₁, h₂, False.elim⟩
  case h_11 i he =>
    split_ifs at h with hi
    cases h
    obtain ⟨h₁, h₂⟩ := hset i ⟨.rdlockFirst, .STARTING, true, 0, 0⟩
      (by rintro rfl; exact absurd (hh.symm.trans hi.1) Bool.false_ne_true)
    exact ⟨h₁, h₂, id⟩
  case h_15 => cases h
  -- the other statements leave the actions alone, and are not the ones in between
  all_goals
    first
    | split_ifs at h; cases h; exact ⟨hh, rfl, False.elim⟩
    | cases h; exact ⟨hh, rfl, False.elim⟩

theorem holds_of_past (h : m.Past j) : m.holds = true := by
  cases m <;> first | rfl | exact h.elim

theorem Cleared.step {r : Bool} (hs : Cleared j r s) (h : Step s e t) : Cleared j r t := by
  obtain ⟨hinv, hh, hp, hr⟩ := hs
  suffices hrest : (t.acts j).host = false ∧ (t.acts j).pc ≠ .absent ∧
      (t.merge.Past j → (t.acts j).pc.atRdlock = r) from
    ⟨hinv.step h, hrest.1, hrest.2.1, hrest.2.2⟩
  cases e with
  | act i =>
    obtain ⟨b, hb, rfl⟩ := actStep_eq_some.1 h
    show ((s.setAct i b).acts j).host = false ∧ ((s.setAct i b).acts j).pc ≠ .absent ∧
      (s.merge.Past j → ((s.setAct i b).acts j).pc.atRdlock = r)
    by_cases hj : j = i
    · subst hj
      rw [setAct_self]
      refine ⟨(Act.next_host hb).trans hh, (Act.next_started hb).1, fun hpast => ?_⟩
      rw [hinv.writer, holds_of_past hpast] at hb
      obtain ⟨ha, hb⟩ := Act.next_atRdlock hb hh
      rw [hb, ← hr hpast, ha]
    · rw [setAct_of_ne hj]
      exact ⟨hh, hp, hr⟩
  | merge c =>
    obtain ⟨h₁, h₂, h₃⟩ := past_mergeStep hinv hh hp h
    rw [h₂]
    exact ⟨h₁, hp, fun hpast => hr (h₃ hpast)⟩
  | host c =>
    obtain ⟨hm, hk⟩ := hostStep_frame h
    rw [hm, (hk j).1, (hk j).2]
    exact ⟨hh, hp, hr⟩
  | signal => cases h; exact ⟨hh, hp, hr⟩

/-- Only one statement leads in between. -/
theorem clearHost_of_entry (h : Step s e t) (hs : ¬ s.merge.Past j) (ht : t.merge.Past j) :
    e = .merge .next ∧ s.merge = .clearHost j := by
  cases e with
  | act i =>
    obtain ⟨b, -, rfl⟩ := actStep_eq_some.1 h
    exact absurd ht hs
  | host c => exact absurd ((hostStep_frame h).1 ▸ ht) hs
  | signal => cases h; exact absurd ht hs
  | merge c =>
    change mergeStep c s = some t at h
    unfold mergeStep at h
    split at h
    case h_6 k he => cases h; exact ⟨rfl, he.trans (congrArg MergePc.clearHost ht)⟩
    case h_7 k he =>
      cases h
      rw [he] at hs
      split_ifs at ht
      · exact absurd ht hs
      · exact ht.elim
    case h_8 k he => cases h; rw [he] at hs; exact absurd ht hs
    case h_15 => cases h
    all_goals
      first
      | cases h; exact ht.elim
      | split_ifs at h; cases h; exact ht.elim
      | split_ifs at h; cases h; exact absurd ht hs

/-- `Clears actions es j s t`: on the run `es` to `t`, the host of action `j` is taken away at `s`. -/
def Clears (actions : Finset ℕ) (es : List Event) (j : ℕ) (s t : State) : Prop :=
  ∃ es₁ es₂ s', es = es₁ ++ .merge .next :: es₂ ∧ Run Step (init actions) es₁ s ∧
    s.merge = .clearHost j ∧ Step s (.merge .next) s' ∧ Run Step s' es₂ t

theorem exists_clears (r : Run Step (init actions) es t) (hm : t.merge = .waitExit j) :
    ∃ s, Clears actions es j s t := by
  have ht : t.merge.Past j := by rw [hm]; rfl
  obtain ⟨es₁, e, es₂, s, s', rfl, r₁, h, r₂, hs, hs'⟩ :=
    r.exists_entry (P := fun s => s.merge.Past j) id ht
  obtain ⟨rfl, hc⟩ := clearHost_of_entry h hs hs'
  exact ⟨s, es₁, es₂, s', rfl, r₁, hc, h, r₂⟩

theorem Clears.cleared (h : Clears actions es j s t) :
    Cleared j (s.acts j).pc.atRdlock t := by
  obtain ⟨es₁, es₂, s', rfl, r₁, hc, hstep, r₂⟩ := h
  refine r₂.invariant (fun _ _ _ hs h => hs.step h) ?_
  have hinv := Inv.of_run r₁
  have hm := hinv.merge
  rw [hc] at hm
  have hinv' := hinv.step hstep
  simp only [Step, step, mergeStep, hc, Option.some.injEq] at hstep
  subst hstep
  have hself : (s.setAct j { s.acts j with host := false }).acts j =
      { s.acts j with host := false } := setAct_self
  refine ⟨hinv', congrArg Act.host hself, fun ha => ?_, fun _ => congrArg (·.pc.atRdlock) hself⟩
  exact Bool.false_ne_true
    (((hinv.acts j).absent ((congrArg Act.pc hself).symm.trans ha)).symm.trans hm)

/-- **When a reload can wait for an action.**  Whenever `merge_config` waits for the end of a
thread, it has the write lock, and it took the host of the action away at some moment before.  The
thread can come to its post by itself exactly if it was not at one of its two read locks then. -/
theorem can_post_iff (r : Run Step (init actions) es t) (hm : t.merge = .waitExit j) :
    t.writer = true ∧ (∃ s, Clears actions es j s t) ∧
      ∀ s, Clears actions es j s t → (CanPost t j ↔ (s.acts j).pc.atRdlock = false) := by
  have hinv := Inv.of_run r
  refine ⟨by rw [hinv.writer, hm]; rfl, exists_clears r hm, fun s hs => ?_⟩
  have hpast : t.merge.Past j := by rw [hm]; rfl
  rw [canPost_iff_atRdlock hinv hm, hs.cleared.rdlock hpast]

def idleReload : List Event :=
  [.act 0, .act 0, .act 0, .signal, .merge .next, .merge .next, .merge (.del 0), .merge .next,
    .merge .next, .merge .next]

theorem can_post_iff_idle : ∃ t, Run Step (init {0}) idleReload t ∧ t.merge = .waitExit 0 ∧
    CanPost t 0 := by
  have h : (idleReload.foldlM step (init {0})).map State.merge = some (.waitExit 0) := by decide
  obtain ⟨t, ht, hm⟩ := Option.map_eq_some_iff.1 h
  have r := Run.of_foldlM ht
  obtain ⟨-, ⟨s, hs⟩, hiff⟩ := can_post_iff r hm
  obtain ⟨es₁, es₂, s', hes, r₁, hc, hstep, r₂⟩ := id hs
  obtain ⟨_, hfree⟩ := Option.isSome_iff_exists.1 (show (idleReload.foldlM (fun s e =>
    if s.merge = .clearHost 0 → (s.acts 0).pc.atRdlock = false then step s e else none)
    (init {0})).isSome by decide)
  exact ⟨t, r, hm, (hiff s hs).mpr (Run.forall_of_foldlM hfree es₁ _ es₂ s s' hes r₁ hstep r₂ hc)⟩

/-- A lookup has woken the thread, and it has looked at its host, when the write lock is taken. -/
def busyReload : List Event :=
  [.act 0, .act 0, .act 0, .host .next, .host .next, .host (.post 0), .host .next, .host .next,
    .act 0, .act 0, .signal, .merge .next, .merge .next, .merge (.del 0), .merge .next,
    .merge .next, .merge .next]

/-- **A reload can wait for ever.**  The thread of the deleted action waits for the read lock,
`merge_config` has the write lock and waits for the thread, and nothing that can still happen
changes this. -/
theorem reload_deadlock : ∃ t, Run Step (init {0}) busyReload t ∧ t.writer = true ∧
    t.merge = .waitExit 0 ∧ (t.acts 0).pc = .rdlock ∧ ¬ CanPost t 0 ∧
      ∀ fs u, Run Step t fs u → u.merge = .waitExit 0 := by
  have h : (busyReload.foldlM step (init {0})).map
      (fun t => (t.writer, t.merge, (t.acts 0).pc)) = some (true, .waitExit 0, .rdlock) := by decide
  obtain ⟨t, ht, h⟩ := Option.map_eq_some_iff.1 h
  simp only [Prod.mk.injEq] at h
  obtain ⟨hw, hm, hpc⟩ := h
  have r : Run Step (init {0}) busyReload t := Run.of_foldlM ht
  have hr : (t.acts 0).pc.atRdlock = true := by rw [hpc]; rfl
  exact ⟨t, r, hw, hm, hpc, not_canPost_of_atRdlock (.of_run r) hw hr,
    fun _ _ => waitExit_of_run (.of_run r) hm hr⟩

end FreeSense.Filterdns.Locks
