import Mathlib.Order.Bounds.Basic
import FreeSensePorts.BootEnv.Pending

/-!
# How a pending environment is verified

The loop of `freesense_be_health` stops at three successful probes in a row (`streak`), so an
environment is verified exactly if three in a row end in time (`Verified`, `rounds`).  The clock of the
loop is a number without an end here.

A run that rolls back has marked the environment as failed before, and only an upgrade makes one
pending (`PendingFrom`), so no later run rolls back again (`rollbacks_le_one`).
-/

namespace FreeSense.BootEnv

open List

/-! ## Probes -/

/-- The number of successful probes in a row after `m` probes. -/
def streak (probe : ℕ → Bool) : ℕ → ℕ
  | 0 => 0
  | m + 1 => if probe m then streak probe m + 1 else 0

theorem le_streak_iff (probe : ℕ → Bool) {k m : ℕ} :
    k ≤ streak probe m ↔ k ≤ m ∧ ∀ i < m, m ≤ i + k → probe i = true := by
  induction m generalizing k with
  | zero => simp [streak]
  | succ m ih =>
    rw [streak]
    cases k with
    | zero => exact iff_of_true (Nat.zero_le _) ⟨Nat.zero_le _, fun i hi hk => by omega⟩
    | succ k =>
      by_cases hm : probe m = true
      · rw [if_pos hm, Nat.succ_le_succ_iff, Nat.succ_le_succ_iff, ih]
        refine and_congr_right fun _ => ⟨fun h i hi hk => ?_, fun h i hi hk => ?_⟩
        · obtain rfl | hi := Nat.eq_or_lt_of_le (Nat.le_of_lt_succ hi)
          · exact hm
          · exact h i hi (by omega)
        · exact h i (by omega) (by omega)
      · rw [if_neg hm]
        exact iff_of_false (Nat.not_succ_le_zero k) fun h => hm (h.2 m (by omega) (by omega))

/-- Three successful probes in a row, the last of them being number `m`. -/
def ThreeEnd (probe : ℕ → Bool) (m : ℕ) : Prop :=
  ∃ n, m = n + 3 ∧ probe n = true ∧ probe (n + 1) = true ∧ probe (n + 2) = true

theorem threeEnd_iff (probe : ℕ → Bool) (m : ℕ) : ThreeEnd probe m ↔ 3 ≤ streak probe m := by
  rw [le_streak_iff]
  constructor
  · rintro ⟨n, rfl, h₀, h₁, h₂⟩
    refine ⟨by omega, fun i hi hk => ?_⟩
    obtain rfl | rfl | rfl : i = n ∨ i = n + 1 ∨ i = n + 2 := by omega
    · exact h₀
    · exact h₁
    · exact h₂
  · rintro ⟨hm, h⟩
    exact ⟨m - 3, by omega, h _ (by omega) (by omega), h _ (by omega) (by omega),
      h _ (by omega) (by omega)⟩

/-- The number of probes before the deadline, one every twenty seconds. -/
def rounds (deadline : ℕ) : ℕ := (deadline + 19) / 20

def Verified (probe : ℕ → Bool) (deadline : ℕ) : Prop := ∃ m ≤ rounds deadline, ThreeEnd probe m

/-- The loop from any of its rounds on: `ok` is the streak, which was below three up to there. -/
theorem probeLoop_cases (probe : ℕ → Bool) (d : ℕ) {m : ℕ} (hm : m ≤ rounds d)
    (hbelow : ∀ j ≤ m, streak probe j < 3) :
    (∃ j ≤ rounds d, probeLoop probe d m (20 * m) (streak probe m) = (3, j) ∧
        IsLeast {j | ThreeEnd probe j} j) ∨
      ((∀ j ≤ rounds d, streak probe j < 3) ∧ probeLoop probe d m (20 * m) (streak probe m) =
        (streak probe (rounds d), rounds d)) := by
  induction hn : rounds d - m generalizing m with
  | zero =>
    obtain rfl : m = rounds d := by omega
    have hover : ¬ 20 * rounds d < d := by
      unfold rounds
      omega
    rw [probeLoop, if_neg hover]
    exact .inr ⟨hbelow, rfl⟩
  | succ n ih =>
    have htime : 20 * m < d := by
      unfold rounds at hn
      omega
    have hok := hbelow m le_rfl
    have hnext : streak probe (m + 1) < 3 → ∀ j ≤ m + 1, streak probe j < 3 := fun h j hj => by
      obtain rfl | hj := Nat.eq_or_lt_of_le hj
      · exact h
      · exact hbelow j (by omega)
    rw [probeLoop, if_pos htime]
    by_cases hprobe : probe m = true
    · have hstreak : streak probe (m + 1) = streak probe m + 1 := if_pos hprobe
      rw [if_pos hprobe]
      by_cases hthree : 3 ≤ streak probe m + 1
      · rw [if_pos hthree]
        refine .inl ⟨m + 1, by omega, ?_, ?_, fun j hj => ?_⟩
        · rw [show streak probe m + 1 = 3 by omega]
        · exact (threeEnd_iff probe _).2 (hstreak ▸ hthree)
        · by_contra hlt
          have := hbelow j (by omega)
          have := (threeEnd_iff probe j).1 hj
          omega
      · rw [if_neg hthree, ← hstreak]
        exact ih (by omega) (hnext (by omega)) (by omega)
    · have hstreak : streak probe (m + 1) = 0 := if_neg hprobe
      rw [if_neg hprobe, ← hstreak]
      exact ih (by omega) (hnext (by omega)) (by omega)

/-- The loop of the service. -/
theorem probeLoop_start (probe : ℕ → Bool) (d : ℕ) :
    (3 ≤ (probeLoop probe d 0 0 0).1 ↔ Verified probe d) ∧
      (Verified probe d → IsLeast {m | ThreeEnd probe m} (probeLoop probe d 0 0 0).2) ∧
      (¬ Verified probe d → (probeLoop probe d 0 0 0).2 = rounds d) := by
  have hbelow : ∀ j ≤ 0, streak probe j < 3 := fun j hj => by
    rw [Nat.le_zero.1 hj]
    exact Nat.zero_lt_succ 2
  rcases probeLoop_cases probe d (Nat.zero_le _) hbelow with ⟨j, hj, hrun, hleast⟩ | ⟨hnone, hrun⟩
  · have hv : Verified probe d := ⟨j, hj, hleast.1⟩
    rw [show probeLoop probe d 0 0 0 = (3, j) from hrun]
    exact ⟨iff_of_true le_rfl hv, fun _ => hleast, fun h => absurd hv h⟩
  · have hv : ¬ Verified probe d := by
      rintro ⟨m, hm, hthree⟩
      exact absurd ((threeEnd_iff probe m).1 hthree) (Nat.not_le.2 (hnone m hm))
    rw [show probeLoop probe d 0 0 0 = (streak probe (rounds d), rounds d) from hrun]
    exact ⟨iff_of_false (Nat.not_le.2 (hnone _ le_rfl)) hv, fun h => absurd h hv, fun _ => rfl⟩

/-! ## The decision -/

section Decision

variable {s : Bes} {e r : Env} {B : Boot} {d : ℕ}

theorem find?_setProps (hs : Wf s) (hr : r ∈ s.envs) (name : Text) (l : List (Key × Text)) :
    (s.update name (Env.setProps l)).find? r.name =
      some (if r.name = name then Env.setProps l r else r) := by
  have hname : ∀ e : Env, (if e.name = name then Env.setProps l e else e).name = e.name := fun e => by
    split_ifs <;> rfl
  have hnames : (s.update name (Env.setProps l)).names = s.names := by
    rw [Bes.names, Bes.update, map_map]
    exact map_congr_left fun e _ => hname e
  have hmem : (if r.name = name then Env.setProps l r else r) ∈
      (s.update name (Env.setProps l)).envs := mem_map_of_mem hr
  have hfind := find?_eq (hnames ▸ hs.names) hmem
  rwa [hname r] at hfind

theorem getProp_setProps (hs : Wf s) (he : e ∈ s.envs) (l : List (Key × Text)) (key : Key) :
    (s.update e.name (Env.setProps l)).getProp e.name key = (Env.setProps l e).props key := by
  rw [Bes.getProp, find?_setProps hs he, if_pos rfl]
  rfl

/-- What a run works on: the booted environment is pending, was not rolled back, and may be. -/
structure Due (B : Boot) (s : Bes) (e : Env) (d : ℕ) : Prop where
  wf : Wf s
  mem : e ∈ s.envs
  booted : e.id = s.now
  name : e.name ≠ []
  pending : e.props .health = pending
  notAttempted : e.props .rollbackattempted ≠ yes
  compatible : B.compatible = true
  automatic : B.automaticRollback ≠ "false".toList
  deadline : testNumber (deadlineOf (e.props .verifydeadline)) = some (d : ℤ)
  positive : 0 < d

def Recorded (e : Env) : Prop := e.props .rollback ≠ [] ∧ e.props .rollback ≠ dash

theorem healthStart_of_due (h : Due B s e d) :
    healthStart B s =
      if 3 ≤ (probeLoop B.probe d 0 0 0).1 then
        keep e.name [(.health, healthy), (.lastboot, B.date), (.rollback, dash)] s
      else if e.props .rollback = [] ∨ e.props .rollback = dash then (.returned 1, s)
      else rollBack e.name (e.props .rollback) s := by
  have hprop := getProp_eq h.wf.names h.mem
  rw [healthStart, activeName_eq h.wf h.mem h.booted]
  rw [hprop, hprop, hprop, hprop, h.deadline,
    if_neg (by simp [h.compatible, h.name, h.pending]), if_neg h.automatic]
  simp only [Option.getD_some, Int.toNat_natCast, if_neg h.notAttempted]

theorem keep_eq (hs : Wf s) (he : e ∈ s.envs) (l : List (Key × Text)) :
    keep e.name l s =
      (.returned 0, { s.update e.name (Env.setProps l) with bootfs := e.id }) := by
  rw [keep, activate, find?_eq hs.names he]
  exact congrArg (Prod.mk (Outcome.returned 0)) (propSet_eq l _)

theorem rollBack_eq (hs : Wf s) (hr : r ∈ s.envs) (name : Text) :
    rollBack name r.name s = (.rebooting,
      { s.update name (Env.setProps [(.health, failed), (.rollbackattempted, yes)]) with
        bootfs := r.id }) := by
  rw [rollBack, propSet_eq]
  rw [activate, find?_setProps hs hr]
  split_ifs <;> rfl

/-- The environment is marked as healthy and is the one of the following boots. -/
def Kept (e : Env) (t : Bes) : Prop := t.getProp e.name .health = healthy ∧ t.bootfs = e.id

theorem kept_of_verified (h : Due B s e d) (hv : Verified B.probe d) :
    (healthStart B s).1 = .returned 0 ∧ Kept e (healthStart B s).2 := by
  rw [healthStart_of_due h, if_pos ((probeLoop_start B.probe d).1.2 hv), keep_eq h.wf h.mem]
  exact ⟨rfl, getProp_setProps h.wf h.mem _ .health, rfl⟩

theorem healthStart_of_not_verified (h : Due B s e d) (hv : ¬ Verified B.probe d)
    (hr : r ∈ s.envs) (hname : r.name = e.props .rollback) (hrec : Recorded e) :
    healthStart B s = (.rebooting,
      { s.update e.name (Env.setProps [(.health, failed), (.rollbackattempted, yes)]) with
        bootfs := r.id }) := by
  rw [healthStart_of_due h, if_neg (mt (probeLoop_start B.probe d).1.1 hv),
    if_neg (not_or.2 hrec), ← hname, rollBack_eq h.wf hr]

theorem healthStart_of_not_recorded (h : Due B s e d) (hv : ¬ Verified B.probe d)
    (hrec : ¬ Recorded e) : healthStart B s = (.returned 1, s) := by
  have hnone : e.props .rollback = [] ∨ e.props .rollback = dash := by
    by_contra hne
    exact hrec (not_or.1 hne)
  rw [healthStart_of_due h, if_neg (mt (probeLoop_start B.probe d).1.1 hv), if_pos hnone]

theorem not_kept_of_not_verified (h : Due B s e d) (hv : ¬ Verified B.probe d)
    (hback : Recorded e → ∃ r ∈ s.envs, r.name = e.props .rollback) :
    ¬ Kept e (healthStart B s).2 := by
  by_cases hrec : Recorded e
  · obtain ⟨r, hr, hname⟩ := hback hrec
    rw [healthStart_of_not_verified h hv hr hname hrec]
    rintro ⟨hhealth, -⟩
    have hfailed := getProp_setProps h.wf h.mem [(.health, failed), (.rollbackattempted, yes)] .health
    exact absurd (hfailed.symm.trans hhealth) (by decide : failed ≠ healthy)
  · rw [healthStart_of_not_recorded h hv hrec]
    rintro ⟨hhealth, -⟩
    rw [getProp_eq h.wf.names h.mem, h.pending] at hhealth
    exact absurd hhealth (by decide)

end Decision

/-! ## Later boots -/

def Action.isUpgrade : Action → Bool
  | .upgrade _ => true
  | _ => false

/-- A pending environment of `t` was pending in `s`. -/
def PendingFrom (s t : Bes) : Prop := ∀ e ∈ t.envs, e.props .health = pending →
  ∃ e₀ ∈ s.envs, e₀.id = e.id ∧ e₀.props .health = pending

section Frame

variable {s t : Bes}

theorem PendingFrom.map (f : Env → Env) (hid : ∀ e, (f e).id = e.id)
    (hp : ∀ e, (f e).props .health = pending → e.props .health = pending)
    (henvs : t.envs = s.envs.map f) : PendingFrom s t := by
  intro e he hpending
  obtain ⟨e₀, he₀, rfl⟩ := mem_map.1 (henvs ▸ he)
  exact ⟨e₀, he₀, (hid e₀).symm, hp e₀ hpending⟩

theorem PendingFrom.update (name : Text) (f : Env → Env) (hid : ∀ e, (f e).id = e.id)
    (hp : ∀ e, (f e).props .health = pending → e.props .health = pending)
    (henvs : t.envs = (s.update name f).envs) : PendingFrom s t := by
  refine PendingFrom.map (fun e => if e.name = name then f e else e) (fun e => ?_) (fun e h => ?_) henvs
  · split_ifs
    · exact hid e
    · rfl
  · split_ifs at h
    · exact hp e h
    · exact h

theorem PendingFrom.subset (h : ∀ e ∈ t.envs, e ∈ s.envs) : PendingFrom s t :=
  fun e he hp => ⟨e, h e he, rfl, hp⟩

theorem PendingFrom.create {name : Text} (hname : name ∉ s.names)
    (h : (create name s).bind (markManual name) = some t) : PendingFrom s t := by
  rw [markManual_create hname] at h
  cases h
  intro e he hp
  rcases mem_cons.1 he with rfl | he
  · exact absurd hp (by decide : manual ≠ pending)
  · exact ⟨e, he, rfl, hp⟩

theorem pendingFrom_command {c : Command} (h : command c s = some t) : PendingFrom s t := by
  cases c with
  | create name =>
    simp only [command, Option.ite_none_left_eq_some] at h
    exact PendingFrom.create h.1 h.2
  | clone name source =>
    simp only [command, Option.ite_none_left_eq_some, not_or] at h
    exact PendingFrom.create h.1.1 h.2
  | rename name new =>
    simp only [command, rename, Option.ite_none_left_eq_some, Option.ite_none_right_eq_some] at h
    obtain ⟨-, -, h⟩ := h
    cases h
    refine PendingFrom.update name _ ?_ ?_ rfl
    · exact fun _ => rfl
    · exact fun _ hp => hp
  | destroy name =>
    simp only [command, destroy, Option.ite_none_left_eq_some] at h
    obtain ⟨-, h⟩ := h
    cases hf : s.find? name with
    | none =>
      rw [hf] at h
      cases h
    | some e =>
      simp only [hf, Option.ite_none_left_eq_some] at h
      cases h.2
      exact PendingFrom.subset fun e he => mem_of_mem_filter he
  | activate name =>
    simp only [command, Option.ite_none_left_eq_some, activate, Option.map_eq_some_iff] at h
    obtain ⟨-, e, -, rfl⟩ := h
    exact PendingFrom.subset fun _ he => he
  | activateOnce name =>
    simp only [command, Option.ite_none_left_eq_some, activateOnce,
      Option.ite_none_right_eq_some] at h
    obtain ⟨-, -, h⟩ := h
    cases h
    exact PendingFrom.subset fun _ he => he
  | describe name words =>
    simp only [command, Option.ite_none_left_eq_some, setProp, Option.ite_none_right_eq_some] at h
    obtain ⟨-, -, h⟩ := h
    cases h
    refine PendingFrom.update name _ ?_ ?_ rfl
    · exact fun _ => rfl
    · exact fun _ hp => hp

theorem pendingFrom_health (B : Boot) (s : Bes) : PendingFrom s (healthStart B s).2 := by
  rcases healthStart_cases B s with hsame | ⟨l, bootfs, heq, hl⟩
  · rw [hsame]
    exact PendingFrom.subset fun _ he => he
  · rw [heq]
    exact PendingFrom.update s.activeName (Env.setProps l) (fun _ => rfl)
      (fun e hp => absurd hp (hl e)) rfl

theorem pendingFrom_act {a : Action} (hs : Wf s) (ha : a.isUpgrade = false) (h : act s a = some t) :
    PendingFrom s t := by
  cases a with
  | upgrade W => cases ha
  | prune destroys keep =>
    cases h
    rw [pruneAutomatic_eq destroys keep hs.names]
    exact PendingFrom.subset fun e he => (mem_without.1 he).1
  | control c =>
    simp only [act, freesenseBe, Option.ite_none_right_eq_some] at h
    exact pendingFrom_command h.2
  | reboot =>
    obtain ⟨e, -, rfl⟩ := Option.map_eq_some_iff.1 h
    exact PendingFrom.map (fun e' => { e' with mounted := e'.id = e.id }) (fun _ => rfl)
      (fun _ hp => hp) rfl
  | health B =>
    cases h
    exact pendingFrom_health B s

end Frame

/-- The run of the service in environment `i` goes back to another one. -/
def rollsBack (i : ℕ) (s : Bes) : Action → Bool
  | .health B => s.now = i ∧ (healthStart B s).1 = .rebooting
  | _ => false

/-- How often that happens in a list of actions.  An action that fails changes nothing. -/
def rollbacks (i : ℕ) : Bes → List Action → ℕ
  | _, [] => 0
  | s, a :: as => (rollsBack i s a).toNat + rollbacks i ((act s a).getD s) as

/-- Environment `i` is not pending. -/
def Spent (i : ℕ) (s : Bes) : Prop := ∀ e ∈ s.envs, e.id = i → e.props .health ≠ pending

section Once

variable {i : ℕ} {s : Bes} {a : Action}

theorem pending_of_rebooting {B : Boot} (h : (healthStart B s).1 = .rebooting) :
    s.getProp s.activeName .health = pending := by
  by_contra hne
  rw [healthStart, if_pos (.inr (.inr hne))] at h
  cases h

theorem not_rollsBack_of_spent (hs : Wf s) (h : Spent i s) : rollsBack i s a = false := by
  cases a with
  | health B =>
    rw [rollsBack, decide_eq_false_iff_not]
    rintro ⟨rfl, hreboot⟩
    obtain ⟨e, he, hid⟩ := hs.active
    have hp := pending_of_rebooting hreboot
    rw [activeName_eq hs he hid, getProp_eq hs.names he] at hp
    exact h e he hid hp
  | _ => rfl

theorem keep_ne_rebooting (name : Text) (l : List (Key × Text)) (s : Bes) :
    (keep name l s).1 ≠ .rebooting := by
  rw [keep]
  cases activate name s <;> exact Outcome.noConfusion

theorem settled_of_rebooting {B : Boot} (h : (healthStart B s).1 = .rebooting) :
    Settled s (healthStart B s).2 := by
  rw [healthStart] at h ⊢
  dsimp only at h ⊢
  split_ifs at h ⊢
  · exact absurd h (keep_ne_rebooting _ _ _)
  · exact absurd h (keep_ne_rebooting _ _ _)
  · exact settled_rollBack _

theorem Settled.spent {t : Bes} (h : Settled s t) (hs : Wf s) : Spent s.now t := by
  obtain ⟨l, bootfs, rfl, hl⟩ := h
  intro e' he' hid
  obtain ⟨e, he, rfl⟩ := mem_map.1 he'
  by_cases hname : e.name = s.activeName
  · rw [if_pos hname]
    exact hl e
  · rw [if_neg hname] at hid
    exact absurd (activeName_eq hs he hid).symm hname

theorem spent_of_rollsBack (hs : Wf s) (h : rollsBack i s a = true) :
    Spent i ((act s a).getD s) := by
  cases a with
  | health B =>
    rw [rollsBack, decide_eq_true_eq] at h
    obtain ⟨rfl, hreboot⟩ := h
    exact (settled_of_rebooting hreboot).spent hs
  | _ => cases h

theorem spent_act (hs : Wf s) (ha : a.isUpgrade = false) (h : Spent i s) :
    Spent i ((act s a).getD s) := by
  cases hact : act s a with
  | none => exact h
  | some t =>
    intro e he hid hp
    obtain ⟨e₀, he₀, hid₀, hp₀⟩ := pendingFrom_act hs ha hact e he hp
    exact h e₀ he₀ (hid₀.trans hid) hp₀

theorem wf_getD (hs : Wf s) : Wf ((act s a).getD s) := by
  cases hact : act s a with
  | none => exact hs
  | some t => exact wf_act s a t hs hact

theorem rollbacks_eq_zero {as : List Action} (hs : Wf s) (has : ∀ a ∈ as, a.isUpgrade = false)
    (h : Spent i s) : rollbacks i s as = 0 := by
  induction as generalizing s with
  | nil => rfl
  | cons a as ih =>
    rw [rollbacks, not_rollsBack_of_spent hs h, ih (wf_getD hs)
      (fun b hb => has b (mem_cons_of_mem a hb)) (spent_act hs (has a mem_cons_self) h)]
    rfl

/-- Once it has happened, the environment is not pending any more. -/
theorem rollbacks_le_one {as : List Action} (hs : Wf s) (has : ∀ a ∈ as, a.isUpgrade = false) :
    rollbacks i s as ≤ 1 := by
  induction as generalizing s with
  | nil => exact Nat.zero_le 1
  | cons a as ih =>
    have hrest : ∀ b ∈ as, b.isUpgrade = false := fun b hb => has b (mem_cons_of_mem a hb)
    rw [rollbacks]
    cases h : rollsBack i s a with
    | false =>
      rw [Bool.toNat_false, Nat.zero_add]
      exact ih (wf_getD hs) hrest
    | true => rw [rollbacks_eq_zero (wf_getD hs) hrest (spent_of_rollsBack hs h), Bool.toNat_true]

end Once

/-! ## Decided once -/

section

variable {s : Bes} {e : Env} {B : Boot} {d : ℕ}

/-- **A pending environment is kept exactly if it is verified, and left at most once.**  The loop makes
the probes it needs.  An environment that is not verified is left for the one that is recorded, and
stays as it is if none is.  In whatever follows without an upgrade, it is not left a second time. -/
theorem decided_once (h : Due B s e d)
    (hback : Recorded e → ∃ r ∈ s.envs, r.name = e.props .rollback) :
    (Kept e (healthStart B s).2 ↔ Verified B.probe d) ∧
      (Verified B.probe d → IsLeast {m | ThreeEnd B.probe m} (probeLoop B.probe d 0 0 0).2) ∧
      (¬ Verified B.probe d → (probeLoop B.probe d 0 0 0).2 = rounds d) ∧
      (¬ Verified B.probe d → ∀ r ∈ s.envs, r.name = e.props .rollback → Recorded e →
        (healthStart B s).1 = .rebooting ∧ (healthStart B s).2.bootfs = r.id ∧
          (healthStart B s).2.getProp e.name .health = failed ∧
          (healthStart B s).2.getProp e.name .rollbackattempted = yes ∧
          ∀ as : List Action, (∀ a ∈ as, a.isUpgrade = false) →
            rollbacks e.id s (.health B :: as) = 1) ∧
      (¬ Verified B.probe d → ¬ Recorded e → healthStart B s = (.returned 1, s)) ∧
      ∀ as : List Action, (∀ a ∈ as, a.isUpgrade = false) →
        rollbacks e.id s (.health B :: as) ≤ 1 := by
  have hprops := getProp_setProps h.wf h.mem [(.health, failed), (.rollbackattempted, yes)]
  obtain ⟨-, hleast, hall⟩ := probeLoop_start B.probe d
  refine ⟨⟨fun hkept => ?_, fun hv => (kept_of_verified h hv).2⟩, hleast, hall, ?_,
    healthStart_of_not_recorded h, fun as has => ?_⟩
  · by_contra hv
    exact not_kept_of_not_verified h hv hback hkept
  · intro hv r hr hname hrec
    have hrun := healthStart_of_not_verified h hv hr hname hrec
    have hrolls : rollsBack e.id s (.health B) = true := by
      rw [rollsBack, hrun]
      exact decide_eq_true ⟨h.booted.symm, rfl⟩
    refine ⟨by rw [hrun], by rw [hrun], ?_, ?_, fun as has => ?_⟩
    · rw [hrun]
      exact hprops .health
    · rw [hrun]
      exact hprops .rollbackattempted
    · rw [rollbacks, hrolls, rollbacks_eq_zero (wf_getD h.wf) has (spent_of_rollsBack h.wf hrolls)]
      rfl
  · exact rollbacks_le_one h.wf (forall_mem_cons.2 ⟨rfl, has⟩)

end

def upgradedEnv : Env where
  id := 1
  name := "default".toList
  props
    | .health => pending
    | .rollback => "previous".toList
    | _ => dash
  mounted := true

def upgradedPool : Bes :=
  ⟨[upgradedEnv, ⟨0, "previous".toList, fun _ => dash, false⟩], 1, 0, some "default".toList⟩

def brokenBoot : Boot := ⟨true, [], fun _ => false, "2026-04-01T09:30:00Z".toList⟩

theorem due_upgradedPool : Due brokenBoot upgradedPool upgradedEnv 300 where
  wf := ⟨by decide, by decide, upgradedEnv, mem_cons_self, rfl⟩
  mem := mem_cons_self
  booted := rfl
  name := by decide
  pending := rfl
  notAttempted := by decide
  compatible := rfl
  automatic := by decide
  deadline := by decide
  positive := by decide

theorem decided_once_upgradedPool : Due brokenBoot upgradedPool upgradedEnv 300 ∧
    (probeLoop brokenBoot.probe 300 0 0 0).2 = 15 ∧
    (healthStart brokenBoot upgradedPool).1 = .rebooting ∧
    rollbacks 1 upgradedPool [.health brokenBoot, .reboot, .health brokenBoot] = 1 := by
  have hback : ∃ r ∈ upgradedPool.envs, r.name = upgradedEnv.props .rollback :=
    ⟨_, mem_cons_of_mem _ mem_cons_self, rfl⟩
  have hv : ¬ Verified brokenBoot.probe 300 := by
    rintro ⟨m, -, n, -, hn, -⟩
    cases hn
  obtain ⟨-, -, hall, hroll, -⟩ := decided_once due_upgradedPool fun _ => hback
  obtain ⟨hreboot, -, -, -, honce⟩ := hroll hv _ (mem_cons_of_mem _ mem_cons_self) rfl
    ⟨by decide, by decide⟩
  exact ⟨due_upgradedPool, hall hv, hreboot, honce [.reboot, .health brokenBoot] (by
    simp [Action.isUpgrade])⟩

end FreeSense.BootEnv
