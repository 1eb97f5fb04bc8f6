import FreeSensePorts.Core.Run
import FreeSensePorts.BootEnv.Control
import FreeSensePorts.BootEnv.Health
import FreeSensePorts.BootEnv.Upgrade

/-!
# The way back of a pending environment

An upgrade leaves a pending environment and, in a property of it, the name of the environment to go
back to.  The tools protect the first and not the second, so a rename, a destruction or a pruning can
take the way back away; and `be_pkg_upgrade` does not check whether the second property is set.  A
history keeps the way back exactly if none of its actions removes a name that a pending environment
needs (`Effect`, `removes`) and none of its upgrades leaves the name unrecorded (`Records`).
-/

namespace FreeSense.BootEnv

open List

/-! ## Actions -/

/-- The next boot: the loader forgets what was selected for one boot. -/
def reboot (s : Bes) : Option Bes :=
  ((s.once.bind s.find?).or (s.envs.find? fun e => e.id = s.bootfs)).map fun e =>
    { s with
      envs := s.envs.map fun e' => { e' with mounted := e'.id = e.id }
      now := e.id
      once := none }

inductive Action
  | upgrade (W : World)
  | prune (destroys : Text → Bool) (keep : ℕ)
  | control (c : Command)
  | reboot
  | health (B : Boot)

/-- A successful action.  A run of the service counts whatever it comes to. -/
def act (s : Bes) : Action → Option Bes
  | .upgrade W =>
    let (status, t) := upgrade W s
    if status = 0 then some t else none
  | .prune destroys keep => some (pruneAutomatic destroys keep s)
  | .control c => freesenseBe c s
  | .reboot => reboot s
  | .health B => some (healthStart B s).2

abbrev History : Bes → List Action → Bes → Prop := Run fun s a t => act s a = some t

def WayBack (s : Bes) : Prop :=
  ∀ e ∈ s.envs, e.props .health = pending → e.props .rollback ∈ s.names

def pruned (destroys : Text → Bool) (keep : ℕ) (s : Bes) : List Text :=
  ((condemned keep s).map Env.name).filter destroys

/-- The names that are not in use any more after an action. -/
def removes (s : Bes) : Action → List Text
  | .upgrade W =>
    (pruned W.destroys (W.retention - 1) s).filter fun name => name ≠ s.activeName ++ W.suffix
  | .prune destroys keep => pruned destroys keep s
  | .control (.rename name _) => [name]
  | .control (.destroy name) => [name]
  | _ => []

/-- No pending environment needs what the action removes. -/
def Spares (s : Bes) (a : Action) : Prop :=
  ∀ e ∈ s.envs, e.props .health = pending → e.props .rollback ∉ removes s a

instance (s : Bes) (a : Action) : Decidable (Spares s a) :=
  inferInstanceAs (Decidable (∀ e ∈ s.envs, _))

/-- An upgrade that marks its clone pending also records where to go back to, or there is an
environment with the name `zfs get` prints for no value. -/
def Records (s : Bes) : Action → Prop
  | .upgrade W => W.ok .setHealth = true → W.ok .setRollback = true ∨
      dash = s.activeName ++ W.suffix ∨ dash ∈ (prunedFor W s).names
  | _ => True

instance (s : Bes) : (a : Action) → Decidable (Records s a)
  | .upgrade W => inferInstanceAs (Decidable (W.ok .setHealth = true → W.ok .setRollback = true ∨
      dash = s.activeName ++ W.suffix ∨ dash ∈ (prunedFor W s).names))
  | .prune _ _ | .control _ | .reboot | .health _ => inferInstanceAs (Decidable True)

/-! ## What an action does -/

/-- From `s` to `t` the names `gone` are removed. -/
structure Effect (s : Bes) (gone : List Text) (t : Bes) : Prop where
  wf : Wf t
  /-- A pending environment was pending, or can go back. -/
  returns : ∀ e ∈ t.envs, e.props .health = pending →
    e.props .rollback ∈ t.names ∨
      ∃ e₀ ∈ s.envs, e₀.props .health = pending ∧ e₀.props .rollback = e.props .rollback
  stays : ∀ e ∈ s.envs, e.props .health = pending → e.props .rollback ∈ gone →
    ∃ e' ∈ t.envs, e'.props .health = pending ∧ e'.props .rollback = e.props .rollback
  names : ∀ name ∈ s.names, name ∈ t.names ∨ name ∈ gone
  gone : ∀ name ∈ gone, name ∉ t.names

section Effect

variable {s t : Bes} {e : Env} {name new : Text} {removed : List Text}

theorem Effect.wayBack_iff (h : Effect s removed t) (hs : WayBack s) :
    WayBack t ↔ ∀ e ∈ s.envs, e.props .health = pending → e.props .rollback ∉ removed := by
  constructor
  · intro ht e he hp hgone
    obtain ⟨e', he', hp', hrollback⟩ := h.stays e he hp hgone
    exact h.gone _ hgone (hrollback ▸ ht e' he' hp')
  · intro hspares e he hp
    rcases h.returns e he hp with hmem | ⟨e₀, he₀, hp₀, hrollback⟩
    · exact hmem
    · rw [← hrollback]
      exact (h.names _ (hs e₀ he₀ hp₀)).resolve_right (hspares e₀ he₀ hp₀)

/-- An action that only changes what is in the environments. -/
theorem Effect.map (hs : Wf s) (f : Env → Env) (hid : ∀ e, (f e).id = e.id)
    (hname : ∀ e, (f e).name = e.name)
    (hp : ∀ e, (f e).props .health = pending →
      e.props .health = pending ∧ (f e).props .rollback = e.props .rollback)
    (henvs : t.envs = s.envs.map f) (hnow : ∃ e ∈ s.envs, e.id = t.now) : Effect s [] t := by
  refine ⟨hs.map f hid hname henvs hnow, ?_, nofun, ?_, nofun⟩
  · intro e he hpending
    obtain ⟨e₀, he₀, rfl⟩ := mem_map.1 (henvs ▸ he)
    obtain ⟨h₀, hrollback⟩ := hp e₀ hpending
    exact .inr ⟨e₀, he₀, h₀, hrollback.symm⟩
  · intro name hmem
    obtain ⟨e, he, rfl⟩ := mem_names.1 hmem
    exact .inl (mem_names.2 ⟨f e, henvs ▸ mem_map_of_mem he, hname e⟩)

theorem Effect.same (hs : Wf s) (henvs : t.envs = s.envs) (hnow : t.now = s.now) : Effect s [] t :=
  Effect.map hs id (fun _ => rfl) (fun _ => rfl) (fun _ h => ⟨h, rfl⟩)
    (henvs.trans (map_id _).symm) (hnow ▸ hs.active)

/-- An action on one environment. -/
theorem Effect.update (hs : Wf s) (f : Env → Env) (hid : ∀ e, (f e).id = e.id)
    (hname : ∀ e, (f e).name = e.name)
    (hp : ∀ e, (f e).props .health = pending →
      e.props .health = pending ∧ (f e).props .rollback = e.props .rollback)
    (henvs : t.envs = (s.update name f).envs) (hnow : t.now = s.now) : Effect s [] t := by
  refine Effect.map hs (fun e => if e.name = name then f e else e) (fun e => ?_) (fun e => ?_)
    (fun e h => ?_) henvs (hnow ▸ hs.active)
  · split_ifs
    · exact hid e
    · rfl
  · split_ifs
    · exact hname e
    · rfl
  · by_cases he : e.name = name
    · rw [if_pos he] at h ⊢
      exact hp e h
    · rw [if_neg he] at h ⊢
      exact ⟨h, rfl⟩

/-- An action that removes environments. -/
theorem Effect.without (hs : Wf s) (hnow : ∀ e ∈ s.envs, e.id = s.now → e.name ∉ removed)
    (hp : ∀ e ∈ s.envs, e.props .health = pending → e.name ∉ removed) :
    Effect s removed { s with envs := without removed s.envs } := by
  refine ⟨hs.sublist filter_sublist ?_, ?_, ?_, ?_, ?_⟩
  · obtain ⟨e, he, hid⟩ := hs.active
    exact ⟨e, mem_without.2 ⟨he, hnow e he hid⟩, hid⟩
  · intro e he hpending
    exact .inr ⟨e, (mem_without.1 he).1, hpending, rfl⟩
  · intro e he hpending _
    exact ⟨e, mem_without.2 ⟨he, hp e he hpending⟩, hpending, rfl⟩
  · intro name hmem
    obtain ⟨e, he, rfl⟩ := mem_names.1 hmem
    by_cases hgone : e.name ∈ removed
    · exact .inr hgone
    · exact .inl (mem_names.2 ⟨e, mem_without.2 ⟨he, hgone⟩, rfl⟩)
  · intro name hgone hmem
    obtain ⟨e, he, rfl⟩ := mem_names.1 hmem
    exact (mem_without.1 he).2 hgone

/-- An action that adds an environment under a new name. -/
theorem Effect.cons {c : Env} (hs : Wf s) (hname : c.name ∉ s.names) (hid : c.id = freshId s.envs)
    (hp : c.props .health ≠ pending) : Effect s [] { s with envs := c :: s.envs } := by
  refine ⟨hs.cons hname hid, ?_, nofun, ?_, nofun⟩
  · intro e he hpending
    rcases mem_cons.1 he with rfl | he
    · exact absurd hpending hp
    · exact .inr ⟨e, he, hpending, rfl⟩
  · intro name hmem
    exact .inl (mem_cons_of_mem _ hmem)

/-- A rename of an environment that is not pending. -/
theorem Effect.rename (hs : Wf s) (hmem : name ∈ s.names) (hnew : new ∉ s.names)
    (hp : ∀ e ∈ s.envs, e.props .health = pending → e.name ≠ name) :
    Effect s [name] (s.update name fun e => { e with name := new }) := by
  have hne : new ≠ name := fun h => hnew (h ▸ hmem)
  refine ⟨hs.renamed hnew, ?_, ?_, ?_, ?_⟩
  · intro e he hpending
    obtain ⟨e₀, he₀, rfl⟩ := mem_map.1 he
    split_ifs at hpending ⊢ with h
    · exact absurd h (hp e₀ he₀ hpending)
    · exact .inr ⟨e₀, he₀, hpending, rfl⟩
  · intro e he hpending _
    exact ⟨e, mem_map.2 ⟨e, he, if_neg (hp e he hpending)⟩, hpending, rfl⟩
  · intro name' hmem'
    by_cases h : name' = name
    · exact .inr (mem_singleton.2 h)
    · rw [names_renamed]
      exact .inl (mem_map.2 ⟨name', hmem', if_neg h⟩)
  · intro name' hgone hmem'
    obtain rfl := mem_singleton.1 hgone
    rw [names_renamed] at hmem'
    obtain ⟨a, -, ha⟩ := mem_map.1 hmem'
    split_ifs at ha with h
    · exact hne ha
    · exact h ha

end Effect

/-! ## Every action has its effect -/

section Actions

variable {s t : Bes} {e : Env}

theorem effect_prune (hs : Wf s) (destroys : Text → Bool) (keep : ℕ) :
    Effect s (pruned destroys keep s) (pruneAutomatic destroys keep s) := by
  rw [pruneAutomatic_eq destroys keep hs.names]
  refine Effect.without hs (fun e he hid hmem => ?_) fun e he hp hmem => ?_
  · exact active_not_condemned hs he hid (mem_of_mem_filter hmem)
  · obtain ⟨e', he', hname⟩ := mem_map.1 (mem_of_mem_filter hmem)
    obtain ⟨hin, hc⟩ := mem_condemned he'
    obtain rfl := hs.eq_of_name hin he hname
    simp [candidate, hp] at hc

theorem effect_create {name : Text} (hs : Wf s) (hname : name ∉ s.names)
    (h : (create name s).bind (markManual name) = some t) : Effect s [] t := by
  rw [markManual_create hname] at h
  cases h
  exact Effect.cons hs hname rfl (by decide : manual ≠ pending)

theorem effect_command {c : Command} (hs : Wf s) (h : command c s = some t) :
    Effect s (removes s (.control c)) t := by
  cases c with
  | create name =>
    rw [command] at h
    split_ifs at h with hname
    exact effect_create hs hname h
  | clone name source =>
    rw [command] at h
    split_ifs at h with hname
    exact effect_create hs (fun hmem => hname (.inl hmem)) h
  | rename name new =>
    simp only [command, Option.ite_none_left_eq_some, not_or, not_not] at h
    obtain ⟨⟨hmem, -, hprot, -, hnew⟩, h⟩ := h
    rw [rename, if_pos ⟨hmem, hnew⟩] at h
    cases h
    refine Effect.rename hs hmem hnew fun e he hp hname => hprot ?_
    exact hname ▸ isProtected_of_pending hs he hp
  | destroy name =>
    simp only [command, Option.ite_none_left_eq_some, not_or, not_not] at h
    obtain ⟨⟨hmem, hactive, hprot, -⟩, h⟩ := h
    obtain ⟨e, he, rfl⟩ := mem_names.1 hmem
    have hid : e.id ≠ s.now := fun hid => hactive (isActive_of_id hs he hid)
    have hwithout : (s.envs.filter fun e' => e'.name ≠ e.name) = without [e.name] s.envs := by
      simp [without]
    rw [destroy_eq hs.names he hid, hwithout] at h
    cases h
    refine Effect.without hs (fun e' he' hid' hgone => hactive ?_) fun e' he' hp hgone => hprot ?_
    · exact mem_singleton.1 hgone ▸ isActive_of_id hs he' hid'
    · exact mem_singleton.1 hgone ▸ isProtected_of_pending hs he' hp
  | activate name =>
    simp only [command, Option.ite_none_left_eq_some, activate, Option.map_eq_some_iff] at h
    obtain ⟨-, e, -, rfl⟩ := h
    exact Effect.same hs rfl rfl
  | activateOnce name =>
    simp only [command, Option.ite_none_left_eq_some, activateOnce,
      Option.ite_none_right_eq_some] at h
    obtain ⟨-, -, h⟩ := h
    cases h
    exact Effect.same hs rfl rfl
  | describe name words =>
    simp only [command, Option.ite_none_left_eq_some, setProp, Option.ite_none_right_eq_some] at h
    obtain ⟨-, -, h⟩ := h
    cases h
    refine Effect.update hs _ ?_ ?_ ?_ rfl rfl
    · exact fun _ => rfl
    · exact fun _ => rfl
    · exact fun _ hp => ⟨hp, rfl⟩

theorem effect_reboot (hs : Wf s) (h : reboot s = some t) : Effect s [] t := by
  obtain ⟨e, he, rfl⟩ := Option.map_eq_some_iff.1 h
  have hmem : e ∈ s.envs := by
    rcases Option.or_eq_some_iff.1 he with hs | ⟨-, hs⟩
    · obtain ⟨name, -, hf⟩ := Option.bind_eq_some_iff.1 hs
      exact mem_of_find?_eq_some hf
    · exact mem_of_find?_eq_some hs
  exact Effect.map hs (fun e' => { e' with mounted := e'.id = e.id }) (fun _ => rfl) (fun _ => rfl)
    (fun _ hp => ⟨hp, rfl⟩) rfl ⟨e, hmem, rfl⟩

theorem effect_health (hs : Wf s) (B : Boot) : Effect s [] (healthStart B s).2 := by
  rcases healthStart_cases B s with hsame | ⟨l, bootfs, heq, hl⟩
  · rw [hsame]
    exact Effect.same hs rfl rfl
  · rw [heq]
    exact Effect.update hs (Env.setProps l) (fun _ => rfl) (fun _ => rfl)
      (fun e hp => absurd hp (hl e)) rfl rfl

/-- What follows the pruning in an upgrade: the clone can go back if it is pending. -/
theorem Effect.finish {W : World} {A : Text} {base : Bes} {c : Env} {removed : List Text}
    (h : Effect s removed base) (hn : Names A (A ++ W.suffix) base) (hname : c.name = A)
    (hid : c.id = freshId base.envs)
    (hrollback : c.props .health = pending → c.props .rollback ∈ (finished W A base c).names) :
    Effect s (removed.filter fun name => name ≠ A ++ W.suffix) (finished W A base c) := by
  have hprops : ∀ e, (noted W A e).props .health = e.props .health ∧
      (noted W A e).props .rollback = e.props .rollback := fun e =>
    ⟨noted_props e (by decide), noted_props e (by decide)⟩
  refine ⟨wf_finished hn hname hid, ?_, ?_, ?_, ?_⟩
  · rw [finished_envs]
    intro e he hp
    obtain ⟨e₁, he₁, rfl⟩ := mem_map.1 he
    rw [(hprops e₁).1] at hp
    rw [(hprops e₁).2]
    rcases mem_cons.1 he₁ with rfl | he₁
    · exact .inl (hrollback hp)
    · obtain ⟨e₂, he₂, rfl⟩ := mem_map.1 he₁
      -- a rename leaves the properties alone
      have hsame : (if e₂.name = A then { e₂ with name := A ++ W.suffix } else e₂).props =
          e₂.props := by split_ifs <;> rfl
      rw [hsame] at hp ⊢
      rcases h.returns e₂ he₂ hp with hmem | hbefore
      · exact .inl ((mem_names_finished hn hname).2 (.inr (.inr hmem)))
      · exact .inr hbefore
  · intro e he hp hgone
    obtain ⟨e₁, he₁, hp₁, hrb⟩ := h.stays e he hp (mem_of_mem_filter hgone)
    refine ⟨noted W A (if e₁.name = A then { e₁ with name := A ++ W.suffix } else e₁), ?_, ?_, ?_⟩
    · rw [finished_envs]
      exact mem_map_of_mem (mem_cons_of_mem _ (mem_map.2 ⟨e₁, he₁, rfl⟩))
    · rw [(hprops _).1, ← hp₁]
      split_ifs <;> rfl
    · rw [(hprops _).2, ← hrb]
      split_ifs <;> rfl
  · intro name hmem
    rw [mem_names_finished hn hname]
    by_cases hP : name = A ++ W.suffix
    · exact .inl (.inr (.inl hP))
    · rcases h.names name hmem with hin | hgone
      · exact .inl (.inr (.inr hin))
      · exact .inr (mem_filter.2 ⟨hgone, by simpa using hP⟩)
  · intro name hgone hmem
    obtain ⟨hremoved, hP⟩ := mem_filter.1 hgone
    rcases (mem_names_finished hn hname).1 hmem with hA | hsuffix | hmem
    · exact h.gone _ hremoved (hA ▸ hn.mem)
    · exact absurd hsuffix (by simpa using hP)
    · exact h.gone _ hremoved hmem

/-- A successful upgrade has made its clone. -/
theorem act_upgrade {W : World} (hs : Wf s) (h : act s (.upgrade W) = some t) :
    Names s.activeName (s.activeName ++ W.suffix) (prunedFor W s) ∧
      ∃ c, Done W s.activeName (prunedFor W s) c ∧
        t = finished W s.activeName (prunedFor W s) c := by
  have hreach : Reaches W s := by
    by_contra hno
    obtain ⟨n, hn, hrun⟩ := upgrade_of_not_reaches hs hno
    simp only [act, hrun, if_neg hn] at h
    cases h
  obtain ⟨c, hc, hrun⟩ := upgrade_of_reaches hs hreach
  simp only [act, hrun, if_true] at h
  exact ⟨names_of_free hs hreach.free, c, hc, (Option.some.inj h).symm⟩

/-- The clone of an upgrade can go back if and only if the name is recorded. -/
theorem rollback_mem_iff {W : World} {c : Env}
    (hn : Names s.activeName (s.activeName ++ W.suffix) (prunedFor W s))
    (hc : Done W s.activeName (prunedFor W s) c) :
    (c.props .health = pending →
      c.props .rollback ∈ (finished W s.activeName (prunedFor W s) c).names) ↔
        Records s (.upgrade W) := by
  have hdash : dash ≠ pending := by decide
  have hactive : dash = s.activeName → dash ∈ (prunedFor W s).names := fun h => h ▸ hn.mem
  rw [mem_names_finished hn hc.name, hc.health, hc.rollback, Records]
  cases W.ok .setHealth with
  | false => simp [hdash]
  | true =>
    cases W.ok .setRollback with
    | true => simp
    | false =>
      simp only [if_true, Bool.false_eq_true, if_false, forall_const, false_or]
      exact ⟨fun h => h.elim (fun h => .inr (hactive h)) id, .inr⟩

theorem effect_act {a : Action} (hs : Wf s) (h : act s a = some t) (hrec : Records s a) :
    Effect s (removes s a) t := by
  cases a with
  | upgrade W =>
    obtain ⟨hn, c, hc, rfl⟩ := act_upgrade hs h
    exact Effect.finish (effect_prune hs _ _) hn hc.name hc.id ((rollback_mem_iff hn hc).2 hrec)
  | prune destroys keep =>
    cases h
    exact effect_prune hs destroys keep
  | control c =>
    simp only [act, freesenseBe, Option.ite_none_right_eq_some] at h
    exact effect_command hs h.2
  | reboot => exact effect_reboot hs h
  | health B =>
    cases h
    exact effect_health hs B

end Actions

/-! ## Histories -/

theorem wf_act (s : Bes) (a : Action) (t : Bes) (hs : Wf s) (h : act s a = some t) : Wf t := by
  by_cases hrec : Records s a
  · exact (effect_act hs h hrec).wf
  · cases a with
    | upgrade W =>
      obtain ⟨hn, c, hc, rfl⟩ := act_upgrade hs h
      exact wf_finished hn hc.name hc.id
    | _ => exact absurd trivial hrec

theorem wayBack_act_iff (s : Bes) (a : Action) (t : Bes) (hs : Wf s) (hback : WayBack s)
    (h : act s a = some t) : WayBack t ↔ Spares s a ∧ Records s a := by
  by_cases hrec : Records s a
  · exact ((effect_act hs h hrec).wayBack_iff hback).trans (and_iff_left hrec).symm
  · refine iff_of_false (fun ht => hrec ?_) fun hboth => hrec hboth.2
    cases a with
    | upgrade W =>
      obtain ⟨hn, c, hc, rfl⟩ := act_upgrade hs h
      exact (rollback_mem_iff hn hc).1 (ht c ((mem_finished hn hc.name).2 rfl).1)
    | _ => trivial

/-- **A pending environment has its way back** all along a history that starts with none pending,
exactly if no action takes away a name that a pending environment needs at that moment, and no upgrade
leaves a pending clone without one. -/
theorem history_wayBack_iff (s t : Bes) (as : List Action) (hs : Wf s)
    (hnone : ∀ e ∈ s.envs, e.props .health ≠ pending) :
    (∀ as₁ as₂ u, as = as₁ ++ as₂ → History s as₁ u → History u as₂ t → WayBack u) ↔
      ∀ as₁ a as₂ u v, as = as₁ ++ a :: as₂ → History s as₁ u → act u a = some v →
        History v as₂ t → Spares u a ∧ Records u a :=
  Run.forall_iff wf_act wayBack_act_iff hs fun e he hp => absurd hp (hnone e he)

def firstUpgrade : Action := .upgrade (worldWith fun _ => true)

def previousName : Text := "default_20260401093000".toList

theorem onePool_none_pending : ∀ e ∈ onePool.envs, e.props .health ≠ pending := by
  rintro e he
  cases mem_singleton.1 he
  exact (by decide : dash ≠ pending)

/-- An upgrade, the boot into it, and a rename of an environment that is not the way back. -/
def otherRename : List Action :=
  [firstUpgrade, .reboot, .control (.create "spare".toList),
    .control (.rename "spare".toList "other".toList)]

theorem history_wayBack_iff_otherRename :
    ∃ t, History onePool otherRename t ∧ (∃ e ∈ t.envs, e.props .health = pending) ∧ WayBack t := by
  have hsome : (otherRename.foldlM (fun s a => if Spares s a ∧ Records s a then act s a else none)
      onePool).isSome = true := by decide +kernel
  have hrun : (otherRename.foldlM act onePool).map
      (fun t => decide (∃ e ∈ t.envs, e.props .health = pending)) = some true := by decide +kernel
  obtain ⟨u, hu⟩ := Option.isSome_iff_exists.1 hsome
  obtain ⟨t, ht, hpending⟩ := Option.map_eq_some_iff.1 hrun
  have r : History onePool otherRename t := .of_foldlM ht
  refine ⟨t, r, of_decide_eq_true hpending, ?_⟩
  refine (history_wayBack_iff onePool t otherRename onePool_wf onePool_none_pending).2 ?_
    otherRename [] t (append_nil _).symm r (.nil t)
  exact Run.forall_of_foldlM hu

/-- After an upgrade and the boot into it the environment to go back to may be renamed: it is neither
booted nor pending. -/
theorem renamed_way_back : (∀ e ∈ onePool.envs, e.props .health ≠ pending) ∧
    ∃ t, History onePool
        [firstUpgrade, .reboot, .control (.rename previousName "previous".toList)] t ∧
      ¬ WayBack t := by
  have hrun : (([firstUpgrade, .reboot, .control (.rename previousName "previous".toList)].foldlM
      act onePool).map fun t => (t.envs.map fun e => (e.props .health, e.props .rollback), t.names)) =
      some ([(pending, previousName), (dash, dash)], ["default".toList, "previous".toList]) := by
    decide +kernel
  obtain ⟨t, ht, hview⟩ := Option.map_eq_some_iff.1 hrun
  obtain ⟨hprops, hnames⟩ := Prod.mk.inj hview
  refine ⟨onePool_none_pending, t, .of_foldlM ht, fun hback => ?_⟩
  have hmem : (pending, previousName) ∈ t.envs.map fun e => (e.props .health, e.props .rollback) := by
    rw [hprops]
    exact mem_cons_self
  obtain ⟨e, he, heq⟩ := mem_map.1 hmem
  obtain ⟨hhealth, hrollback⟩ := Prod.mk.inj heq
  have hgone := hback e he hhealth
  rw [hnames, hrollback] at hgone
  exact absurd hgone (by decide)

end FreeSense.BootEnv
