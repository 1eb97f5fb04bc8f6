import FreeSensePorts.Core.KeyMatch
import FreeSensePorts.Filterdns.Parse

/-!
# What a reload installs

`merge_config` prefers, for each action of the new file, an old one with the same type, host name,
table and anchor.  Its comparison leaves out the pipe and the command, which `action_add` does compare.
So the reload installs what the file says if the old actions that are kept carry the rules of the new
ones they stand in for, and none that is dropped is in the file.  The merging loop is
`KeyMatch.matchAll` (`foldl_mergeOne`).
-/

namespace FreeSense.Filterdns

open List KeyMatch

variable {rules : List Dnsrule}

/-- A state between two reloads: every action has had its thread. -/
structure Live (s : Sys) : Prop where
  ids : s.Ids
  started : ∀ a ∈ s.actionList, a.state ≠ .STOPPED

def Action.key (a : Action) : ActType × Text × Option Text × Option Text := a.toRule.key

/-! ## The two loops -/

@[simp] lemma actionDel_actionList (a : Action) (s : Sys) :
    (actionDel a s).actionList = s.actionList := by
  unfold actionDel tableCleanup hostDel
  cases a.host <;> rfl

/-- What a reload leaves of a host: it may lose actions, and it may get its thread. -/
structure Host.Kept (h h' : Host) : Prop where
  id : h'.id = h.id
  hostname : h'.hostname = h.hostname
  masks : (h'.mask, h'.mask6) = (h.mask, h.mask6)
  rnh : h'.rnh = h.rnh
  running : h'.state = .RUNNING ↔ h.state = .RUNNING

/-- Every host is what is left of one before. -/
def HostsKept (l l' : List Host) : Prop := ∀ h' ∈ l', ∃ h ∈ l, h.Kept h'

lemma Host.Kept.refl (h : Host) : h.Kept h := ⟨rfl, rfl, rfl, rfl, Iff.rfl⟩

lemma HostsKept.map {l : List Host} {f : Host → Host} (hf : ∀ h : Host, h.Kept (f h)) :
    HostsKept l (l.map f) := by
  intro h' hh'
  obtain ⟨h, hh, rfl⟩ := mem_map.mp hh'
  exact ⟨h, hh, hf h⟩

lemma HostsKept.trans {l l' l'' : List Host} (h : HostsKept l l') (h' : HostsKept l' l'') :
    HostsKept l l'' := by
  intro k'' hk''
  obtain ⟨k', hk', hkept'⟩ := h' k'' hk''
  obtain ⟨k, hk, hkept⟩ := h k' hk'
  exact ⟨k, hk, hkept'.id.trans hkept.id, hkept'.hostname.trans hkept.hostname,
    hkept'.masks.trans hkept.masks, hkept'.rnh.trans hkept.rnh, hkept'.running.trans hkept.running⟩

lemma kept_create (h : Host) : h.Kept h.create := by
  unfold Host.create
  split_ifs with hstate
  · exact .refl h
  · exact ⟨rfl, rfl, rfl, rfl, by simp [not_not.mp hstate]⟩

lemma actionDel_hosts (a : Action) (s : Sys) :
    HostsKept s.threadList (actionDel a s).threadList := by
  unfold actionDel tableCleanup hostDel
  cases a.host with
  | none => exact fun h hh => ⟨h, hh, .refl h⟩
  | some i =>
    refine HostsKept.map fun h => ?_
    split_ifs
    · exact ⟨rfl, rfl, rfl, rfl, Iff.rfl⟩
    · exact .refl h

lemma mergeOne_eq (m : Merge) (a : Action) :
    ((mergeOne m a).tmp, (mergeOne m a).sys.actionList)
      = matchStep Action.key (m.tmp, m.sys.actionList) a := by
  unfold mergeOne
  split
  case h_1 o h =>
      have hfind : m.tmp.find? (fun t => Action.key t = Action.key a) = some o := h
      rw [matchStep, hfind, actionDel_actionList]
      rfl
  case h_2 h =>
      have hfind : m.tmp.find? (fun t => Action.key t = Action.key a) = none := h
      rw [matchStep, hfind]

/-- **The loop over the new actions is the matching by key.** -/
theorem foldl_mergeOne : ∀ (todo : List Action) (m : Merge),
    ((todo.foldl mergeOne m).tmp, (todo.foldl mergeOne m).sys.actionList)
      = todo.foldl (matchStep Action.key) (m.tmp, m.sys.actionList)
  | [], _ => rfl
  | a :: todo, m => by
    rw [foldl_cons, foldl_cons, foldl_mergeOne todo, mergeOne_eq]

lemma foldl_mergeOne_new : ∀ (todo : List Action) (m : Merge), m.new = todo →
    (todo.foldl mergeOne m).new = []
  | [], _, h => h
  | a :: todo, m, h => by
    refine foldl_mergeOne_new todo (mergeOne m a) ?_
    simp only [mergeOne]
    split <;> simp [h]

section Loops

variable {P : List Host → ℕ → Prop} (hdel : ∀ (act : Action) (s : Sys),
  P s.threadList s.fresh → P (actionDel act s).threadList (actionDel act s).fresh)
include hdel

lemma foldl_mergeOne_invariant : ∀ (todo : List Action) {m : Merge}, P m.sys.threadList m.sys.fresh →
    P (todo.foldl mergeOne m).sys.threadList (todo.foldl mergeOne m).sys.fresh
  | [], _, h => h
  | act :: todo, m, h => by
    refine foldl_mergeOne_invariant todo ?_
    simp only [mergeOne]
    split
    · exact hdel act _ h
    · exact h

lemma foldl_clearOne_invariant : ∀ (todo : List Action) {m : Merge}, P m.sys.threadList m.sys.fresh →
    P (todo.foldl clearOne m).sys.threadList (todo.foldl clearOne m).sys.fresh
  | [], _, h => h
  | act :: todo, _, h => foldl_clearOne_invariant todo (hdel act _ h)

end Loops

lemma foldl_clearOne : ∀ (todo : List Action) (m : Merge), m.tmp = todo →
    (todo.foldl clearOne m).tmp = [] ∧ (todo.foldl clearOne m).new = m.new ∧
      (todo.foldl clearOne m).sys.actionList = m.sys.actionList
  | [], _, h => ⟨h, rfl, rfl⟩
  | a :: todo, m, h => by
    have hone : (clearOne m a).tmp = todo := by simp [clearOne, h]
    obtain ⟨htmp, hnew, hact⟩ := foldl_clearOne todo (clearOne m a) hone
    refine ⟨htmp, hnew, hact.trans ?_⟩
    simp [clearOne]

/-- The daemon between two lines of a file: `tmp` is the `tmp_action_list` of `merge_config`. -/
structure Conf where
  sys : Sys
  tmp : List Action

/-- The last loop of `merge_config`. -/
def postRunning (s : Sys) : Sys :=
  { s with threadList := s.threadList.map fun h =>
      if h.state = .RUNNING ∨ h.state = .STARTING then { h with sem := h.sem + 1 } else h }

/-- The two loops of `merge_config`, from the end of `parse_config` on. -/
def mergeLoops (c : Conf) : Merge :=
  let m : Merge := ⟨{ c.sys with actionList := [] }, c.tmp, c.sys.actionList⟩
  let m := c.sys.actionList.foldl mergeOne m
  m.tmp.foldl clearOne m

/-- `merge_config`, from the end of `parse_config` on. -/
def mergeParsed (c : Conf) : Conf :=
  ⟨postRunning (startThreads (mergeLoops c).sys), (mergeLoops c).tmp⟩

lemma mergeLoops_eq (c : Conf) : (mergeLoops c).tmp = [] ∧ (mergeLoops c).new = [] ∧
    (mergeLoops c).sys.actionList = (matchAll Action.key c.tmp c.sys.actionList).2 := by
  set m₀ : Merge := ⟨{ c.sys with actionList := [] }, c.tmp, c.sys.actionList⟩ with hm₀
  have hmatch := foldl_mergeOne c.sys.actionList m₀
  obtain ⟨htmp, hnew, hact⟩ := foldl_clearOne (c.sys.actionList.foldl mergeOne m₀).tmp _ rfl
  exact ⟨htmp, hnew.trans (foldl_mergeOne_new c.sys.actionList m₀ rfl),
    hact.trans (congrArg Prod.snd hmatch)⟩

lemma mergeLoops_invariant {P : List Host → ℕ → Prop} (hdel : ∀ (act : Action) (s : Sys),
      P s.threadList s.fresh → P (actionDel act s).threadList (actionDel act s).fresh) {c : Conf}
    (h : P c.sys.threadList c.sys.fresh) :
    P (mergeLoops c).sys.threadList (mergeLoops c).sys.fresh :=
  foldl_clearOne_invariant hdel _ (foldl_mergeOne_invariant hdel _ h)

lemma exists_parsed {s t : Sys} (h : mergeConfig rules s = .ok t) :
    ∃ parsed, parseConfig rules { s with actionList := [] } = .ok parsed := by
  cases hparse : parseConfig rules { s with actionList := [] } with
  | error e => simp [mergeConfig, mergeLists, hparse, bind, Except.bind] at h
  | ok parsed => exact ⟨parsed, rfl⟩

lemma mergeConfig_ok {s parsed : Sys}
    (h : parseConfig rules { s with actionList := [] } = .ok parsed) :
    mergeLists rules s = .ok (mergeLoops ⟨parsed, s.actionList⟩) ∧
      mergeConfig rules s = .ok (mergeParsed ⟨parsed, s.actionList⟩).sys := by
  have hlists : mergeLists rules s = .ok (mergeLoops ⟨parsed, s.actionList⟩) := by
    simp only [mergeLists, h, bind, Except.bind]
    rfl
  obtain ⟨htmp, hnew, -⟩ := mergeLoops_eq ⟨parsed, s.actionList⟩
  refine ⟨hlists, ?_⟩
  simp only [mergeConfig, hlists, bind, Except.bind, htmp, hnew]
  rfl

lemma mergeParsed_hosts (c : Conf) : HostsKept c.sys.threadList (mergeParsed c).sys.threadList := by
  have hloops : HostsKept c.sys.threadList (mergeLoops c).sys.threadList :=
    mergeLoops_invariant (P := fun l _ => HostsKept c.sys.threadList l)
      (fun act s hs => hs.trans (actionDel_hosts act s)) fun h hh => ⟨h, hh, .refl h⟩
  refine (hloops.trans (HostsKept.map kept_create)).trans (HostsKept.map fun h => ?_)
  split_ifs
  · exact ⟨rfl, rfl, rfl, rfl, Iff.rfl⟩
  · exact .refl h

/-- **One reload.**  A file that parses is merged without the assertion firing, and the list of
actions is the matching of the old actions with the parsed ones. -/
theorem mergeConfig_eq {s parsed : Sys}
    (h : parseConfig rules { s with actionList := [] } = .ok parsed) :
    ∃ m t, mergeLists rules s = .ok m ∧ mergeConfig rules s = .ok t ∧ m.tmp = [] ∧ m.new = [] ∧
      t.actionList
        = (matchAll Action.key s.actionList parsed.actionList).2.map Action.create ∧
      HostsKept parsed.threadList t.threadList := by
  obtain ⟨hlists, hmerge⟩ := mergeConfig_ok h
  obtain ⟨htmp, hnew, hact⟩ := mergeLoops_eq ⟨parsed, s.actionList⟩
  exact ⟨_, _, hlists, hmerge, htmp, hnew, congrArg (List.map Action.create) hact,
    mergeParsed_hosts ⟨parsed, s.actionList⟩⟩

/-! ## What a reload should do -/

/-- **The new configuration is installed**: the rules of the actions are those of the file, an old
action whose rule is in the file is still there, untouched, every other old action is gone, and
nothing is left in the two temporary lists. -/
structure Installed (old : List Action) (rules : List Rule) (m : Merge) (t : Sys) : Prop where
  exact : (t.actionList.map Action.toRule).Perm rules
  kept : ∀ o ∈ old, o.toRule ∈ rules → o ∈ t.actionList
  deleted : ∀ o ∈ old, o.toRule ∉ rules → ∀ a ∈ t.actionList, a.id ≠ o.id
  tmp : m.tmp = []
  new : m.new = []

/-- For each key, the old actions that will stand in for new ones carry the same rules, and those
that will be dropped are not in the file. -/
def StandsIn (old : List Action) (rules : List Rule) : Prop :=
  ∀ k, (((on Action.key k old).take (on Rule.key k rules).length).map Action.toRule).Perm
      ((on Rule.key k rules).take (on Action.key k old).length) ∧
    ∀ o ∈ (on Action.key k old).drop (on Rule.key k rules).length, o.toRule ∉ rules

@[simp] lemma create_toRule (a : Action) : a.create.toRule = a.toRule := by
  unfold Action.create
  split_ifs <;> rfl

lemma create_of_started {a : Action} (h : a.state ≠ .STOPPED) : a.create = a := if_pos h

lemma create_started (a : Action) : a.create.state ≠ .STOPPED := by
  unfold Action.create
  split_ifs with h
  · exact h
  · simp

section Matching

variable {old new : List Action} {fresh : ℕ} (hnodup : (old.map Action.id).Nodup)
  (hold : ∀ o ∈ old, o.id < fresh) (hnew : ∀ a ∈ new, fresh ≤ a.id)

include hold hnew

lemma taken_of_old {o a : Action} (ho : o ∈ old) (hid : a.id = o.id)
    (ha : a ∈ (matchAll Action.key old new).2) :
    a ∈ (on Action.key a.key old).take (on Action.key a.key new).length := by
  have hon := (on_matchAll_taken Action.key old new a.key).mem_iff.mp (mem_on.mpr ⟨ha, rfl⟩)
  rcases mem_append.mp hon with hon | hon
  · exact hon
  · have := hnew a (mem_on.mp (mem_of_mem_drop hon)).1
    have := hold o ho
    omega

include hnodup

/-- An old action is chosen exactly if it is not among the dropped ones of its key. -/
lemma mem_taken_iff {o : Action} (ho : o ∈ old) : o ∈ (matchAll Action.key old new).2 ↔
    o ∉ (on Action.key o.key old).drop (on Action.key o.key new).length := by
  have hmem : o ∈ on Action.key o.key old := mem_on.mpr ⟨ho, rfl⟩
  have hon : (on Action.key o.key old).Nodup := hnodup.of_map.filter _
  constructor
  · intro htaken hdrop
    have htake := taken_of_old hold hnew ho rfl htaken
    rw [← take_append_drop (on Action.key o.key new).length (on Action.key o.key old)] at hon
    exact (nodup_append.mp hon).2.2 o htake o hdrop rfl
  · intro hdrop
    rw [← take_append_drop (on Action.key o.key new).length (on Action.key o.key old),
      mem_append] at hmem
    have hin := (on_matchAll_taken Action.key old new o.key).mem_iff.mpr
      (mem_append.mpr (Or.inl (hmem.resolve_right hdrop)))
    exact (mem_on.mp hin).1

end Matching

lemma rules_perm_iff (old : List Action) {new : List Action} {rules : List Rule}
    (hrules : new.map Action.toRule = rules) :
    ((matchAll Action.key old new).2.map Action.toRule).Perm rules ↔
      ∀ k, (((on Action.key k old).take (on Rule.key k rules).length).map Action.toRule).Perm
        ((on Rule.key k rules).take (on Action.key k old).length) := by
  have hkey : ∀ a : Action, a.toRule.key = a.key := fun _ => rfl
  have hon : ∀ k, on Rule.key k rules = (on Action.key k new).map Action.toRule := by
    intro k
    rw [map_on hkey, hrules]
  have hlen : ∀ k, (on Rule.key k rules).length = (on Action.key k new).length := by
    intro k
    rw [hon, length_map]
  -- one key at a time, the new rules that are not stood in for cancel on both sides
  have hk : ∀ k, (on Rule.key k ((matchAll Action.key old new).2.map Action.toRule)).Perm
        (on Rule.key k rules) ↔
      (((on Action.key k old).take (on Rule.key k rules).length).map Action.toRule).Perm
        ((on Rule.key k rules).take (on Action.key k old).length) := by
    intro k
    have htaken := (on_matchAll_taken Action.key old new k).map Action.toRule
    rw [map_on hkey, map_append, map_drop, ← hon,
      ← hlen k] at htaken
    have hsplit := take_append_drop (on Action.key k old).length (on Rule.key k rules)
    constructor
    · intro hperm
      refine (perm_append_right_iff
        ((on Rule.key k rules).drop (on Action.key k old).length)).mp ?_
      rw [hsplit]
      exact htaken.symm.trans hperm
    · intro hperm
      refine htaken.trans ((hperm.append_right _).trans ?_)
      rw [hsplit]
  constructor
  · intro hperm k
    exact (hk k).mp (hperm.filter _)
  · intro h
    exact perm_of_on Rule.key fun k => (hk k).mpr (h k)

/-- **When a reload installs the new configuration.**  For every running daemon and every file that
parses, `merge_config` completes its turn, and it installs the file exactly if, key by key, the old
actions stand in for equal new ones and none that is in the file is dropped. -/
theorem reload_installs_iff {rules : List Dnsrule} {s parsed : Sys} (hs : Live s)
    (hparse : parseConfig rules { s with actionList := [] } = .ok parsed) :
    ∃ m t, mergeLists rules s = .ok m ∧ mergeConfig rules s = .ok t ∧
      (Installed s.actionList (rules.map Dnsrule.rule) m t ↔
        StandsIn s.actionList (rules.map Dnsrule.rule)) := by
  obtain ⟨new, hlist, hrules, hnew⟩ := parseConfig_actions (by simp) hparse
  obtain ⟨m, t, hm, ht, htmp, hnil, hact, -⟩ := mergeConfig_eq hparse
  rw [hlist] at hact
  refine ⟨m, t, hm, ht, ?_⟩
  have hfresh : ∀ a ∈ new, s.fresh ≤ a.id := fun a ha => (hnew a ha).1
  have hrule : t.actionList.map Action.toRule
      = (matchAll Action.key s.actionList new).2.map Action.toRule := by
    rw [hact, map_map]
    exact map_congr_left fun a _ => create_toRule a
  -- an old action is on the list exactly if the matching has chosen it
  have hmem : ∀ o ∈ s.actionList,
      (o ∈ t.actionList ↔ o ∈ (matchAll Action.key s.actionList new).2) := by
    intro o ho
    rw [hact, mem_map]
    constructor
    · rintro ⟨a, ha, rfl⟩
      have htake := taken_of_old hs.ids.actionsFresh hfresh ho (create_id a).symm ha
      have hstarted := hs.started a (mem_on.mp (mem_of_mem_take htake)).1
      rwa [create_of_started hstarted]
    · intro h
      exact ⟨o, h, create_of_started (hs.started o ho)⟩
  have hlen : ∀ k, (on Rule.key k (rules.map Dnsrule.rule)).length
      = (on Action.key k new).length := by
    intro k
    have hkey : ∀ a : Action, a.toRule.key = a.key := fun _ => rfl
    rw [← hrules, ← map_on hkey, length_map]
  have hperm := rules_perm_iff s.actionList hrules
  constructor
  · intro h k
    refine ⟨hperm.mp (hrule ▸ h.exact) k, ?_⟩
    intro o hdrop hin
    obtain ⟨ho, rfl⟩ := mem_on.mp (mem_of_mem_drop hdrop)
    rw [hlen] at hdrop
    exact (mem_taken_iff hs.ids.actions hs.ids.actionsFresh hfresh ho).mp
      ((hmem o ho).mp (h.kept o ho hin)) hdrop
  · intro h
    refine ⟨hrule ▸ hperm.mpr fun k => (h k).1, ?_, ?_, htmp, hnil⟩
    · intro o ho hin
      refine (hmem o ho).mpr
        ((mem_taken_iff hs.ids.actions hs.ids.actionsFresh hfresh ho).mpr ?_)
      rw [← hlen]
      exact fun hdrop => (h o.key).2 o hdrop hin
    · intro o ho hout a ha hid
      rw [hact, mem_map] at ha
      obtain ⟨b, hb, rfl⟩ := ha
      rw [create_id] at hid
      have htake := taken_of_old hs.ids.actionsFresh hfresh ho hid hb
      have hbo : b = o := inj_on_of_nodup_map hs.ids.actions
        (mem_on.mp (mem_of_mem_take htake)).1 ho hid
      subst hbo
      rw [← hlen] at htake
      have := ((h b.key).1.mem_iff).mp (mem_map_of_mem htake)
      exact hout (mem_on.mp (mem_of_mem_take this)).1

/-! ## A command that is not replaced -/

def cmdLine (command : String) : Dnsrule := .cmd "www.example.org".toList (some command.toList)

/-- **An old command survives.**  The daemon runs with one `cmd` line; the new file has the same
host with another command.  After the reload the old command is still installed and the new one is
not. -/
theorem reload_keeps_old_command :
    ∃ s m t, startup [cmdLine "old"] = .ok s ∧ mergeLists [cmdLine "new"] s = .ok m ∧
      mergeConfig [cmdLine "new"] s = .ok t ∧
      t.actionList.map Action.toRule = [(cmdLine "old").rule] ∧
      ¬Installed s.actionList [(cmdLine "new").rule] m t := by
  refine ⟨_, _, _, rfl, rfl, rfl, rfl, ?_⟩
  intro h
  have := h.exact.mem_iff (a := (cmdLine "new").rule)
  exact absurd (this.mpr (by simp)) (by decide)

theorem reload_installs_iff_same :
    ∃ s m t, startup [cmdLine "old"] = .ok s ∧ mergeLists [cmdLine "old"] s = .ok m ∧
      mergeConfig [cmdLine "old"] s = .ok t ∧ Installed s.actionList [(cmdLine "old").rule] m t := by
  obtain ⟨s, hs⟩ : ∃ s, startup [cmdLine "old"] = .ok s := ⟨_, rfl⟩
  obtain ⟨parsed, hparse⟩ : ∃ parsed,
      parseConfig [cmdLine "old"] { s with actionList := [] } = .ok parsed := by
    cases hs
    exact ⟨_, rfl⟩
  have hlive : Live s := by
    cases hs
    exact ⟨⟨by decide +kernel, by decide +kernel, by decide +kernel, by decide +kernel⟩,
      by decide +kernel⟩
  obtain ⟨m, t, hm, ht, hiff⟩ := reload_installs_iff hlive hparse
  refine ⟨s, m, t, hs, hm, ht, hiff.mpr fun k => ?_⟩
  obtain ⟨a, hlist, hrule⟩ : ∃ a, s.actionList = [a] ∧ a.toRule = (cmdLine "old").rule := by
    cases hs
    exact ⟨_, rfl, rfl⟩
  by_cases hk : (cmdLine "old").rule.key = k <;> simp [on, hlist, Action.key, hrule, hk]

end FreeSense.Filterdns
