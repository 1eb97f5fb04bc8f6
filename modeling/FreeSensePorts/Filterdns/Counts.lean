import FreeSensePorts.Filterdns.Reload
import FreeSensePorts.Filterdns.Threads

/-!
# Reference counts

A host counts the actions that name it in `refcnt`, lists them in `actions`, and each of them points
back to it; its thread ends, and frees it, when the count is zero.  While `merge_config` runs there are
up to three lists of actions.  So `Counted` speaks of the *links* of all live actions, in no particular
order: moving an action between lists is a permutation.

`Conf` is the daemon between two lines of a file, or two list operations of a reload.  Its steps may
come in any order; a start and a reload are among its runs (`run_startup`, `run_mergeConfig`).
-/

namespace FreeSense.Filterdns

open List MarkSweep

/-! ## The daemon, line by line -/

def Conf.init : Conf := ⟨.empty, []⟩

def Conf.acts (c : Conf) : List Action := c.sys.actionList ++ c.tmp

/-- `clear_config`, for `action_list`. -/
def clearConfig (s : Sys) : Sys :=
  s.actionList.foldl
    (fun s act => actionDel act { s with actionList := s.actionList.eraseP fun a => a.id = act.id }) s

/-- The loop of `clear_config`: what deleting the first action keeps is kept, until none is left. -/
lemma clearConfig_invariant {P : Sys → Prop}
    (hdel : ∀ {act : Action} {rest : List Action} {s : Sys}, s.actionList = act :: rest → P s →
      P (actionDel act { s with actionList := rest })) {s : Sys} (h : P s) :
    P (clearConfig s) ∧ (clearConfig s).actionList = [] := by
  have hloop : ∀ (todo : List Action) (s : Sys), s.actionList = todo → P s →
      P (todo.foldl (fun s act => actionDel act
        { s with actionList := s.actionList.eraseP fun a => a.id = act.id }) s) ∧
      (todo.foldl (fun s act => actionDel act
        { s with actionList := s.actionList.eraseP fun a => a.id = act.id }) s).actionList = [] := by
    intro todo
    induction todo with
    | nil => exact fun s hlist hs => ⟨hs, hlist⟩
    | cons act todo ih =>
      intro s hlist hs
      have hrest : s.actionList.eraseP (fun a => a.id = act.id) = todo := by simp [hlist]
      refine ih _ (by simp [hrest]) ?_
      simpa only [hrest] using hdel hlist hs
  exact hloop s.actionList s rfl h

inductive Op
  | line (r : Dnsrule)
  | start
  | setAside
  | merge
  | clear
  | event (e : Event)

def Conf.Step (c : Conf) : Op → Conf → Prop
  | .line r, d => dnsrule c.sys r = .ok d.sys ∧ d.tmp = c.tmp
  | .start, d => d = ⟨startThreads c.sys, c.tmp⟩
  | .setAside, d => d = ⟨{ c.sys with actionList := [] }, c.tmp ++ c.sys.actionList⟩
  | .merge, d => d = mergeParsed c
  | .clear, d => d = ⟨clearConfig c.sys, c.tmp⟩
  | .event e, d => Filterdns.Step c.sys e d.sys ∧ d.tmp = c.tmp

lemma run_lines : ∀ {rules : List Dnsrule} {s t : Sys} (tmp : List Action),
    parseConfig rules s = .ok t → Run Conf.Step ⟨s, tmp⟩ (rules.map .line) ⟨t, tmp⟩
  | [], s, t, tmp, h => by
    rw [parseConfig_nil, Except.ok.injEq] at h
    exact h ▸ .nil _
  | r :: rules, s, t, tmp, h => by
    obtain ⟨u, hu, ht⟩ := parseConfig_cons h
    exact .cons (t := ⟨u, tmp⟩) ⟨hu, rfl⟩ (run_lines tmp ht)

variable {rules : List Dnsrule} {t : Sys} {f : Host → Host} {m : Merge}

theorem run_startup {s : Sys} (h : startup rules = .ok s) :
    Run Conf.Step .init (rules.map .line ++ [.start]) ⟨s, []⟩ := by
  obtain ⟨parsed, hparse, rfl⟩ := startup_ok h
  exact (run_lines [] hparse).snoc rfl

theorem run_mergeConfig {s : Sys} (h : mergeConfig rules s = .ok t) :
    Run Conf.Step ⟨s, []⟩ (.setAside :: (rules.map .line ++ [.merge])) ⟨t, []⟩ := by
  obtain ⟨parsed, hparse⟩ := exists_parsed h
  have haside : Conf.Step ⟨s, []⟩ .setAside ⟨{ s with actionList := [] }, s.actionList⟩ := rfl
  refine .cons haside ?_
  refine (run_lines s.actionList hparse).snoc ?_
  have ht : t = (mergeParsed ⟨parsed, s.actionList⟩).sys :=
    Except.ok.inj (h.symm.trans (mergeConfig_ok hparse).2)
  have htmp : (mergeParsed ⟨parsed, s.actionList⟩).tmp = [] := (mergeLoops_eq _).1
  rw [ht, ← htmp]
  rfl

/-- A pass of a thread, or a reload. -/
def Life (s : Sys) : Event ⊕ List Dnsrule → Sys → Prop
  | .inl e, t => Step s e t
  | .inr rules, t => mergeConfig rules s = .ok t

/-- Every state of the daemon between two reloads is reached. -/
theorem run_life {s : Sys} {es : List (Event ⊕ List Dnsrule)} (hstart : startup rules = .ok s)
    (r : Run Life s es t) : ∃ ops, Run Conf.Step .init ops ⟨t, []⟩ := by
  refine r.invariant (I := fun t => ∃ ops, Run Conf.Step .init ops ⟨t, []⟩) ?_ ⟨_, run_startup hstart⟩
  rintro t e u ⟨ops, hops⟩ hstep
  cases e with
  | inl e =>
    have hevent : Conf.Step ⟨t, []⟩ (.event e) ⟨u, []⟩ := ⟨hstep, rfl⟩
    exact ⟨_, hops.snoc hevent⟩
  | inr rules => exact ⟨_, hops.append (run_mergeConfig hstep)⟩

/-! ## Links -/

/-- An action as its host sees it. -/
def Action.link (a : Action) : ℕ × Option ℕ := (a.id, a.host)

/-- A host as its actions see it. -/
def Host.links (h : Host) : ℕ × ℕ × List ℕ := (h.id, h.refcnt, h.actions)

/-- **Counts, lists and pointers agree.** -/
structure Counted (hosts : List Host) (fresh : ℕ) (links : List (ℕ × Option ℕ)) : Prop where
  ids : (links.map Prod.fst).Nodup
  idsFresh : ∀ l ∈ links, l.1 < fresh
  hostIds : (hosts.map Host.id).Nodup
  hostIdsFresh : ∀ h ∈ hosts, h.id < fresh
  attached : ∀ l ∈ links, ∃ h ∈ hosts, l.2 = some h.id
  refcnt : ∀ h ∈ hosts, h.refcnt = h.actions.length
  nodup : ∀ h ∈ hosts, h.actions.Nodup
  mem : ∀ h ∈ hosts, ∀ i, i ∈ h.actions ↔ (i, some h.id) ∈ links

namespace Counted

variable {hosts hosts' : List Host} {fresh fresh' : ℕ} {links links' : List (ℕ × Option ℕ)} {g : Host}

lemma perm (h : Counted hosts fresh links) (hp : links.Perm links') : Counted hosts fresh links' where
  ids := (hp.map _).nodup_iff.mp h.ids
  idsFresh l hl := h.idsFresh l (hp.mem_iff.mpr hl)
  hostIds := h.hostIds
  hostIdsFresh := h.hostIdsFresh
  attached l hl := h.attached l (hp.mem_iff.mpr hl)
  refcnt := h.refcnt
  nodup := h.nodup
  mem k hk i := (h.mem k hk i).trans hp.mem_iff

lemma map (h : Counted hosts fresh links) (hf : ∀ k, (f k).links = k.links) :
    Counted (hosts.map f) fresh links := by
  have hid : ∀ k, (f k).id = k.id := fun k => congrArg Prod.fst (hf k)
  have hcnt : ∀ k, (f k).refcnt = k.refcnt := fun k => congrArg (·.2.1) (hf k)
  have hact : ∀ k, (f k).actions = k.actions := fun k => congrArg (·.2.2) (hf k)
  refine ⟨h.ids, h.idsFresh, ?_, ?_, ?_, ?_, ?_, ?_⟩
  · simpa [Function.comp_def, hid] using h.hostIds
  · simpa [hid] using h.hostIdsFresh
  · simpa [hid] using h.attached
  · simpa [hcnt, hact] using h.refcnt
  · simpa [hact] using h.nodup
  · simpa [hid, hact] using h.mem

lemma attach (h : Counted hosts fresh links) (hlt : fresh < fresh')
    (hids : (hosts'.map Host.id).Nodup) (hfresh : ∀ k ∈ hosts', k.id < fresh')
    (hold : ∀ k ∈ hosts, ∃ k' ∈ hosts', k'.id = k.id) (hg : g ∈ hosts')
    (hcnt : g.refcnt = g.actions.length) (hnodup : g.actions.Nodup)
    (hmem : ∀ i, i ∈ g.actions ↔ (i, some g.id) ∈ links ∨ i = fresh)
    (hother : ∀ k ∈ hosts', k.id ≠ g.id → k ∈ hosts) :
    Counted hosts' fresh' (links ++ [(fresh, some g.id)]) := by
  have hcases : ∀ k ∈ hosts', k = g ∨ (k ∈ hosts ∧ k.id ≠ g.id) := by
    intro k hk
    by_cases hid : k.id = g.id
    · exact Or.inl (inj_on_of_nodup_map hids hk hg hid)
    · exact Or.inr ⟨hother k hk hid, hid⟩
  refine ⟨?_, ?_, hids, hfresh, ?_, ?_, ?_, ?_⟩
  · rw [map_append, nodup_append]
    refine ⟨h.ids, by simp, ?_⟩
    rintro i hi j hj rfl
    obtain ⟨l, hl, rfl⟩ := mem_map.mp hi
    have := h.idsFresh l hl
    simp only [map_cons, map_nil, mem_singleton] at hj
    omega
  · intro l hl
    rcases mem_append.mp hl with hl | hl
    · exact (h.idsFresh l hl).trans hlt
    · obtain rfl := mem_singleton.mp hl
      exact hlt
  · intro l hl
    rcases mem_append.mp hl with hl | hl
    · obtain ⟨k, hk, hlk⟩ := h.attached l hl
      obtain ⟨k', hk', hid⟩ := hold k hk
      exact ⟨k', hk', hid ▸ hlk⟩
    · obtain rfl := mem_singleton.mp hl
      exact ⟨g, hg, rfl⟩
  · intro k hk
    obtain rfl | ⟨hk, -⟩ := hcases k hk
    · exact hcnt
    · exact h.refcnt k hk
  · intro k hk
    obtain rfl | ⟨hk, -⟩ := hcases k hk
    · exact hnodup
    · exact h.nodup k hk
  · intro k hk i
    obtain rfl | ⟨hk, hid⟩ := hcases k hk
    · rw [hmem]
      simp
    · rw [h.mem k hk]
      simp [hid]

/-- `host_add`, for a host that is there. -/
lemma share (h : Counted hosts fresh links) (hg : g ∈ hosts) :
    Counted (hosts.map fun k => if k.id = g.id then k.share fresh else k) (fresh + 1)
      (links ++ [(fresh, some g.id)]) := by
  have hnew : fresh ∉ g.actions := by
    intro hin
    exact absurd (h.idsFresh _ ((h.mem g hg fresh).mp hin)) (Nat.lt_irrefl _)
  refine h.attach (g := g.share fresh) (Nat.lt_succ_self _) ?_ ?_ ?_ ?_ ?_ ?_ ?_ ?_
  · rw [map_share_id]
    exact h.hostIds
  · intro k' hk'
    obtain ⟨k, hk, rfl⟩ := mem_map.mp hk'
    have := h.hostIdsFresh k hk
    split_ifs
    · rw [Host.share_id]
      omega
    · omega
  · exact fun k hk => ⟨_, mem_map_of_mem hk, by split_ifs <;> rfl⟩
  · exact mem_map.mpr ⟨g, hg, if_pos rfl⟩
  · simp [Host.share, h.refcnt g hg]
  · simp only [Host.share, nodup_append]
    exact ⟨h.nodup g hg, by simp, by simpa using fun i hi => ne_of_mem_of_not_mem hi hnew⟩
  · simp [Host.share, h.mem g hg]
  · intro k' hk' hid
    obtain ⟨k, hk, rfl⟩ := mem_map.mp hk'
    split_ifs at hid ⊢ with hkg
    · exact absurd hkg hid
    · exact hk

/-- `host_add`, for a new host. -/
lemma newHost (h : Counted hosts fresh links) {name : Text}
    (hnew : newHost name (fresh + 1) fresh = some g) :
    Counted (hosts ++ [g]) (fresh + 2) (links ++ [(fresh, some g.id)]) := by
  obtain ⟨hid, -, hcnt, -, hact, -⟩ := newHost_eq hnew
  have hfree : ∀ k ∈ hosts, k.id ≠ g.id := by
    intro k hk
    have := h.hostIdsFresh k hk
    omega
  refine h.attach (by omega) ?_ ?_ ?_ (by simp) (by simp [hcnt, hact]) (by simp [hact]) ?_ ?_
  · rw [map_append, nodup_append]
    refine ⟨h.hostIds, by simp, ?_⟩
    rintro i hi j hj rfl
    obtain ⟨k, hk, rfl⟩ := mem_map.mp hi
    simp only [map_cons, map_nil, mem_singleton] at hj
    exact hfree k hk hj
  · intro k hk
    rcases mem_append.mp hk with hk | hk
    · have := h.hostIdsFresh k hk
      omega
    · obtain rfl := mem_singleton.mp hk
      omega
  · exact fun k hk => ⟨k, mem_append_left _ hk, rfl⟩
  · -- nobody points to it yet
    have hnone : ∀ i, (i, some g.id) ∉ links := by
      intro i hi
      obtain ⟨k, hk, hlk⟩ := h.attached _ hi
      exact hfree k hk (Option.some.inj hlk).symm
    simp [hact, hnone]
  · intro k hk hne
    rcases mem_append.mp hk with hk | hk
    · exact hk
    · exact absurd (congrArg Host.id (mem_singleton.mp hk)) hne

/-- `host_del`. -/
lemma detach {i j : ℕ} (h : Counted hosts fresh ((i, some j) :: links)) :
    Counted (hosts.map fun k => if k.id = j then
        { k with refcnt := k.refcnt - 1, actions := k.actions.erase i, sem := k.sem + 1 } else k)
      fresh links := by
  have hids := h.ids
  rw [map_cons, nodup_cons] at hids
  have hgone : ∀ o, (i, o) ∉ links := fun o ho => hids.1 (mem_map.mpr ⟨_, ho, rfl⟩)
  have hid : ∀ k : Host, (if k.id = j then
      { k with refcnt := k.refcnt - 1, actions := k.actions.erase i, sem := k.sem + 1 } else k).id
        = k.id := by
    intro k
    split_ifs <;> rfl
  refine ⟨hids.2, fun l hl => h.idsFresh l (.tail _ hl), ?_, ?_, ?_, ?_, ?_, ?_⟩
  · simpa only [map_map, Function.comp_def, hid] using h.hostIds
  · intro k' hk'
    obtain ⟨k, hk, rfl⟩ := mem_map.mp hk'
    rw [hid]
    exact h.hostIdsFresh k hk
  · intro l hl
    obtain ⟨k, hk, hlk⟩ := h.attached l (.tail _ hl)
    exact ⟨_, mem_map_of_mem hk, by rw [hid]; exact hlk⟩
  · intro k' hk'
    obtain ⟨k, hk, rfl⟩ := mem_map.mp hk'
    split_ifs with hkj
    · have hin : i ∈ k.actions := (h.mem k hk i).mpr (by simp [hkj])
      rw [length_erase_of_mem hin, ← h.refcnt k hk]
    · exact h.refcnt k hk
  · intro k' hk'
    obtain ⟨k, hk, rfl⟩ := mem_map.mp hk'
    split_ifs
    · exact (h.nodup k hk).erase i
    · exact h.nodup k hk
  · intro k' hk' m
    obtain ⟨k, hk, rfl⟩ := mem_map.mp hk'
    split_ifs with hkj
    · rw [(h.nodup k hk).mem_erase_iff, h.mem k hk, mem_cons, Prod.mk.injEq]
      constructor
      · rintro ⟨hne, ⟨hmi, -⟩ | hm⟩
        · exact absurd hmi hne
        · exact hm
      · exact fun hm => ⟨fun hmi => hgone _ (hmi ▸ hm), Or.inr hm⟩
    · rw [h.mem k hk, mem_cons, Prod.mk.injEq]
      simp [hkj]

lemma drop (h : Counted hosts fresh links) (hg : g ∈ hosts) (hzero : g.refcnt = 0) :
    Counted (hosts.filter fun k => k.id ≠ g.id) fresh links := by
  have hnone : ∀ i, (i, some g.id) ∉ links := by
    intro i hi
    have hnil : g.actions = [] := length_eq_zero_iff.mp (h.refcnt g hg ▸ hzero)
    exact absurd ((h.mem g hg i).mpr hi) (by simp [hnil])
  refine ⟨h.ids, h.idsFresh, (filter_sublist.map _).nodup h.hostIds,
    fun k hk => h.hostIdsFresh k (mem_of_mem_filter hk), ?_,
    fun k hk => h.refcnt k (mem_of_mem_filter hk),
    fun k hk => h.nodup k (mem_of_mem_filter hk),
    fun k hk => h.mem k (mem_of_mem_filter hk)⟩
  rintro ⟨i, o⟩ hl
  obtain ⟨k, hk, hlk⟩ := h.attached _ hl
  refine ⟨k, mem_filter.mpr ⟨hk, ?_⟩, hlk⟩
  rw [decide_eq_true_eq]
  rintro hkg
  obtain rfl : o = some k.id := hlk
  exact hnone i (hkg ▸ hl)

end Counted

/-! ## The operations -/

section Ops

variable {s : Sys} {act : Action} {links : List (ℕ × Option ℕ)}

lemma counted_actionDel (h : Counted s.threadList s.fresh (act.link :: links)) :
    Counted (actionDel act s).threadList (actionDel act s).fresh links := by
  obtain ⟨g, -, hg⟩ := h.attached act.link mem_cons_self
  have hhost : act.host = some g.id := hg
  have hdel : hostDel act s = s.updateHost g.id fun k =>
      { k with refcnt := k.refcnt - 1, actions := k.actions.erase act.id, sem := k.sem + 1 } := by
    rw [hostDel, hhost]
  rw [Action.link, hhost] at h
  rw [actionDel, hdel]
  exact h.detach

/-- The three lists of `merge_config`. -/
def Merge.acts (m : Merge) : List Action := m.sys.actionList ++ (m.tmp ++ m.new)

def Merge.Counted (m : Merge) : Prop :=
  Filterdns.Counted m.sys.threadList m.sys.fresh (m.acts.map Action.link)

lemma Merge.Counted.mergeOne {rest : List Action} (h : m.Counted) (hnew : m.new = act :: rest) :
    (mergeOne m act).Counted ∧ (mergeOne m act).new = rest := by
  have hrest : m.new.eraseP (fun a => a.id = act.id) = rest := by simp [hnew]
  unfold Filterdns.mergeOne
  rcases KeyMatch.on_find Action.key act.key m.tmp with ⟨hnone, -⟩ | ⟨old, hsome, -, -, -, hperm⟩
  · -- the new action itself goes to the list
    have hfind : m.tmp.find? (fun t => t.toRule.key = act.toRule.key) = none := hnone
    simp only [hfind, hrest, and_true]
    refine Filterdns.Counted.perm h (List.Perm.map _ ?_)
    simp only [Merge.acts, hnew, cons_append]
    rw [← append_assoc, ← append_assoc]
    exact perm_middle
  · -- the old one goes to the list, and the new one is deleted
    have hfind : m.tmp.find? (fun t => t.toRule.key = act.toRule.key) = some old := hsome
    simp only [hfind, hrest, and_true]
    have hmoved : m.acts.Perm
        (act :: (old :: m.sys.actionList ++ ((m.tmp.eraseP fun t => t.key = act.key) ++ rest))) := by
      rw [Merge.acts, hnew, ← append_assoc]
      refine perm_middle.trans (List.Perm.cons act ?_)
      rw [← append_assoc]
      refine List.Perm.append_right rest ((hperm.append_left _).trans ?_)
      exact perm_middle
    have hdel := counted_actionDel (s := { m.sys with actionList := old :: m.sys.actionList })
      (Filterdns.Counted.perm h (hmoved.map Action.link))
    rw [Merge.Counted, Merge.acts, actionDel_actionList]
    exact hdel

lemma Merge.Counted.foldl_mergeOne : ∀ {todo : List Action} {m : Merge}, m.Counted → m.new = todo →
    (todo.foldl Filterdns.mergeOne m).Counted
  | [], _, h, _ => h
  | act :: todo, m, h, hnew => by
    obtain ⟨hone, hrest⟩ := h.mergeOne hnew
    exact hone.foldl_mergeOne hrest

lemma Merge.Counted.clearOne {rest : List Action} (h : m.Counted) (htmp : m.tmp = act :: rest) :
    (clearOne m act).Counted ∧ (clearOne m act).tmp = rest := by
  have hrest : m.tmp.eraseP (fun a => a.id = act.id) = rest := by simp [htmp]
  have hfront : m.acts.Perm (act :: (m.sys.actionList ++ (rest ++ m.new))) := by
    rw [Merge.acts, htmp]
    exact perm_middle
  have hdel := counted_actionDel (Filterdns.Counted.perm h (hfront.map Action.link))
  refine ⟨?_, hrest⟩
  simpa only [Merge.Counted, Merge.acts, Filterdns.clearOne, hrest, actionDel_actionList] using hdel

lemma Merge.Counted.foldl_clearOne : ∀ {todo : List Action} {m : Merge}, m.Counted → m.tmp = todo →
    (todo.foldl Filterdns.clearOne m).Counted
  | [], _, h, _ => h
  | act :: todo, m, h, htmp => by
    obtain ⟨hone, hrest⟩ := h.clearOne htmp
    exact hone.foldl_clearOne hrest

end Ops

def Conf.Counted (c : Conf) : Prop :=
  Filterdns.Counted c.sys.threadList c.sys.fresh (c.acts.map Action.link)

lemma links_create (h : Host) : h.create.links = h.links := by
  unfold Host.create
  split_ifs <;> rfl

lemma link_create (a : Action) : a.create.link = a.link := by
  unfold Action.create
  split_ifs <;> rfl

section Steps

variable {c d : Conf} (h : c.Counted)
include h

lemma Conf.Counted.sys : c.sys.Ids := by
  have hnodup : (c.acts.map Action.id).Nodup := by
    simpa only [map_map, Function.comp_def, Action.link] using h.ids
  exact ⟨((sublist_append_left _ _).map _).nodup hnodup,
    fun a ha => h.idsFresh a.link (mem_map_of_mem (mem_append_left _ ha)), h.hostIds, h.hostIdsFresh⟩

lemma Conf.Counted.rewrite (hfresh : d.sys.fresh = c.sys.fresh) (htmp : d.tmp = c.tmp)
    (hf : ∀ k, (f k).links = k.links) (hthr : d.sys.threadList = c.sys.threadList.map f)
    (hact : d.sys.actionList.map Action.link = c.sys.actionList.map Action.link) : d.Counted := by
  have hlinks : d.acts.map Action.link = c.acts.map Action.link := by
    rw [Conf.acts, Conf.acts, map_append, map_append, hact, htmp]
  rw [Conf.Counted, hfresh, hthr, hlinks]
  exact Filterdns.Counted.map h hf

lemma Conf.Counted.line {r : Dnsrule} (hline : dnsrule c.sys r = .ok d.sys) (htmp : d.tmp = c.tmp) :
    d.Counted := by
  have hperm : ∀ host, (c.acts.map Action.link ++ [(c.sys.fresh, some host)]).Perm
      ((c.sys.actionList ++ [onHost r.rule c.sys.fresh host] ++ c.tmp).map Action.link) := by
    intro host
    have hlast : c.acts.map Action.link ++ [(c.sys.fresh, some host)]
        = (c.acts ++ [onHost r.rule c.sys.fresh host]).map Action.link := by
      rw [map_append]
      rfl
    rw [hlast, Conf.acts, append_assoc, append_assoc]
    exact ((perm_append_comm).append_left _).map _
  obtain ⟨-, -, ⟨g, hfind, hact, hthr, hf⟩ | ⟨g, -, hnew, hact, hthr, hf⟩⟩ :=
    addRule_cases h.sys.actionsFresh (dnsrule_ok hline)
  · rw [Conf.Counted, Conf.acts, hthr, hf, hact, htmp]
    exact (Filterdns.Counted.share h (mem_of_find?_eq_some hfind)).perm (hperm g.id)
  · rw [Conf.Counted, Conf.acts, hthr, hf, hact, htmp]
    exact (Filterdns.Counted.newHost h hnew).perm (hperm g.id)

lemma Conf.Counted.start : Conf.Counted ⟨startThreads c.sys, c.tmp⟩ := by
  refine h.rewrite (d := ⟨startThreads c.sys, c.tmp⟩) rfl rfl links_create rfl ?_
  simp only [startThreads, map_map]
  exact map_congr_left fun a _ => link_create a

lemma Conf.Counted.mergeParsed : (mergeParsed c).Counted := by
  set m₀ : Merge := ⟨{ c.sys with actionList := [] }, c.tmp, c.sys.actionList⟩
  have h₀ : m₀.Counted := Filterdns.Counted.perm h (perm_append_comm.map _)
  have hloops : (mergeLoops c).Counted := (h₀.foldl_mergeOne rfl).foldl_clearOne rfl
  have hlists : Conf.Counted ⟨(mergeLoops c).sys, (mergeLoops c).tmp⟩ := by
    rw [Merge.Counted, Merge.acts, (mergeLoops_eq c).2.1, append_nil] at hloops
    exact hloops
  refine hlists.start.rewrite (d := Filterdns.mergeParsed c) rfl rfl (f := fun k =>
    if k.state = .RUNNING ∨ k.state = .STARTING then { k with sem := k.sem + 1 } else k) ?_ rfl rfl
  intro k
  split_ifs <;> rfl

lemma Conf.Counted.clear : Conf.Counted ⟨clearConfig c.sys, c.tmp⟩ := by
  refine (clearConfig_invariant (P := fun s => Conf.Counted ⟨s, c.tmp⟩) ?_ h).1
  intro act rest s hlist hs
  rw [Conf.Counted, Conf.acts, hlist] at hs
  have hdel := counted_actionDel (s := { s with actionList := rest }) hs
  rw [Conf.Counted, Conf.acts, actionDel_actionList]
  exact hdel

lemma Conf.Counted.event {e : Event} (hstep : Filterdns.Step c.sys e d.sys) (htmp : d.tmp = c.tmp) :
    d.Counted := by
  obtain ⟨hen, hd⟩ := hstep
  cases e with
  | hostStart i literal =>
    refine h.rewrite (by rw [hd]; rfl) htmp (f := fun k => if k.id = i then k.start literal else k) ?_
      (by rw [hd]; rfl) (by rw [hd]; rfl)
    intro k
    split_ifs
    · unfold Host.start
      split <;> rfl
    · rfl
  | hostPass g reply =>
    obtain ⟨hg, -⟩ := hen
    by_cases hzero : g.refcnt = 0
    · have hpass : d.sys = { c.sys with
          threadList := c.sys.threadList.filter fun t => t.id ≠ g.id } := by
        rw [hd, handle, hostPass, if_pos hzero]
      rw [Conf.Counted, Conf.acts, hpass, htmp]
      exact Filterdns.Counted.drop h hg hzero
    · rw [handle, hostPass_eq hzero] at hd
      refine h.rewrite (by rw [hd]) htmp (f := fun k => if k.id = g.id then
        { k with rnh := refresh (hostDns g reply) k.rnh } else k) ?_ (by rw [hd]) ?_
      · intro k
        split_ifs <;> rfl
      · rw [hd, map_map]
        refine map_congr_left fun a _ => ?_
        obtain ⟨n, hn, -⟩ := wake_eq (g := g) a (report (hostDns g reply) g.rnh).length
        rw [Function.comp_apply, hn]
        rfl
  | actionPass act ok =>
    obtain ⟨hact, -⟩ := hen
    obtain ⟨-, heq⟩ | ⟨g, -, heq⟩ := actionPass_cases act ok c.sys
    · rw [handle, heq] at hd
      rw [Conf.Counted, Conf.acts, hd, htmp]
      exact h
    · rw [handle, heq] at hd
      refine h.rewrite (by rw [hd]) htmp (f := id) (fun _ => rfl) (by rw [hd, map_id]) ?_
      rw [hd, map_map]
      refine map_congr_left fun a ha => ?_
      simp only [Function.comp_apply]
      split_ifs with hid
      · obtain rfl := h.sys.action_eq ha hact hid
        rfl
      · rfl

theorem Conf.Counted.step {op : Op} (hstep : Conf.Step c op d) : d.Counted := by
  cases op with
  | line r => exact h.line hstep.1 hstep.2
  | start => exact hstep ▸ h.start
  | setAside =>
    obtain rfl : d = _ := hstep
    refine Filterdns.Counted.perm h (List.Perm.map _ ?_)
    exact perm_append_comm
  | merge => exact hstep ▸ h.mergeParsed
  | clear => exact hstep ▸ h.clear
  | event e => exact h.event hstep.1 hstep.2

end Steps

theorem run_counted {c : Conf} {ops : List Op} (r : Run Conf.Step .init ops c) : c.Counted := by
  refine r.invariant (fun c op d h hstep => h.step hstep) ?_
  exact ⟨by simp [Conf.init, Conf.acts, Sys.empty], by simp [Conf.init, Conf.acts, Sys.empty],
    by simp [Conf.init, Sys.empty], by simp [Conf.init, Sys.empty],
    by simp [Conf.init, Conf.acts, Sys.empty], by simp [Conf.init, Sys.empty],
    by simp [Conf.init, Sys.empty], by simp [Conf.init, Sys.empty]⟩

/-! ## The states of a running daemon -/

variable {s : Sys} {a : Action} {g : Host}

def Reached (s : Sys) : Prop :=
  ∃ rules s₀ es, startup rules = .ok s₀ ∧ Run Life s₀ es s

lemma Reached.life {s t : Sys} {e : Event ⊕ List Dnsrule} (h : Reached s) (hstep : Life s e t) :
    Reached t := by
  obtain ⟨rules, s₀, es, hstart, r⟩ := h
  exact ⟨rules, s₀, es ++ [e], hstart, r.snoc hstep⟩

lemma Reached.step {s t : Sys} {e : Event} (h : Reached s) (hstep : Step s e t) : Reached t :=
  h.life (e := .inl e) hstep

/-- Between two reloads a host lists the actions that point to it. -/
lemma Conf.Counted.on_iff (h : Conf.Counted ⟨s, []⟩) (ha : a ∈ s.actionList) (hg : g ∈ s.threadList) :
    a.id ∈ g.actions ↔ a.host = some g.id := by
  have hacts : Conf.acts ⟨s, []⟩ = s.actionList := append_nil _
  rw [h.mem g hg, hacts, mem_map]
  constructor
  · rintro ⟨b, hb, hlink⟩
    rw [Action.link, Prod.mk.injEq] at hlink
    rw [← h.sys.action_eq hb ha hlink.1, hlink.2]
  · exact fun hhost => ⟨a, ha, by rw [Action.link, hhost]⟩

lemma Conf.Counted.life {s t : Sys} {e : Event ⊕ List Dnsrule} (h : Conf.Counted ⟨s, []⟩)
    (hstep : Life s e t) : Conf.Counted ⟨t, []⟩ := by
  cases e with
  | inl e => exact h.event hstep rfl
  | inr rules => exact (run_mergeConfig hstep).invariant (fun _ _ _ h hstep => h.step hstep) h

lemma Reached.counted (h : Reached s) : Conf.Counted ⟨s, []⟩ := by
  obtain ⟨rules, s₀, es, hstart, r⟩ := h
  obtain ⟨ops, hops⟩ := run_life hstart r
  exact run_counted hops

lemma Reached.attached (h : Reached s) (ha : a ∈ s.actionList) (hg : g ∈ s.threadList)
    (hhost : a.host = some g.id) : a.id ∈ g.actions ∧ g.refcnt ≠ 0 := by
  have hmem := (h.counted.on_iff ha hg).mpr hhost
  refine ⟨hmem, ?_⟩
  rw [h.counted.refcnt g hg]
  exact (length_pos_of_mem hmem).ne'

/-- **Reference counts are exact.**  In every state of the daemon a host counts the actions on its
list, which are the live actions that point to it, each once; so its thread finds the count zero
exactly if no action uses it. -/
theorem refcnt_exact {c : Conf} {ops : List Op} (r : Run Conf.Step .init ops c) {h : Host}
    (hh : h ∈ c.sys.threadList) :
    h.refcnt = h.actions.length ∧ h.actions.Nodup ∧
      (∀ i, i ∈ h.actions ↔ ∃ a ∈ c.acts, a.id = i ∧ a.host = some h.id) ∧
      (h.refcnt = 0 ↔ ∀ a ∈ c.acts, a.host ≠ some h.id) := by
  have hc := run_counted r
  have hmem : ∀ i, i ∈ h.actions ↔ ∃ a ∈ c.acts, a.id = i ∧ a.host = some h.id := by
    intro i
    rw [hc.mem h hh, mem_map]
    simp only [Action.link, Prod.mk.injEq]
  refine ⟨hc.refcnt h hh, hc.nodup h hh, hmem, ?_⟩
  rw [hc.refcnt h hh, length_eq_zero_iff, eq_nil_iff_forall_not_mem]
  constructor
  · exact fun hnone a ha hhost => hnone a.id ((hmem a.id).mpr ⟨a, ha, rfl, hhost⟩)
  · intro hnone i hi
    obtain ⟨a, ha, -, hhost⟩ := (hmem i).mp hi
    exact hnone a ha hhost

def sharedHost : Host := ⟨1, "www.example.org".toList, -1, -1, [], 2, .STARTING, [0, 2], 0⟩

/-- Two lines that name the same host. -/
theorem refcnt_exact_shared :
    let c : Conf := ⟨started [pfLine "www.example.org", cmdLine "old"], []⟩
    sharedHost ∈ c.sys.threadList ∧ sharedHost.refcnt = sharedHost.actions.length ∧
      sharedHost.actions.Nodup ∧
      (∀ i, i ∈ sharedHost.actions ↔ ∃ a ∈ c.acts, a.id = i ∧ a.host = some sharedHost.id) ∧
      (sharedHost.refcnt = 0 ↔ ∀ a ∈ c.acts, a.host ≠ some sharedHost.id) := by
  have hstart : startup [pfLine "www.example.org", cmdLine "old"]
      = .ok (started [pfLine "www.example.org", cmdLine "old"]) := rfl
  have hmem : sharedHost ∈ (started [pfLine "www.example.org", cmdLine "old"]).threadList := by
    decide +kernel
  exact ⟨hmem, refcnt_exact (run_startup hstart) hmem⟩

end FreeSense.Filterdns
