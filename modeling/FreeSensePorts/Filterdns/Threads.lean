import FreeSensePorts.Filterdns.Parse

/-!
# One pass of a thread

What a pass of a host does to the lists of the daemon (`hostPass_eq`), and what a pass of an action does
(`actionPass_cases`), whatever the kernel accepts.  Both lists of an action are `Settled` between two
passes of it.
-/

namespace FreeSense.Filterdns

open List MarkSweep

variable {s : Sys} {a act : Action} {g : Host} {reply : Option (List Sockaddr)}

/-! ## Telling by the number -/

lemma Sys.Ids.host_eq (hs : s.Ids) {g h : Host} (hg : g ∈ s.threadList) (hh : h ∈ s.threadList)
    (hid : g.id = h.id) : g = h :=
  inj_on_of_nodup_map hs.hosts hg hh hid

lemma Sys.Ids.mem_updateHost (hs : s.Ids) {g k' : Host} (hg : g ∈ s.threadList) {f : Host → Host}
    (hk' : k' ∈ (s.updateHost g.id f).threadList) : k' ∈ s.threadList ∧ k'.id ≠ g.id ∨ k' = f g := by
  obtain ⟨k, hk, rfl⟩ := mem_map.mp hk'
  split_ifs with hid
  · exact Or.inr (by rw [hs.host_eq hk hg hid])
  · exact Or.inl ⟨hk, hid⟩

lemma Sys.Ids.action_eq (hs : s.Ids) {a b : Action} (ha : a ∈ s.actionList) (hb : b ∈ s.actionList)
    (hid : a.id = b.id) : a = b :=
  inj_on_of_nodup_map hs.actions ha hb hid

lemma host_of_hostOf {h : Host} (ha : s.hostOf a = some h) :
    h ∈ s.threadList ∧ a.host = some h.id := by
  obtain ⟨i, hi, hh⟩ := Option.bind_eq_some_iff.mp ha
  have hid : h.id = i := by simpa using find?_some hh
  exact ⟨mem_of_find?_eq_some hh, by rw [hi, hid]⟩

lemma Sys.Ids.hostOf_eq (hs : s.Ids) (hg : g ∈ s.threadList) (ha : a.host = some g.id) :
    s.hostOf a = some g := by
  have hfind : s.host? g.id = some g := by
    cases hf : s.host? g.id with
    | none => exact absurd (find?_eq_none.mp hf g hg) (by simp)
    | some k =>
      have hid : k.id = g.id := by simpa using find?_some hf
      rw [hs.host_eq (mem_of_find?_eq_some hf) hg hid]
  rw [Sys.hostOf, ha, Option.bind_some, hfind]

/-! ## The lists of an action -/

/-- The kernel entry an action keeps for an address. -/
def Sys.entry (s : Sys) (a : Action) (x : Sockaddr) : Option (Table × Net) :=
  tableEntry a.toRule (s.hostOf a) x

/-- An action between two passes. -/
structure Action.Settled (a : Action) : Prop where
  rnh : Resting a.rnh
  tblRnh : Resting a.tblRnh
  same : a.tablename ≠ none → ∀ x, x ∈ vals a.tblRnh ↔ x ∈ vals a.rnh
  static : ∀ e ∈ a.tblRnh, e.static = true → ∃ d ∈ a.rnh, d.val = e.val ∧ d.static = true

/-- What a pass makes of the action itself. -/
def Action.pass (a : Action) (ts : List (Sockaddr × Bool)) : Action :=
  let rnh := refresh ts a.rnh
  { a with
    rnh := rnh
    tblRnh := if (report ts a.rnh).length > 0 ∧ a.tablename ≠ none
      then refresh (targets rnh) a.tblRnh else a.tblRnh
    force := false
    sem := a.sem - 1
    state := .RUNNING }

lemma targets_fst (l : AddrList) : (targets l).map Prod.fst = vals l := by
  simp [targets, vals]

/-- The copy in `tblRnh` is brought to the addresses of `rnh`. -/
lemma mem_vals_tblRnh (h : a.Settled) (ts : List (Sockaddr × Bool)) (x : Sockaddr) :
    x ∈ vals (refresh (targets (refresh ts a.rnh)) a.tblRnh) ↔ x ∈ vals (refresh ts a.rnh) := by
  rw [mem_vals_refresh h.tblRnh.swept, targets_fst]
  constructor
  · rintro (hx | ⟨e, he, rfl, hs⟩)
    · exact hx
    · -- a static address stays in `rnh` for good
      obtain ⟨d, hd, hval, hds⟩ := h.static e he hs
      obtain ⟨c, hc, hcv, -⟩ := static_refresh h.rnh.swept ts hd hds
      exact mem_map.mpr ⟨c, hc, hcv.trans hval⟩
  · exact Or.inl

lemma Action.Settled.pass (h : a.Settled) (ts : List (Sockaddr × Bool)) : (a.pass ts).Settled := by
  have hold : ∀ e ∈ a.tblRnh, e.static = true →
      ∃ d ∈ refresh ts a.rnh, d.val = e.val ∧ d.static = true := by
    intro e he hs
    obtain ⟨d, hd, hval, hds⟩ := h.static e he hs
    obtain ⟨c, hc, hcv, hcs⟩ := static_refresh h.rnh.swept ts hd hds
    exact ⟨c, hc, hcv.trans hval, hcs⟩
  by_cases hu : (report ts a.rnh).length > 0 ∧ a.tablename ≠ none
  · have htbl : (a.pass ts).tblRnh = refresh (targets (refresh ts a.rnh)) a.tblRnh := if_pos hu
    refine ⟨resting_refresh h.rnh.swept ts, ?_, fun _ x => ?_, ?_⟩
    · rw [htbl]
      exact resting_refresh h.tblRnh.swept _
    · rw [htbl]
      exact mem_vals_tblRnh h ts x
    · rw [htbl]
      intro e he hs
      rcases static_of_refresh h.tblRnh.swept _ he hs with ⟨d, hd, hval, hds⟩ | hts
      · rw [← hval]
        exact hold d hd hds
      · obtain ⟨d, hd, heq⟩ := mem_map.mp hts
        rw [Prod.mk.injEq] at heq
        exact ⟨d, hd, heq⟩
  · have htbl : (a.pass ts).tblRnh = a.tblRnh := if_neg hu
    refine ⟨resting_refresh h.rnh.swept ts, htbl ▸ h.tblRnh, fun hname x => ?_, htbl ▸ hold⟩
    have hnil : report ts a.rnh = [] := by
      rw [← length_eq_zero_iff]
      by_contra hne
      exact hu ⟨Nat.pos_of_ne_zero hne, hname⟩
    rw [htbl, h.same hname]
    exact (mem_vals_refresh_of_report_nil h.rnh.swept ts hnil).symm

/-! ## A pass of a host -/

lemma wake_eq (a : Action) (update : ℕ) :
    ∃ n, a.wake g update = { a with sem := n } ∧ (a.id ∉ g.actions → n = a.sem) ∧
      (n ≠ a.sem → update ≠ 0 ∨ a.force = true) := by
  unfold Action.wake
  split_ifs with h
  · exact ⟨a.sem + 1, rfl, fun hnot => absurd h.1 hnot, fun _ => h.2⟩
  · exact ⟨a.sem, rfl, fun _ => rfl, fun hne => absurd rfl hne⟩

/-- **A pass of a host that is in use.** -/
lemma hostPass_eq (hcnt : g.refcnt ≠ 0) :
    hostPass g reply s = { s with
      threadList := s.threadList.map fun h =>
        if h.id = g.id then { h with rnh := refresh (hostDns g reply) h.rnh } else h
      actionList := s.actionList.map
        (Action.wake g (report (hostDns g reply) g.rnh).length) } := by
  rw [hostPass, if_neg hcnt]
  rfl

/-- What a pass leaves of the hosts and the actions, whether or not the host is still in use. -/
lemma mem_hostPass (hs : s.Ids) (hg : g ∈ s.threadList) (reply : Option (List Sockaddr)) :
    (∀ k ∈ (hostPass g reply s).threadList, k ∈ s.threadList ∧ k.id ≠ g.id ∨
      k = { g with rnh := refresh (hostDns g reply) g.rnh }) ∧
    ∀ b ∈ (hostPass g reply s).actionList, ∃ a ∈ s.actionList, ∃ n, b = { a with sem := n } ∧
      (a.id ∉ g.actions → n = a.sem) := by
  by_cases hcnt : g.refcnt = 0
  · rw [hostPass, if_pos hcnt]
    exact ⟨fun k hk => Or.inl (by simpa using hk), fun b hb => ⟨b, hb, b.sem, rfl, fun _ => rfl⟩⟩
  · rw [hostPass_eq hcnt]
    refine ⟨fun k hk => hs.mem_updateHost hg hk, fun b hb => ?_⟩
    obtain ⟨a, ha, rfl⟩ := mem_map.mp hb
    obtain ⟨n, hn, hsame, -⟩ := wake_eq (g := g) a (report (hostDns g reply) g.rnh).length
    exact ⟨a, ha, n, hn, hsame⟩

/-! ## A pass of an action -/

def kernelOps (act : Action) (s : Sys) : List (Change Sockaddr) :=
  match s.hostOf act with
  | none => []
  | some h =>
    if (report (targets h.rnh) act.rnh).length > 0 ∧ act.tablename ≠ none then
      report (targets (refresh (targets h.rnh) act.rnh)) act.tblRnh
    else []

/-- **What a pass of an action does**, whatever the kernel accepts. -/
lemma actionPass_cases (act : Action) (ok : Change Sockaddr → Bool) (s : Sys) :
    s.hostOf act = none ∧ actionPass act ok s = s ∨
      ∃ g, s.hostOf act = some g ∧ actionPass act ok s = { s with
        actionList := s.actionList.map fun a =>
          if a.id = act.id then act.pass (targets g.rnh) else a
        kernel := ((kernelOps act s).filter ok).foldl (Change.apply (s.entry act)) s.kernel } := by
  cases hg : s.hostOf act with
  | none => exact Or.inl ⟨rfl, by rw [actionPass, hg]⟩
  | some g =>
    refine Or.inr ⟨g, rfl, ?_⟩
    unfold actionPass Action.pass kernelOps
    simp only [hg]
    by_cases hu : (report (targets g.rnh) act.rnh).length > 0 ∧ act.tablename ≠ none
    · simp only [if_pos hu, tableUpdate, Sys.updateAction, map_map]
      congr 1
      refine map_congr_left fun a _ => ?_
      by_cases ha : a.id = act.id <;> simp [ha]
    · simp only [if_neg hu, Sys.updateAction, filter_nil, foldl_nil]

lemma actionPass_of_hostOf (hg : s.hostOf act = some g) (ok : Change Sockaddr → Bool) :
    actionPass act ok s = { s with
      actionList := s.actionList.map fun a =>
        if a.id = act.id then act.pass (targets g.rnh) else a
      kernel := ((kernelOps act s).filter ok).foldl (Change.apply (s.entry act)) s.kernel } := by
  obtain ⟨hnone, -⟩ | ⟨g', hg', heq⟩ := actionPass_cases act ok s
  · exact absurd (hnone.symm.trans hg) (by simp)
  · obtain rfl : g' = g := Option.some.inj (hg'.symm.trans hg)
    exact heq

lemma mem_actionPass (hact : act ∈ s.actionList) (hg : s.hostOf act = some g)
    (ok : Change Sockaddr → Bool) :
    act.pass (targets g.rnh) ∈ (actionPass act ok s).actionList := by
  rw [actionPass_of_hostOf hg]
  exact mem_map.mpr ⟨act, hact, if_pos rfl⟩

lemma of_actionPass (act : Action) (ok : Change Sockaddr → Bool) (s : Sys) :
    (actionPass act ok s).threadList = s.threadList ∧
      ∀ b ∈ (actionPass act ok s).actionList, b ∈ s.actionList ∨
        ∃ g, s.hostOf act = some g ∧ b = act.pass (targets g.rnh) := by
  obtain ⟨-, heq⟩ | ⟨g, hg, heq⟩ := actionPass_cases act ok s <;> rw [heq]
  · exact ⟨rfl, fun b hb => Or.inl hb⟩
  · refine ⟨rfl, fun b hb => ?_⟩
    obtain ⟨a, ha, rfl⟩ := mem_map.mp hb
    split_ifs
    · exact Or.inr ⟨g, hg, rfl⟩
    · exact Or.inl ha

/-- **What a pass asks of the kernel**, where there is a table: the difference between the new list
and the record of the table. -/
lemma mem_kernelOps (h : act.Settled) (hg : s.hostOf act = some g) (hname : act.tablename ≠ none) :
    (∃ as ds : List Sockaddr, kernelOps act s = as.map .add ++ ds.map .del) ∧
      (kernelOps act s).Nodup ∧
      (∀ x, .add x ∈ kernelOps act s ↔
        x ∈ vals (refresh (targets g.rnh) act.rnh) ∧ x ∉ vals act.tblRnh) ∧
      ∀ x, .del x ∈ kernelOps act s ↔
        x ∈ vals act.tblRnh ∧ x ∉ vals (refresh (targets g.rnh) act.rnh) := by
  simp only [kernelOps, hg]
  split_ifs with hu
  · refine ⟨report_eq_append h.tblRnh _, nodup_report h.tblRnh.swept _, fun x => ?_, fun x => ?_⟩
    · rw [add_mem_report h.tblRnh, mem_vals_tblRnh h]
    · rw [del_mem_report h.tblRnh.swept, mem_vals_tblRnh h]
  · -- nothing has changed, and the table is that of the addresses
    have hnil : report (targets g.rnh) act.rnh = [] := by
      rw [← length_eq_zero_iff]
      by_contra hne
      exact hu ⟨Nat.pos_of_ne_zero hne, hname⟩
    have hsame : ∀ x, x ∈ vals (refresh (targets g.rnh) act.rnh) ↔ x ∈ vals act.tblRnh := fun x =>
      (mem_vals_refresh_of_report_nil h.rnh.swept _ hnil).trans (h.same hname x).symm
    exact ⟨⟨[], [], rfl⟩, nodup_nil, by simp [hsame], by simp [hsame]⟩

/-! ## Configurations for tests -/

def pfLine (hostname : String) : Dnsrule :=
  .filter .PF hostname.toList "blocked".toList none 0 none

def testAddr (n : ℕ) : Sockaddr := .in4 (BitVec.ofNat 32 (192 * 2 ^ 24 + 2 * 2 ^ 8 + n)) []

def started (rules : List Dnsrule) : Sys := (startup rules).toOption.getD .empty

end FreeSense.Filterdns
