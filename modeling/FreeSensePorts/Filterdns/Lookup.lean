import FreeSensePorts.Filterdns.Counts

/-!
# A lookup that fails

`host_dns` returns `-1` when `getaddrinfo` fails, and says that it will try again later.  Its caller
has marked every address as old by then and throws the result away, so a failed lookup counts as an
empty answer: what was resolved before is gone, and the actions that are woken take it out of their
tables.  `Survives` is what should hold of such a pass; only addresses spelled out in the configuration
are safe from it.  An action that is woken then has just been created (`Joined`).
-/

namespace FreeSense.Filterdns

open List MarkSweep

variable {s : Sys} {rules : List Dnsrule}

/-! ## The pass -/

/-- **The lookup fails and nothing changes**: the host keeps its addresses, and an action that is
woken keeps its own and asks nothing of the kernel, unless it was made just now; then it installs
what there is and deletes nothing. -/
structure Survives (s : Sys) (h : Host) : Prop where
  host : ∀ g ∈ (hostPass h none s).threadList, g.id = h.id → vals g.rnh = vals h.rnh
  kernel : (hostPass h none s).kernel = s.kernel
  woken : ∀ b ∈ s.actionList, ∀ a ∈ (hostPass h none s).actionList, a.id = b.id → a.sem ≠ b.sem →
    b.force = false → kernelOps a (hostPass h none s) = [] ∧
      ∀ ok, ∀ c ∈ (actionPass a ok (hostPass h none s)).actionList, c.id = b.id →
        c.rnh = b.rnh ∧ c.tblRnh = b.tblRnh
  created : ∀ b ∈ s.actionList, ∀ a ∈ (hostPass h none s).actionList, a.id = b.id → a.sem ≠ b.sem →
    b.force = true → ∀ x, .del x ∉ kernelOps a (hostPass h none s)

/-! ## What the daemon keeps -/

/-- A host whose addresses nobody has seen. -/
def Host.Unread (h : Host) : Prop := h.state ≠ .RUNNING ∨ ∃ e ∈ h.rnh, e.new = true

/-- Hosts and actions of a running daemon. -/
structure Joined (s : Sys) : Prop where
  live : Live s
  fresh : ∀ h ∈ s.threadList, ∀ i ∈ h.actions, i < s.fresh
  joined : ∀ h ∈ s.threadList, ∀ a ∈ s.actionList, a.id ∈ h.actions → a.host = some h.id
  old : ∀ h ∈ s.threadList, ∀ e ∈ h.rnh, e.old = false
  forced : ∀ a ∈ s.actionList, a.force = true → a.rnh = [] ∧ a.tblRnh = []
  unread : ∀ h ∈ s.threadList, h.Unread → ∀ a ∈ s.actionList, a.id ∈ h.actions →
    a.force = true ∧ a.sem = 0

/-- What the counts say of hosts and actions, and what they do not. -/
lemma joined_of_counted (hc : Conf.Counted ⟨s, []⟩) (hstarted : ∀ a ∈ s.actionList, a.state ≠ .STOPPED)
    (hold : ∀ h ∈ s.threadList, ∀ e ∈ h.rnh, e.old = false)
    (hforced : ∀ a ∈ s.actionList, a.force = true → a.rnh = [] ∧ a.tblRnh = [])
    (hunread : ∀ h ∈ s.threadList, h.Unread → ∀ a ∈ s.actionList, a.id ∈ h.actions →
      a.force = true ∧ a.sem = 0) : Joined s where
  live := ⟨hc.sys, hstarted⟩
  fresh h hh i hi := hc.idsFresh _ ((hc.mem h hh i).mp hi)
  joined _ hh _ ha := (hc.on_iff ha hh).mp
  old := hold
  forced := hforced
  unread := hunread

section Pass

variable {s : Sys} {g : Host} {reply : Option (List Sockaddr)}

theorem Joined.hostStart (h : Joined s) {i : ℕ} {literal : Option Sockaddr}
    (hen : Enabled s (.hostStart i literal)) (hc : Conf.Counted ⟨hostStart i literal s, []⟩) :
    Joined (hostStart i literal s) := by
  obtain ⟨g, hg, rfl, hstate⟩ := hen
  refine joined_of_counted hc h.live.started (fun k hk => ?_) h.forced fun k hk hu a ha hin => ?_
  · rcases h.live.ids.mem_updateHost hg hk with ⟨hk, -⟩ | rfl
    · exact h.old k hk
    · rcases literal with _ | (_ | _ | _)
      · exact h.old g hg
      all_goals exact old_add (h.old g hg) _
  · rcases h.live.ids.mem_updateHost hg hk with ⟨hk, -⟩ | rfl
    · exact h.unread k hk hu a ha hin
    · refine h.unread g hg (Or.inl (by rw [hstate]; decide)) a ha ?_
      rcases literal with _ | (_ | _ | _) <;> exact hin

theorem Joined.hostPass (h : Joined s) (hen : Enabled s (.hostPass g reply))
    (hc : Conf.Counted ⟨hostPass g reply s, []⟩) : Joined (hostPass g reply s) := by
  obtain ⟨hg, hstate⟩ := hen
  obtain ⟨hhosts, hacts⟩ := mem_hostPass h.live.ids hg reply
  refine joined_of_counted hc (fun b hb => ?_) (fun k hk => ?_) (fun b hb => ?_)
    fun k hk hu b hb hin => ?_
  · obtain ⟨a, ha, n, rfl, -⟩ := hacts b hb
    exact h.live.started a ha
  · rcases hhosts k hk with ⟨hk, -⟩ | rfl
    · exact h.old k hk
    · exact fun e he => (flags_refresh he).2
  · obtain ⟨a, ha, n, rfl, -⟩ := hacts b hb
    exact h.forced a ha
  · obtain ⟨a, ha, n, rfl, hsame⟩ := hacts b hb
    rcases hhosts k hk with ⟨hk, hne⟩ | rfl
    · -- an action of another host is not one of `g`
      have hnot : a.id ∉ g.actions := fun hin' =>
        hne (Option.some.inj ((h.joined k hk a ha hin).symm.trans (h.joined g hg a ha hin')))
      rw [hsame hnot]
      exact h.unread k hk hu a ha hin
    · -- the pass has read its host
      rcases hu with hu | ⟨e, he, hnew⟩
      · exact absurd hstate hu
      · rw [(flags_refresh he).1] at hnew
        cases hnew

theorem Joined.actionPass (h : Joined s) {act : Action} {ok : Change Sockaddr → Bool}
    (hen : Enabled s (.actionPass act ok)) (hc : Conf.Counted ⟨actionPass act ok s, []⟩) :
    Joined (actionPass act ok s) := by
  obtain ⟨hact, hsem⟩ := hen
  obtain ⟨hthr, hacts⟩ := of_actionPass act ok s
  refine joined_of_counted hc (fun b hb => ?_) (hthr ▸ h.old) (fun b hb hforce => ?_)
    fun k hk hu b hb hin => ?_
  · rcases hacts b hb with hb | ⟨k, -, rfl⟩
    · exact h.live.started b hb
    · exact nofun
  · rcases hacts b hb with hb | ⟨k, -, rfl⟩
    · exact h.forced b hb hforce
    · cases hforce
  · rw [hthr] at hk
    rcases hacts b hb with hb | ⟨k', -, rfl⟩
    · exact h.unread k hk hu b hb hin
    · -- a post has come, so the host of this action was read
      have := (h.unread k hk hu act hact hin).2
      omega

end Pass

/-! ## A reload -/

/-- **What parsing has added** to the hosts of a running daemon: hosts without addresses, and actions
that nobody has seen yet. -/
structure Parsed (s p : Sys) : Prop where
  idsFresh : ∀ a ∈ p.actionList, a.id < p.fresh
  le : s.fresh ≤ p.fresh
  hosts : ∀ k ∈ p.threadList, (∃ g ∈ s.threadList, k.id = g.id ∧ k.rnh = g.rnh ∧ k.state = g.state) ∨
    k.rnh = [] ∧ s.fresh ≤ k.id
  actions : ∀ a ∈ p.actionList, a.state = .STOPPED ∧ a.rnh = [] ∧ a.tblRnh = []

lemma parsed_refl (s : Sys) : Parsed s { s with actionList := [] } where
  idsFresh := by simp
  le := le_rfl
  hosts k hk := Or.inl ⟨k, hk, rfl, rfl, rfl⟩
  actions := by simp

theorem Parsed.addRule {s p q : Sys} {r : Rule} (h : Parsed s p) (hadd : addRule r p = .ok q) :
    Parsed s q := by
  obtain ⟨⟨host, hact⟩, hlt, hhosts⟩ := addRule_mem h.idsFresh hadd
  refine ⟨addRule_idsFresh h.idsFresh hadd, h.le.trans hlt.le, fun k hk => ?_, fun a ha => ?_⟩
  · obtain hk | ⟨g, hg, rfl⟩ | ⟨-, hnew⟩ := hhosts k hk
    · exact h.hosts k hk
    · exact h.hosts g hg
    · obtain ⟨hid, hrnh, -⟩ := newHost_eq hnew
      exact Or.inr ⟨hrnh, by have := h.le; omega⟩
  · rw [hact, mem_append, mem_singleton] at ha
    rcases ha with ha | rfl
    · exact h.actions a ha
    · exact ⟨rfl, rfl, rfl⟩

/-- An action as `action_create` leaves it, which has been posted `n` times since. -/
structure Action.Fresh (r : Rule) (n : ℕ) (a : Action) : Prop where
  rule : a.toRule = r
  force : a.force = true
  rnh : a.rnh = []
  tblRnh : a.tblRnh = []
  sem : a.sem = n

/-- Parsing, merging and starting threads: every action is an old or a created one, and every host an
old one or without addresses. -/
structure Renewed (s t : Sys) : Prop where
  started : ∀ a ∈ t.actionList, a.state ≠ .STOPPED
  actions : ∀ a ∈ t.actionList, a ∈ s.actionList ∨ a.Fresh a.toRule 0
  hosts : ∀ k ∈ t.threadList, (∃ g ∈ s.threadList, k.id = g.id ∧ k.rnh = g.rnh ∧
    (k.state = .RUNNING ↔ g.state = .RUNNING)) ∨ k.rnh = [] ∧ s.fresh ≤ k.id

lemma Parsed.renewed {s p t : Sys} (h : Parsed s p) (hs : ∀ a ∈ s.actionList, a.state ≠ .STOPPED)
    (hact : ∀ a' ∈ t.actionList, ∃ a, (a ∈ s.actionList ∨ a ∈ p.actionList) ∧ a' = a.create)
    (hthr : HostsKept p.threadList t.threadList) : Renewed s t := by
  refine ⟨fun a' ha' => ?_, fun a' ha' => ?_, fun k' hk' => ?_⟩
  · obtain ⟨a, -, rfl⟩ := hact a' ha'
    exact create_started a
  · obtain ⟨a, ha | ha, rfl⟩ := hact a' ha'
    · rw [create_of_started (hs a ha)]
      exact Or.inl ha
    · obtain ⟨hstate, hrnh, htbl⟩ := h.actions a ha
      rw [Action.create, if_neg (not_not.mpr hstate)]
      exact Or.inr ⟨rfl, rfl, hrnh, htbl, rfl⟩
  · obtain ⟨k, hk, hkept⟩ := hthr k' hk'
    rw [hkept.id, hkept.rnh, hkept.running]
    refine (h.hosts k hk).imp_left ?_
    rintro ⟨g, hg, hid, hrnh, hstate⟩
    exact ⟨g, hg, hid, hrnh, by rw [hstate]⟩

lemma renewed_of_reload {s t : Sys} (hs : ∀ a ∈ s.actionList, a.state ≠ .STOPPED)
    (h : mergeConfig rules s = .ok t) : Renewed s t := by
  obtain ⟨p, hp⟩ := exists_parsed h
  have hparsed : Parsed s p := parseConfig_invariant (I := Parsed s)
    (fun hp hadd => hp.addRule hadd) hp (parsed_refl s)
  obtain ⟨m, t', -, ht', -, -, hact, hthr⟩ := mergeConfig_eq hp
  obtain rfl : t = t' := Except.ok.inj (h.symm.trans ht')
  refine hparsed.renewed hs (fun a' ha' => ?_) hthr
  rw [hact] at ha'
  obtain ⟨a, ha, rfl⟩ := mem_map.mp ha'
  have hsub := (KeyMatch.matchAll_subperm s.actionList p.actionList).subset (mem_append_right _ ha)
  exact ⟨a, mem_append.mp hsub, rfl⟩

lemma renewed_of_startup (h : startup rules = .ok s) : Renewed .empty s := by
  obtain ⟨p, hparse, rfl⟩ := startup_ok h
  have hparsed : Parsed .empty p := parseConfig_invariant (I := Parsed .empty)
    (fun hp hadd => hp.addRule hadd) hparse (parsed_refl .empty)
  refine hparsed.renewed (by simp [Sys.empty]) (fun a' ha' => ?_) (HostsKept.map kept_create)
  obtain ⟨a, ha, rfl⟩ := mem_map.mp ha'
  exact ⟨a, Or.inr ha, rfl⟩

section Renewed

variable {s t : Sys} (h : Renewed s t) (hcs : Conf.Counted ⟨s, []⟩) (hct : Conf.Counted ⟨t, []⟩)
include h

lemma Renewed.rnh {k : Host} (hk : k ∈ t.threadList) :
    (∃ g ∈ s.threadList, k.rnh = g.rnh) ∨ k.rnh = [] := by
  refine (h.hosts k hk).imp ?_ And.left
  exact fun ⟨g, hg, _, hrnh, _⟩ => ⟨g, hg, hrnh⟩

include hcs hct

/-- An old action is on an old host. -/
lemma Renewed.host {a : Action} (has : a ∈ s.actionList) (hat : a ∈ t.actionList) {k : Host}
    (hk : k ∈ t.threadList) (hin : a.id ∈ k.actions) : ∃ g ∈ s.threadList, a.id ∈ g.actions ∧
      k.rnh = g.rnh ∧ (k.state = .RUNNING ↔ g.state = .RUNNING) := by
  have hhost := (hct.on_iff hat hk).mp hin
  obtain ⟨g, hg, hid, hsame⟩ | ⟨-, hge⟩ := h.hosts k hk
  · exact ⟨g, hg, (hcs.on_iff has hg).mpr (by rw [hhost, hid]), hsame⟩
  · obtain ⟨g, hg, hag⟩ := hcs.attached a.link (mem_map_of_mem (mem_append_left _ has))
    have hid : k.id = g.id := Option.some.inj (hhost.symm.trans hag)
    exact absurd (hid ▸ hge) (Nat.not_le.mpr (hcs.sys.hostsFresh g hg))

/-- **After parsing, merging and starting threads** the daemon is joined again. -/
theorem Joined.renewed (hs : Joined s) : Joined t := by
  refine joined_of_counted hct h.started (fun k hk => ?_) (fun a ha hforce => ?_)
    fun k hk hu a ha hin => ?_
  · obtain ⟨g, hg, hrnh⟩ | hrnh := h.rnh hk <;> rw [hrnh]
    · exact hs.old g hg
    · exact fun e he => absurd he not_mem_nil
  · rcases h.actions a ha with has | hnew
    · exact hs.forced a has hforce
    · exact ⟨hnew.rnh, hnew.tblRnh⟩
  · rcases h.actions a ha with has | hnew
    · obtain ⟨g, hg, hing, hrnh, hrun⟩ := h.host hcs hct has ha hk hin
      refine hs.unread g hg ?_ a has hing
      rwa [Host.Unread, ← hrnh, Ne, ← hrun]
    · exact ⟨hnew.force, hnew.sem⟩

end Renewed

/-! ## The life of the daemon -/

theorem Joined.life {s t : Sys} {e : Event ⊕ List Dnsrule} (h : Joined s)
    (hc : Conf.Counted ⟨s, []⟩) (hstep : Life s e t) : Joined t := by
  have hct := hc.life hstep
  rcases e with e | rules
  · obtain ⟨hen, rfl⟩ := hstep
    cases e with
    | hostStart i literal => exact h.hostStart hen hct
    | hostPass g reply => exact h.hostPass hen hct
    | actionPass act ok => exact h.actionPass hen hct
  · exact h.renewed (renewed_of_reload h.live.started hstep) hc hct

lemma joined_empty : Joined .empty := by
  refine ⟨⟨⟨?_, ?_, ?_, ?_⟩, ?_⟩, ?_, ?_, ?_, ?_, ?_⟩ <;> simp [Sys.empty]

lemma joined_startup (h : startup rules = .ok s) : Joined s :=
  joined_empty.renewed (renewed_of_startup h) (run_counted (.nil _)) (run_counted (run_startup h))

lemma Reached.joined (h : Reached s) : Joined s := by
  obtain ⟨rules, s₀, es, hstart, r⟩ := h
  exact (r.invariant (I := fun s => Conf.Counted ⟨s, []⟩ ∧ Joined s)
    (fun _ _ _ hs hstep => ⟨hs.1.life hstep, hs.2.life hs.1 hstep⟩)
    ⟨run_counted (run_startup hstart), joined_startup hstart⟩).2

lemma life_of_run {s t : Sys} {es : List Event} (r : Run Step s es t) :
    Run Life s (es.map .inl) t := by
  induction r with
  | nil s => exact .nil s
  | cons hstep _ ih => exact .cons hstep ih

/-! ## The failing lookup -/

lemma hostDns_none (h : Host) : hostDns h none = [] := by
  unfold hostDns
  split_ifs <;> rfl

section Fails

variable {s : Sys} {h : Host} (hs : Joined s) (hh : h ∈ s.threadList) (hcnt : h.refcnt ≠ 0)
include hs hh hcnt

lemma host_of_failed {g : Host} (hg : g ∈ (hostPass h none s).threadList) (hid : g.id = h.id) :
    g.rnh = refresh [] h.rnh := by
  rw [hostPass_eq hcnt, hostDns_none] at hg
  obtain ⟨k, hk, rfl⟩ := mem_map.mp hg
  have hkid : k.id = h.id := by
    split_ifs at hid with hif
    · exact hif
    · exact hid
  obtain rfl := hs.live.ids.host_eq hk hh hkid
  rw [if_pos rfl]

/-- **Who is woken**, if no address goes: only those who were made just now. -/
lemma woken_of_failed (hstatic : ∀ e ∈ h.rnh, e.static = true) {a b : Action}
    (hb : b ∈ s.actionList) (ha : a ∈ (hostPass h none s).actionList) (hid : a.id = b.id)
    (hsem : a.sem ≠ b.sem) : b.force = true ∧ a.tblRnh = b.tblRnh := by
  rw [hostPass_eq hcnt, hostDns_none] at ha
  obtain ⟨c, hc, rfl⟩ := mem_map.mp ha
  obtain ⟨n, hn, hnot, hcause⟩ := wake_eq (g := h) c (report [] h.rnh).length
  rw [hn] at hid hsem ⊢
  obtain rfl := hs.live.ids.action_eq hc hb hid
  refine ⟨?_, rfl⟩
  rcases hcause hsem with hupdate | hforce
  · have hne : report [] h.rnh ≠ [] := fun hnil => hupdate (by rw [hnil]; rfl)
    have hin : c.id ∈ h.actions := by
      by_contra hout
      exact hsem (hnot hout)
    have hnew := exists_new_of_report_nil (hs.old h hh) hstatic hne
    exact (hs.unread h hh (Or.inr hnew) c hc hin).1
  · exact hforce

end Fails

/-- **A failed lookup is survived by literals only.**  At any time of the daemon's life, through any
passes and reloads: a pass of a host whose lookup fails leaves everything as it is exactly if every
address of the host was spelled out in the configuration. -/
theorem survives_iff {rules : List Dnsrule} {s₀ s : Sys} {es : List (Event ⊕ List Dnsrule)}
    (hstart : startup rules = .ok s₀) (r : Run Life s₀ es s) {h : Host} (hh : h ∈ s.threadList)
    (hcnt : h.refcnt ≠ 0) : Survives s h ↔ ∀ e ∈ h.rnh, e.static = true := by
  have hs : Joined s := Reached.joined ⟨rules, s₀, es, hstart, r⟩
  constructor
  · intro hsurvives
    have hmem : { h with rnh := refresh [] h.rnh } ∈ (hostPass h none s).threadList := by
      rw [hostPass_eq hcnt, hostDns_none]
      exact mem_map.mpr ⟨h, hh, if_pos rfl⟩
    exact (vals_refresh_nil_eq_iff (hs.old h hh)).mp (hsurvives.host _ hmem rfl)
  · intro hstatic
    refine ⟨fun g hg hid => ?_, ?_, fun b hb a ha hid hsem hforce => ?_,
      fun b hb a ha hid hsem hforce x => ?_⟩
    · rw [host_of_failed hs hh hcnt hg hid]
      exact (vals_refresh_nil_eq_iff (hs.old h hh)).mpr hstatic
    · rw [hostPass_eq hcnt]
    · rw [(woken_of_failed hs hh hcnt hstatic hb ha hid hsem).1] at hforce
      cases hforce
    · have htbl := (woken_of_failed hs hh hcnt hstatic hb ha hid hsem).2
      rw [(hs.forced b hb hforce).2] at htbl
      unfold kernelOps
      split
      · exact not_mem_nil
      · split_ifs
        · rw [htbl]
          exact del_notMem_report_nil _ _
        · exact not_mem_nil

/-! ## A table that is emptied -/

def resolved : Sys :=
  (play (started [pfLine "a.example.org"]) [.start 1 none, .host 1 [testAddr 1], .action 0]).2

def resolvedHost : Host :=
  ⟨1, "a.example.org".toList, -1, -1, [⟨testAddr 1, false, false, false⟩], 1, .RUNNING, [0], 0⟩

/-- **The table is emptied.**  The name was resolved and its address installed; then one lookup
fails, the action is woken, and nothing is left in the table. -/
theorem failed_lookup_empties_table :
    (∃ es, Run Life (started [pfLine "a.example.org"]) es resolved) ∧
      resolvedHost ∈ resolved.threadList ∧ resolved.kernel.card = 1 ∧
      (∃ a ∈ (hostPass resolvedHost none resolved).actionList, 0 < a.sem ∧
        (actionPass a (fun _ => true) (hostPass resolvedHost none resolved)).kernel = ∅) ∧
      ¬Survives resolved resolvedHost := by
  refine ⟨⟨_, life_of_run (run_play _ _)⟩, by decide +kernel, by decide +kernel, by decide +kernel,
    fun hsurvives => ?_⟩
  have hmem : { resolvedHost with rnh := [] } ∈ (hostPass resolvedHost none resolved).threadList := by
    decide +kernel
  exact absurd (hsurvives.host _ hmem rfl) (by decide +kernel)

/-- A literal address stays. -/
theorem survives_iff_literal :
    let s := hostStart 1 (some (testAddr 1)) (started [pfLine "192.0.2.1"])
    ∃ h ∈ s.threadList, vals h.rnh = [testAddr 1] ∧ Survives s h := by
  intro s
  have hrun : Run Life (started [pfLine "192.0.2.1"]) [.inl (.hostStart 1 (some (testAddr 1)))] s :=
    .cons ⟨by decide +kernel, rfl⟩ (.nil _)
  have hstart : startup [pfLine "192.0.2.1"] = .ok (started [pfLine "192.0.2.1"]) := rfl
  have hmem : ⟨1, "192.0.2.1".toList, 32, -1, [⟨testAddr 1, true, false, true⟩], 1, .RUNNING, [0], 0⟩
      ∈ s.threadList := by decide +kernel
  refine ⟨_, hmem, rfl, (survives_iff hstart hrun hmem (by decide)).mpr fun e he => ?_⟩
  rw [mem_singleton.mp he]

end FreeSense.Filterdns
