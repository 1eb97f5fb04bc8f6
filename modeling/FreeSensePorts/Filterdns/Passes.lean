import FreeSensePorts.Filterdns.Entries
import FreeSensePorts.Filterdns.Lookup

/-!
# What the passes compute

A lookup goes through three lists: the host's `rnh`, the action's copy of it, and `tbl_rnh`, the
action's record of its table.  `Tidy` is what these lists keep in any state the daemon can get into
(`tidy_of_life`); given that, each loop computes a set difference.

A static address is never marked, so an action keeps it for good, and its set is the host's because
the host keeps it too (`Tidy.copied`).  It is inserted as new before the first pass, which counts it.

The second half is about an action that a reload has put on a host whose addresses no longer move:
`ACT_FORCE`, set where it is created, read by the host's pass and cleared by its own.
-/

namespace FreeSense.Filterdns

open List MarkSweep

variable {s : Sys} {g : Host} {e : Event} {k : Host} {a : Action} {reply : Option (List Sockaddr)}
  {act : Action}

/-! ## Between two passes -/

/-- The address lists of a running daemon. -/
structure Tidy (s : Sys) : Prop where
  joined : Joined s
  nodup : ∀ h ∈ s.threadList, (vals h.rnh).Nodup
  unseen : ∀ h ∈ s.threadList, ∀ e ∈ h.rnh, e.new = true → e.static = true
  settled : ∀ a ∈ s.actionList, a.Settled
  copied : ∀ h ∈ s.threadList, ∀ a ∈ s.actionList, a.id ∈ h.actions → ∀ e ∈ a.rnh,
    e.static = true → ∃ d ∈ h.rnh, d.val = e.val ∧ d.static = true

lemma Tidy.swept (h : Tidy s) (hg : g ∈ s.threadList) : Swept g.rnh :=
  ⟨h.nodup g hg, h.joined.old g hg⟩

lemma settled_nil (hr : a.rnh = []) (ht : a.tblRnh = []) : a.Settled :=
  ⟨hr ▸ resting_nil, ht ▸ resting_nil, fun _ x => by rw [hr, ht],
    fun e he => by rw [ht] at he; exact absurd he not_mem_nil⟩

lemma Action.Settled.congr {a b : Action} (h : a.Settled) (hr : b.rnh = a.rnh)
    (ht : b.tblRnh = a.tblRnh) (hname : b.tablename = a.tablename) : b.Settled :=
  ⟨hr ▸ h.rnh, ht ▸ h.tblRnh, by rw [hr, ht, hname]; exact h.same, by rw [hr, ht]; exact h.static⟩

theorem Tidy.hostStart (h : Tidy s) {i : ℕ} {literal : Option Sockaddr}
    (hen : Enabled s (.hostStart i literal)) (ht : Joined (hostStart i literal s)) :
    Tidy (hostStart i literal s) := by
  obtain ⟨g, hg, rfl, hstate⟩ := hen
  have hmem : ∀ k ∈ (Filterdns.hostStart g.id literal s).threadList,
      k ∈ s.threadList ∧ k.id ≠ g.id ∨ k = g.start literal :=
    fun k hk => h.joined.live.ids.mem_updateHost hg hk
  refine ⟨ht, fun k hk => ?_, fun k hk => ?_, h.settled, fun k hk a ha hin e he => ?_⟩
  · rcases hmem k hk with ⟨hk, -⟩ | rfl
    · exact h.nodup k hk
    · rcases literal with _ | (_ | _ | _)
      · exact h.nodup g hg
      all_goals exact nodup_add (h.nodup g hg) _
  · rcases hmem k hk with ⟨hk, -⟩ | rfl
    · exact h.unseen k hk
    · rcases literal with _ | (_ | _ | _)
      · exact h.unseen g hg
      all_goals exact static_add (h.nodup g hg) (h.unseen g hg) _
  · rcases hmem k hk with ⟨hk, -⟩ | rfl
    · exact h.copied k hk a ha hin e he
    · -- nobody has copied from a host that starts
      have hon : a.id ∈ g.actions := by
        rcases literal with _ | (_ | _ | _) <;> exact hin
      have hforce := (h.joined.unread g hg (Or.inl (by rw [hstate]; decide)) a ha hon).1
      rw [(h.joined.forced a ha hforce).1] at he
      exact absurd he not_mem_nil

theorem Tidy.hostPass (h : Tidy s) (hg : g ∈ s.threadList) (ht : Joined (hostPass g reply s)) :
    Tidy (hostPass g reply s) := by
  obtain ⟨hhosts, hacts⟩ := mem_hostPass h.joined.live.ids hg reply
  refine ⟨ht, fun k hk => ?_, fun k hk => ?_, fun b hb => ?_, fun k hk b hb hin e he hs => ?_⟩
  · rcases hhosts k hk with ⟨hk, -⟩ | rfl
    · exact h.nodup k hk
    · exact (resting_refresh (h.swept hg) _).nodup
  · rcases hhosts k hk with ⟨hk, -⟩ | rfl
    · exact h.unseen k hk
    · intro e he hnew
      rw [(flags_refresh he).1] at hnew
      cases hnew
  · obtain ⟨a, ha, n, rfl, -⟩ := hacts b hb
    exact (h.settled a ha).congr rfl rfl rfl
  · obtain ⟨a, ha, n, rfl, -⟩ := hacts b hb
    rcases hhosts k hk with ⟨hk, -⟩ | rfl
    · exact h.copied k hk a ha hin e he hs
    · obtain ⟨d, hd, hval, hds⟩ := h.copied g hg a ha hin e he hs
      obtain ⟨c, hc, hcv, hcs⟩ := static_refresh (h.swept hg) (hostDns g reply) hd hds
      exact ⟨c, hc, hcv.trans hval, hcs⟩

theorem Tidy.actionPass (h : Tidy s) {ok : Change Sockaddr → Bool} (hact : act ∈ s.actionList)
    (ht : Joined (actionPass act ok s)) : Tidy (actionPass act ok s) := by
  obtain ⟨hthr, hacts⟩ := of_actionPass act ok s
  refine ⟨ht, hthr ▸ h.nodup, hthr ▸ h.unseen, fun b hb => ?_, fun k hk b hb hin e he hs => ?_⟩
  · rcases hacts b hb with hb | ⟨g, -, rfl⟩
    · exact h.settled b hb
    · exact (h.settled act hact).pass _
  · rw [hthr] at hk
    rcases hacts b hb with hb | ⟨g, hg, rfl⟩
    · exact h.copied k hk b hb hin e he hs
    · obtain ⟨hgmem, hhost⟩ := host_of_hostOf hg
      have hkg : some g.id = some k.id := hhost.symm.trans (h.joined.joined k hk act hact hin)
      obtain rfl := h.joined.live.ids.host_eq hgmem hk (Option.some.inj hkg)
      rcases static_of_refresh (h.settled act hact).rnh.swept _ he hs with ⟨d, hd, hval, hds⟩ | hts
      · rw [← hval]
        exact h.copied g hk act hact hin d hd hds
      · obtain ⟨d, hd, hde⟩ := mem_map.mp hts
        rw [Prod.mk.injEq] at hde
        exact ⟨d, hd, hde⟩

theorem Tidy.renewed {s t : Sys} (h : Tidy s) (hr : Renewed s t) (hcs : Conf.Counted ⟨s, []⟩)
    (hct : Conf.Counted ⟨t, []⟩) : Tidy t := by
  refine ⟨h.joined.renewed hr hcs hct, fun k hk => ?_, fun k hk => ?_, fun a ha => ?_,
    fun k hk a ha hin e he hs => ?_⟩
  · obtain ⟨g, hg, hrnh⟩ | hrnh := hr.rnh hk <;> rw [hrnh]
    · exact h.nodup g hg
    · exact nodup_nil
  · obtain ⟨g, hg, hrnh⟩ | hrnh := hr.rnh hk <;> rw [hrnh]
    · exact h.unseen g hg
    · exact fun e he => absurd he not_mem_nil
  · rcases hr.actions a ha with ha | hnew
    · exact h.settled a ha
    · exact settled_nil hnew.rnh hnew.tblRnh
  · rcases hr.actions a ha with has | hnew
    · obtain ⟨g, hg, hing, hrnh, -⟩ := hr.host hcs hct has ha hk hin
      exact hrnh ▸ h.copied g hg a has hing e he hs
    · rw [hnew.rnh] at he
      exact absurd he not_mem_nil

theorem Tidy.life {s t : Sys} {e : Event ⊕ List Dnsrule} (h : Tidy s) (hc : Conf.Counted ⟨s, []⟩)
    (hstep : Life s e t) : Tidy t := by
  have ht := h.joined.life hc hstep
  have hct := hc.life hstep
  rcases e with e | rules
  · obtain ⟨hen, rfl⟩ := hstep
    cases e with
    | hostStart i literal => exact h.hostStart hen ht
    | hostPass g reply => exact h.hostPass hen.1 ht
    | actionPass act ok => exact h.actionPass hen.1 ht
  · exact h.renewed (renewed_of_reload h.joined.live.started hstep) hc hct

lemma tidy_startup {rules : List Dnsrule} (h : startup rules = .ok s) : Tidy s := by
  have hempty : Tidy .empty := by
    refine ⟨joined_empty, ?_, ?_, ?_, ?_⟩ <;> simp [Sys.empty]
  exact hempty.renewed (renewed_of_startup h) (run_counted (.nil _)) (run_counted (run_startup h))

theorem Reached.tidy (h : Reached s) : Tidy s := by
  obtain ⟨rules, s₀, es, hstart, r⟩ := h
  exact (r.invariant (I := fun s => Conf.Counted ⟨s, []⟩ ∧ Tidy s)
    (fun _ _ _ hs hstep => ⟨hs.1.life hstep, hs.2.life hs.1 hstep⟩)
    ⟨run_counted (run_startup hstart), tidy_startup hstart⟩).2

/-! ## What a step does to one host and one action -/

/-- **A running host in use** stays as it is, or makes a pass. -/
lemma Step.host {s t : Sys} (hs : s.Ids) (hstep : Step s e t) (hk : k ∈ s.threadList)
    (hrun : k.state = .RUNNING) (hcnt : k.refcnt ≠ 0) :
    (k ∈ t.threadList ∧ ∀ g reply, e = .hostPass g reply → g.id ≠ k.id) ∨
      ∃ reply, e = .hostPass k reply ∧
        { k with rnh := refresh (hostDns k reply) k.rnh } ∈ t.threadList := by
  obtain ⟨hen, rfl⟩ := hstep
  cases e with
  | hostStart i literal =>
    obtain ⟨g, hg, rfl, hstate⟩ := hen
    have hne : k.id ≠ g.id := by
      intro hid
      rw [hs.host_eq hk hg hid, hstate] at hrun
      cases hrun
    exact Or.inl ⟨mem_map.mpr ⟨k, hk, if_neg hne⟩, fun _ _ heq => by cases heq⟩
  | hostPass g reply =>
    obtain ⟨hg, -⟩ := hen
    by_cases hid : g.id = k.id
    · obtain rfl := hs.host_eq hg hk hid
      refine Or.inr ⟨reply, rfl, ?_⟩
      rw [handle, hostPass_eq hcnt]
      exact mem_map.mpr ⟨g, hg, if_pos rfl⟩
    · refine Or.inl ⟨?_, fun g' reply' heq => ?_⟩
      · rw [handle]
        by_cases hzero : g.refcnt = 0
        · rw [hostPass, if_pos hzero]
          exact mem_filter.mpr ⟨hk, by simpa using Ne.symm hid⟩
        · rw [hostPass_eq hzero]
          exact mem_map.mpr ⟨k, hk, if_neg (Ne.symm hid)⟩
      · cases heq
        exact hid
  | actionPass act ok =>
    refine Or.inl ⟨?_, fun _ _ heq => by cases heq⟩
    obtain ⟨-, heq⟩ | ⟨g, -, heq⟩ := actionPass_cases act ok s <;> rw [handle, heq] <;> exact hk

/-- **An action** stays as it is, may be woken by the pass of a host, or makes a pass. -/
lemma Step.action {s t : Sys} (hs : s.Ids) (hstep : Step s e t) (ha : a ∈ s.actionList)
    (hhost : s.hostOf a ≠ none) :
    (a ∈ t.actionList ∧ (∀ g reply, e = .hostPass g reply → g.refcnt = 0) ∧
        ∀ b ok, e = .actionPass b ok → b.id ≠ a.id) ∨
      (∃ g reply, e = .hostPass g reply ∧ g ∈ s.threadList ∧ g.refcnt ≠ 0 ∧
        a.wake g (report (hostDns g reply) g.rnh).length ∈ t.actionList) ∨
      ∃ ok g, e = .actionPass a ok ∧ s.hostOf a = some g ∧ a.pass (targets g.rnh) ∈ t.actionList := by
  obtain ⟨hen, rfl⟩ := hstep
  cases e with
  | hostStart i literal =>
    exact Or.inl ⟨ha, (fun _ _ heq => by cases heq), fun _ _ heq => by cases heq⟩
  | hostPass g reply =>
    obtain ⟨hg, -⟩ := hen
    rw [handle]
    by_cases hzero : g.refcnt = 0
    · refine Or.inl ⟨?_, fun g' reply' heq => ?_, fun _ _ heq => by cases heq⟩
      · rw [hostPass, if_pos hzero]
        exact ha
      · cases heq
        exact hzero
    · refine Or.inr (Or.inl ⟨g, reply, rfl, hg, hzero, ?_⟩)
      rw [hostPass_eq hzero]
      exact mem_map_of_mem ha
  | actionPass act ok =>
    obtain ⟨hact, -⟩ := hen
    rw [handle]
    by_cases hid : act.id = a.id
    · obtain rfl := hs.action_eq hact ha hid
      obtain ⟨hnone, -⟩ | ⟨g, hg, -⟩ := actionPass_cases act ok s
      · exact absurd hnone hhost
      · exact Or.inr (Or.inr ⟨ok, g, rfl, hg, mem_actionPass hact hg ok⟩)
    · refine Or.inl ⟨?_, (fun _ _ heq => by cases heq), fun b ok' heq => ?_⟩
      · obtain ⟨-, heq⟩ | ⟨g, -, heq⟩ := actionPass_cases act ok s <;> rw [heq]
        · exact ha
        · exact mem_map.mpr ⟨a, ha, if_neg (Ne.symm hid)⟩
      · cases heq
        exact hid

/-! ## A host that is looked up -/

def Host.Static (h : Host) (x : Sockaddr) : Prop := ∃ e ∈ h.rnh, e.val = x ∧ e.static = true

/-- A host that is looked up, with its static addresses, and one of its actions. -/
structure Follows (i j : ℕ) (S : Sockaddr → Prop) (r : Rule) (s : Sys) : Prop where
  reached : Reached s
  host : ∃ k ∈ s.threadList, k.id = i ∧ k.state = .RUNNING ∧ k.mask = -1 ∧ ∀ x, k.Static x ↔ S x
  action : ∃ a ∈ s.actionList, a.id = j ∧ a.host = some i ∧ a.toRule = r

lemma hostDns_fst {h : Host} (hmask : h.mask = -1) (reply : List Sockaddr) :
    (hostDns h (some reply)).map Prod.fst = reply := by
  simp [hostDns, hmask, Function.comp_def]

lemma static_notMem_hostDns (h : Host) (reply : Option (List Sockaddr)) (x : Sockaddr) :
    (x, true) ∉ hostDns h reply := by
  unfold hostDns
  split_ifs <;> simp

lemma static_pass (h : Tidy s) (hk : k ∈ s.threadList) (reply : Option (List Sockaddr))
    (x : Sockaddr) :
    Host.Static { k with rnh := refresh (hostDns k reply) k.rnh } x ↔ k.Static x := by
  constructor
  · rintro ⟨e, he, rfl, hs⟩
    rcases static_of_refresh (h.swept hk) _ he hs with ⟨d, hd, hval, hds⟩ | hts
    · exact ⟨d, hd, hval, hds⟩
    · exact absurd hts (static_notMem_hostDns k reply _)
  · rintro ⟨d, hd, rfl, hs⟩
    exact static_refresh (h.swept hk) _ hd hs

section Followed

variable {i j : ℕ} {S : Sockaddr → Prop} {r : Rule} {s t : Sys} (h : Follows i j S r s)
include h

lemma Follows.step (hstep : Step s e t) : Follows i j S r t := by
  obtain ⟨k, hk, rfl, hrun, hmask, hS⟩ := h.host
  obtain ⟨a, ha, rfl, hhost, rfl⟩ := h.action
  have hids := h.reached.tidy.joined.live.ids
  obtain ⟨hin, hcnt⟩ := h.reached.attached ha hk hhost
  have hof := hids.hostOf_eq hk hhost
  refine ⟨h.reached.step hstep, ?_, ?_⟩
  · obtain ⟨hk', -⟩ | ⟨reply, -, hk'⟩ := hstep.host hids hk hrun hcnt
    · exact ⟨k, hk', rfl, hrun, hmask, hS⟩
    · exact ⟨_, hk', rfl, hrun, hmask, fun x => (static_pass h.reached.tidy hk reply x).trans (hS x)⟩
  · obtain ⟨ha', -⟩ | ⟨g, reply, -, -, -, ha'⟩ | ⟨ok, g, -, -, ha'⟩ :=
      hstep.action hids ha (by simp [hof])
    · exact ⟨a, ha', rfl, hhost, rfl⟩
    · obtain ⟨n, hn, -⟩ := wake_eq (g := g) a (report (hostDns g reply) g.rnh).length
      rw [hn] at ha'
      exact ⟨_, ha', rfl, hhost, rfl⟩
    · exact ⟨_, ha', rfl, hhost, rfl⟩

lemma Follows.run {es : List Event} (run : Run Step s es t) : Follows i j S r t :=
  run.invariant (fun _ _ _ h hstep => Follows.step h hstep) h

lemma Follows.of_host (hg : g ∈ s.threadList) (hid : g.id = i) :
    g.state = .RUNNING ∧ g.mask = -1 ∧ g.refcnt ≠ 0 ∧ ∀ x, g.Static x ↔ S x := by
  obtain ⟨k, hk, rfl, hrun, hmask, hS⟩ := h.host
  obtain ⟨a, ha, -, hhost, -⟩ := h.action
  obtain rfl := h.reached.tidy.joined.live.ids.host_eq hg hk hid
  exact ⟨hrun, hmask, (h.reached.attached ha hg hhost).2, hS⟩

/-- **The host's pass**: its new set, and when it counts an update. -/
lemma Follows.mem_pass (hg : g ∈ s.threadList) (hid : g.id = i) (reply : List Sockaddr)
    (x : Sockaddr) : x ∈ vals (refresh (hostDns g (some reply)) g.rnh) ↔ S x ∨ x ∈ reply := by
  obtain ⟨-, hmask, -, hS⟩ := h.of_host hg hid
  rw [mem_vals_refresh (h.reached.tidy.swept hg), hostDns_fst hmask, or_comm]
  exact or_congr_left (hS x)

lemma Follows.seen_of_passed {es : List Event} (run : Run Step s es t)
    (hpass : .hostPass k reply ∈ es) (hkid : k.id = i) :
    ∀ g ∈ t.threadList, g.id = i → ∀ e ∈ g.rnh, e.new = false := by
  obtain ⟨es₁, es₂, rfl⟩ := append_of_mem hpass
  obtain ⟨u, r₁, r₂⟩ := run.append_inv
  have hu := h.run r₁
  cases r₂ with
  | @cons _ v _ _ _ hstep r₂ =>
    have hafter : ∀ {u v : Sys} {e : Event}, Follows i j S r u → Step u e v →
        ((∃ k reply, e = .hostPass k reply ∧ k.id = i) ∨
          ∀ g ∈ u.threadList, g.id = i → ∀ d ∈ g.rnh, d.new = false) →
        ∀ g ∈ v.threadList, g.id = i → ∀ d ∈ g.rnh, d.new = false := by
      intro u v e hu hstep hseen g hg hgid
      obtain ⟨k, hk, hkid, hrun, -, -⟩ := hu.host
      have hids := hu.reached.tidy.joined.live.ids
      have hids' := (hu.reached.step hstep).tidy.joined.live.ids
      obtain ⟨hk', hother⟩ | ⟨reply, -, hk'⟩ := hstep.host hids hk hrun (hu.of_host hk hkid).2.2.1
      · rw [hids'.host_eq hg hk' (hgid.trans hkid.symm)]
        rcases hseen with ⟨k', reply, heq, hid⟩ | hseen
        · exact absurd (hid.trans hkid.symm) (hother k' reply heq)
        · exact hseen k hk hkid
      · rw [hids'.host_eq hg hk' (hgid.trans hkid.symm)]
        exact fun d hd => (flags_refresh hd).1
    have hv := hafter hu hstep (Or.inl ⟨k, reply, rfl, hkid⟩)
    exact (r₂.invariant (I := fun v => Follows i j S r v ∧
      ∀ g ∈ v.threadList, g.id = i → ∀ d ∈ g.rnh, d.new = false)
      (fun _ _ _ hv hstep => ⟨hv.1.step hstep, hafter hv.1 hstep (Or.inr hv.2)⟩)
      ⟨hu.step hstep, hv⟩).2

/-- **A counted update posts the action**, and so does a pass that finds it forced. -/
lemma Follows.posted (hg : g ∈ s.threadList) (hid : g.id = i) {reply : Option (List Sockaddr)}
    (hpost : (report (hostDns g reply) g.rnh).length ≠ 0 ∨
      ∃ a ∈ s.actionList, a.id = j ∧ a.force = true) :
    ∃ a ∈ (hostPass g reply s).actionList, a.id = j ∧ 0 < a.sem := by
  obtain ⟨a, ha, haid, hhost, -⟩ := h.action
  obtain ⟨hin, hcnt⟩ := h.reached.attached ha hg (hid ▸ hhost)
  have hwake : a.wake g (report (hostDns g reply) g.rnh).length = { a with sem := a.sem + 1 } := by
    refine if_pos ⟨hin, hpost.imp id ?_⟩
    rintro ⟨b, hb, hbid, hforce⟩
    rwa [← h.reached.tidy.joined.live.ids.action_eq hb ha (hbid.trans haid.symm)]
  refine ⟨{ a with sem := a.sem + 1 }, ?_, haid, Nat.succ_pos _⟩
  rw [hostPass_eq hcnt, ← hwake]
  exact mem_map_of_mem ha

/-- It stays posted until its own pass. -/
lemma Follows.stays_posted {es : List Event} (hsem : ∃ a ∈ s.actionList, a.id = j ∧ 0 < a.sem)
    (run : Run (fun s e t => Step s e t ∧ ∀ a ok, e = .actionPass a ok → a.id ≠ j) s es t) :
    ∃ a ∈ t.actionList, a.id = j ∧ 0 < a.sem := by
  refine (run.invariant (I := fun s => Follows i j S r s ∧
    ∃ a ∈ s.actionList, a.id = j ∧ 0 < a.sem) ?_ ⟨h, hsem⟩).2
  rintro s e t ⟨hs, a, ha, haid, hsem⟩ ⟨hstep, hother⟩
  refine ⟨hs.step hstep, ?_⟩
  have hids := hs.reached.tidy.joined.live.ids
  have hof : s.hostOf a ≠ none := by
    obtain ⟨k, hk, rfl, -⟩ := hs.host
    obtain ⟨b, hb, hbid, hhost, -⟩ := hs.action
    obtain rfl := hids.action_eq ha hb (haid.trans hbid.symm)
    simp [hids.hostOf_eq hk hhost]
  obtain ⟨ha', -⟩ | ⟨g, reply, -, -, -, ha'⟩ | ⟨ok, g, rfl, -, -⟩ := hstep.action hids ha hof
  · exact ⟨a, ha', haid, hsem⟩
  · refine ⟨_, ha', ?_⟩
    unfold Action.wake
    split_ifs
    · exact ⟨haid, Nat.succ_pos _⟩
    · exact ⟨haid, hsem⟩
  · exact absurd haid (hother a ok rfl)

end Followed

/-- A step that is not a pass of the host. -/
def StepBut (i : ℕ) (s : Sys) (e : Event) (t : Sys) : Prop :=
  Step s e t ∧ ∀ k reply, e = .hostPass k reply → k.id ≠ i

/-- **An action's pass** over the addresses of its host. -/
lemma pass_of_copied (hs : Tidy s) (hg : g ∈ s.threadList) (hact : act ∈ s.actionList)
    (hin : act.id ∈ g.actions) (x : Sockaddr) :
    x ∈ vals (refresh (targets g.rnh) act.rnh) ↔ x ∈ vals g.rnh := by
  rw [mem_vals_refresh (hs.settled act hact).rnh.swept, targets_fst]
  refine or_iff_left_of_imp ?_
  rintro ⟨e, he, rfl, hes⟩
  obtain ⟨d, hd, hval, -⟩ := hs.copied g hg act hact hin e he hes
  exact mem_map.mpr ⟨d, hd, hval⟩

/-- **What an action's pass asks of the kernel**: the difference between its host's addresses and its
record of the table. -/
lemma kernelOps_exact (hs : Tidy s) (hg : g ∈ s.threadList) (hact : act ∈ s.actionList)
    (hin : act.id ∈ g.actions) (hof : s.hostOf act = some g) (hname : act.tablename ≠ none) :
    (kernelOps act s).Nodup ∧
      (∀ x, .add x ∈ kernelOps act s ↔ x ∈ vals g.rnh ∧ x ∉ vals act.tblRnh) ∧
      ∀ x, .del x ∈ kernelOps act s ↔ x ∈ vals act.tblRnh ∧ x ∉ vals g.rnh := by
  obtain ⟨-, hnodup, hadd, hdel⟩ := mem_kernelOps (hs.settled act hact) hof hname
  simp only [pass_of_copied hs hg hact hin] at hadd hdel
  exact ⟨hnodup, hadd, hdel⟩

/-- The lists of an action after its pass hold the addresses of its host, each once. -/
lemma lists_of_pass (hs : Tidy s) (hg : g ∈ s.threadList) (hact : act ∈ s.actionList)
    (hin : act.id ∈ g.actions) :
    (vals (act.pass (targets g.rnh)).rnh).Nodup ∧ (vals (act.pass (targets g.rnh)).tblRnh).Nodup ∧
      (∀ x, x ∈ vals (act.pass (targets g.rnh)).rnh ↔ x ∈ vals g.rnh) ∧
      (act.tablename ≠ none →
        ∀ x, x ∈ vals (act.pass (targets g.rnh)).tblRnh ↔ x ∈ vals g.rnh) := by
  have hset := (hs.settled act hact).pass (targets g.rnh)
  refine ⟨hset.rnh.nodup, hset.tblRnh.nodup, pass_of_copied hs hg hact hin, fun hname x => ?_⟩
  exact (hset.same hname x).trans (pass_of_copied hs hg hact hin x)

/-- **A refresh computes exact differences.**  Follow a host that is looked up, with static addresses
`S`, and one of its actions with a table, through any passes.  A further pass of the host leaves `S`
and the reply, each once; it counts an update exactly if this is not what has been `seen`, which from
the first pass on is the set before, and lacks at most static addresses.  If it counts one, or the
action is forced, the action is posted until it makes its pass.  That pass, with any passes of others
in between, leaves the same in both its lists and asks the kernel for exactly the difference. -/
theorem pass_exact {i j : ℕ} {S : Sockaddr → Prop} {r : Rule} {s u : Sys} {es : List Event}
    (hs : Follows i j S r s) (hname : r.tablename ≠ none) (run : Run Step s es u) {g : Host}
    (hg : g ∈ u.threadList) (hgid : g.id = i) (reply : List Sockaddr) :
    Step u (.hostPass g (some reply)) (hostPass g (some reply) u) ∧
    (∃ g' ∈ (hostPass g (some reply) u).threadList, g'.id = i ∧ (vals g'.rnh).Nodup ∧
      ∀ x, x ∈ vals g'.rnh ↔ S x ∨ x ∈ reply) ∧
    ((report (hostDns g (some reply)) g.rnh).length ≠ 0 ↔
      ¬∀ x, (S x ∨ x ∈ reply) ↔ x ∈ seen g.rnh) ∧
    (∀ x ∈ vals g.rnh, x ∈ seen g.rnh ∨ S x) ∧
    ((∃ k reply', .hostPass k reply' ∈ es ∧ k.id = i) → ∀ x, x ∈ seen g.rnh ↔ x ∈ vals g.rnh) ∧
    ((report (hostDns g (some reply)) g.rnh).length ≠ 0 ∨
        (∃ a ∈ u.actionList, a.id = j ∧ a.force = true) →
      ∀ es' v, Run (fun s e t => Step s e t ∧ ∀ a ok, e = .actionPass a ok → a.id ≠ j)
        (hostPass g (some reply) u) es' v → ∃ act ∈ v.actionList, act.id = j ∧ 0 < act.sem) ∧
    ∀ es' v, Run (StepBut i) (hostPass g (some reply) u) es' v → ∀ act ∈ v.actionList, act.id = j →
      0 < act.sem → ∀ ok : Change Sockaddr → Bool, (∀ o, ok o = true) →
        Step v (.actionPass act ok) (actionPass act ok v) ∧
        (∃ b ∈ (actionPass act ok v).actionList, b.id = j ∧ (vals b.rnh).Nodup ∧
          (vals b.tblRnh).Nodup ∧ (∀ x, x ∈ vals b.rnh ↔ S x ∨ x ∈ reply) ∧
          ∀ x, x ∈ vals b.tblRnh ↔ S x ∨ x ∈ reply) ∧
        (actionPass act ok v).kernel
          = (kernelOps act v).foldl (Change.apply (v.entry act)) v.kernel ∧
        (kernelOps act v).Nodup ∧
        (∀ x, .add x ∈ kernelOps act v ↔ (S x ∨ x ∈ reply) ∧ x ∉ vals act.tblRnh) ∧
        ∀ x, .del x ∈ kernelOps act v ↔ x ∈ vals act.tblRnh ∧ ¬(S x ∨ x ∈ reply) := by
  have hu := hs.run run
  obtain ⟨hrun, hmask, hcnt, hS⟩ := hu.of_host hg hgid
  have htidy := hu.reached.tidy
  have hpass : Step u (.hostPass g (some reply)) (hostPass g (some reply) u) := ⟨⟨hg, hrun⟩, rfl⟩
  set g' : Host := { g with rnh := refresh (hostDns g (some reply)) g.rnh } with hg'
  have hmem : g' ∈ (hostPass g (some reply) u).threadList := by
    rw [hostPass_eq hcnt]
    exact mem_map.mpr ⟨g, hg, if_pos rfl⟩
  have hset : ∀ x, x ∈ vals g'.rnh ↔ S x ∨ x ∈ reply := hu.mem_pass hg hgid reply
  refine ⟨hpass, ⟨g', hmem, hgid, (resting_refresh (htidy.swept hg) _).nodup, hset⟩, ?_, ?_, ?_,
    fun hpost es' v r' => (hu.step hpass).stays_posted (hu.posted hg hgid hpost) r', ?_⟩
  · rw [Ne, length_eq_zero_iff, report_eq_nil_iff (htidy.swept hg) _ (htidy.unseen g hg)]
    exact not_congr (forall_congr' fun x => iff_congr (hset x) Iff.rfl)
  · intro x hx
    obtain ⟨e, he, rfl⟩ := mem_map.mp hx
    cases hnew : e.new with
    | false => exact Or.inl (mem_seen.mpr ⟨e, he, rfl, hnew⟩)
    | true => exact Or.inr ((hS _).mp ⟨e, he, rfl, htidy.unseen g hg e he hnew⟩)
  · rintro ⟨k, reply', hin, hkid⟩ x
    have hseen := hs.seen_of_passed run hin hkid g hg hgid
    rw [mem_seen, vals, mem_map]
    refine exists_congr fun e => and_congr_right fun he => and_iff_left (hseen e he)
  · -- the host's list stays as its pass has left it
    intro es' v r' act hact hactid hsem ok hok
    have hv : Follows i j S r v ∧ g' ∈ v.threadList := by
      refine r'.invariant (I := fun v => Follows i j S r v ∧ g' ∈ v.threadList) ?_
        ⟨hu.step hpass, hmem⟩
      rintro v e w ⟨hv, hgv⟩ ⟨hstep, hother⟩
      refine ⟨hv.step hstep, ?_⟩
      obtain ⟨hgw, -⟩ | ⟨reply', heq, -⟩ :=
        hstep.host hv.reached.tidy.joined.live.ids hgv hrun hcnt
      · exact hgw
      · exact absurd hgid (hother g' reply' heq)
    obtain ⟨hv, hgv⟩ := hv
    obtain ⟨a, ha, haid, hhost, hrule⟩ := hv.action
    obtain rfl := hv.reached.tidy.joined.live.ids.action_eq hact ha (hactid.trans haid.symm)
    have hhost' : act.host = some g'.id := hhost.trans (congrArg some hgid.symm)
    have hof := hv.reached.tidy.joined.live.ids.hostOf_eq hgv hhost'
    have hin := (hv.reached.attached ha hgv hhost').1
    obtain ⟨hnodup, hadd, hdel⟩ :=
      kernelOps_exact hv.reached.tidy hgv ha hin hof (hrule ▸ hname)
    obtain ⟨hrnh, htbl, hrnhset, htblset⟩ := lists_of_pass hv.reached.tidy hgv ha hin
    refine ⟨⟨⟨hact, hsem⟩, rfl⟩, ⟨_, mem_actionPass ha hof ok, hactid, hrnh, htbl, fun x => ?_,
      fun x => ?_⟩, ?_, hnodup, fun x => ?_, fun x => ?_⟩
    · exact (hrnhset x).trans (hset x)
    · exact (htblset (hrule ▸ hname) x).trans (hset x)
    · rw [actionPass_of_hostOf hof, filter_eq_self.mpr fun o _ => hok o]
    · rw [hadd, hset]
    · rw [hdel, hset]

def literalStarted : Sys := hostStart 1 (some addr6) (started [pfLine "2001:db8::1"])

def literalHost : Host :=
  ⟨1, "2001:db8::1".toList, -1, -1, [⟨addr6, true, false, true⟩], 1, .RUNNING, [0], 0⟩

lemma reached_literalStarted : Reached literalStarted := by
  have hstart : startup [pfLine "2001:db8::1"] = .ok (started [pfLine "2001:db8::1"]) := rfl
  have hstep : Life (started [pfLine "2001:db8::1"]) (.inl (.hostStart 1 (some addr6)))
      literalStarted := ⟨by decide +kernel, rfl⟩
  exact ⟨_, _, _, hstart, .cons hstep (.nil _)⟩

/-- **The first pass counts the static address.**  The lookup of the address finds the address, the
set stays what it was, and the pass counts an update. -/
theorem first_pass_counts_static :
    Reached literalStarted ∧ literalHost ∈ literalStarted.threadList ∧
      literalHost.state = .RUNNING ∧ literalHost.mask = -1 ∧ vals literalHost.rnh = [addr6] ∧
      (∃ g ∈ (hostPass literalHost (some [addr6]) literalStarted).threadList,
        g.id = literalHost.id ∧ vals g.rnh = [addr6]) ∧
      (report (hostDns literalHost (some [addr6])) literalHost.rnh).length ≠ 0 :=
  ⟨reached_literalStarted, by decide +kernel, rfl, rfl, rfl, by decide +kernel, by decide +kernel⟩

/-- A host pass that finds another address, and the pass of the action behind it. -/
theorem pass_exact_literal :
    let v := hostPass literalHost (some [addr6, testAddr 1, addr6]) literalStarted
    Follows 1 0 (· = addr6) (pfLine "2001:db8::1").rule literalStarted ∧
      ∃ act ∈ v.actionList, act.id = 0 ∧ 0 < act.sem ∧
        (∃ b ∈ (actionPass act (fun _ => true) v).actionList, b.id = 0 ∧
          ∀ x, x ∈ vals b.tblRnh ↔ x = addr6 ∨ x ∈ [addr6, testAddr 1, addr6]) ∧
        (kernelOps act v).Nodup ∧ .add (testAddr 1) ∈ kernelOps act v := by
  intro v
  have hmem : literalHost ∈ literalStarted.threadList := by decide +kernel
  have hstatic : ∀ x, literalHost.Static x ↔ x = addr6 := by
    intro x
    constructor
    · rintro ⟨e, he, rfl, -⟩
      rw [mem_singleton.mp he]
    · rintro rfl
      exact ⟨_, mem_singleton_self _, rfl, rfl⟩
  have hfollows : Follows 1 0 (· = addr6) (pfLine "2001:db8::1").rule literalStarted :=
    ⟨reached_literalStarted, ⟨literalHost, hmem, rfl, rfl, rfl, hstatic⟩, by decide +kernel⟩
  obtain ⟨-, -, -, -, -, hposted, hpass⟩ :=
    pass_exact hfollows nofun (.nil _) hmem rfl [addr6, testAddr 1, addr6]
  obtain ⟨act, hact, hid, hsem⟩ := hposted (Or.inl (by decide +kernel)) [] v (.nil _)
  obtain ⟨-, ⟨b, hb, hbid, -, -, -, htbl⟩, -, hnodup, hadd, -⟩ :=
    hpass [] v (.nil _) act hact hid hsem (fun _ => true) fun _ => rfl
  have hempty : ∀ a ∈ v.actionList, vals a.tblRnh = [] := by decide +kernel
  refine ⟨hfollows, act, hact, hid, hsem, ⟨b, hb, hbid, htbl⟩, hnodup, (hadd _).mpr ⟨?_, ?_⟩⟩
  · exact Or.inr (by simp)
  · simp [hempty act hact]

/-! ## A host whose addresses no longer move -/

/-- The lookup brings what the host has, apart from its static addresses. -/
def Host.Unmoved (h : Host) (reply : Option (List Sockaddr)) : Prop :=
  ∀ x, x ∈ vals h.rnh ↔ x ∈ (hostDns h reply).map Prod.fst ∨ h.Static x

/-- A step in which the addresses of the host do not move. -/
def QuietStep (i : ℕ) (s : Sys) (e : Event) (t : Sys) : Prop :=
  Step s e t ∧ ∀ k reply, e = .hostPass k reply → k.id = i → k.Unmoved reply

lemma StepBut.quiet {i : ℕ} {s t : Sys} (h : StepBut i s e t) : QuietStep i s e t :=
  ⟨h.1, fun k reply heq hid => absurd hid (h.2 k reply heq)⟩

/-- A host that has been read, with the addresses `X`, and an action of it in a condition `Q`. -/
structure Quiet (i j : ℕ) (X : Sockaddr → Prop) (Q : Action → Prop) (s : Sys) : Prop where
  reached : Reached s
  host : ∃ k ∈ s.threadList, k.id = i ∧ k.state = .RUNNING ∧ (∀ e ∈ k.rnh, e.new = false) ∧
    ∀ x, x ∈ vals k.rnh ↔ X x
  action : ∃ a ∈ s.actionList, a.id = j ∧ a.host = some i ∧ Q a

/-- **An unmoved lookup detects no change.** -/
lemma report_of_unmoved (hs : Tidy s) (hk : k ∈ s.threadList) (hseen : ∀ e ∈ k.rnh, e.new = false)
    (hun : k.Unmoved reply) : report (hostDns k reply) k.rnh = [] := by
  rw [report_eq_nil_iff (hs.swept hk) _ (hs.unseen k hk)]
  intro x
  rw [mem_vals_refresh (hs.swept hk), mem_seen]
  refine Iff.trans (hun x).symm ?_
  rw [vals, mem_map]
  exact exists_congr fun e => and_congr_right fun he => (and_iff_left (hseen e he)).symm

section Unmoved

variable {i j : ℕ} {X : Sockaddr → Prop} {Q : Action → Prop} {s t : Sys} (h : Quiet i j X Q s)
include h

lemma Quiet.of_host (hk : k ∈ s.threadList) (hid : k.id = i) :
    k.state = .RUNNING ∧ (∀ e ∈ k.rnh, e.new = false) ∧ (∀ x, x ∈ vals k.rnh ↔ X x) ∧
      k.refcnt ≠ 0 := by
  obtain ⟨g, hg, rfl, hrun, hseen, hX⟩ := h.host
  obtain ⟨a, ha, -, hhost, -⟩ := h.action
  obtain rfl := h.reached.tidy.joined.live.ids.host_eq hk hg hid
  exact ⟨hrun, hseen, hX, (h.reached.attached ha hk hhost).2⟩

/-- **What a quiet step does to the action**: a pass of its host wakes it if it is forced, other hosts
never do, and its own pass clears the flag. -/
lemma Quiet.outcome (hstep : QuietStep i s e t) (ha : a ∈ s.actionList) (haid : a.id = j)
    (hhost : a.host = some i) : (a ∈ t.actionList ∧ (∀ b ok, e = .actionPass b ok → b.id ≠ j) ∧
        (a.force = true → ∀ k reply, e = .hostPass k reply → k.id ≠ i)) ∨
      (a.force = true ∧ (∃ k reply, e = .hostPass k reply ∧ k.id = i) ∧
        { a with sem := a.sem + 1 } ∈ t.actionList) ∨
      ∃ ok k, e = .actionPass a ok ∧ k ∈ s.threadList ∧ k.id = i ∧ 0 < a.sem ∧
        a.pass (targets k.rnh) ∈ t.actionList := by
  obtain ⟨hstep, hquiet⟩ := hstep
  have hids := h.reached.tidy.joined.live.ids
  obtain ⟨k, hk, hkid, -⟩ := h.host
  have hhost' : a.host = some k.id := hkid ▸ hhost
  have hof := hids.hostOf_eq hk hhost'
  obtain ⟨ha', hzero, hown⟩ | ⟨g, reply, rfl, hg, -, ha'⟩ | ⟨ok, g, rfl, hgof, ha'⟩ :=
    hstep.action hids ha (by simp [hof])
  · refine Or.inl ⟨ha', fun b ok heq => haid ▸ hown b ok heq, fun _ g reply heq hgid => ?_⟩
    -- the host of the action is in use
    have hg : g ∈ s.threadList := by
      subst heq
      exact hstep.1.1
    exact (h.of_host hg hgid).2.2.2 (hzero g reply heq)
  · by_cases hgid : g.id = i
    · obtain ⟨-, hseen, -⟩ := h.of_host hg hgid
      have hon : a.id ∈ g.actions := (h.reached.attached ha hg (hgid ▸ hhost)).1
      rw [report_of_unmoved h.reached.tidy hg hseen (hquiet g reply rfl hgid)] at ha'
      by_cases hforce : a.force = true
      · rw [Action.wake, if_pos ⟨hon, Or.inr hforce⟩] at ha'
        exact Or.inr (Or.inl ⟨hforce, ⟨g, reply, rfl, hgid⟩, ha'⟩)
      · rw [Action.wake, if_neg (by simp [hforce])] at ha'
        exact Or.inl ⟨ha', (fun _ _ heq => by cases heq), fun hf => absurd hf hforce⟩
    · have hnot : a.id ∉ g.actions := fun hin =>
        hgid (Option.some.inj ((h.reached.tidy.joined.joined g hg a ha hin).symm.trans hhost))
      rw [Action.wake, if_neg fun hw => hnot hw.1] at ha'
      refine Or.inl ⟨ha', (fun _ _ heq => by cases heq), fun _ k reply' heq => ?_⟩
      cases heq
      exact hgid
  · obtain rfl : g = k := Option.some.inj (hgof.symm.trans hof)
    exact Or.inr (Or.inr ⟨ok, g, rfl, hk, hkid, hstep.1.2, ha'⟩)

/-- A quiet step keeps the host's addresses, and a condition that each outcome keeps. -/
lemma Quiet.step {Q' : Action → Prop} (hstep : QuietStep i s e t)
    (hQ : ∀ a ∈ s.actionList, a.id = j → a.host = some i → Q a → ∃ a' ∈ t.actionList, a'.id = j ∧ a'.host = some i ∧ Q' a') :
    Quiet i j X Q' t := by
  obtain ⟨k, hk, hkid, hrun, hseen, hX⟩ := h.host
  obtain ⟨a, ha, haid, hhost, hQa⟩ := h.action
  refine ⟨h.reached.step hstep.1, ?_, hQ a ha haid hhost hQa⟩
  obtain ⟨hk', -⟩ | ⟨reply, heq, hk'⟩ :=
    hstep.1.host h.reached.tidy.joined.live.ids hk hrun (h.of_host hk hkid).2.2.2
  · exact ⟨k, hk', hkid, hrun, hseen, hX⟩
  · refine ⟨_, hk', hkid, hrun, fun d hd => (flags_refresh hd).1, fun x => Iff.trans ?_ (hX x)⟩
    rw [mem_vals_refresh (h.reached.tidy.swept hk)]
    exact (hstep.2 k reply heq hkid x).symm

lemma Quiet.run {step : Sys → Event → Sys → Prop} (hle : ∀ s e t, step s e t → QuietStep i s e t)
    (hQ : ∀ {s e t} {a : Action}, Quiet i j X Q s → step s e t → a ∈ s.actionList → a.id = j →
      a.host = some i → Q a → ∃ a' ∈ t.actionList, a'.id = j ∧ a'.host = some i ∧ Q a')
    {es : List Event} (r : Run step s es t) : Quiet i j X Q t :=
  r.invariant (I := Quiet i j X Q)
    (fun _ _ _ h hstep => h.step (hle _ _ _ hstep) fun _ => hQ h hstep) h

end Unmoved

lemma fresh_of_reload {rules : List Dnsrule} {s t : Sys} (hs : Reached s)
    (h : mergeConfig rules s = .ok t) {b : Action} (hb : b ∈ t.actionList)
    (hnew : ∀ a ∈ s.actionList, a.id ≠ b.id) : b.Fresh b.toRule 0 :=
  ((renewed_of_reload hs.joined.live.started h).actions b hb).resolve_left fun ha => hnew b ha rfl

section Created

variable {i j : ℕ} {X : Sockaddr → Prop} {r : Rule} {s t : Sys} {es : List Event}

lemma Quiet.until_pass (h : Quiet i j X (Action.Fresh r 0) s) (run : Run (StepBut i) s es t) :
    Quiet i j X (Action.Fresh r 0) t := by
  refine h.run (fun _ _ _ => StepBut.quiet) (fun hs hstep ha haid hhost hQ => ?_) run
  obtain ⟨ha', -⟩ | ⟨-, ⟨k, reply, rfl, hid⟩, -⟩ | ⟨ok, k, -, -, -, hsem, -⟩ :=
    hs.outcome hstep.quiet ha haid hhost
  · exact ⟨_, ha', haid, hhost, hQ⟩
  · exact absurd hid (hstep.2 k reply rfl)
  · rw [hQ.sem] at hsem
    exact absurd hsem (lt_irrefl 0)

/-- **A pass of the host wakes a forced action.** -/
lemma Quiet.woken (h : Quiet i j X (Action.Fresh r 0) s) (hk : k.id = i)
    (hstep : QuietStep i s (.hostPass k reply) t) : Quiet i j X (Action.Fresh r 1) t := by
  refine h.step hstep fun a ha haid hhost hQ => ?_
  obtain ⟨-, -, hnot⟩ | ⟨-, -, ha'⟩ | ⟨ok, g, heq, -⟩ := h.outcome hstep ha haid hhost
  · exact absurd hk (hnot hQ.force k reply rfl)
  · exact ⟨_, ha', haid, hhost, hQ.rule, hQ.force, hQ.rnh, hQ.tblRnh, congrArg (· + 1) hQ.sem⟩
  · cases heq

lemma Quiet.until_own (h : Quiet i j X (Action.Fresh r 1) s)
    (run : Run (fun s e t => QuietStep i s e t ∧ ∀ a ok, e = .actionPass a ok → a.id ≠ j) s es t) :
    Quiet i j X (fun a => ∃ n, a.Fresh r (n + 1)) t := by
  have h₀ : Quiet i j X (fun a => ∃ n, a.Fresh r (n + 1)) s := by
    obtain ⟨a, ha, haid, hhost, hQ⟩ := h.action
    exact ⟨h.reached, h.host, a, ha, haid, hhost, 0, hQ⟩
  refine h₀.run (fun _ _ _ hstep => hstep.1) (fun hs hstep ha haid hhost hQ => ?_) run
  obtain ⟨n, hQ⟩ := hQ
  obtain ⟨ha', -⟩ | ⟨-, -, ha'⟩ | ⟨ok, k, heq, -⟩ := hs.outcome hstep.1 ha haid hhost
  · exact ⟨_, ha', haid, hhost, n, hQ⟩
  · exact ⟨_, ha', haid, hhost, n + 1, hQ.rule, hQ.force, hQ.rnh, hQ.tblRnh, congrArg (· + 1) hQ.sem⟩
  · exact absurd haid (hstep.2 _ ok heq)

/-- **An action that is not forced is not woken** while its host's addresses do not move. -/
lemma Quiet.undisturbed (h : Quiet i j X (fun a => a.force = false) s)
    (run : Run (QuietStep i) s es t) {u : Sys} (hstep : QuietStep i t e u) {a a' : Action}
    (ha : a ∈ t.actionList) (haid : a.id = j) (ha' : a' ∈ u.actionList) (haid' : a'.id = j) :
    a'.sem ≤ a.sem := by
  have ht : Quiet i j X (fun a => a.force = false) t := by
    refine h.run (fun _ _ _ hstep => hstep) (fun hs hstep ha haid hhost hQ => ?_) run
    obtain ⟨ha', -⟩ | ⟨hforce, -, -⟩ | ⟨ok, k, -, -, -, -, ha'⟩ := hs.outcome hstep ha haid hhost
    · exact ⟨_, ha', haid, hhost, hQ⟩
    · rw [hQ] at hforce
      cases hforce
    · exact ⟨_, ha', haid, hhost, rfl⟩
  obtain ⟨b, hb, hbid, hhost, hforce⟩ := ht.action
  obtain rfl := ht.reached.tidy.joined.live.ids.action_eq ha hb (haid.trans hbid.symm)
  have hids := (ht.reached.step hstep.1).tidy.joined.live.ids
  obtain ⟨hmem, -⟩ | ⟨hf, -, -⟩ | ⟨ok, k, -, -, -, -, hmem⟩ := ht.outcome hstep ha haid hhost
  · rw [hids.action_eq ha' hmem (haid'.trans haid.symm)]
  · rw [hforce] at hf
    cases hf
  · rw [hids.action_eq ha' hmem (haid'.trans haid.symm)]
    exact Nat.sub_le _ _

end Created

/-- **An action created on a resolved host is populated.**  A reload puts an action on a running host
whose addresses have all been seen and do not move any more.  The next pass of the host detects no
change and wakes the action.  Whenever the action then makes its pass, its `rnh` becomes the addresses
of the host; if it has a table, so does `tbl_rnh`, with one addition for each address and nothing else.
From then on no pass wakes it. -/
theorem created_populated {rules : List Dnsrule} {s₁ s : Sys} (h₁ : Reached s₁)
    (hreload : mergeConfig rules s₁ = .ok s) {b : Action} (hb : b ∈ s.actionList)
    (hnew : ∀ a ∈ s₁.actionList, a.id ≠ b.id) {h : Host} (hh : h ∈ s.threadList)
    (hhost : b.host = some h.id) (hrun : h.state = .RUNNING) (hseen : ∀ e ∈ h.rnh, e.new = false)
    {es₁ : List Event} {u : Sys} (r₁ : Run (StepBut h.id) s es₁ u) {k : Host}
    (hk : k ∈ u.threadList) (hkid : k.id = h.id) {reply : Option (List Sockaddr)}
    (hun : k.Unmoved reply) :
    Step u (.hostPass k reply) (hostPass k reply u) ∧ report (hostDns k reply) k.rnh = [] ∧
    (∃ a ∈ u.actionList, a.id = b.id ∧ a.sem = 0) ∧
    (∃ a ∈ (hostPass k reply u).actionList, a.id = b.id ∧ a.sem = 1) ∧
    ∀ es₂ v, Run (fun s e t => QuietStep h.id s e t ∧ ∀ a ok, e = .actionPass a ok → a.id ≠ b.id)
      (hostPass k reply u) es₂ v → ∀ act ∈ v.actionList, act.id = b.id → ∀ ok,
        Step v (.actionPass act ok) (actionPass act ok v) ∧
        (∃ c ∈ (actionPass act ok v).actionList, c.id = b.id ∧ (vals c.rnh).Nodup ∧
          (vals c.tblRnh).Nodup ∧ (∀ x, x ∈ vals c.rnh ↔ x ∈ vals h.rnh) ∧
          (b.tablename ≠ none → ∀ x, x ∈ vals c.tblRnh ↔ x ∈ vals h.rnh)) ∧
        (b.tablename ≠ none → (kernelOps act v).Nodup ∧
          ∀ o, o ∈ kernelOps act v ↔ ∃ x ∈ vals h.rnh, o = .add x) ∧
        ∀ es₃ y e z, Run (QuietStep h.id) (actionPass act ok v) es₃ y → QuietStep h.id y e z →
          ∀ a ∈ y.actionList, a.id = b.id → ∀ a' ∈ z.actionList, a'.id = b.id → a'.sem ≤ a.sem := by
  have hs : Quiet h.id b.id (· ∈ vals h.rnh) (Action.Fresh b.toRule 0) s :=
    ⟨h₁.life (e := .inr rules) hreload, ⟨h, hh, rfl, hrun, hseen, fun _ => Iff.rfl⟩,
      b, hb, rfl, hhost, fresh_of_reload h₁ hreload hb hnew⟩
  have hu := hs.until_pass r₁
  obtain ⟨hkrun, hkseen, -, -⟩ := hu.of_host hk hkid
  have hpass : Step u (.hostPass k reply) (hostPass k reply u) := ⟨⟨hk, hkrun⟩, rfl⟩
  have hquiet : QuietStep h.id u (.hostPass k reply) (hostPass k reply u) := by
    refine ⟨hpass, fun k' reply' heq _ => ?_⟩
    cases heq
    exact hun
  have ht := hu.woken hkid hquiet
  obtain ⟨a₀, ha₀, haid₀, -, hQ₀⟩ := hu.action
  obtain ⟨a₁, ha₁, haid₁, -, hQ₁⟩ := ht.action
  refine ⟨hpass, report_of_unmoved hu.reached.tidy hk hkseen hun, ⟨a₀, ha₀, haid₀, hQ₀.sem⟩,
    ⟨a₁, ha₁, haid₁, hQ₁.sem⟩, fun es₂ v r₂ act hact hactid ok => ?_⟩
  have hv := ht.until_own r₂
  have hids := hv.reached.tidy.joined.live.ids
  obtain ⟨g, hg, hgid, -, -, hX⟩ := hv.host
  obtain ⟨a, ha, haid, hahost, n, hQ⟩ := hv.action
  obtain rfl := hids.action_eq hact ha (hactid.trans haid.symm)
  have hahost' : act.host = some g.id := hgid ▸ hahost
  have hof := hids.hostOf_eq hg hahost'
  have hin := (hv.reached.attached ha hg hahost').1
  have hown : Step v (.actionPass act ok) (actionPass act ok v) :=
    ⟨⟨hact, by rw [hQ.sem]; exact Nat.succ_pos n⟩, rfl⟩
  have hquiet' : QuietStep h.id v (.actionPass act ok) (actionPass act ok v) := ⟨hown, nofun⟩
  have hmem := mem_actionPass ha hof ok
  have hname : b.tablename ≠ none → act.tablename ≠ none := by
    rw [← hQ.rule]
    exact id
  obtain ⟨hrnh, htbl, hrnhset, htblset⟩ := lists_of_pass hv.reached.tidy hg ha hin
  refine ⟨hown, ⟨_, hmem, hactid, hrnh, htbl, fun x => (hrnhset x).trans (hX x),
    fun hb x => (htblset (hname hb) x).trans (hX x)⟩, fun hb => ?_, ?_⟩
  · obtain ⟨hnodup, hadd, hdel⟩ := kernelOps_exact hv.reached.tidy hg ha hin hof (hname hb)
    rw [hQ.tblRnh] at hadd hdel
    refine ⟨hnodup, fun o => ?_⟩
    cases o with
    | add x =>
      rw [hadd, hX, and_iff_left (show x ∉ vals [] from not_mem_nil)]
      simp
    | del x =>
      rw [hdel]
      simp [vals]
  · intro es₃ y e z r₃ hstep a ha' haid' a' hz hzid
    have hw : Quiet h.id b.id (· ∈ vals h.rnh) (fun a => a.force = false) (actionPass act ok v) :=
      hv.step hquiet' fun a ha haid hhost _ => by
        exact ⟨_, hmem, hactid, hahost, rfl⟩
    exact hw.undisturbed r₃ hstep ha' haid' hz hzid

/-- The configuration of `resolved`, and a command for the same host. -/
def withCommand : List Dnsrule :=
  [pfLine "a.example.org", .cmd "a.example.org".toList (some "logger moved".toList)]

def reloaded : Sys := (mergeConfig withCommand resolved).toOption.getD .empty

lemma reached_resolved : Reached resolved := by
  have hstart : startup [pfLine "a.example.org"] = .ok (started [pfLine "a.example.org"]) := rfl
  exact ⟨_, _, _, hstart, life_of_run (run_play _ _)⟩

/-- **A command has no table.**  The action of the command is created on the resolved host, woken and
makes its pass; its `rnh` is the address of the host, and its `tbl_rnh` stays empty. -/
theorem command_without_table :
    Reached resolved ∧ mergeConfig withCommand resolved = .ok reloaded ∧
      (∀ a ∈ resolved.actionList, a.id ≠ 3) ∧
      (∃ h ∈ reloaded.threadList, h.id = 1 ∧ h.state = .RUNNING ∧ vals h.rnh = [testAddr 1] ∧
        h.Unmoved (some [testAddr 1])) ∧
      Run Step reloaded (play reloaded [.host 1 [testAddr 1], .action 3]).1
        (play reloaded [.host 1 [testAddr 1], .action 3]).2 ∧
      ∃ a ∈ (play reloaded [.host 1 [testAddr 1], .action 3]).2.actionList,
        a.id = 3 ∧ a.host = some 1 ∧ vals a.rnh = [testAddr 1] ∧ vals a.tblRnh = [] := by
  refine ⟨reached_resolved, by decide +kernel, by decide +kernel, ?_, run_play _ _, by decide +kernel⟩
  refine ⟨{ resolvedHost with refcnt := 2, actions := [0, 3], sem := 2 }, by decide +kernel, rfl, rfl,
    rfl, fun x => ?_⟩
  simp [Host.Static, resolvedHost, vals, hostDns]

/-- The configuration of `resolved`, and a second table for the same host. -/
def withTable : List Dnsrule :=
  [pfLine "a.example.org", .filter .PF "a.example.org".toList "second".toList none 0 none]

/-- The action of the second table is woken by the next pass of the host and fills its table. -/
theorem created_populated_table :
    ∃ s, mergeConfig withTable resolved = .ok s ∧ ∃ h ∈ s.threadList,
      ∃ act ∈ (hostPass h (some [testAddr 1]) s).actionList, act.id = 3 ∧ act.sem = 1 ∧
        ∃ c ∈ (actionPass act (fun _ => true) (hostPass h (some [testAddr 1]) s)).actionList,
          c.id = 3 ∧ ∀ x, x ∈ vals c.tblRnh ↔ x ∈ [testAddr 1] := by
  set s : Sys := (mergeConfig withTable resolved).toOption.getD .empty with hs
  have hreload : mergeConfig withTable resolved = .ok s := by decide +kernel
  set b : Action := ⟨⟨.PF, "a.example.org".toList, some "second".toList, none, 0, none⟩, 3,
    some 1, [], [], true, .STARTING, 0⟩ with hb
  set h : Host := { resolvedHost with refcnt := 2, actions := [0, 3], sem := 2 } with hh
  have hbmem : b ∈ s.actionList := by decide +kernel
  have hhmem : h ∈ s.threadList := by decide +kernel
  have hun : h.Unmoved (some [testAddr 1]) := fun x => by
    simp [Host.Static, hh, resolvedHost, vals, hostDns]
  obtain ⟨-, -, -, ⟨act, hact, hid, hsem⟩, hpass⟩ := created_populated reached_resolved hreload hbmem
    (by decide +kernel) hhmem rfl rfl (by decide) (.nil _) hhmem rfl hun
  obtain ⟨-, ⟨c, hc, hcid, -, -, -, htbl⟩, -, -⟩ :=
    hpass [] _ (.nil _) act hact hid fun _ => true
  exact ⟨s, hreload, h, hhmem, act, hact, hid, hsem, c, hc, hcid, htbl (Option.some_ne_none _)⟩

end FreeSense.Filterdns
