import FreeSensePorts.Filterdns.Passes

/-!
# A table shared by several actions

Several host names may feed one table.  Each of their actions adds and deletes from its own `tblRnh`:
nothing counts how many actions want an entry, so that one host drops what another still has.

This is the only way in which the table can differ from the union of the lists.  In a run of passes
that are `Unshared` the kernel holds exactly the union in every state (`TableExact.step`).
-/

namespace FreeSense.Filterdns

open List MarkSweep

variable {s t : Sys} {g : Host} {act : Action}

/-- **The kernel holds the union** of what the actions want. -/
def TableExact (s : Sys) : Prop :=
  ∀ p, p ∈ s.kernel ↔ ∃ a ∈ s.actionList, ∃ x ∈ vals a.rnh, s.entry a x = some p

/-- The addresses an action drops have entries that neither it nor another action still wants. -/
def Spares (s : Sys) (act : Action) : Prop :=
  ∀ h ∈ s.hostOf act, ∀ x ∈ vals act.rnh, x ∉ vals (refresh (targets h.rnh) act.rnh) →
    ∀ p ∈ s.entry act x, (∀ y ∈ vals (refresh (targets h.rnh) act.rnh), s.entry act y ≠ some p) ∧
      ∀ b ∈ s.actionList, b.id ≠ act.id → ∀ y ∈ vals b.rnh, s.entry b y ≠ some p

instance (s : Sys) (act : Action) : Decidable (Spares s act) := by
  unfold Spares
  infer_instance

/-- The passes after which the union survives: the kernel operations of an action succeed, and what
it drops is not wanted any more. -/
def Unshared (s : Sys) : Event → Prop
  | .actionPass act ok => (∀ c, ok c = true) ∧ Spares s act
  | _ => True

/-! ## Passes that leave the tables alone -/

lemma tableEntry_congr (r : Rule) {h h' : Host} (hm : h'.mask = h.mask) (hm6 : h'.mask6 = h.mask6)
    (x : Sockaddr) : tableEntry r (some h') x = tableEntry r (some h) x := by
  simp only [tableEntry, ipfwTableentry, pfTableentry, Option.map_some, hm, hm6]

/-- Rewriting actions keeps the union, if what they want keeps its entry. -/
lemma TableExact.map (h : TableExact s) {f : Action → Action} (hkernel : t.kernel = s.kernel)
    (hact : t.actionList = s.actionList.map f) (hrnh : ∀ a, (f a).rnh = a.rnh)
    (hentry : ∀ a ∈ s.actionList, ∀ x ∈ vals a.rnh, t.entry (f a) x = s.entry a x) : TableExact t := by
  intro p
  rw [hkernel, h p, hact]
  simp only [mem_map, exists_exists_and_eq_and, hrnh]
  refine exists_congr fun a => and_congr_right fun ha => exists_congr fun x =>
    and_congr_right fun hx => ?_
  rw [hentry a ha x hx]

/-- An action keeps its entries while its host is there, with the same masks. -/
lemma entry_eq (hs : s.Ids) (ht : t.Ids) {a b : Action} {k k' : Host} (hk : k ∈ s.threadList)
    (ha : a.host = some k.id) (hk' : k' ∈ t.threadList) (hid : k'.id = k.id) (hm : k'.mask = k.mask)
    (hm6 : k'.mask6 = k.mask6) (hrule : b.toRule = a.toRule) (hb : b.host = a.host) (x : Sockaddr) :
    t.entry b x = s.entry a x := by
  rw [Sys.entry, Sys.entry, hs.hostOf_eq hk ha, ht.hostOf_eq hk' (by rw [hb, ha, hid]), hrule]
  exact tableEntry_congr _ hm hm6 x

lemma Reached.host (h : Reached s) {a : Action} (ha : a ∈ s.actionList) :
    ∃ k ∈ s.threadList, a.host = some k.id ∧ a.id ∈ k.actions ∧ k.refcnt ≠ 0 := by
  obtain ⟨k, hk, hhost⟩ := h.counted.attached a.link (mem_map_of_mem (mem_append_left _ ha))
  exact ⟨k, hk, hhost, h.attached ha hk hhost⟩

lemma TableExact.hostStart (h : TableExact s) (hs : Reached s) {i : ℕ} {literal : Option Sockaddr}
    (hen : Enabled s (.hostStart i literal)) (ht : Reached (hostStart i literal s)) :
    TableExact (hostStart i literal s) := by
  obtain ⟨g, hg, rfl, hstate⟩ := hen
  refine h.map (f := id) rfl (map_id _).symm (fun _ => rfl) fun a ha x hx => ?_
  obtain ⟨k, hk, hhost, hin, -⟩ := hs.host ha
  -- an action with an address is not on the starting host
  have hne : k.id ≠ g.id := by
    intro hid
    obtain rfl := hs.joined.live.ids.host_eq hk hg hid
    have hforce := (hs.joined.unread k hk (Or.inl (by rw [hstate]; decide)) a ha hin).1
    rw [(hs.joined.forced a ha hforce).1] at hx
    exact absurd hx not_mem_nil
  exact entry_eq hs.joined.live.ids ht.joined.live.ids hk hhost (mem_map.mpr ⟨k, hk, if_neg hne⟩) rfl
    rfl rfl rfl rfl x

lemma TableExact.hostPass (h : TableExact s) (hs : Reached s) {reply : Option (List Sockaddr)}
    (hg : g ∈ s.threadList) (ht : Reached (hostPass g reply s)) : TableExact (hostPass g reply s) := by
  have hids := hs.joined.live.ids
  by_cases hcnt : g.refcnt = 0
  · rw [Filterdns.hostPass, if_pos hcnt] at ht ⊢
    refine h.map (f := id) rfl (map_id _).symm (fun _ => rfl) fun a ha x _ => ?_
    obtain ⟨k, hk, hhost, -, hpos⟩ := hs.host ha
    have hne : k.id ≠ g.id := fun hid => hpos (hids.host_eq hk hg hid ▸ hcnt)
    exact entry_eq hids ht.joined.live.ids hk hhost (mem_filter.mpr ⟨hk, decide_eq_true hne⟩) rfl rfl
      rfl rfl rfl x
  · rw [hostPass_eq hcnt] at ht ⊢
    have hwake : ∀ a : Action, ∃ n, a.wake g (report (hostDns g reply) g.rnh).length
        = { a with sem := n } := fun a => (wake_eq a _).imp fun _ => And.left
    refine h.map rfl rfl (fun a => ?_) fun a ha x _ => ?_
    · obtain ⟨n, hn⟩ := hwake a
      rw [hn]
    · obtain ⟨n, hn⟩ := hwake a
      obtain ⟨k, hk, hhost, -, -⟩ := hs.host ha
      rw [hn]
      refine entry_eq hids ht.joined.live.ids hk hhost (mem_map_of_mem hk) ?_ ?_ ?_ rfl rfl x <;>
        split_ifs <;> rfl

/-! ## A pass of an action -/

lemma tableEntry_of_tablename {r : Rule} (hr : r.tablename = none) (h : Option Host) (x : Sockaddr) :
    tableEntry r h x = none := by
  unfold tableEntry
  cases r.type <;> simp [ipfwTableentry, pfTableentry, hr]

/-- What the actions want: what one of them wants, and what the others do. -/
lemma exists_mem_split (hs : s.Ids) (hact : act ∈ s.actionList) (P : Action → Prop) :
    (∃ a ∈ s.actionList, P a) ↔ P act ∨ ∃ b ∈ s.actionList, b.id ≠ act.id ∧ P b := by
  constructor
  · rintro ⟨b, hb, hp⟩
    by_cases hid : b.id = act.id
    · exact Or.inl (hs.action_eq hb hact hid ▸ hp)
    · exact Or.inr ⟨b, hb, hid, hp⟩
  · rintro (hp | ⟨b, hb, -, hp⟩)
    · exact ⟨act, hact, hp⟩
    · exact ⟨b, hb, hp⟩

lemma exact_actionPass (h : TableExact s) (hs : Tidy s) (hact : act ∈ s.actionList)
    (hg : s.hostOf act = some g) {ok : Change Sockaddr → Bool}
    (hun : Unshared s (.actionPass act ok)) : TableExact (actionPass act ok s) := by
  obtain ⟨hok, hun⟩ := hun
  replace hun := hun g hg
  have hset := hs.settled act hact
  have hids := hs.joined.live.ids
  intro p
  have hold := (h p).trans (exists_mem_split hids hact _)
  rw [actionPass_of_hostOf hg]
  have hwant : (∃ a ∈ s.actionList.map (fun a => if a.id = act.id then act.pass (targets g.rnh) else a),
      ∃ x ∈ vals a.rnh, s.entry a x = some p) ↔
      (∃ x ∈ vals (refresh (targets g.rnh) act.rnh), s.entry act x = some p) ∨
        ∃ b ∈ s.actionList, b.id ≠ act.id ∧ ∃ x ∈ vals b.rnh, s.entry b x = some p := by
    simp only [mem_map, exists_exists_and_eq_and]
    rw [exists_mem_split hids hact]
    rw [if_pos rfl]
    refine or_congr Iff.rfl (exists_congr fun b => and_congr_right fun _ => and_congr_right fun hid => ?_)
    rw [if_neg hid]
  refine Iff.trans ?_ hwant.symm
  by_cases hname : act.tablename = none
  · -- without a table the action wants nothing
    have hnone : ∀ x, s.entry act x ≠ some p := fun x hx => by
      rw [Sys.entry, tableEntry_of_tablename hname] at hx
      exact absurd hx (by simp)
    have hops : kernelOps act s = [] := by simp [kernelOps, hg, hname]
    rw [hops]
    refine hold.trans (or_congr_left (iff_of_false ?_ ?_))
    · rintro ⟨x, -, hx⟩
      exact hnone x hx
    · rintro ⟨x, -, hx⟩
      exact hnone x hx
  · obtain ⟨hfirst, -, hadd, hdel⟩ := mem_kernelOps hset hg hname
    simp only [hset.same hname] at hadd hdel
    rw [mem_foldl_apply hfirst, hold]
    simp only [hadd, hdel, hok, true_and, true_imp_iff]
    constructor
    · rintro ⟨(⟨x, hx, hp⟩ | hother) | ⟨x, ⟨hx, -⟩, hp⟩, hnodel⟩
      · refine Or.inl ⟨x, ?_, hp⟩
        by_contra hgone
        exact hnodel x ⟨hx, hgone⟩ hp
      · exact Or.inr hother
      · exact Or.inl ⟨x, hx, hp⟩
    · rintro (⟨x, hx, hp⟩ | ⟨b, hb, hid, x, hx, hp⟩)
      · refine ⟨?_, fun y hy hyp => (hun y hy.1 hy.2 p hyp).1 x hx hp⟩
        by_cases hin : x ∈ vals act.rnh
        · exact Or.inl (Or.inl ⟨x, hin, hp⟩)
        · exact Or.inr ⟨x, ⟨hx, hin⟩, hp⟩
      · exact ⟨Or.inl (Or.inr ⟨b, hb, hid, x, hx, hp⟩),
          fun y hy hyp => (hun y hy.1 hy.2 p hyp).2 b hb hid x hx hp⟩

/-! ## Runs -/

theorem TableExact.step {e : Event} (h : TableExact s) (hs : Reached s) (hun : Unshared s e)
    (hstep : Step s e t) : TableExact t := by
  have ht := hs.step hstep
  obtain ⟨hen, rfl⟩ := hstep
  cases e with
  | hostStart i literal => exact h.hostStart hs hen ht
  | hostPass g reply => exact h.hostPass hs hen.1 ht
  | actionPass act ok =>
    obtain ⟨k, hk, hhost, -, -⟩ := hs.host hen.1
    exact exact_actionPass h hs.tidy hen.1 (hs.joined.live.ids.hostOf_eq hk hhost) hun

/-- Before any thread runs, nothing has an address. -/
lemma exact_startup {rules : List Dnsrule} (h : startup rules = .ok s) : TableExact s := by
  have hkernel : s.kernel = ∅ := by
    obtain ⟨parsed, hparse, rfl⟩ := startup_ok h
    exact (parseConfig_invariant (I := fun s => (∀ a ∈ s.actionList, a.id < s.fresh) ∧ s.kernel = ∅)
      (fun hs h => ⟨addRule_idsFresh hs.1 h, (addRule_cases hs.1 h).2.1.trans hs.2⟩) hparse
      ⟨by simp [Sys.empty], rfl⟩).2
  intro p
  rw [hkernel]
  refine iff_of_false (Finset.notMem_empty p) ?_
  rintro ⟨a, ha, x, hx, -⟩
  have hnew := ((renewed_of_startup h).actions a ha).resolve_left not_mem_nil
  rw [hnew.rnh] at hx
  exact absurd hx not_mem_nil

/-- **The table is the union, as long as deletions are unshared.**  From the start of the daemon
with any configuration, through any sequence of passes in which each action drops only addresses
whose entry nobody else wants, the kernel holds in every state exactly the entries of the actions'
address lists. -/
theorem union_of_run {rules : List Dnsrule} {s t : Sys} (h : startup rules = .ok s)
    {es : List Event} (r : Run (fun s e t => Unshared s e ∧ Step s e t) s es t) : TableExact t :=
  (r.invariant (I := fun s => Reached s ∧ TableExact s)
    (fun _ _ _ hs hstep => ⟨hs.1.step hstep.2, hs.2.step hs.1 hstep.1 hstep.2⟩)
    ⟨⟨rules, s, [], h, .nil s⟩, exact_startup h⟩).2

/-! ## A shared address -/

/-- Two hosts resolve to the same address; then the first moves to another one. -/
def sharedTurns : List Turn :=
  [.start 1 none, .start 3 none, .host 1 [testAddr 1], .host 3 [testAddr 1], .action 0, .action 2,
    .host 1 [testAddr 2], .action 0]

/-- **A shared address is deleted.**  After the first host has moved, the second action still has
the old address, and the kernel does not. -/
theorem shared_address_deleted :
    let s := started [pfLine "a.example.org", pfLine "b.example.org"]
    let t := (play s sharedTurns).2
    startup [pfLine "a.example.org", pfLine "b.example.org"] = .ok s ∧
      Run Step s (play s sharedTurns).1 t ∧ ¬TableExact t := by
  refine ⟨rfl, run_play _ _, ?_⟩
  intro h
  have hb : ∃ a ∈ (play (started [pfLine "a.example.org", pfLine "b.example.org"])
        sharedTurns).2.actionList, ∃ x ∈ vals a.rnh,
      (play (started [pfLine "a.example.org", pfLine "b.example.org"]) sharedTurns).2.entry a x
        = some (.pf [] "blocked".toList, .in4 (BitVec.ofNat 32 (192 * 2 ^ 24 + 2 * 2 ^ 8 + 1)) 32) := by
    decide +kernel
  have hk := (h _).mpr hb
  revert hk
  decide +kernel

/-- Whether every pass of a schedule spares the addresses that are still wanted. -/
def sparing (s : Sys) : List Turn → Bool
  | [] => true
  | turn :: turns =>
    match turn.event s with
    | none => sparing s turns
    | some e =>
      if Enabled s e then
        (match e with
          | .actionPass act _ => decide (Spares s act)
          | _ => true) && sparing (handle s e) turns
      else sparing s turns

/-- A sparing schedule is a run of unshared passes. -/
lemma run_sparing : ∀ (s : Sys) (turns : List Turn), sparing s turns = true →
    Run (fun s e t => Unshared s e ∧ Step s e t) s (play s turns).1 (play s turns).2
  | s, [], _ => .nil s
  | s, turn :: turns, h => by
    rw [sparing] at h
    rw [play]
    cases hev : turn.event s with
    | none =>
      rw [hev] at h
      exact run_sparing s turns h
    | some e =>
      simp only [hev] at h ⊢
      split_ifs at h ⊢ with hen
      · rw [Bool.and_eq_true] at h
        refine .cons ⟨?_, hen, rfl⟩ (run_sparing _ turns h.2)
        cases turn with
        | start i literal => simp [Turn.event] at hev; subst hev; trivial
        | host i reply =>
          obtain ⟨g, -, rfl⟩ := Option.map_eq_some_iff.mp hev
          trivial
        | action i =>
          obtain ⟨act, -, rfl⟩ := Option.map_eq_some_iff.mp hev
          exact ⟨fun _ => rfl, of_decide_eq_true h.1⟩
      · exact run_sparing s turns h

/-- Two hosts of one table share an address; the second has another one of its own and drops it. -/
def ownTurns : List Turn :=
  [.start 1 none, .start 3 none, .host 1 [testAddr 1], .host 3 [testAddr 1, testAddr 3], .action 0,
    .action 2, .host 3 [testAddr 1], .action 2]

/-- The second action deletes its own address; what it shares with the first stays. -/
theorem union_of_run_ownAddress :
    let s := started [pfLine "a.example.org", pfLine "b.example.org"]
    let t := (play s ownTurns).2
    TableExact t ∧ t.kernel = {(.pf [] "blocked".toList,
      .in4 (BitVec.ofNat 32 (192 * 2 ^ 24 + 2 * 2 ^ 8 + 1)) 32)} := by
  intro s t
  have hsparing : sparing s ownTurns = true := by decide +kernel
  have hstart : startup [pfLine "a.example.org", pfLine "b.example.org"] = .ok s := rfl
  exact ⟨union_of_run hstart (run_sparing s ownTurns hsparing), by decide +kernel⟩

end FreeSense.Filterdns
