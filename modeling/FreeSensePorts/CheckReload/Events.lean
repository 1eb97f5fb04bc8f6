import FreeSensePorts.CheckReload.Invariant

/-!
# What becomes of a request

A client that is told `OK` counts on its script being run once more.  The aggregation of `run_command`
compares scripts, not parameter strings, so a request can be absorbed by an entry for another
interface.  A request without parameters may re-arm an entry whose execution is in flight, and
`socket_read_fcgi` frees that entry when the answer arrives.  In a run whose steps are all `Harmless`,
an owed command always has an entry with `dontexec` clear and its timer armed.

An answer that refuses a request leaves the entry in the queue, but a timer that would send it again
has been armed only for an aggregated command.
-/

namespace FreeSense.CheckReload

open List

/-- The queue holds an execution, still to come, of this script with these parameters. -/
def Scheduled (s : State) (command : String) (params : Text) : Prop :=
  ∃ q ∈ s.cmds, q.command = command ∧ q.params = params ∧ q.dontexec = false

instance (s : State) (command : String) (params : Text) : Decidable (Scheduled s command params) :=
  inferInstanceAs (Decidable (∃ q ∈ s.cmds, _))

variable {s : State} {q q' : Runq} {c : String} {p : Text}

/-- Writing an entry back keeps what is scheduled, unless it marks that very entry executed. -/
lemma Scheduled.update (hs : Scheduled s c p) (h : Wf s) (hq : q ∈ s.cmds) (hcore : q'.core = q.core)
    (hkeep : q.command = c → q.params = p → q.dontexec = false → q'.dontexec = false) :
    Scheduled (s.update q') c p := by
  obtain ⟨g, hg, hgc, hgp, hgd⟩ := hs
  have hcore' := hcore
  simp only [Runq.core, Prod.mk.injEq] at hcore'
  by_cases hid : g.id = q'.id
  · have hgq : g = q := h.eq_of_id hg hq (hid.trans hcore'.1)
    subst hgq
    exact ⟨q', mem_update.mpr (Or.inl ⟨g, hg, hid, rfl⟩), hcore'.2.1.trans hgc,
      hcore'.2.2.1.trans hgp, hkeep hgc hgp hgd⟩
  · exact ⟨g, mem_update.mpr (Or.inr ⟨hg, hid⟩), hgc, hgp, hgd⟩

/-- Freeing an entry keeps what is scheduled, unless it was that very entry. -/
lemma Scheduled.remove (hs : Scheduled s c p) (h : Wf s) (hq : q ∈ s.cmds)
    (hkeep : q.command = c → q.params = p → q.dontexec = true) : Scheduled (s.remove q) c p := by
  obtain ⟨g, hg, hgc, hgp, hgd⟩ := hs
  refine ⟨g, ?_, hgc, hgp, hgd⟩
  simp only [State.remove, mem_filter, decide_eq_true_eq]
  refine ⟨hg, ?_⟩
  intro hid
  have hgq : g = q := h.eq_of_id hg hq hid
  subst hgq
  rw [hkeep hgc hgp] at hgd
  exact Bool.noConfusion hgd

lemma Scheduled.runCommand (hs : Scheduled s c p) (h : Wf s) (leaf : Leaf) (argv : Text)
    (alloc : Bool) : Scheduled (runCommand leaf argv alloc s) c p := by
  obtain ⟨g, hg, hgc, hgp, hgd⟩ := hs
  unfold CheckReload.runCommand
  cases hw : walk leaf.cmd 0 s.cmds with
  | returned l' =>
    obtain ⟨pre, r, post, hl, -, -, -, rfl⟩ := walk_absorbed h hw
    rw [hl, mem_append, mem_cons] at hg
    rcases hg with hg | rfl | hg
    · exact ⟨g, by simp [hg], hgc, hgp, hgd⟩
    · exact ⟨g, by simp [hgd], hgc, hgp, hgd⟩
    · exact ⟨g, by simp [hg], hgc, hgp, hgd⟩
  | through b =>
    split_ifs
    · exact ⟨g, hg, hgc, hgp, hgd⟩
    · exact ⟨g, hg, hgc, hgp, hgd⟩
    · exact ⟨g, mem_cons_of_mem _ hg, hgc, hgp, hgd⟩

/-- A request that is queued is scheduled under its cut parameter string. -/
lemma scheduled_newEntry {leaf : Leaf} (hleaf : leaf ∈ leaves) (argv : Text) {b : ℕ}
    (hw : walk leaf.cmd 0 s.cmds = .through b) :
    newEntry leaf argv b s.fresh ∈ (runCommand leaf argv true s).cmds := by
  simp [runCommand, hw, leaves_type leaf hleaf]

/-! ## Parameters -/

/-- **When a request is scheduled.**  In every reachable queue, a request for an aggregated command
leaves an entry with its own script and parameter string and `dontexec` clear if and only if the
string fits its buffer and either no entry counted `2` of the script is there to absorb it, or an
entry with the same string is, which is that one or is still to be executed. -/
theorem scheduled_after_request_iff {es : List Event} (r : Run Step State.init es s) {leaf : Leaf}
    (hleaf : leaf ∈ leaves) (hagg : leaf.cmd.aggregate = true) (argv : Text) :
    Scheduled (request leaf argv true s) leaf.cmd.command (leaf.expanded argv) ↔
      (leaf.expanded argv).length < paramsSize ∧
        ((∀ q ∈ s.cmds, q.command = leaf.cmd.command → q.aggregate ≠ 2) ∨
          ∃ q ∈ s.cmds, q.command = leaf.cmd.command ∧ q.params = leaf.expanded argv ∧
            (q.aggregate = 2 ∨ q.dontexec = false)) := by
  have h : Wf (s.emit (.ok leaf argv)) := (run_wf r).emit _
  have hafter : Wf (request leaf argv true s) := h.runCommand hleaf argv true
  constructor
  · rintro ⟨g, hg, hgc, hgp, hgd⟩
    refine ⟨hgp ▸ hafter.params g hg, ?_⟩
    rw [or_iff_not_imp_left]
    intro hsome
    push Not at hsome
    obtain ⟨q₂, hq₂, hq₂c, hq₂a⟩ := hsome
    cases hw : walk leaf.cmd 0 (s.emit (.ok leaf argv)).cmds with
    | through b =>
      -- falling through means that no entry is counted 2
      obtain ⟨hb, hle⟩ := walk_through hagg (by omega) hw
      have hmem : 2 ∈ slots leaf.cmd.command s.cmds := hq₂a ▸ mem_slots hq₂ hq₂c (by omega)
      have := single_le_sum (fun _ _ => Nat.zero_le _) _ hmem
      have hbs : b = (slots leaf.cmd.command s.cmds).sum := hb.trans (Nat.zero_add _)
      omega
    | returned l' =>
      obtain ⟨pre, q, post, hl, hqc, hqa, -, rfl⟩ := walk_absorbed h hw
      have hcmds : s.cmds = pre ++ q :: post := hl
      simp only [request, runCommand, hw, mem_append, mem_cons] at hg
      rcases hg with hg | hg | hg
      · exact ⟨g, by simp [hcmds, hg], hgc, hgp, Or.inr hgd⟩
      · refine ⟨q, by simp [hcmds], hqc, ?_, Or.inl hqa⟩
        rw [hg] at hgp
        by_cases hd : q.dontexec = true <;> simpa [hd, Runq.reschedule] using hgp
      · exact ⟨g, by simp [hcmds, hg], hgc, hgp, Or.inr hgd⟩
  · rintro ⟨hlen, hfree | ⟨q, hq, hqc, hqp, hqd⟩⟩
    · obtain ⟨b, hw⟩ := walk_queued h hfree
      refine ⟨_, scheduled_newEntry hleaf argv hw, rfl, ?_, rfl⟩
      exact take_of_length_le (by omega)
    · by_cases hd : q.dontexec = false
      · exact Scheduled.runCommand (s := s.emit _) ⟨q, hq, hqc, hqp, hd⟩ h leaf argv true
      · have ha : q.aggregate = 2 := by
          rcases hqd with ha | hd'
          · exact ha
          · exact absurd hd' hd
        cases hw : walk leaf.cmd 0 (s.emit (.ok leaf argv)).cmds with
        | through b =>
          refine ⟨_, scheduled_newEntry hleaf argv hw, rfl, ?_, rfl⟩
          exact take_of_length_le (by omega)
        | returned l' =>
          obtain ⟨pre, q₂, post, -, -, -, huniq, rfl⟩ := walk_absorbed h hw
          obtain rfl := huniq q hq hqc ha
          refine ⟨q.reschedule, ?_, hqc, hqp, rfl⟩
          simp [request, runCommand, hw, hd]

/-- `interface reload wan` and `interface reload lan`, both still pending. -/
def twoInterfaces : List Event :=
  [.request interfaceReload "wan".toList true, .request interfaceReload "lan".toList true]

/-- **A third interface is absorbed.**  With reloads of `wan` and `lan` pending, a reload of `opt1`
is answered `OK` and leaves no entry for `opt1`. -/
theorem interface_request_absorbed :
    Run Step State.init twoInterfaces (twoInterfaces.foldl handle State.init) ∧
      interfaceReload ∈ leaves ∧ interfaceReload.cmd.aggregate = true ∧
      ¬Scheduled
        (request interfaceReload "opt1".toList true (twoInterfaces.foldl handle State.init))
        interfaceReload.cmd.command (interfaceReload.expanded "opt1".toList) :=
  ⟨run_of_enabled (by decide +kernel), by decide +kernel, rfl, by decide +kernel⟩

theorem scheduled_after_request_iff_lan :
    Scheduled (request interfaceReload "lan".toList true (twoInterfaces.foldl handle State.init))
      interfaceReload.cmd.command (interfaceReload.expanded "lan".toList) :=
  (scheduled_after_request_iff (run_of_enabled (by decide +kernel)) (by decide +kernel) rfl _).mpr
    (by decide +kernel)

/-! ## Lost events -/

/-- The command was asked for, and no request for it has been written to php-fpm since.  The output
is newest first. -/
def Owed (leaf : Leaf) (out : List Output) : Prop :=
  ∃ later argv earlier, out = later ++ .ok leaf argv :: earlier ∧
    .request leaf.cmd.command [] ∉ later

lemma Owed.cons_inv {leaf : Leaf} {o : Output} {out : List Output} (h : Owed leaf (o :: out)) :
    (∃ argv, o = .ok leaf argv) ∨ (o ≠ .request leaf.cmd.command [] ∧ Owed leaf out) := by
  obtain ⟨later, argv, earlier, heq, hno⟩ := h
  cases later with
  | nil =>
    simp only [nil_append, List.cons.injEq] at heq
    exact Or.inl ⟨argv, heq.1⟩
  | cons o' later =>
    obtain ⟨rfl, rfl⟩ := heq
    rw [mem_cons, not_or] at hno
    exact Or.inr ⟨fun h => hno.1 h.symm, later, argv, earlier, rfl, hno.2⟩

/-- The steps that lose nothing: memory is there for a request; a command without parameters is
not absorbed by an entry that has some; and when php-fpm reports a completed request, the entry it
was sent for has no further execution scheduled. -/
def Harmless (s : State) : Event → Prop
  | .request leaf _ alloc => alloc = true ∧ (leaf.cmd.params = none →
      ∀ q ∈ s.cmds, q.command = leaf.cmd.command → q.aggregate = 2 → q.params = [])
  | .timeout _ _ _ _ => True
  | .record q r => r.ends = true → r.success = true → 0 < q.aggregate → q.params = [] →
      q.dontexec = true

instance (s : State) : (e : Event) → Decidable (Harmless s e)
  | .request leaf _ alloc => inferInstanceAs (Decidable (alloc = true ∧ (leaf.cmd.params = none →
      ∀ q ∈ s.cmds, q.command = leaf.cmd.command → q.aggregate = 2 → q.params = [])))
  | .timeout _ _ _ _ => inferInstanceAs (Decidable True)
  | .record q r => inferInstanceAs (Decidable (r.ends = true → r.success = true →
      0 < q.aggregate → q.params = [] → q.dontexec = true))

/-- A harmless request for a command without parameters leaves it scheduled. -/
lemma scheduled_request {leaf : Leaf} (h : Wf s) (hleaf : leaf ∈ leaves)
    (hnone : leaf.cmd.params = none) (argv : Text)
    (habs : ∀ q ∈ s.cmds, q.command = leaf.cmd.command → q.aggregate = 2 → q.params = []) :
    Scheduled (request leaf argv true s) leaf.cmd.command [] := by
  cases hw : walk leaf.cmd 0 (s.emit (.ok leaf argv)).cmds with
  | through b =>
    refine ⟨_, scheduled_newEntry hleaf argv hw, rfl, ?_, rfl⟩
    simp [newEntry, Leaf.expanded, hnone]
  | returned l' =>
    obtain ⟨pre, r, post, hl, hrc, hra, -, rfl⟩ := walk_absorbed (h.emit _) hw
    have hr : r ∈ s.cmds := by
      have : s.cmds = pre ++ r :: post := hl
      simp [this]
    have hrp := habs r hr hrc hra
    refine ⟨if r.dontexec then r.reschedule else r, by simp [request, runCommand, hw], ?_⟩
    by_cases hd : r.dontexec = true <;> simp [hd, Runq.reschedule, hrc, hrp]

section OwedCommand

variable {leaf : Leaf} (hleaf : leaf ∈ leaves) (hagg : leaf.cmd.aggregate = true)
  (hfcgi : leaf.cmd.fcgicmd = true) (hnone : leaf.cmd.params = none)

include hleaf hagg hfcgi

lemma owed_timeout (h : Wf s) (ih : Owed leaf s.out → Scheduled s leaf.cmd.command [])
    (hq : q ∈ s.cmds) (connects writes forks : Bool)
    (howed : Owed leaf (timeout q connects writes forks s).out) :
    Scheduled (timeout q connects writes forks s) leaf.cmd.command [] := by
  unfold timeout at howed ⊢
  by_cases hf : q.fcgi = true
  · rw [if_pos hf] at howed ⊢
    unfold fcgiSendCommand at howed ⊢
    by_cases hd : q.dontexec = true
    · simp only [hd, if_true] at howed ⊢
      exact Scheduled.remove (q := q) (ih howed) h hq fun _ _ => hd
    · simp only [hd, Bool.false_eq_true, if_false] at howed ⊢
      have h' : Wf { s with requestId := s.requestId + 1 } := h.of_core rfl rfl h.armed
      -- once the request is on its way, the command is owed only if it was another one
      have hother : Owed leaf (.request q.command q.params :: s.out) →
          Scheduled s leaf.cmd.command [] ∧ (q.command = leaf.cmd.command → q.params ≠ []) := by
        intro ho
        rcases ho.cons_inv with ⟨argv, hne⟩ | ⟨hne, ho⟩
        · exact absurd hne (by simp)
        · refine ⟨ih ho, ?_⟩
          intro hc hp
          exact hne (by rw [hc, hp])
      split_ifs at howed ⊢ with hc hw ha
      · exact Scheduled.update (q := q) (ih howed : Scheduled { s with requestId := _ } _ _) h' hq
          rfl fun _ _ _ => rfl
      · obtain ⟨hs, -⟩ := hother howed
        exact Scheduled.update (q := q) (s := State.emit { s with requestId := _ } _) hs
          (h'.emit _) hq rfl fun _ _ _ => rfl
      · obtain ⟨hs, hne⟩ := hother howed
        exact Scheduled.update (q := q) (s := State.emit { s with requestId := _ } _) hs
          (h'.emit _) hq rfl fun hqc hqp => absurd hqp (hne hqc)
      · obtain ⟨hs, -⟩ := hother howed
        exact Scheduled.update (q := q) (s := State.emit { s with requestId := _ } _) hs
          (h'.emit _) hq rfl fun _ _ _ => rfl
  · -- an entry run by a fork has another script
    have hne : q.command ≠ leaf.cmd.command := by
      intro hc
      exact hf (h.entry_flags hleaf hagg hfcgi hq hc).1
    unfold runCommandDetailed at howed ⊢
    split_ifs at howed ⊢
    · exact Scheduled.remove (q := q) (ih howed) h hq fun hc => absurd hc hne
    · exact Scheduled.update (q := q) (ih howed) h hq rfl fun hc => absurd hc hne
    · exact Scheduled.update (q := q) (ih howed) h hq rfl fun hc => absurd hc hne
    · exact Scheduled.remove (q := q) (ih howed) h hq fun hc => absurd hc hne

/-- An answer: a harmless completion frees an entry that is not the scheduled one. -/
lemma owed_record (h : Wf s) (ih : Owed leaf s.out → Scheduled s leaf.cmd.command [])
    (hq : q ∈ s.cmds) {r : Record} (hharm : Harmless s (.record q r))
    (howed : Owed leaf (socketReadFcgi q r s).out) :
    Scheduled (socketReadFcgi q r s) leaf.cmd.command [] := by
  unfold socketReadFcgi at howed ⊢
  split_ifs at howed ⊢ with hends hsucc
  · refine (ih howed).remove h hq fun hc hp => ?_
    exact hharm hends hsucc (h.entry_flags hleaf hagg hfcgi hq hc).2 hp
  · exact (ih howed).update h hq rfl fun _ _ _ => rfl
  · exact ih howed

include hnone

lemma owed_step {t : State} {e : Event} (h : Wf s)
    (ih : Owed leaf s.out → Scheduled s leaf.cmd.command []) (hharm : Harmless s e)
    (hstep : Step s e t) : Owed leaf t.out → Scheduled t leaf.cmd.command [] := by
  obtain ⟨hen, rfl⟩ := hstep
  intro howed
  cases e with
  | timeout q connects writes forks =>
    exact owed_timeout hleaf hagg hfcgi h ih hen.1 connects writes forks howed
  | record q r => exact owed_record hleaf hagg hfcgi h ih hen.1 hharm howed
  | request leaf' argv alloc =>
    obtain ⟨halloc, habs⟩ := hharm
    subst halloc
    have hout : (request leaf' argv true s).out = .ok leaf' argv :: s.out := by
      unfold request runCommand
      cases walk leaf'.cmd 0 (s.emit (.ok leaf' argv)).cmds with
      | returned l' => rfl
      | through b =>
        split_ifs <;> rfl
    simp only [handle, hout] at howed
    rcases howed.cons_inv with ⟨argv', heq⟩ | ⟨-, ho⟩
    · obtain ⟨rfl, rfl⟩ := heq
      exact scheduled_request h hleaf hnone argv (habs hnone)
    · exact Scheduled.runCommand (s := s.emit _) (ih ho) (h.emit _) leaf' argv true

/-- **No event is lost by harmless steps.**  In every state such a run reaches, a command without
parameters that was asked for and not sent since has an entry with `dontexec` clear and its timer
armed. -/
theorem owed_scheduled {es : List Event}
    (r : Run (fun s e t => Harmless s e ∧ Step s e t) State.init es s) (howed : Owed leaf s.out) :
    ∃ q ∈ s.cmds, q.command = leaf.cmd.command ∧ q.params = [] ∧ q.dontexec = false ∧
      q.armed = true := by
  have hinv : Wf s ∧ (Owed leaf s.out → Scheduled s leaf.cmd.command []) := by
    refine r.invariant (I := fun s => Wf s ∧ (Owed leaf s.out → Scheduled s leaf.cmd.command []))
      ?_ ⟨wf_init, ?_⟩
    · rintro s e t ⟨h, ih⟩ ⟨hharm, hstep⟩
      exact ⟨hstep.wf h, owed_step hleaf hagg hfcgi hnone h ih hharm hstep⟩
    · rintro ⟨later, argv, earlier, heq, -⟩
      simp [State.init] at heq
  obtain ⟨g, hg, hgc, hgp, hgd⟩ := hinv.2 howed
  exact ⟨g, hg, hgc, hgp, hgd, hinv.1.armed_of_leaf hleaf hagg hfcgi hg hgc⟩

end OwedCommand

/-- The entry of a filter reload, as the handlers leave it. -/
def filterEntry (id requestId aggregate : ℕ) (dontexec connected : Bool) : Runq :=
  ⟨id, filterReload.cmd.command, [], requestId, aggregate, dontexec, connected, true, true⟩

/-- Two filter reloads: the first is sent, the second asked for while php-fpm is at work, and php-fpm
completes the first. -/
def twoReloads : List Event :=
  [.request filterReload [] true,
    .timeout (filterEntry 0 0 1 false false) true true true,
    .request filterReload [] true,
    .record (filterEntry 0 1 1 true true) ⟨.END_REQUEST, endRequestBodySize, requestComplete⟩]

/-- The second reload still has its entry. -/
theorem owed_scheduled_twoReloads :
    ∃ q ∈ (twoReloads.foldl handle State.init).cmds, q.command = filterReload.cmd.command ∧
      q.params = [] ∧ q.dontexec = false ∧ q.armed = true := by
  have howed : Owed filterReload (twoReloads.foldl handle State.init).out :=
    ⟨[], [], _, rfl, by simp⟩
  have hrun : Run (fun s e t => Harmless s e ∧ Step s e t) State.init twoReloads
      (twoReloads.foldl handle State.init) :=
    .cons ⟨by decide +kernel, by decide +kernel, rfl⟩
      (.cons ⟨by decide +kernel, by decide +kernel, rfl⟩
        (.cons ⟨by decide +kernel, by decide +kernel, rfl⟩
          (.cons ⟨by decide +kernel, by decide +kernel, rfl⟩ (.nil _))))
  exact owed_scheduled (by decide +kernel) rfl rfl rfl hrun howed

/-- Three filter reloads.  The first two are sent; the third re-arms the entry of the second while
php-fpm is still at work on it; php-fpm completes the second. -/
def threeReloads : List Event :=
  [.request filterReload [] true,
    .timeout (filterEntry 0 0 1 false false) true true true,
    .request filterReload [] true,
    .timeout (filterEntry 1 0 2 false false) true true true,
    .request filterReload [] true,
    .record (filterEntry 1 2 2 false true) ⟨.END_REQUEST, endRequestBodySize, requestComplete⟩]

/-- **A filter reload is lost.**  The third reload was answered `OK` and nothing has been sent
since, yet the only entry left is the first one, which will not be executed. -/
theorem filter_reload_lost :
    Run Step State.init threeReloads (threeReloads.foldl handle State.init) ∧
      filterReload ∈ leaves ∧ filterReload.cmd.aggregate = true ∧
      filterReload.cmd.fcgicmd = true ∧ filterReload.cmd.params = none ∧
      Owed filterReload (threeReloads.foldl handle State.init).out ∧
      ∀ q ∈ (threeReloads.foldl handle State.init).cmds, q.dontexec = true := by
  refine ⟨run_of_enabled (by decide +kernel), by decide +kernel, rfl, rfl, rfl, ?_, by decide +kernel⟩
  exact ⟨[], [], _, rfl, by simp⟩

/-! ## Refused events -/

/-- The entry is still queued and will be sent when its timer expires. -/
def Resent (q : Runq) (s : State) : Prop :=
  ∃ q' ∈ s.cmds, q'.id = q.id ∧ q'.dontexec = false ∧ q'.armed = true

instance (q : Runq) (s : State) : Decidable (Resent q s) :=
  inferInstanceAs (Decidable (∃ q' ∈ s.cmds, _))

/-- An entry with an open socket is one for php-fpm, and outside aggregation it has no timer. -/
def Runq.Parked (q : Runq) : Prop :=
  q.connected = true → q.fcgi = true ∧ (q.aggregate = 0 → q.armed = false)

section Parked

variable (hs : ∀ q ∈ s.cmds, q.Parked)
include hs

lemma parked_update (hq : q.Parked) : ∀ q' ∈ (s.update q).cmds, q'.Parked := by
  intro g hg
  rcases mem_update.mp hg with ⟨_, _, _, rfl⟩ | ⟨hg, _⟩
  · exact hq
  · exact hs g hg

lemma parked_remove (q : Runq) : ∀ q' ∈ (s.remove q).cmds, q'.Parked :=
  fun g hg => hs g (mem_of_mem_filter hg)

lemma parked_runCommand (h : Wf s) (leaf : Leaf) (argv : Text) (alloc : Bool) :
    ∀ q ∈ (runCommand leaf argv alloc s).cmds, q.Parked := by
  unfold runCommand
  cases hw : walk leaf.cmd 0 s.cmds with
  | returned l' =>
    obtain ⟨pre, r, post, hl, -, hra, -, rfl⟩ := walk_absorbed h hw
    have hr : r.Parked := hs r (by simp [hl])
    intro g hg
    rcases mem_append.mp hg with hg | hg
    · exact hs g (by simp [hl, hg])
    · rcases mem_cons.mp hg with rfl | hg
      · -- the entry that absorbs the request is a counted one
        split_ifs
        · intro hconn
          exact ⟨(hr hconn).1, fun hzero => absurd hzero (by simp [Runq.reschedule, hra])⟩
        · exact hr
      · exact hs g (by simp [hl, hg])
  | through b =>
    split_ifs
    · exact hs
    · exact hs
    · rintro g hg hconn
      rcases mem_cons.mp hg with rfl | hg
      · exact absurd hconn (by simp [newEntry])
      · exact hs g hg hconn

lemma parked_timeout (hq : q ∈ s.cmds) (connects writes forks : Bool) :
    ∀ q' ∈ (timeout q connects writes forks s).cmds, q'.Parked := by
  unfold timeout
  split_ifs with hf
  · unfold fcgiSendCommand
    dsimp only
    split_ifs with hd hc hw ha
    · exact parked_remove hs _
    · exact parked_update (s := { s with requestId := _ }) hs fun hconn => by simp [hc.1] at hconn
    · exact parked_update (s := State.emit { s with requestId := _ } _) hs nofun
    · exact parked_update (s := State.emit { s with requestId := _ } _) hs
        fun _ => ⟨hf, fun hzero => absurd hzero (Nat.ne_of_gt ha)⟩
    · exact parked_update (s := State.emit { s with requestId := _ } _) hs fun _ => ⟨hf, fun _ => rfl⟩
  · have hopen : q.connected = false := by
      by_contra hconn
      exact hf (hs q hq (by simpa using hconn)).1
    unfold runCommandDetailed
    split_ifs
    · exact parked_remove hs _
    · exact parked_update hs fun hconn => by simp [hopen] at hconn
    · exact parked_update hs fun hconn => by simp [hopen] at hconn
    · exact parked_remove hs _

lemma parked_step {t : State} {e : Event} (h : Wf s) (hstep : Step s e t) :
    ∀ q ∈ t.cmds, q.Parked := by
  obtain ⟨hen, rfl⟩ := hstep
  cases e with
  | request leaf argv alloc =>
    exact parked_runCommand (s := s.emit _) hs (h.emit _) leaf argv alloc
  | timeout q connects writes forks => exact parked_timeout hs hen.1 connects writes forks
  | record q r =>
    simp only [handle, socketReadFcgi]
    split_ifs
    · exact parked_remove hs q
    · exact parked_update hs (hs q hen.1)
    · exact hs

end Parked

theorem run_parked {es : List Event} (r : Run Step State.init es s) : ∀ q ∈ s.cmds, q.Parked := by
  have hinv : Wf s ∧ ∀ q ∈ s.cmds, q.Parked := by
    refine r.invariant (I := fun s => Wf s ∧ ∀ q ∈ s.cmds, q.Parked) ?_
      ⟨wf_init, by simp [State.init]⟩
    rintro s e t ⟨h, hs⟩ hstep
    exact ⟨hstep.wf h, parked_step hs h hstep⟩
  exact hinv.2

/-- **Refused events.**  In every reachable queue, an entry whose request php-fpm has refused is sent
again exactly if its command is an aggregated one. -/
theorem resent_iff {es : List Event} (r : Run Step State.init es s) (hq : q ∈ s.cmds)
    (hconn : q.connected = true) {answer : Record} (hends : answer.ends = true)
    (hrefused : answer.success = false) :
    Resent q (socketReadFcgi q answer s) ↔ 0 < q.aggregate := by
  obtain ⟨hfcgi, hparked⟩ := run_parked r q hq hconn
  have hafter : socketReadFcgi q answer s = s.update { q with dontexec := false } := by
    simp [socketReadFcgi, hends, hrefused]
  rw [hafter]
  constructor
  · rintro ⟨q', hq', hid, -, harmed⟩
    rcases mem_update.mp hq' with ⟨_, _, _, rfl⟩ | ⟨_, hne⟩
    · by_contra hzero
      have hunarmed : q.armed = false := hparked (by omega)
      exact absurd (hunarmed.symm.trans harmed) (by decide)
    · exact absurd hid hne
  · intro hpos
    exact ⟨_, mem_update.mpr (Or.inl ⟨q, hq, rfl, rfl⟩), rfl, rfl, (run_wf r).armed q hq hfcgi hpos⟩

def linkupStart : Leaf :=
  separate .IFNAME "start" "/etc/rc.linkup" (some "action=start&interface=%s") "Linkup starting %s"

def overloaded : Record := ⟨.END_REQUEST, 8, 2⟩

def sent (leaf : Leaf) (argv : Text) : State :=
  [Event.request leaf argv true, .timeout (newEntry leaf argv 0 0) true true true].foldl handle
    State.init

/-- The entry `sent` leaves. -/
def sentEntry (leaf : Leaf) (argv : Text) : Runq :=
  { newEntry leaf argv 0 0 with
    requestId := 1, connected := true, dontexec := leaf.cmd.aggregate, armed := leaf.cmd.aggregate }

/-- A reload of the filter is sent again. -/
theorem resent_iff_filter :
    sentEntry filterReload [] ∈ (sent filterReload []).cmds ∧
      Resent (sentEntry filterReload []) (socketReadFcgi (sentEntry filterReload []) overloaded
        (sent filterReload [])) :=
  ⟨by decide +kernel, (resent_iff (run_of_enabled (by decide +kernel)) (by decide +kernel)
    (by decide +kernel) (by decide +kernel) (by decide +kernel)).mpr (by decide)⟩

/-- The start of an interface is not. -/
theorem linkup_lost :
    linkupStart ∈ leaves ∧ EnabledAll State.init [.request linkupStart "wan".toList true,
        .timeout (newEntry linkupStart "wan".toList 0 0) true true true,
        .record (sentEntry linkupStart "wan".toList) overloaded] ∧
      ¬ Resent (sentEntry linkupStart "wan".toList)
        (socketReadFcgi (sentEntry linkupStart "wan".toList) overloaded
          (sent linkupStart "wan".toList)) := by
  decide +kernel

end FreeSense.CheckReload
