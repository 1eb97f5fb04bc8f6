import FreeSensePorts.CheckReload.Queue
import Mathlib.Data.List.Sublists
import Mathlib.Tactic

/-!
# What holds of every queue

`run_command` adds up the `aggregate` fields of the entries with the script it was asked for.  At any
time a script has at most two counted entries, `1` for the first and `2` for the one queued behind it,
and the second stands in front of the first (`slotShapes`).  `Wf` is that shape with the bookkeeping
around it, and `run_wf` says it holds of every state the daemon reaches.

All of `Wf` but the timers reads only fields that no handler changes (`Runq.core`, `Wf.of_core`).
-/

namespace FreeSense.CheckReload

open List

variable {s : State} {cmd : RunSpec}

/-- The fields no handler changes. -/
def Runq.core (q : Runq) : ℕ × String × Text × ℕ × Bool :=
  (q.id, q.command, q.params, q.aggregate, q.fcgi)

def slots (script : String) (cmds : List Runq) : List ℕ :=
  (cmds.filter fun q => q.command = script ∧ 0 < q.aggregate).map Runq.aggregate

/-- The counts a script can have. -/
def slotShapes : List (List ℕ) := [[], [1], [2], [2, 1]]

structure Wf (s : State) : Prop where
  ids : (s.cmds.map Runq.id).Nodup
  fresh : ∀ q ∈ s.cmds, q.id < s.fresh
  origin : ∀ q ∈ s.cmds, ∃ leaf ∈ leaves, q.command = leaf.cmd.command ∧
    q.fcgi = leaf.cmd.fcgicmd ∧ (0 < q.aggregate ↔ leaf.cmd.aggregate = true)
  params : ∀ q ∈ s.cmds, q.params.length < paramsSize
  armed : ∀ q ∈ s.cmds, q.fcgi = true → 0 < q.aggregate → q.armed = true
  slots : ∀ script, slots script s.cmds ∈ slotShapes

/-! ## The shape of a script's entries -/

@[simp] lemma slots_nil (script : String) : slots script [] = [] := rfl

lemma slots_cons (script : String) (q : Runq) (l : List Runq) :
    slots script (q :: l)
      = if q.command = script ∧ 0 < q.aggregate then q.aggregate :: slots script l
        else slots script l := by
  unfold slots
  by_cases h : q.command = script ∧ 0 < q.aggregate <;> simp [h]

lemma slots_append (script : String) (l l' : List Runq) :
    slots script (l ++ l') = slots script l ++ slots script l' := by
  simp [slots]

lemma mem_slots {script : String} {q : Runq} {l : List Runq} (hq : q ∈ l)
    (hc : q.command = script) (ha : 0 < q.aggregate) : q.aggregate ∈ slots script l := by
  simp only [slots, mem_map, mem_filter, decide_eq_true_eq]
  exact ⟨q, ⟨hq, hc, ha⟩, rfl⟩

lemma slots_eq_of_core {l l' : List Runq} (h : l'.map Runq.core = l.map Runq.core)
    (script : String) : slots script l' = slots script l := by
  have key : ∀ l : List Runq, slots script l
      = ((l.map Runq.core).filter fun c => c.2.1 = script ∧ 0 < c.2.2.2.1).map (·.2.2.2.1) := by
    intro l
    induction l with
    | nil => rfl
    | cons q l ih =>
      rw [slots_cons, map_cons, ih]
      by_cases hq : q.command = script ∧ 0 < q.aggregate <;> simp [Runq.core, hq]
  rw [key, key, h]

lemma slotShapes_sublist {L L' : List ℕ} (h : L'.Sublist L) (hL : L ∈ slotShapes) : L' ∈ slotShapes := by
  have closed : ∀ L ∈ slotShapes, ∀ L' ∈ L.sublists, L' ∈ slotShapes := by decide
  exact closed L hL L' (mem_sublists.mpr h)

/-- A count at most `1` leaves room for one more entry in front. -/
lemma slotShapes_push {L : List ℕ} (hL : L ∈ slotShapes) (hsum : L.sum ≤ 1) :
    (L.sum + 1) :: L ∈ slotShapes := by
  have room : ∀ L ∈ slotShapes, L.sum ≤ 1 → (L.sum + 1) :: L ∈ slotShapes := by decide
  exact room L hL hsum

/-- Where a walk from the front first exceeds `1`, it stands on the entry counted `2`, which is the
first counted one. -/
lemma slotShapes_split {A B : List ℕ} {n : ℕ} (hL : A ++ n :: B ∈ slotShapes) (hA : A.sum ≤ 1)
    (hn : 1 < A.sum + n) : A = [] ∧ n = 2 ∧ 2 ∉ B := by
  simp only [slotShapes, mem_cons, not_mem_nil, or_false] at hL
  rcases hL with h | h | h | h
  · simp at h
  · cases A with
    | nil => simp at h hn; omega
    | cons a A => simp at h
  · cases A with
    | nil => simp at h; simp [h]
    | cons a A => simp at h
  · rcases A with _ | ⟨a, _ | ⟨b, A⟩⟩
    · simp at h; simp [h]
    · simp at h; simp [h.1] at hA
    · simp at h

/-! ## Steps that rewrite entries in place -/

/-- **`Wf` reads the unchanging fields**, and the timers. -/
theorem Wf.of_core {s t : State} (h : Wf s) (hcore : t.cmds.map Runq.core = s.cmds.map Runq.core)
    (hfresh : t.fresh = s.fresh)
    (harmed : ∀ q ∈ t.cmds, q.fcgi = true → 0 < q.aggregate → q.armed = true) : Wf t := by
  have back : ∀ q ∈ t.cmds, ∃ p ∈ s.cmds, p.core = q.core := by
    intro q hq
    have hmem : q.core ∈ s.cmds.map Runq.core := hcore ▸ mem_map_of_mem hq
    simpa using hmem
  refine ⟨?_, ?_, ?_, ?_, harmed, ?_⟩
  · have hids : t.cmds.map Runq.id = s.cmds.map Runq.id := by
      simpa [Runq.core, Function.comp_def] using congrArg (List.map Prod.fst) hcore
    rw [hids]
    exact h.ids
  · intro q hq
    obtain ⟨p, hp, hpq⟩ := back q hq
    simp only [Runq.core, Prod.mk.injEq] at hpq
    rw [hfresh, ← hpq.1]
    exact h.fresh p hp
  · intro q hq
    obtain ⟨p, hp, hpq⟩ := back q hq
    simp only [Runq.core, Prod.mk.injEq] at hpq
    obtain ⟨leaf, hleaf, ho⟩ := h.origin p hp
    rw [hpq.2.1, hpq.2.2.2.1, hpq.2.2.2.2] at ho
    exact ⟨leaf, hleaf, ho⟩
  · intro q hq
    obtain ⟨p, hp, hpq⟩ := back q hq
    simp only [Runq.core, Prod.mk.injEq] at hpq
    rw [← hpq.2.2.1]
    exact h.params p hp
  · intro script
    rw [slots_eq_of_core hcore]
    exact h.slots script

lemma Wf.eq_of_id (h : Wf s) {p q : Runq} (hp : p ∈ s.cmds) (hq : q ∈ s.cmds) (hid : p.id = q.id) :
    p = q := inj_on_of_nodup_map h.ids hp hq hid

lemma mem_update {q p : Runq} :
    p ∈ (s.update q).cmds ↔ (∃ r ∈ s.cmds, r.id = q.id ∧ p = q) ∨ (p ∈ s.cmds ∧ p.id ≠ q.id) := by
  simp only [State.update, mem_map]
  constructor
  · rintro ⟨r, hr, rfl⟩
    by_cases hid : r.id = q.id
    · exact Or.inl ⟨r, hr, hid, by simp [hid]⟩
    · exact Or.inr (by simp [hid, hr])
  · rintro (⟨r, hr, hid, rfl⟩ | ⟨hp, hid⟩)
    · exact ⟨r, hr, by simp [hid]⟩
    · exact ⟨p, hp, by simp [hid]⟩

lemma update_core {q q' : Runq} (h : Wf s) (hq : q ∈ s.cmds) (hc : q'.core = q.core) :
    (s.update q').cmds.map Runq.core = s.cmds.map Runq.core := by
  have hid : q'.id = q.id := congrArg Prod.fst hc
  simp only [State.update, map_map]
  refine map_congr_left fun p hp => ?_
  by_cases hpq : p.id = q'.id
  · rw [Function.comp_apply, if_pos hpq, hc, h.eq_of_id hp hq (hpq.trans hid)]
  · rw [Function.comp_apply, if_neg hpq]

/-- An entry written back with its timer armed, or outside aggregation. -/
theorem Wf.update {q q' : Runq} (h : Wf s) (hq : q ∈ s.cmds) (hc : q'.core = q.core)
    (harmed : q'.fcgi = true → 0 < q'.aggregate → q'.armed = true) : Wf (s.update q') := by
  refine h.of_core (update_core h hq hc) rfl ?_
  intro p hp
  rcases mem_update.mp hp with ⟨_, _, _, rfl⟩ | ⟨hp, _⟩
  · exact harmed
  · exact h.armed p hp

theorem Wf.remove (h : Wf s) (q : Runq) : Wf (s.remove q) := by
  have hsub : (s.remove q).cmds.Sublist s.cmds := filter_sublist
  have hmem : ∀ p ∈ (s.remove q).cmds, p ∈ s.cmds := fun p hp => hsub.subset hp
  refine ⟨(hsub.map _).nodup h.ids, fun p hp => h.fresh p (hmem p hp),
    fun p hp => h.origin p (hmem p hp), fun p hp => h.params p (hmem p hp),
    fun p hp => h.armed p (hmem p hp), fun script => ?_⟩
  exact slotShapes_sublist ((hsub.filter _).map _) (h.slots script)

lemma Wf.emit (h : Wf s) (o : Output) : Wf (s.emit o) :=
  h.of_core rfl rfl h.armed

/-! ## The walk of `run_command` -/

/-- **Where the walk stops.**  It returns at the first entry whose count takes the sum past `1`,
having changed nothing in front of it. -/
lemma walk_returned : ∀ {l l' : List Runq} {a : ℕ},
    a ≤ 1 → walk cmd a l = .returned l' →
    ∃ pre q post, l = pre ++ q :: post ∧ q.command = cmd.command ∧ cmd.aggregate = true ∧
      a + (slots cmd.command pre).sum ≤ 1 ∧
      1 < a + (slots cmd.command pre).sum + q.aggregate ∧
      l' = pre ++ (if q.dontexec ∧ a + (slots cmd.command pre).sum + q.aggregate < 3
        then q.reschedule else q) :: post
  | [], l', a, _, h => by simp [walk] at h
  | q :: l, l', a, ha, h => by
    rw [walk] at h
    by_cases hm : cmd.aggregate = true ∧ q.command = cmd.command
    · rw [if_pos hm] at h
      by_cases hgt : a + q.aggregate > 1
      · rw [if_pos hgt] at h
        refine ⟨[], q, l, rfl, hm.2, hm.1, by simpa using ha, by simpa using hgt, ?_⟩
        by_cases hd : q.dontexec = true ∧ a + q.aggregate < 3
        · rw [if_pos hd] at h
          simp only [Walk.returned.injEq] at h
          simp [← h, hd]
        · rw [if_neg hd] at h
          simp only [Walk.returned.injEq] at h
          rw [if_neg (by simpa using hd), nil_append, h]
      · rw [if_neg hgt] at h
        cases hw : walk cmd (a + q.aggregate) l with
        | through b => simp [hw, Walk.cons] at h
        | returned l₁ =>
          simp only [hw, Walk.cons, Walk.returned.injEq] at h
          obtain ⟨pre, r, post, rfl, hr, hagg, hle, hlt, rfl⟩ := walk_returned (by omega) hw
          have hsum : (slots cmd.command (q :: pre)).sum
              = q.aggregate + (slots cmd.command pre).sum := by
            rw [slots_cons]
            split_ifs with hq
            · rw [sum_cons]
            · rw [not_and_or] at hq
              rcases hq with hq | hq
              · exact absurd hm.2 hq
              · omega
          refine ⟨q :: pre, r, post, rfl, hr, hagg, ?_, ?_, ?_⟩
          · rw [hsum]; omega
          · omega
          · rw [← h, hsum, ← Nat.add_assoc]
            rfl
    · rw [if_neg hm] at h
      cases hw : walk cmd a l with
      | through b => simp [hw, Walk.cons] at h
      | returned l₁ =>
        simp only [hw, Walk.cons, Walk.returned.injEq] at h
        obtain ⟨pre, r, post, rfl, hr, hagg, hle, hlt, rfl⟩ := walk_returned ha hw
        have hs : slots cmd.command (q :: pre) = slots cmd.command pre := by
          rw [slots_cons, if_neg fun hq => hm ⟨hagg, hq.1⟩]
        refine ⟨q :: pre, r, post, rfl, hr, hagg, ?_, ?_, ?_⟩
        · rwa [hs]
        · rwa [hs]
        · rw [← h, hs]
          rfl

lemma walk_through (hagg : cmd.aggregate = true) : ∀ {l : List Runq} {a b : ℕ},
    a ≤ 1 → walk cmd a l = .through b → b = a + (slots cmd.command l).sum ∧ b ≤ 1
  | [], a, b, ha, h => by
    simp only [walk, Walk.through.injEq] at h
    subst h
    exact ⟨by simp, ha⟩
  | q :: l, a, b, ha, h => by
    rw [walk] at h
    by_cases hm : q.command = cmd.command
    · rw [if_pos ⟨hagg, hm⟩] at h
      split_ifs at h with hgt hd
      cases hw : walk cmd (a + q.aggregate) l with
      | returned l₁ => simp [hw, Walk.cons] at h
      | through c =>
        simp only [hw, Walk.cons, Walk.through.injEq] at h
        obtain ⟨hsum, hle⟩ := walk_through hagg (by omega) hw
        subst h
        rw [slots_cons]
        split_ifs with hq
        · rw [sum_cons]; omega
        · have : q.aggregate = 0 := by
            by_contra hne
            exact hq ⟨hm, by omega⟩
          omega
    · rw [if_neg fun hq => hm hq.2] at h
      cases hw : walk cmd a l with
      | returned l₁ => simp [hw, Walk.cons] at h
      | through c =>
        simp only [hw, Walk.cons, Walk.through.injEq] at h
        obtain ⟨hsum, hle⟩ := walk_through hagg ha hw
        subst h
        rw [slots_cons, if_neg fun hq => hm hq.1]
        exact ⟨hsum, hle⟩

/-- **Who absorbs a request.**  In a well-formed queue the walk returns exactly at the entry
counted `2`, the only one of its script, and leaves that entry without `dontexec`. -/
theorem walk_absorbed (h : Wf s) {l' : List Runq} (hw : walk cmd 0 s.cmds = .returned l') :
    ∃ pre q post, s.cmds = pre ++ q :: post ∧ q.command = cmd.command ∧ q.aggregate = 2 ∧
      (∀ p ∈ s.cmds, p.command = cmd.command → p.aggregate = 2 → p = q) ∧
      l' = pre ++ (if q.dontexec then q.reschedule else q) :: post := by
  obtain ⟨pre, q, post, hl, hq, -, hle, hlt, rfl⟩ := walk_returned (by omega) hw
  rw [Nat.zero_add] at hle hlt
  have hslots := h.slots cmd.command
  rw [hl, slots_append, slots_cons, if_pos ⟨hq, by omega⟩] at hslots
  obtain ⟨hpre, hn, hpost⟩ := slotShapes_split hslots hle hlt
  refine ⟨pre, q, post, hl, hq, hn, ?_, ?_⟩
  · intro p hp hpc hpa
    rw [hl, mem_append, mem_cons] at hp
    rcases hp with hp | rfl | hp
    · have := mem_slots hp hpc (by omega)
      rw [hpre] at this
      exact absurd this (by simp)
    · rfl
    · exact absurd (hpa ▸ mem_slots hp hpc (by omega)) hpost
  · rw [hpre, hn]
    simp

/-- Without an entry counted `2` the request is queued. -/
theorem walk_queued (h : Wf s) (hno : ∀ q ∈ s.cmds, q.command = cmd.command → q.aggregate ≠ 2) :
    ∃ b, walk cmd 0 s.cmds = .through b := by
  cases hw : walk cmd 0 s.cmds with
  | through b => exact ⟨b, rfl⟩
  | returned l' =>
    obtain ⟨pre, q, post, hl, hq, ha, -, -⟩ := walk_absorbed h hw
    exact absurd ha (hno q (by simp [hl]) hq)

/-! ## The handlers -/

theorem Wf.runCommand (h : Wf s) {leaf : Leaf} (hleaf : leaf ∈ leaves) (argv : Text) (alloc : Bool) :
    Wf (runCommand leaf argv alloc s) := by
  unfold CheckReload.runCommand
  cases hw : walk leaf.cmd 0 s.cmds with
  | returned l' =>
    obtain ⟨pre, q, post, hl, -, -, -, rfl⟩ := walk_absorbed h hw
    refine h.of_core ?_ rfl ?_
    · rw [hl]
      by_cases hd : q.dontexec = true <;> simp [hd, Runq.core, Runq.reschedule]
    · intro p hp
      simp only [mem_append, mem_cons] at hp
      rcases hp with hp | rfl | hp
      · exact h.armed p (by simp [hl, hp])
      · by_cases hd : q.dontexec = true
        · simp [hd, Runq.reschedule]
        · simpa [hd] using h.armed q (by simp [hl])
      · exact h.armed p (by simp [hl, hp])
  | through b =>
    by_cases ha : alloc = false
    · simpa [ha] using h
    · simp only
      rw [if_neg ha, if_neg (leaves_type leaf hleaf)]
      refine ⟨?_, ?_, ?_, ?_, ?_, ?_⟩
      · rw [map_cons, nodup_cons]
        refine ⟨?_, h.ids⟩
        intro hmem
        obtain ⟨q, hq, hid⟩ := mem_map.mp hmem
        have := h.fresh q hq
        simp only [newEntry] at hid
        omega
      · intro q hq
        rcases mem_cons.mp hq with rfl | hq
        · simp [newEntry]
        · exact Nat.lt_succ_of_lt (h.fresh q hq)
      · intro q hq
        rcases mem_cons.mp hq with rfl | hq
        · exact ⟨leaf, hleaf, rfl, rfl, by cases hagg : leaf.cmd.aggregate <;> simp [newEntry, hagg]⟩
        · exact h.origin q hq
      · intro q hq
        rcases mem_cons.mp hq with rfl | hq
        · simp only [newEntry, length_take, paramsSize]
          omega
        · exact h.params q hq
      · intro q hq
        rcases mem_cons.mp hq with rfl | hq
        · exact fun _ _ => rfl
        · exact h.armed q hq
      · intro script
        rw [slots_cons]
        split_ifs with hnew
        · have hagg : leaf.cmd.aggregate = true := by
            by_contra hne
            simp [newEntry, hne] at hnew
          obtain ⟨hb, hle⟩ := walk_through hagg (by omega) hw
          have hscript : leaf.cmd.command = script := hnew.1
          rw [hscript] at hb
          have hval : (newEntry leaf argv b s.fresh).aggregate
              = (CheckReload.slots script s.cmds).sum + 1 := by
            simp [newEntry, hagg, hb]
          rw [hval]
          exact slotShapes_push (h.slots script) (by omega)
        · exact h.slots script

theorem Wf.timeout (h : Wf s) {q : Runq} (hq : q ∈ s.cmds) (connects writes forks : Bool) :
    Wf (timeout q connects writes forks s) := by
  unfold CheckReload.timeout
  by_cases hf : q.fcgi = true
  · rw [if_pos hf, fcgiSendCommand]
    by_cases hd : q.dontexec = true
    · simpa [hd] using h.remove _
    · have h' : Wf { s with requestId := s.requestId + 1 } := h.of_core rfl rfl h.armed
      simp only [hd, Bool.false_eq_true, if_false]
      split_ifs with hc hw ha
      · exact h'.update hq rfl fun _ _ => rfl
      · exact (h'.emit _).update hq rfl fun _ _ => rfl
      · exact (h'.emit _).update hq rfl fun _ _ => rfl
      · exact (h'.emit _).update hq rfl fun _ hpos => absurd hpos ha
  · rw [runCommandDetailed]
    split_ifs with hd hk ha
    · exact h.remove _
    · exact h.update hq rfl fun hfcgi => absurd hfcgi hf
    · exact h.update hq rfl fun hfcgi => absurd hfcgi hf
    · exact h.remove _

theorem Wf.socketReadFcgi (h : Wf s) {q : Runq} (hq : q ∈ s.cmds) (r : Record) :
    Wf (socketReadFcgi q r s) := by
  unfold CheckReload.socketReadFcgi
  split_ifs
  · exact h.remove q
  · exact h.update hq rfl (h.armed q hq)
  · exact h

theorem Step.wf {s t : State} {e : Event} (h : Wf s) (hstep : Step s e t) : Wf t := by
  obtain ⟨hen, rfl⟩ := hstep
  cases e with
  | request leaf argv alloc => exact (h.emit _).runCommand hen argv alloc
  | timeout q connects writes forks => exact h.timeout hen.1 connects writes forks
  | record q r => exact h.socketReadFcgi hen.1 r

lemma wf_init : Wf State.init :=
  ⟨by simp [State.init], by simp [State.init], by simp [State.init], by simp [State.init],
    by simp [State.init], by simp [State.init, slotShapes]⟩

/-- **Every queue the daemon reaches is well formed.** -/
theorem run_wf {es : List Event} (r : Run Step State.init es s) : Wf s :=
  r.invariant (fun _ _ _ => Step.wf) wf_init

/-- **The queue is bounded.**  A script has at most two counted entries, with different counts, and the
one counted `2` stands in front of the one counted `1`. -/
theorem queue_bounded {s : State} {es : List Event} (r : Run Step State.init es s) (script : String) :
    (slots script s.cmds).length ≤ 2 ∧ (∀ n ∈ slots script s.cmds, n = 1 ∨ n = 2) ∧
      (slots script s.cmds).Pairwise (· > ·) := by
  have shapes : ∀ L ∈ slotShapes, L.length ≤ 2 ∧ (∀ n ∈ L, n = 1 ∨ n = 2) ∧ L.Pairwise (· > ·) := by
    decide
  exact shapes _ ((run_wf r).slots script)

/-- Two reloads of the filter. -/
theorem queue_bounded_filter :
    let s := [Event.request filterReload [] true, .request filterReload [] true].foldl handle
      State.init
    slots filterReload.cmd.command s.cmds = [2, 1] ∧
      (slots filterReload.cmd.command s.cmds).length ≤ 2 ∧
      (∀ n ∈ slots filterReload.cmd.command s.cmds, n = 1 ∨ n = 2) ∧
      (slots filterReload.cmd.command s.cmds).Pairwise (· > ·) :=
  ⟨by decide +kernel, queue_bounded (run_of_enabled (by decide +kernel)) _⟩

section Leaf

variable {s : State} (h : Wf s) {leaf : Leaf} (hleaf : leaf ∈ leaves)
  (hagg : leaf.cmd.aggregate = true) (hfcgi : leaf.cmd.fcgicmd = true)
  {q : Runq} (hq : q ∈ s.cmds) (hc : q.command = leaf.cmd.command)

include h hleaf hagg hfcgi hq hc

lemma Wf.entry_flags : q.fcgi = true ∧ 0 < q.aggregate := by
  obtain ⟨leaf', hleaf', hcmd, hf, ha⟩ := h.origin q hq
  obtain ⟨hagg', hfcgi'⟩ := leaves_flags leaf' hleaf' leaf hleaf (hcmd.symm.trans hc)
  exact ⟨by rw [hf, hfcgi', hfcgi], ha.mpr (by rw [hagg', hagg])⟩

theorem Wf.armed_of_leaf : q.armed = true := by
  obtain ⟨hf, ha⟩ := h.entry_flags hleaf hagg hfcgi hq hc
  exact h.armed q hq hf ha

end Leaf

end FreeSense.CheckReload
