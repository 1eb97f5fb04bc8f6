import FreeSensePorts.Filterdns.Config

/-!
# What a parsed configuration looks like

`addRule_cases` says everything an accepted line does: one action more, at the end of the list, on
a host that was there or on a new one.  `Sys.Ids` lets an action or a host be told by its number.
`parseConfig_actions` reads the whole file back off the list.
-/

namespace FreeSense.Filterdns

open List

variable {s t : Sys}

/-- Numbers are given out once. -/
structure Sys.Ids (s : Sys) : Prop where
  actions : (s.actionList.map Action.id).Nodup
  actionsFresh : ∀ a ∈ s.actionList, a.id < s.fresh
  hosts : (s.threadList.map Host.id).Nodup
  hostsFresh : ∀ h ∈ s.threadList, h.id < s.fresh

def onHost (r : Rule) (id host : ℕ) : Action := { newAction r id with host := some host }

def Host.share (act : ℕ) (h : Host) : Host :=
  { h with refcnt := h.refcnt + 1, actions := h.actions ++ [act] }

lemma updateAction_snoc {l : List Action} {a : Action} (h : ∀ b ∈ l, b.id ≠ a.id)
    (f : Action → Action) :
    (l ++ [a]).map (fun b => if b.id = a.id then f b else b) = l ++ [f a] := by
  rw [map_append]
  congr 1
  · conv_rhs => rw [← map_id l]
    refine map_congr_left fun b hb => ?_
    rw [if_neg (h b hb), id]
  · simp

/-- **What an accepted line does.** -/
theorem addRule_cases (hids : ∀ a ∈ s.actionList, a.id < s.fresh) {r : Rule}
    (h : addRule r s = .ok t) :
    (∀ a ∈ s.actionList, a.host ≠ none → a.toRule ≠ r) ∧ t.kernel = s.kernel ∧
    ((∃ host, s.threadList.find? (Host.answersTo r.hostname) = some host ∧
        t.actionList = s.actionList ++ [onHost r s.fresh host.id] ∧
        t.threadList = s.threadList.map (fun h => if h.id = host.id then h.share s.fresh else h) ∧
        t.fresh = s.fresh + 1) ∨
      ∃ host, s.threadList.find? (Host.answersTo r.hostname) = none ∧
        newHost r.hostname (s.fresh + 1) s.fresh = some host ∧
        t.actionList = s.actionList ++ [onHost r s.fresh host.id] ∧
        t.threadList = s.threadList ++ [host] ∧ t.fresh = s.fresh + 2) := by
  have hne : ∀ b ∈ s.actionList, b.id ≠ (newAction r s.fresh).id := by
    intro b hb
    exact Nat.ne_of_lt (hids b hb)
  unfold addRule at h
  split_ifs at h with hdup
  have hnodup : ∀ a ∈ s.actionList, a.host ≠ none → a.toRule ≠ r := by
    intro a ha hhost hr
    refine hdup (any_eq_true.mpr ⟨a, ha, ?_⟩)
    simp [Action.duplicates, hhost, hr]
  refine ⟨hnodup, ?_⟩
  simp only [hostAdd] at h
  cases hfind : s.threadList.find? (Host.answersTo (newAction r s.fresh).hostname) with
  | some host =>
    simp only [hfind, Except.ok.injEq] at h
    subst h
    refine ⟨rfl, Or.inl ⟨host, hfind, ?_, rfl, rfl⟩⟩
    exact updateAction_snoc hne fun a => { a with host := some host.id }
  | none =>
    simp only [hfind] at h
    cases hnew : newHost (newAction r s.fresh).hostname (s.fresh + 1) (newAction r s.fresh).id with
    | none => simp [hnew] at h
    | some host =>
      simp only [hnew, Option.bind_eq_bind, Option.bind_some, Option.pure_def,
        Except.ok.injEq] at h
      subst h
      refine ⟨rfl, Or.inr ⟨host, hfind, hnew, ?_, rfl, rfl⟩⟩
      exact updateAction_snoc hne fun a => { a with host := some host.id }

lemma newHost_eq {name : Text} {id act : ℕ} {h : Host} (hnew : newHost name id act = some h) :
    h.id = id ∧ h.rnh = [] ∧ h.refcnt = 1 ∧ h.state = .STOPPED ∧ h.actions = [act] ∧ h.sem = 0 := by
  unfold newHost at hnew
  simp only at hnew
  split_ifs at hnew <;>
  · rw [Option.some.injEq] at hnew
    subst hnew
    exact ⟨rfl, rfl, rfl, rfl, rfl, rfl⟩

@[simp] lemma Host.share_id (act : ℕ) (h : Host) : (h.share act).id = h.id := rfl

lemma map_share_id (act i : ℕ) (l : List Host) :
    (l.map fun h => if h.id = i then h.share act else h).map Host.id = l.map Host.id := by
  rw [map_map]
  refine map_congr_left fun h _ => ?_
  by_cases hi : h.id = i <;> simp [hi]

/-- **Where actions and hosts come from**: one action is new, and a host is an old one, perhaps with this
action more, or has been made for it. -/
lemma addRule_mem (hids : ∀ a ∈ s.actionList, a.id < s.fresh) {r : Rule} (h : addRule r s = .ok t) :
    (∃ host, t.actionList = s.actionList ++ [onHost r s.fresh host]) ∧ s.fresh < t.fresh ∧
      ∀ k' ∈ t.threadList, k' ∈ s.threadList ∨ (∃ k ∈ s.threadList, k' = k.share s.fresh) ∨
        s.threadList.find? (Host.answersTo r.hostname) = none ∧
          newHost r.hostname (s.fresh + 1) s.fresh = some k' := by
  obtain ⟨-, -, ⟨host, -, hact, hthr, hfresh⟩ | ⟨host, hfind, hnew, hact, hthr, hfresh⟩⟩ :=
    addRule_cases hids h
  · refine ⟨⟨_, hact⟩, by omega, fun k' hk' => ?_⟩
    rw [hthr] at hk'
    obtain ⟨k, hk, rfl⟩ := mem_map.mp hk'
    split_ifs
    · exact Or.inr (Or.inl ⟨k, hk, rfl⟩)
    · exact Or.inl hk
  · refine ⟨⟨_, hact⟩, by omega, fun k' hk' => ?_⟩
    rw [hthr, mem_append, mem_singleton] at hk'
    rcases hk' with hk' | rfl
    · exact Or.inl hk'
    · exact Or.inr (Or.inr ⟨hfind, hnew⟩)

lemma addRule_idsFresh (hids : ∀ a ∈ s.actionList, a.id < s.fresh) {r : Rule}
    (h : addRule r s = .ok t) : ∀ a ∈ t.actionList, a.id < t.fresh := by
  obtain ⟨⟨host, hact⟩, hlt, -⟩ := addRule_mem hids h
  intro a ha
  rw [hact, mem_append, mem_singleton] at ha
  rcases ha with ha | rfl
  · exact (hids a ha).trans hlt
  · exact hlt

@[simp] lemma create_id (a : Action) : a.create.id = a.id := by
  unfold Action.create
  split_ifs <;> rfl

/-! ## A whole file -/

lemma dnsrule_ok {r : Dnsrule} (h : dnsrule s r = .ok t) : addRule r.rule s = .ok t := by
  cases r with
  | filter ftype hostname tablename anchor pipe command =>
    simp only [dnsrule] at h
    split_ifs at h
    exact h
  | cmd hostname command =>
    simp only [dnsrule] at h
    split_ifs at h
    exact h

lemma parseConfig_nil : parseConfig [] s = .ok s := rfl

lemma parseConfig_cons {r : Dnsrule} {rules : List Dnsrule} (h : parseConfig (r :: rules) s = .ok t) :
    ∃ u, dnsrule s r = .ok u ∧ parseConfig rules u = .ok t := by
  unfold parseConfig at h
  rw [foldlM_cons] at h
  cases hr : dnsrule s r with
  | error e => simp [hr, bind, Except.bind] at h
  | ok u =>
    rw [hr] at h
    exact ⟨u, rfl, h⟩

lemma startup_ok {rules : List Dnsrule} {s : Sys} (h : startup rules = .ok s) :
    ∃ parsed, parseConfig rules .empty = .ok parsed ∧ s = startThreads parsed := by
  cases hparse : parseConfig rules .empty with
  | error e => simp [startup, hparse, bind, Except.bind] at h
  | ok parsed =>
    simp only [startup, hparse, bind, Except.bind, pure, Except.pure, Except.ok.injEq] at h
    exact ⟨parsed, rfl, h.symm⟩

/-- What every accepted line preserves, an accepted file preserves. -/
theorem parseConfig_invariant {I : Sys → Prop}
    (hline : ∀ {s t : Sys} {r : Rule}, I s → addRule r s = .ok t → I t) :
    ∀ {rules : List Dnsrule} {s t : Sys}, parseConfig rules s = .ok t → I s → I t
  | [], s, t, h, hs => by
    rw [parseConfig_nil, Except.ok.injEq] at h
    exact h ▸ hs
  | r :: rules, s, t, h, hs => by
    obtain ⟨u, hu, ht⟩ := parseConfig_cons h
    exact parseConfig_invariant hline ht (hline hs (dnsrule_ok hu))

/-- **The file, read back.**  Parsing adds one action for each line, in order, each new and without a
thread. -/
theorem parseConfig_actions : ∀ {rules : List Dnsrule} {s t : Sys},
    (∀ a ∈ s.actionList, a.id < s.fresh) → parseConfig rules s = .ok t →
    ∃ new, t.actionList = s.actionList ++ new ∧ new.map Action.toRule = rules.map Dnsrule.rule ∧
      ∀ a ∈ new, s.fresh ≤ a.id ∧ a.state = .STOPPED
  | [], s, t, _, h => by
    rw [parseConfig_nil, Except.ok.injEq] at h
    exact ⟨[], by simp [h], rfl, by simp⟩
  | r :: rules, s, t, hs, h => by
    obtain ⟨u, hr, ht⟩ := parseConfig_cons h
    have hu := dnsrule_ok hr
    obtain ⟨new, hnew, hrules, hids⟩ := parseConfig_actions (addRule_idsFresh hs hu) ht
    obtain ⟨⟨host, hact⟩, hf, -⟩ := addRule_mem hs hu
    refine ⟨onHost r.rule s.fresh host :: new, ?_, ?_, ?_⟩
    · rw [hnew, hact, append_assoc, singleton_append]
    · rw [map_cons, hrules]
      rfl
    · intro a ha
      rcases mem_cons.mp ha with rfl | ha
      · exact ⟨Nat.le_refl _, rfl⟩
      · exact ⟨hf.le.trans (hids a ha).1, (hids a ha).2⟩

end FreeSense.Filterdns
