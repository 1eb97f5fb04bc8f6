import FreeSensePorts.Filterdns.Counts
import FreeSensePorts.Filterdns.Entries

/-!
# Whose host an action watches

An action names a host, with a netmask behind a `/` or without one.  `host_add` looks for a host to
share, and its comparison (`Host.answersTo`) reads as many characters of the host as the *new* name has
before its first `/`, so that `10.0.0.1/32` is content with `10.0.0.10`, and no netmask.  The netmask of
a host is an `int`, which need not hold the number that is written.

Nothing else changes what an action watches: every host comes from one line (`Made`), and keeps its
name and masks but for those of an IPv4 literal (`Carries`).  So whether all actions of a run watch their
own hosts, and what masks a name gets, is a matter of the lines the hosts were made for.
-/

namespace FreeSense.Filterdns

open List

def beforeMask (name : Text) : Text :=
  if '/' ∈ name then name.take (name.length - (afterSlash name).length - 1) else name

/-- The netmask of a name: the number behind its last `/`, and `-1` without one. -/
def netmask (name : Text) : Option ℤ :=
  if '/' ∈ name then Text.written (afterSlash name) else some (-1)

/-- What a host keeps of it: `strtol` cuts the number to a `long`, and the assignment to an `int`. -/
def narrowed (n : ℤ) : ℤ := Text.toInt (max (-2 ^ 63) (min (2 ^ 63 - 1) n))

lemma narrowed_range (n : ℤ) : -2 ^ 31 ≤ narrowed n ∧ narrowed n < 2 ^ 31 := by
  have hle := Int.le_bmod (x := max (-2 ^ 63) (min (2 ^ 63 - 1) n)) (m := 2 ^ 32) (by decide)
  have hlt := Int.bmod_lt (x := max (-2 ^ 63) (min (2 ^ 63 - 1) n)) (m := 2 ^ 32) (by decide)
  rw [narrowed, Text.toInt]
  omega

lemma narrowed_eq_iff {n : ℤ} : narrowed n = n ↔ -2 ^ 31 ≤ n ∧ n < 2 ^ 31 := by
  refine ⟨fun h => h ▸ narrowed_range n, fun h => ?_⟩
  rw [narrowed, min_eq_right (by omega), max_eq_right (by omega), Text.toInt,
    Int.bmod_eq_of_le (by omega) (by omega)]

/-- The host is the one the name says.  Its thread rewrites `mask` when it starts. -/
structure Host.Watches (name : Text) (h : Host) : Prop where
  hostname : Text.eqIgnoreCase h.hostname (beforeMask name) = true
  mask6 : netmask name = some h.mask6
  mask : h.state ≠ .RUNNING → netmask name = some h.mask

def Conf.Own (c : Conf) : Prop :=
  ∀ a ∈ c.acts, ∀ h ∈ c.sys.threadList, a.host = some h.id → h.Watches a.hostname

/-! ## What becomes of a host -/

/-- What `check_hostname` makes of the mask of an IPv4 literal. -/
def normalised (mask : ℤ) : ℤ := if mask = -1 ∨ mask > 32 then 32 else mask

lemma normalised_idem (mask : ℤ) : normalised (normalised mask) = normalised mask := by
  unfold normalised
  split_ifs <;> omega

/-- The operation starts the thread of the host, whose name spells an IPv4 address. -/
def Op.normalises (i : ℕ) : Op → Bool
  | .event (.hostStart j (some (.in4 _ _))) => i = j
  | _ => false

/-- From `g` to `k` the name and the masks stay, but for the normalisation. -/
structure Carries (normal : Bool) (g k : Host) : Prop where
  id : k.id = g.id
  hostname : k.hostname = g.hostname
  mask6 : k.mask6 = g.mask6
  mask : k.mask = if normal then normalised g.mask else g.mask
  running : g.state = .RUNNING ∨ normal = true → k.state = .RUNNING

lemma Carries.of_kept {g k : Host} (h : g.Kept k) : Carries false g k :=
  ⟨h.id, h.hostname, congrArg Prod.snd h.masks, congrArg Prod.fst h.masks, by simpa using h.running.mpr⟩

lemma Host.Watches.kept {normal : Bool} {g k : Host} {name : Text} (hw : g.Watches name)
    (h : Carries normal g k) : k.Watches name := by
  refine ⟨h.hostname ▸ hw.hostname, h.mask6 ▸ hw.mask6, fun hne => ?_⟩
  have hnot : ¬(g.state = .RUNNING ∨ normal = true) := mt h.running hne
  rw [not_or] at hnot
  rw [h.mask, if_neg hnot.2]
  exact hw.mask hnot.1

lemma clearConfig_hosts (s : Sys) : HostsKept s.threadList (clearConfig s).threadList :=
  (clearConfig_invariant (P := fun t => HostsKept s.threadList t.threadList)
    (fun {act rest u} _ hu => hu.trans (actionDel_hosts act { u with actionList := rest }))
    fun h hh => ⟨h, hh, .refl h⟩).1

/-- **An event keeps the hosts**; only the start of a thread may normalise a mask. -/
lemma carries_event {s t : Sys} (hs : s.Ids) {e : Event} (hstep : Step s e t) {k : Host}
    (hk : k ∈ t.threadList) : ∃ g ∈ s.threadList, Carries ((Op.event e).normalises g.id) g k := by
  obtain ⟨hen, rfl⟩ := hstep
  cases e with
  | hostStart i literal =>
    obtain ⟨g, hg, rfl, -⟩ := hen
    rcases hs.mem_updateHost hg hk with ⟨hk, hne⟩ | rfl
    · refine ⟨k, hk, ?_⟩
      have hnot : (Op.event (.hostStart g.id literal)).normalises k.id = false := by
        rcases literal with _ | ⟨a, rest⟩ | ⟨a, rest⟩ | ⟨family, data⟩ <;> simp [Op.normalises, hne]
      rw [hnot]
      exact .of_kept (.refl k)
    · refine ⟨g, hg, ?_⟩
      rcases literal with _ | ⟨a, rest⟩ | ⟨a, rest⟩ | ⟨family, data⟩
      · exact ⟨rfl, rfl, rfl, rfl, fun _ => rfl⟩
      · have hnormal : (Op.event (.hostStart g.id (some (.in4 a rest)))).normalises g.id = true := by
          simp [Op.normalises]
        exact ⟨rfl, rfl, rfl, by rw [hnormal]; rfl, fun _ => rfl⟩
      · exact ⟨rfl, rfl, rfl, rfl, fun _ => rfl⟩
      · exact ⟨rfl, rfl, rfl, rfl, fun _ => rfl⟩
  | hostPass g reply =>
    rcases (mem_hostPass hs hen.1 _).1 k hk with ⟨hk, -⟩ | rfl
    · exact ⟨k, hk, .of_kept (.refl k)⟩
    · exact ⟨g, hen.1, rfl, rfl, rfl, rfl, fun hor => hor.resolve_right Bool.false_ne_true⟩
  | actionPass act ok => exact ⟨k, (of_actionPass act ok s).1 ▸ hk, .of_kept (.refl k)⟩

/-- **Where a host comes from**: it was there before, or the operation is the line it is made for. -/
theorem host_of_step {c d : Conf} (hc : c.Counted) {op : Op} (hstep : Conf.Step c op d) {k : Host}
    (hk : k ∈ d.sys.threadList) : (∃ g ∈ c.sys.threadList, Carries (op.normalises g.id) g k) ∨
      ∃ r, op = .line r ∧ c.sys.threadList.find? (Host.answersTo r.rule.hostname) = none ∧
        newHost r.rule.hostname (c.sys.fresh + 1) c.sys.fresh = some k := by
  have hkept : HostsKept c.sys.threadList d.sys.threadList → (∀ i, op.normalises i = false) →
      ∃ g ∈ c.sys.threadList, Carries (op.normalises g.id) g k := by
    intro hkept hop
    obtain ⟨g, hg, h⟩ := hkept k hk
    exact ⟨g, hg, by rw [hop]; exact .of_kept h⟩
  cases op with
  | line r =>
    obtain hk | ⟨g, hg, rfl⟩ | ⟨hfind, hnew⟩ :=
      (addRule_mem hc.sys.actionsFresh (dnsrule_ok hstep.1)).2.2 k hk
    · exact Or.inl ⟨k, hk, .of_kept (.refl k)⟩
    · exact Or.inl ⟨g, hg, .of_kept ⟨rfl, rfl, rfl, rfl, Iff.rfl⟩⟩
    · exact Or.inr ⟨r, rfl, hfind, hnew⟩
  | start =>
    obtain rfl : d = _ := hstep
    exact Or.inl (hkept (HostsKept.map kept_create) fun _ => rfl)
  | setAside =>
    obtain rfl : d = _ := hstep
    exact Or.inl ⟨k, hk, .of_kept (.refl k)⟩
  | merge =>
    obtain rfl : d = _ := hstep
    exact Or.inl (hkept (mergeParsed_hosts c) fun _ => rfl)
  | clear =>
    obtain rfl : d = _ := hstep
    exact Or.inl (hkept (clearConfig_hosts c.sys) fun _ => rfl)
  | event e => exact Or.inl (carries_event hc.sys hstep.1 hk)

lemma fresh_of_step {c d : Conf} (hc : c.Counted) {op : Op} (hstep : Conf.Step c op d) :
    c.sys.fresh ≤ d.sys.fresh := by
  have hdel : ∀ (act : Action) (s : Sys), (actionDel act s).fresh = s.fresh := by
    intro act s
    unfold actionDel tableCleanup hostDel
    cases act.host <;> rfl
  cases op with
  | line r => exact (addRule_mem hc.sys.actionsFresh (dnsrule_ok hstep.1)).2.1.le
  | start => exact hstep ▸ le_rfl
  | setAside => exact hstep ▸ le_rfl
  | merge =>
    obtain rfl : d = _ := hstep
    exact (mergeLoops_invariant (P := fun _ n => n = c.sys.fresh)
      (fun act s hs => (hdel act s).trans hs) rfl).ge
  | clear =>
    obtain rfl : d = _ := hstep
    exact ((clearConfig_invariant (P := fun s => s.fresh = c.sys.fresh)
      (fun _ hs => (hdel _ _).trans hs) rfl).1).ge
  | event e =>
    obtain ⟨⟨-, hd⟩, -⟩ := hstep
    rw [hd]
    cases e with
    | hostStart i literal => exact le_rfl
    | hostPass g reply =>
      rw [handle, hostPass]
      split_ifs <;> exact le_rfl
    | actionPass act ok =>
      obtain ⟨-, heq⟩ | ⟨g, -, heq⟩ := actionPass_cases act ok c.sys <;> rw [handle, heq]

/-! ## The line a host was made for -/

/-- The host as a line makes it; `normal` says whether its mask has been normalised since. -/
structure Host.MadeFor (name : Text) (normal : Bool) (h : Host) : Prop where
  hostname : h.hostname = beforeMask name
  masks : ∃ n, netmask name = some n ∧ h.mask6 = narrowed n ∧
    h.mask = if normal then normalised (narrowed n) else narrowed n
  running : normal = true → h.state = .RUNNING

lemma madeFor_newHost {name : Text} {id act : ℕ} {h : Host} (hnew : newHost name id act = some h) :
    h.MadeFor name false := by
  unfold newHost at hnew
  by_cases hslash : '/' ∈ name
  · simp only [hslash, if_true] at hnew
    split_ifs at hnew with hbad
    simp only [not_or, not_not] at hbad
    obtain rfl := Option.some.inj hnew
    obtain ⟨n, hn, hv⟩ := Text.strtol_eq_nil.mp ⟨Prod.ext rfl hbad.1, fun hnil =>
      hbad.2.2 (hbad.1.trans hnil.symm)⟩
    have hmask : Text.toInt (Text.strtol (afterSlash name)).1 = narrowed n :=
      congrArg Text.toInt hv
    exact ⟨by simp [beforeMask, hslash], ⟨n, by simp [netmask, hslash, hn], hmask, hmask⟩, nofun⟩
  · simp only [hslash, if_false, Option.some.injEq] at hnew
    subst hnew
    exact ⟨by simp [beforeMask, hslash], ⟨-1, by simp [netmask, hslash], rfl, rfl⟩, nofun⟩

lemma Host.MadeFor.kept {name : Text} {normal b : Bool} {g k : Host} (h : g.MadeFor name normal)
    (hk : Carries b g k) : k.MadeFor name (normal || b) := by
  obtain ⟨n, hn, hmask6, hmask⟩ := h.masks
  refine ⟨hk.hostname.trans h.hostname, ⟨n, hn, hk.mask6.trans hmask6, ?_⟩, fun hor => ?_⟩
  · rw [hk.mask, hmask]
    cases normal <;> cases b <;> simp [normalised_idem]
  · rw [Bool.or_eq_true] at hor
    exact hk.running (hor.imp_left h.running)

/-- A line of the run has put the host with this number on the list. -/
def Made (ops : List Op) (c : Conf) (i : ℕ) (name : Text) (normal : Bool) : Prop :=
  ∃ ops₁ r ops₂ u v, ops = ops₁ ++ .line r :: ops₂ ∧ Run Conf.Step .init ops₁ u ∧
    Conf.Step u (.line r) v ∧ Run Conf.Step v ops₂ c ∧ (∀ k ∈ u.sys.threadList, k.id ≠ i) ∧
    (∃ k ∈ v.sys.threadList, k.id = i) ∧ r.rule.hostname = name ∧
    normal = ops₂.any (Op.normalises i)

/-- **Every host was made for a line.** -/
theorem exists_made {ops : List Op} {c : Conf} (run : Run Conf.Step .init ops c) {h : Host}
    (hh : h ∈ c.sys.threadList) : ∃ name normal, Made ops c h.id name normal := by
  obtain ⟨ops₁, op, ops₂, u, v, rfl, r₁, hstep, r₂, hno, hyes⟩ :=
    run.exists_entry (P := fun c => ∃ k ∈ c.sys.threadList, k.id = h.id)
      (by simp [Conf.init, Sys.empty]) ⟨h, hh, rfl⟩
  obtain ⟨k, hk, hid⟩ := hyes
  rcases host_of_step (run_counted r₁) hstep hk with ⟨g, hg, hkept⟩ | ⟨r, rfl, -⟩
  · exact absurd ⟨g, hg, hkept.id.symm.trans hid⟩ hno
  · exact ⟨_, _, ops₁, r, ops₂, u, v, rfl, r₁, hstep, r₂, fun k hk hid => hno ⟨k, hk, hid⟩,
      ⟨k, hk, hid⟩, rfl, rfl⟩

lemma madeFor_run {ops : List Op} {c d : Conf} (run : Run Conf.Step c ops d) {i : ℕ} {name : Text}
    (hc : c.Counted) (hi : i < c.sys.fresh) {normal : Bool}
    (h : ∀ k ∈ c.sys.threadList, k.id = i → k.MadeFor name normal) :
    ∀ k ∈ d.sys.threadList, k.id = i → k.MadeFor name (normal || ops.any (Op.normalises i)) := by
  induction run generalizing normal with
  | nil c => simpa using h
  | @cons c u d op ops hstep run ih =>
    rw [any_cons, ← Bool.or_assoc]
    refine ih (hc.step hstep) (hi.trans_le (fresh_of_step hc hstep)) fun k hk hid => ?_
    rcases host_of_step hc hstep hk with ⟨g, hg, hkept⟩ | ⟨r, -, -, hnew⟩
    · have hgid : g.id = i := hkept.id.symm.trans hid
      exact (h g hg hgid).kept (hgid ▸ hkept)
    · have := (newHost_eq hnew).1
      omega

/-- **The host is as its line made it.** -/
theorem Made.madeFor {ops : List Op} {c : Conf} {h : Host} {name : Text} {normal : Bool}
    (hm : Made ops c h.id name normal) (hh : h ∈ c.sys.threadList) : h.MadeFor name normal := by
  obtain ⟨ops₁, r, ops₂, u, v, -, r₁, hstep, r₂, hno, ⟨k, hk, hid⟩, rfl, rfl⟩ := hm
  have hu := run_counted r₁
  have hv := hu.step hstep
  refine @madeFor_run _ _ _ r₂ _ _ hv (hid ▸ hv.hostIdsFresh k hk) false (fun k' hk' hid' => ?_) h
    hh rfl
  rcases host_of_step hu hstep hk' with ⟨g, hg, hkept⟩ | ⟨r', heq, -, hnew⟩
  · exact absurd (hkept.id.symm.trans hid') (hno g hg)
  · cases heq
    exact madeFor_newHost hnew

/-! ## Actions and their hosts -/

/-- A line that finds a host finds its own, and one that makes a host can store its netmask. -/
def Op.FindsOwn (c : Conf) : Op → Prop
  | .line r => (∀ h, c.sys.threadList.find? (Host.answersTo r.rule.hostname) = some h →
        h.Watches r.rule.hostname) ∧
      (c.sys.threadList.find? (Host.answersTo r.rule.hostname) = none →
        ∀ n ∈ netmask r.rule.hostname, narrowed n = n)
  | _ => True

lemma watches_newHost {name : Text} {id act : ℕ} {h : Host} (hnew : newHost name id act = some h) :
    h.Watches name ↔ ∀ n ∈ netmask name, narrowed n = n := by
  obtain ⟨hname, ⟨n, hn, hmask6, hmask⟩, -⟩ := madeFor_newHost hnew
  have hall : (∀ m ∈ netmask name, narrowed m = m) ↔ narrowed n = n := by simp [hn]
  rw [hall]
  constructor
  · intro hw
    rw [← hmask6]
    exact (Option.some.inj (hn.symm.trans hw.mask6)).symm
  · intro heq
    rw [heq] at hmask6
    rw [if_neg Bool.false_ne_true, heq] at hmask
    exact ⟨by rw [hname]; simp [Text.eqIgnoreCase], by rw [hn, hmask6], fun _ => by rw [hn, hmask]⟩

lemma watches_share {name : Text} {act : ℕ} {h : Host} :
    (h.share act).Watches name ↔ h.Watches name :=
  ⟨fun hw => ⟨hw.hostname, hw.mask6, hw.mask⟩, fun hw => ⟨hw.hostname, hw.mask6, hw.mask⟩⟩

/-- The new action of a line watches its own host exactly if the line finds its own. -/
lemma line_host {c : Conf} {s : Sys} {r : Dnsrule} (hc : c.Counted) (hline : dnsrule c.sys r = .ok s) :
    ∃ k ∈ s.threadList, s.actionList = c.sys.actionList ++ [onHost r.rule c.sys.fresh k.id] ∧
      (k.Watches r.rule.hostname ↔ (Op.line r).FindsOwn c) := by
  obtain ⟨-, -, ⟨g, hfind, hact, hthr, -⟩ | ⟨g, hfind, hnew, hact, hthr, -⟩⟩ :=
    addRule_cases hc.sys.actionsFresh (dnsrule_ok hline)
  · refine ⟨g.share c.sys.fresh, ?_, hact, ?_⟩
    · rw [hthr]
      exact mem_map.mpr ⟨g, mem_of_find?_eq_some hfind, if_pos rfl⟩
    · rw [watches_share]
      simp [Op.FindsOwn, hfind]
  · refine ⟨g, by simp [hthr], hact, ?_⟩
    rw [watches_newHost hnew]
    simp [Op.FindsOwn, hfind]

/-- Whatever is not a line leaves the actions on their hosts. -/
lemma acts_of_step {c d : Conf} (hc : c.Counted) {op : Op} (hstep : Conf.Step c op d) (hop : ∀ r, op ≠ .line r) :
    ∀ a ∈ d.acts, ∃ b ∈ c.acts, a.hostname = b.hostname ∧ a.host = b.host := by
  have hcreate : ∀ b : Action, b.create.hostname = b.hostname ∧ b.create.host = b.host := fun b =>
    ⟨congrArg Rule.hostname (create_toRule b), congrArg Prod.snd (link_create b)⟩
  intro a ha
  cases op with
  | line r => exact absurd rfl (hop r)
  | start =>
    obtain rfl : d = _ := hstep
    simp only [Conf.acts, startThreads, mem_append, mem_map] at ha ⊢
    rcases ha with ⟨b, hb, rfl⟩ | ha
    · exact ⟨b, Or.inl hb, hcreate b⟩
    · exact ⟨a, Or.inr ha, rfl, rfl⟩
  | setAside =>
    obtain rfl : d = _ := hstep
    exact ⟨a, by simpa [Conf.acts, or_comm] using ha, rfl, rfl⟩
  | merge =>
    obtain rfl : d = _ := hstep
    obtain ⟨htmp, -, hact⟩ := mergeLoops_eq c
    have hlist : (mergeParsed c).acts
        = (KeyMatch.matchAll Action.key c.tmp c.sys.actionList).2.map Action.create := by
      simp [Conf.acts, mergeParsed, postRunning, startThreads, htmp, hact]
    rw [hlist] at ha
    obtain ⟨b, hb, rfl⟩ := mem_map.mp ha
    have hsub := (KeyMatch.matchAll_subperm c.tmp c.sys.actionList).subset (mem_append_right _ hb)
    exact ⟨b, mem_append.mpr (mem_append.mp hsub).symm, hcreate b⟩
  | clear =>
    obtain rfl : d = _ := hstep
    obtain ⟨-, hnil⟩ := clearConfig_invariant (P := fun _ => True) (fun _ h => h) (s := c.sys) trivial
    simp only [Conf.acts, hnil, nil_append] at ha
    exact ⟨a, mem_append_right _ ha, rfl, rfl⟩
  | event e =>
    obtain ⟨⟨hen, hd⟩, htmp⟩ := hstep
    cases e with
    | hostStart i literal =>
      refine ⟨a, ?_, rfl, rfl⟩
      simpa [Conf.acts, hd, htmp, handle, hostStart, Sys.updateHost] using ha
    | hostPass g reply =>
      rw [Conf.acts, hd, htmp, mem_append] at ha
      rcases ha with ha | ha
      · obtain ⟨b, hb, n, rfl, -⟩ := (mem_hostPass hc.sys hen.1 _).2 a ha
        exact ⟨b, mem_append_left _ hb, rfl, rfl⟩
      · exact ⟨a, mem_append_right _ ha, rfl, rfl⟩
    | actionPass act ok =>
      rw [Conf.acts, hd, htmp, mem_append] at ha
      rcases ha with ha | ha
      · rcases (of_actionPass act ok c.sys).2 a ha with ha | ⟨g, -, rfl⟩
        · exact ⟨a, mem_append_left _ ha, rfl, rfl⟩
        · exact ⟨act, mem_append_left _ hen.1, rfl, rfl⟩
      · exact ⟨a, mem_append_right _ ha, rfl, rfl⟩

theorem own_step {c d : Conf} (hown : c.Own) (hc : c.Counted) {op : Op} (hstep : Conf.Step c op d) :
    d.Own ↔ op.FindsOwn c := by
  -- whoever was there before still watches its host
  have hold : ∀ {a : Action}, a ∈ c.acts → ∀ k ∈ d.sys.threadList, a.host = some k.id →
      k.Watches a.hostname := by
    intro a ha k hk hhost
    rcases host_of_step hc hstep hk with ⟨g, hg, hkept⟩ | ⟨r, -, -, hnew⟩
    · exact (hown a ha g hg (by rw [hhost, hkept.id])).kept hkept
    · obtain ⟨g, hg, hag⟩ := hc.attached _ (mem_map_of_mem ha)
      have hid : k.id = g.id := Option.some.inj (hhost.symm.trans hag)
      have := hc.hostIdsFresh g hg
      have := (newHost_eq hnew).1
      omega
  by_cases hop : ∃ r, op = .line r
  · obtain ⟨r, rfl⟩ := hop
    obtain ⟨k, hk, hact, hiff⟩ := line_host hc hstep.1
    have hacts : ∀ a, a ∈ d.acts ↔ a ∈ c.acts ∨ a = onHost r.rule c.sys.fresh k.id := by
      simp only [Conf.acts, hact, hstep.2, mem_append, mem_singleton]
      tauto
    rw [← hiff]
    refine ⟨fun hd => hd _ ((hacts _).mpr (Or.inr rfl)) k hk rfl, fun hw a ha k' hk' hhost => ?_⟩
    rcases (hacts a).mp ha with ha | rfl
    · exact hold ha k' hk' hhost
    · obtain rfl := (hc.step hstep).sys.host_eq hk hk' (Option.some.inj hhost)
      exact hw
  · have hline : ∀ r, op ≠ .line r := fun r h => hop ⟨r, h⟩
    refine iff_of_true (fun a ha k hk hhost => ?_) ?_
    · obtain ⟨b, hb, hname, hbhost⟩ := acts_of_step hc hstep hline a ha
      rw [hname]
      exact hold hb k hk (hbhost ▸ hhost)
    · cases op with
      | line r => exact absurd rfl (hline r)
      | _ => trivial

lemma own_iff_findsOwn (ops : List Op) (c : Conf) :
    (∀ ops₁ ops₂ u, ops = ops₁ ++ ops₂ → Run Conf.Step .init ops₁ u → Run Conf.Step u ops₂ c → u.Own) ↔
      ∀ ops₁ op ops₂ u v, ops = ops₁ ++ op :: ops₂ → Run Conf.Step .init ops₁ u →
        Conf.Step u op v → Run Conf.Step v ops₂ c → op.FindsOwn u :=
  Run.forall_iff (I := Conf.Counted) (fun _ _ _ h hstep => h.step hstep)
    (fun _ _ _ h hown hstep => own_step hown h hstep) (run_counted (.nil _))
    (by simp [Conf.Own, Conf.acts, Conf.init, Sys.empty])

/-- The netmask of a name is an `int`. -/
def NetmaskIsInt (name : Text) : Prop := ∀ n ∈ netmask name, -2 ^ 31 ≤ n ∧ n < 2 ^ 31

/-- Two names with the same part before the netmask, up to case, and the same netmask. -/
def SameTarget (old new : Text) : Prop :=
  Text.eqIgnoreCase (beforeMask old) (beforeMask new) = true ∧ netmask old = netmask new

/-- A netmask that is written is a number up to 128. -/
def NetmaskFits (name : Text) : Prop := '/' ∈ name → ∃ n, netmask name = some n ∧ 0 ≤ n ∧ n ≤ 128

/-- What is stored for the old name is what the new one says, and has not been normalised away. -/
def TakesOver (old : Text) (normal : Bool) (new : Text) : Prop :=
  (netmask old).map narrowed = netmask new ∧
    (normal = true → '/' ∈ new ∧ ∀ n ∈ netmask new, n ≤ 32)

lemma Host.MadeFor.masksAsWritten_iff {old new : Text} {normal : Bool} {h : Host}
    (hm : h.MadeFor old normal) :
    h.MasksAsWritten new ↔ NetmaskFits new ∧ TakesOver old normal new := by
  obtain ⟨m, hm₁, hmask6, hmask⟩ := hm.masks
  rw [Host.MasksAsWritten, NetmaskFits, TakesOver, hm₁, Option.map_some, ← hmask6]
  rw [← hmask6] at hmask
  by_cases hslash : '/' ∈ new
  · simp only [hslash, not_true_eq_false, false_and, false_or, true_and, forall_const, netmask,
      if_true]
    constructor
    · rintro ⟨n, hn, h0, h128, hmn, h6⟩
      refine ⟨⟨n, hn, h0, h128⟩, by rw [hn, h6], fun hnormal k hk => ?_⟩
      rw [hnormal, if_pos rfl, normalised] at hmask
      obtain rfl : n = k := Option.some.inj (hn.symm.trans hk)
      split_ifs at hmask <;> omega
    · rintro ⟨⟨n, hn, h0, h128⟩, h6, hsmall⟩
      obtain rfl : h.mask6 = n := Option.some.inj (h6.trans hn)
      refine ⟨_, hn, h0, h128, ?_, rfl⟩
      cases normal with
      | false => exact hmask
      | true =>
        have := hsmall rfl _ hn
        rw [hmask, if_pos rfl, normalised, if_neg (by omega)]
  · simp only [hslash, not_false_eq_true, true_and, false_and, or_false, false_imp_iff, netmask,
      if_false, imp_false, Option.some.injEq, Bool.not_eq_true]
    cases normal with
    | false => simp [hmask]
    | true =>
      refine iff_of_false (fun hboth => ?_) (by simp)
      rw [hmask, hboth.2] at hboth
      exact absurd hboth.1 (by decide)

lemma newHost_masksAsWritten {name : Text} {id act : ℕ} {g : Host}
    (hnew : newHost name id act = some g) : g.MasksAsWritten name ↔ NetmaskFits name := by
  have hm := madeFor_newHost hnew
  rw [hm.masksAsWritten_iff, and_iff_left_iff_imp]
  intro hfits
  refine ⟨?_, nofun⟩
  by_cases hslash : '/' ∈ name
  · obtain ⟨n, hn, h0, h128⟩ := hfits hslash
    rw [hn, Option.map_some, narrowed_eq_iff.mpr (by omega)]
  · simp [netmask, hslash, narrowed, Text.toInt]

/-- **Which names are stored as they are written.**  In a reachable state `host_add` gives the action a
host.  Its masks are those of the name exactly if the name has no netmask or a number up to 128 and, for
a host that is there, the line it was made for has left the same; and then `pf_tableentry` calls
`set_ipmask` with at most 128 bits for every IPv6 address, which writes its four words only. -/
theorem hostAdd_masks_iff {ops : List Op} {c : Conf} (run : Run Conf.Step .init ops c) {act : Action}
    {s t : Sys} (hs : s.threadList = c.sys.threadList) (hact : act ∈ s.actionList)
    (h : hostAdd act s = some t) :
    ∃ g ∈ t.threadList, (∃ a ∈ t.actionList, a.id = act.id ∧ a.host = some g.id) ∧
      (g.MasksAsWritten act.hostname ↔ NetmaskFits act.hostname ∧
        ∀ k, s.threadList.find? (Host.answersTo act.hostname) = some k →
          ∀ name normal, Made ops c k.id name normal → TakesOver name normal act.hostname) ∧
      (g.MasksAsWritten act.hostname → ∀ (r : Rule) (a : BitVec 128) (rest : List UInt8)
        (table : Table) (net : Net), pfTableentry r (some g) (.in6 a rest) = some (table, net) →
          net.len.toNat ≤ 128 ∧ ∀ i ∈ ipmaskIndices net.len.toNat, i < 4) := by
  have hmask : ∀ {g : Host}, g.MasksAsWritten act.hostname → ∀ (r : Rule) (a : BitVec 128)
      (rest : List UInt8) (table : Table) (net : Net),
      pfTableentry r (some g) (.in6 a rest) = some (table, net) →
        net.len.toNat ≤ 128 ∧ ∀ i ∈ ipmaskIndices net.len.toNat, i < 4 := by
    intro g hw r a rest table net hp
    have hle := pfTableentry_len_le hw.mask6 hp
    exact ⟨hle, ipmaskIndices_lt hle⟩
  have haction : ∀ {u : Sys} {i : ℕ}, act ∈ u.actionList →
      ∃ a ∈ (u.updateAction act.id fun a => { a with host := some i }).actionList,
        a.id = act.id ∧ a.host = some i := fun hu =>
    ⟨_, mem_map.mpr ⟨act, hu, if_pos rfl⟩, rfl, rfl⟩
  unfold hostAdd at h
  cases hfind : s.threadList.find? (Host.answersTo act.hostname) with
  | some k =>
    rw [hfind] at h
    obtain rfl := Option.some.inj h
    have hk := mem_of_find?_eq_some hfind
    have hkc : k ∈ c.sys.threadList := hs ▸ hk
    refine ⟨k.share act.id, mem_map.mpr ⟨k, hk, if_pos rfl⟩, haction hact, ?_, hmask⟩
    constructor
    · intro hw
      obtain ⟨name, normal, hm⟩ := exists_made run hkc
      refine ⟨((hm.madeFor hkc).masksAsWritten_iff.mp hw).1, fun k' heq name normal hm => ?_⟩
      cases heq
      exact ((hm.madeFor hkc).masksAsWritten_iff.mp hw).2
    · rintro ⟨hfits, htakes⟩
      obtain ⟨name, normal, hm⟩ := exists_made run hkc
      exact (hm.madeFor hkc).masksAsWritten_iff.mpr ⟨hfits, htakes k rfl name normal hm⟩
  | none =>
    rw [hfind] at h
    obtain ⟨g, hnew, h⟩ := Option.bind_eq_some_iff.mp h
    obtain rfl := Option.some.inj h
    refine ⟨g, mem_append_right _ mem_cons_self, haction hact, ?_, hmask⟩
    rw [newHost_masksAsWritten hnew, and_iff_left nofun]

def beforeHost (name : String) : Sys :=
  { Sys.empty with actionList := [newAction (pfLine name).rule 0], fresh := 1 }

def negative : String := "a.example.org/" ++ "-5"

/-- **A negative netmask is accepted.**  The host of the name gets the masks `-5`, an IPv6 address of
it the prefix length 251, and `set_ipmask` writes word 7 of four. -/
theorem negative_netmask_accepted :
    ∃ t, hostAdd (newAction (pfLine negative).rule 0) (beforeHost negative) = some t ∧
      ∃ g ∈ t.threadList, g.mask = -5 ∧ g.mask6 = -5 ∧
        (∃ a ∈ t.actionList, a.id = 0 ∧ a.host = some g.id) ∧
        ∃ table net, pfTableentry (pfLine negative).rule (some g) addr6 = some (table, net) ∧
          net.len = 251 ∧ 7 ∈ ipmaskIndices net.len.toNat := by
  exact ⟨_, rfl, ⟨1, "a.example.org".toList, -5, -5, [], 1, .STOPPED, [0], 0⟩, by decide +kernel,
    rfl, rfl, by decide +kernel, .pf [] "blocked".toList,
    .in6 0x20010db8000000000000000000000001#128 251, by decide +kernel, rfl, by decide⟩

/-- Two tables for one name with a netmask: the second action shares the host of the first. -/
theorem hostAdd_masks_iff_shared :
    let first := pfLine "a.example.org/24"
    let act := newAction (Dnsrule.filter .PF "a.example.org/24".toList "second".toList none 0 none).rule 2
    ∃ c, Run Conf.Step .init [.line first] c ∧
      ∃ t, hostAdd act ⟨c.sys.threadList, c.sys.actionList ++ [act], 3, ∅⟩ = some t ∧
        ∃ g ∈ t.threadList, g.id = 1 ∧ g.MasksAsWritten "a.example.org/24".toList := by
  intro first act
  set c : Conf := ⟨(dnsrule .empty first).toOption.getD .empty, []⟩ with hc
  have hline : Conf.Step .init (.line first) c := ⟨rfl, rfl⟩
  have run : Run Conf.Step .init [.line first] c := .cons hline (.nil _)
  set s : Sys := ⟨c.sys.threadList, c.sys.actionList ++ [act], 3, ∅⟩ with hs
  have hmem : act ∈ s.actionList := mem_append_right _ mem_cons_self
  obtain ⟨t, ht⟩ : ∃ t, hostAdd act s = some t := ⟨_, rfl⟩
  obtain ⟨g, hg, -, hiff, -⟩ := hostAdd_masks_iff run (s := s) rfl hmem ht
  have honly : ∀ g ∈ t.threadList, g.id = 1 := by
    cases ht
    decide +kernel
  refine ⟨c, run, t, ht, g, hg, honly g hg, hiff.mpr ⟨fun _ => ⟨24, by decide +kernel⟩, ?_⟩⟩
  -- the only host was made for the first line
  rintro k - name normal ⟨ops₁, r, ops₂, u, v, hops, -, -, -, -, -, rfl, rfl⟩
  rcases ops₁ with _ | ⟨op, ops₁⟩
  · obtain ⟨rfl, rfl⟩ : first = r ∧ [] = ops₂ := by simpa using hops
    exact ⟨by decide +kernel, nofun⟩
  · simp at hops

end FreeSense.Filterdns
