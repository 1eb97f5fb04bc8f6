import FreeSensePorts.Filterdns.Counts
import FreeSensePorts.Filterdns.Entries

/-!
# One action and its kernel table

`table_update` and `table_cleanup` from the side of the kernel, for one action and a table nobody
else edits.  `tbl_rnh` and the table go apart in two ways.  An entry of `tbl_rnh` loses `ADDR_NEW`, or
is freed, whatever the kernel answers; `Accepted` is what a call needs to leave the record exact.  And
an entry does not keep its prefix length, which is read from the host each time: `action_del` has let
go of the host when it cleans the table.
-/

namespace FreeSense.Filterdns

open List MarkSweep

variable {a : Action} {s t : Sys} {c : Call}

/-! ## Calls -/

/-- A call of `table_update`: the addresses of the action, and what the kernel will accept. -/
structure Call where
  rnh : AddrList
  ok : Change Sockaddr → Bool

def tableCall (i : ℕ) (s : Sys) (c : Call) : Option Sys := do
  let act ← s.actionList.find? fun a => a.id = i
  let s := s.updateAction act.id fun a => { a with rnh := c.rnh }
  return tableUpdate { act with rnh := c.rnh } c.ok s

def UpdateStep (i : ℕ) (s : Sys) (c : Call) (t : Sys) : Prop := tableCall i s c = some t

def Call.result (c : Call) (a : Action) : Action :=
  { a with rnh := c.rnh, tblRnh := refresh (targets c.rnh) a.tblRnh }

lemma tableUpdate_call {s : Sys} (c : Call) :
    tableUpdate { a with rnh := c.rnh } c.ok (s.updateAction a.id fun a => { a with rnh := c.rnh })
      = { s with
          actionList := s.actionList.map fun b => if b.id = a.id
            then { b with rnh := c.rnh, tblRnh := refresh (targets c.rnh) a.tblRnh } else b
          kernel := ((report (targets c.rnh) a.tblRnh).filter c.ok).foldl
            (Change.apply (s.entry a)) s.kernel } := by
  simp only [tableUpdate, Sys.updateAction, map_map]
  congr 1
  refine map_congr_left fun b _ => ?_
  by_cases hb : b.id = a.id <;> simp [hb]

/-- **What a call does**: the hosts stay, the action becomes the result of the call, and the kernel
follows the changes it accepts. -/
lemma UpdateStep.cases {i : ℕ} (hs : s.Ids) (h : UpdateStep i s c t) :
    ∃ a ∈ s.actionList, a.id = i ∧ (∀ b ∈ s.actionList, b.id = i → b = a) ∧
      (∀ b ∈ t.actionList, b.id = i ↔ b = c.result a) ∧ c.result a ∈ t.actionList ∧
      t.threadList = s.threadList ∧ t.Ids ∧
      t.kernel = ((report (targets c.rnh) a.tblRnh).filter c.ok).foldl
        (Change.apply (s.entry a)) s.kernel := by
  obtain ⟨a, hfind, h⟩ := Option.bind_eq_some_iff.mp h
  obtain rfl := Option.some.inj h
  have ha := mem_of_find?_eq_some hfind
  obtain rfl : a.id = i := by simpa using find?_some hfind
  have huniq : ∀ b ∈ s.actionList, b.id = a.id → b = a := fun b hb hid =>
    inj_on_of_nodup_map hs.actions hb ha hid
  rw [tableUpdate_call]
  refine ⟨a, ha, rfl, huniq, fun b hb => ?_, mem_map.mpr ⟨a, ha, if_pos rfl⟩, rfl, ?_, rfl⟩
  · obtain ⟨d, hd, rfl⟩ := mem_map.mp hb
    by_cases hid : d.id = a.id
    · rw [if_pos hid, huniq d hd hid]
      exact iff_of_true rfl rfl
    · rw [if_neg hid]
      refine iff_of_false hid ?_
      rintro rfl
      exact hid rfl
  · have hid : ∀ b : Action, (if b.id = a.id then
        { b with rnh := c.rnh, tblRnh := refresh (targets c.rnh) a.tblRnh } else b).id = b.id := by
      intro b
      split_ifs <;> rfl
    refine ⟨?_, fun b hb => ?_, hs.hosts, hs.hostsFresh⟩
    · simpa [Function.comp_def, hid] using hs.actions
    · obtain ⟨d, hd, rfl⟩ := mem_map.mp hb
      rw [hid]
      exact hs.actionsFresh d hd

/-! ## The record and the kernel -/

/-- **`tbl_rnh` is what the kernel table holds.** -/
structure Mirrored (s : Sys) (a : Action) : Prop where
  held : ∀ x ∈ vals a.tblRnh, ∃ p ∈ s.kernel, s.entry a x = some p
  known : ∀ p ∈ s.kernel, a.toRule.table = some p.1 → ∃ x ∈ vals a.tblRnh, s.entry a x = some p

/-- What `tbl_rnh` is to hold after a call. -/
def Action.Wants (a : Action) (rnh : AddrList) (x : Sockaddr) : Prop :=
  x ∈ vals rnh ∨ ∃ e ∈ a.tblRnh, e.val = x ∧ e.static = true

/-- What the kernel must accept.  Two addresses may share an entry, so it is not each single
operation that counts. -/
structure Accepted (s : Sys) (a : Action) (c : Call) : Prop where
  /-- The entry of a wanted address is there already, or one of its additions succeeds. -/
  adds : ∀ x, a.Wants c.rnh x → ∃ p, s.entry a x = some p ∧
    ((∃ y ∈ vals a.tblRnh, s.entry a y = some p) ∨
      ∃ y ∈ vals c.rnh, y ∉ vals a.tblRnh ∧ c.ok (.add y) = true ∧ s.entry a y = some p)
  /-- No deletion that succeeds takes it away. -/
  keeps : ∀ x, a.Wants c.rnh x → ∀ y ∈ vals a.tblRnh, ¬a.Wants c.rnh y → c.ok (.del y) = true →
    s.entry a y ≠ s.entry a x
  /-- An entry nobody wants any more goes with one of its deletions. -/
  dels : ∀ y ∈ vals a.tblRnh, (∀ x, a.Wants c.rnh x → s.entry a x ≠ s.entry a y) →
    ∃ z ∈ vals a.tblRnh, ¬a.Wants c.rnh z ∧ c.ok (.del z) = true ∧ s.entry a z = s.entry a y

lemma mem_vals_result (h : Resting a.tblRnh) (c : Call) (x : Sockaddr) :
    x ∈ vals (c.result a).tblRnh ↔ a.Wants c.rnh x := by
  rw [Call.result, mem_vals_refresh h.swept, targets_fst, Action.Wants]

lemma table_of_entry {s : Sys} {x : Sockaddr} {p : Table × Net} (h : s.entry a x = some p) :
    a.toRule.table = some p.1 := by
  rw [Sys.entry, tableEntry_eq] at h
  obtain ⟨table, htable, h⟩ := Option.bind_eq_some_iff.mp h
  obtain ⟨net, -, rfl⟩ := Option.map_eq_some_iff.mp h
  exact htable

/-- **The kernel after a call**: additions come first, so that a deletion can undo one. -/
lemma mem_kernel_call (ha : Resting a.tblRnh)
    (hk : t.kernel = ((report (targets c.rnh) a.tblRnh).filter c.ok).foldl (Change.apply (s.entry a)) s.kernel)
    {p : Table × Net} : p ∈ t.kernel ↔ (p ∈ s.kernel ∨
        ∃ x ∈ vals c.rnh, x ∉ vals a.tblRnh ∧ c.ok (.add x) = true ∧ s.entry a x = some p) ∧
      ∀ y ∈ vals a.tblRnh, ¬a.Wants c.rnh y → c.ok (.del y) = true → s.entry a y ≠ some p := by
  have hadd : ∀ x, .add x ∈ report (targets c.rnh) a.tblRnh ↔ x ∈ vals c.rnh ∧ x ∉ vals a.tblRnh := by
    intro x
    rw [add_mem_report ha]
    refine and_congr_left fun hnot => (mem_vals_result ha c x).trans (or_iff_left ?_)
    rintro ⟨e, he, rfl, -⟩
    exact hnot (mem_map_of_mem he)
  have hdel : ∀ x, .del x ∈ report (targets c.rnh) a.tblRnh ↔
      x ∈ vals a.tblRnh ∧ ¬a.Wants c.rnh x := fun x =>
    (del_mem_report ha.swept _).trans (and_congr_right fun _ => not_congr (mem_vals_result ha c x))
  rw [hk, mem_foldl_apply (report_eq_append ha _)]
  simp only [hadd, hdel, and_assoc, and_imp]

lemma entry_result (hthreads : t.threadList = s.threadList) (c : Call) (a : Action) :
    t.entry (c.result a) = s.entry a := by
  have hhost : t.host? = s.host? := by
    funext j
    rw [Sys.host?, Sys.host?, hthreads]
  funext x
  rw [Sys.entry, Sys.entry, Sys.hostOf, hhost]
  rfl

/-- **One call** from an exact record leaves an exact record exactly if the kernel accepts what the
record needs. -/
lemma mirrored_call_iff (ha : Resting a.tblRnh) (hm : Mirrored s a)
    (hthreads : t.threadList = s.threadList)
    (hk : t.kernel = ((report (targets c.rnh) a.tblRnh).filter c.ok).foldl (Change.apply (s.entry a)) s.kernel) :
    Mirrored t (c.result a) ↔ Accepted s a c := by
  have hentry := entry_result hthreads c a
  have hkernel : ∀ p, a.toRule.table = some p.1 → (p ∈ s.kernel ↔
      ∃ y ∈ vals a.tblRnh, s.entry a y = some p) := by
    refine fun p hp => ⟨fun h => hm.known p h hp, ?_⟩
    rintro ⟨y, hy, hyp⟩
    obtain ⟨q, hq, hyq⟩ := hm.held y hy
    rwa [Option.some.inj (hyp.symm.trans hyq)]
  constructor
  · intro h
    have hheld : ∀ x, a.Wants c.rnh x → ∃ p ∈ t.kernel, s.entry a x = some p := by
      intro x hx
      rw [← hentry]
      exact h.held x ((mem_vals_result ha c x).mpr hx)
    refine ⟨fun x hx => ?_, fun x hx y hy hgone hok heq => ?_, fun y hy hnone => ?_⟩
    · obtain ⟨p, hp, hxp⟩ := hheld x hx
      refine ⟨p, hxp, ?_⟩
      rcases ((mem_kernel_call ha hk).mp hp).1 with hp | hadd
      · exact Or.inl ((hkernel p (table_of_entry hxp)).mp hp)
      · exact Or.inr hadd
    · obtain ⟨p, hp, hxp⟩ := hheld x hx
      exact ((mem_kernel_call ha hk).mp hp).2 y hy hgone hok (heq.trans hxp)
    · obtain ⟨p, hp, hyp⟩ := hm.held y hy
      by_contra hkept
      -- nothing deletes the entry, so it stays and somebody must want it
      have hp' : p ∈ t.kernel := by
        refine (mem_kernel_call ha hk).mpr ⟨Or.inl hp, fun z hz hgone hok hzp => ?_⟩
        exact hkept ⟨z, hz, hgone, hok, hzp.trans hyp.symm⟩
      obtain ⟨x, hx, hxp⟩ := h.known p hp' (table_of_entry hyp)
      rw [hentry] at hxp
      exact hnone x ((mem_vals_result ha c x).mp hx) (hxp.trans hyp.symm)
  · intro h
    refine ⟨fun x hx => ?_, fun p hp htable => ?_⟩
    · replace hx := (mem_vals_result ha c x).mp hx
      obtain ⟨p, hxp, hthere⟩ := h.adds x hx
      refine ⟨p, (mem_kernel_call ha hk).mpr ⟨?_, fun y hy hgone hok hyp => ?_⟩, by rw [hentry, hxp]⟩
      · exact hthere.imp_left (hkernel p (table_of_entry hxp)).mpr
      · exact h.keeps x hx y hy hgone hok (hyp.trans hxp.symm)
    · simp only [hentry, mem_vals_result ha]
      obtain ⟨hp | ⟨x, hx, -, -, hxp⟩, hkept⟩ := (mem_kernel_call ha hk).mp hp
      · obtain ⟨y, hy, hyp⟩ := (hkernel p htable).mp hp
        by_contra hnone
        obtain ⟨z, hz, hgone, hok, hzy⟩ := h.dels y hy fun x hx hxy =>
          hnone ⟨x, hx, hxy.trans hyp⟩
        exact hkept z hz hgone hok (hzy.trans hyp)
      · exact ⟨x, Or.inl hx, hxp⟩

/-! ## Sequences of calls -/

/-- The actions keep their numbers, and the one that is called is at rest. -/
structure AtRest (i : ℕ) (s : Sys) : Prop where
  ids : s.Ids
  resting : ∀ a ∈ s.actionList, a.id = i → Resting a.tblRnh

lemma AtRest.step {i : ℕ} (h : AtRest i s) (hstep : UpdateStep i s c t) : AtRest i t := by
  obtain ⟨a, ha, hid, -, hres, -, -, hids, -⟩ := hstep.cases h.ids
  refine ⟨hids, fun b hb hbid => ?_⟩
  rw [(hres b hb).mp hbid]
  exact resting_refresh (h.resting a ha hid).swept _

/-- **The record is exact as long as the kernel accepts what it needs.**  Over any sequence of calls
of `table_update` on an action, with any addresses and any pattern of failures, `tbl_rnh` is what the
table holds after each call exactly if each call is `Accepted`. -/
theorem tableUpdate_mirrored_iff {i : ℕ} {s t : Sys} {es : List Call} (hs : AtRest i s)
    (hm : ∀ a ∈ s.actionList, a.id = i → Mirrored s a) :
    (∀ es₁ es₂ u, es = es₁ ++ es₂ → Run (UpdateStep i) s es₁ u → Run (UpdateStep i) u es₂ t →
        ∀ a ∈ u.actionList, a.id = i → Mirrored u a) ↔
      ∀ es₁ c es₂ u v, es = es₁ ++ c :: es₂ → Run (UpdateStep i) s es₁ u → UpdateStep i u c v →
        Run (UpdateStep i) v es₂ t → ∀ a ∈ u.actionList, a.id = i → Accepted u a c := by
  refine Run.forall_iff (I := AtRest i) (fun _ _ _ h hstep => h.step hstep)
    (fun u c v hu hmu hstep => ?_) hs hm
  obtain ⟨a, ha, hid, huniq, hres, hmem, hthreads, -, hk⟩ := hstep.cases hu.ids
  have hiff := mirrored_call_iff (hu.resting a ha hid) (hmu a ha hid) hthreads hk
  constructor
  · intro hmv b hb hbid
    rw [huniq b hb hbid]
    exact hiff.mp (hmv _ hmem ((hres _ hmem).mpr rfl))
  · intro hacc b hb hbid
    rw [(hres b hb).mp hbid]
    exact hiff.mpr (hacc a ha hid)

def answer (n : ℕ) : AddrList := [⟨testAddr n, false, false, false⟩]

/-- The first addition fails; the second call has the same address and a kernel that accepts it. -/
def failedAdd : List Call := [⟨answer 1, fun _ => false⟩, ⟨answer 1, fun _ => true⟩]

/-- The deletion fails; the last call has no address either and a kernel that accepts it. -/
def failedDel : List Call := [⟨answer 1, fun _ => true⟩, ⟨[], fun _ => false⟩, ⟨[], fun _ => true⟩]

def afterCalls (i : ℕ) (s : Sys) (es : List Call) : Sys := (es.foldlM (tableCall i) s).getD .empty

/-- **A failed addition is not retried, and a failed deletion is forgotten.** -/
theorem failed_operations_forgotten :
    let s := started [pfLine "a.example.org"]
    (Run (UpdateStep 0) s failedAdd (afterCalls 0 s failedAdd) ∧
      ∃ a ∈ (afterCalls 0 s failedAdd).actionList, a.id = 0 ∧ vals a.tblRnh = [testAddr 1] ∧
        ¬Mirrored (afterCalls 0 s failedAdd) a) ∧
    Run (UpdateStep 0) s failedDel (afterCalls 0 s failedDel) ∧
      ∃ a ∈ (afterCalls 0 s failedDel).actionList, a.id = 0 ∧ vals a.tblRnh = [] ∧
        ¬Mirrored (afterCalls 0 s failedDel) a := by
  refine ⟨⟨Run.of_foldlM rfl, _, mem_cons_self, rfl, rfl, fun h => ?_⟩,
    Run.of_foldlM rfl, _, mem_cons_self, rfl, rfl, fun h => ?_⟩
  · obtain ⟨p, hp, -⟩ := h.held (testAddr 1) mem_cons_self
    have hempty : (afterCalls 0 (started [pfLine "a.example.org"]) failedAdd).kernel = ∅ := by
      decide +kernel
    exact absurd hp (Finset.notMem_empty p)
  · obtain ⟨x, hx, -⟩ := h.known
      (.pf [] "blocked".toList, .in4 (BitVec.ofNat 32 (192 * 2 ^ 24 + 2 * 2 ^ 8 + 1)) 32)
      (by decide +kernel) (by decide +kernel)
    exact absurd hx not_mem_nil

theorem tableUpdate_mirrored_iff_accepted :
    let s := started [pfLine "a.example.org"]
    let t := afterCalls 0 s [⟨answer 1, fun _ => true⟩]
    ∃ a ∈ t.actionList, a.id = 0 ∧ vals a.tblRnh = [testAddr 1] ∧ Mirrored t a := by
  intro s t
  have hids := (run_counted (run_startup (show startup [pfLine "a.example.org"] = .ok s from rfl))).sys
  have hrest : AtRest 0 s := by
    refine ⟨hids, fun a ha _ => ?_⟩
    obtain rfl := mem_singleton.mp ha
    exact resting_nil
  have hm : ∀ a ∈ s.actionList, a.id = 0 → Mirrored s a := by
    intro a ha _
    obtain rfl := mem_singleton.mp ha
    exact ⟨fun x hx => absurd hx not_mem_nil, fun p hp => absurd hp (Finset.notMem_empty p)⟩
  have hrun : Run (UpdateStep 0) s [⟨answer 1, fun _ => true⟩] t := Run.of_foldlM rfl
  have haccepted : ∀ a ∈ s.actionList, Accepted s a ⟨answer 1, fun _ => true⟩ := by
    intro a ha
    obtain rfl := mem_singleton.mp ha
    refine ⟨fun x hx => ?_, fun _ _ y hy => absurd hy not_mem_nil, fun y hy => absurd hy not_mem_nil⟩
    rcases hx with hx | ⟨e, he, -⟩
    · obtain rfl := mem_singleton.mp hx
      exact ⟨_, rfl, Or.inr ⟨_, mem_cons_self, not_mem_nil, rfl, rfl⟩⟩
    · exact absurd he not_mem_nil
  refine ⟨_, mem_cons_self, rfl, rfl, (tableUpdate_mirrored_iff hrest hm).mpr ?_ _ [] t
    (append_nil _).symm hrun (.nil t) _ mem_cons_self rfl⟩
  rintro (_ | ⟨c, es₁⟩) d es₂ u v hes r₁ - - a ha -
  · cases r₁
    cases hes
    exact haccepted a ha
  · simp at hes

/-! ## Deleting an action -/

/-- The deletions of `table_cleanup`. -/
def cleanupOps (a : Action) : List (Change Sockaddr) := a.tblRnh.map fun e => .del e.val

lemma kernel_actionDel (a : Action) (s : Sys) :
    (actionDel a s).kernel
      = (cleanupOps a).foldl (Change.apply (tableEntry a.toRule none)) s.kernel := by
  unfold actionDel tableCleanup hostDel
  cases a.host <;> rfl

lemma prefixLen_eq_whole_iff (m : ℤ) (whole : UInt8) :
    prefixLen none whole = prefixLen (some m) whole ↔
      (if m = -1 then (whole.toNat : ℤ) else m) % 2 ^ 8 = whole.toNat := by
  have hlt := whole.toNat_lt
  simp only [prefixLen]
  split_ifs
  · exact iff_of_true rfl (by omega)
  · rw [← UInt8.toNat_inj, UInt8.toNat_ofNat']
    omega

/-- The network of an address does not depend on the host exactly if the host asks for the whole
address. -/
lemma netOf_none_eq_iff (type : ActType) (h : Host) (x : Sockaddr) :
    netOf type none x = netOf type (some h) x ↔ h.prefixOf x % 2 ^ 8 = x.width := by
  cases x with
  | in4 x rest =>
    refine Iff.trans ?_ (prefixLen_eq_whole_iff h.mask 32)
    simp [netOf]
  | in6 x rest =>
    refine Iff.trans ⟨fun heq => ?_, fun heq => ?_⟩ (prefixLen_eq_whole_iff h.mask6 128)
    · exact Option.some.inj (congrArg (Option.map Net.len) heq)
    · simp only [netOf, Option.map_none, Option.map_some, ← heq]
  | other family data => simp [netOf, Host.prefixOf, Sockaddr.width]

lemma tableEntry_none_eq_iff (r : Rule) (host : Option Host) (x : Sockaddr) :
    tableEntry r none x = tableEntry r host x ↔
      (r.table ≠ none → ∀ h, host = some h → h.prefixOf x % 2 ^ 8 = x.width) := by
  rw [tableEntry_eq, tableEntry_eq]
  cases r.table with
  | none => simp
  | some table =>
    rw [Option.bind_some, Option.bind_some,
      (Option.map_injective (Prod.mk_right_injective table)).eq_iff]
    cases host with
    | none => simp
    | some h => simp [netOf_none_eq_iff]

/-- A call of the sequence `es` has added the address, and `p` is what it gave to the kernel. -/
def AddedAs (i : ℕ) (s : Sys) (es : List Call) (t : Sys) (x : Sockaddr)
    (p : Option (Table × Net)) : Prop :=
  ∃ es₁ c es₂ u v, es = es₁ ++ c :: es₂ ∧ Run (UpdateStep i) s es₁ u ∧ UpdateStep i u c v ∧
    Run (UpdateStep i) v es₂ t ∧ ∃ b ∈ u.actionList, b.id = i ∧
      .add x ∈ report (targets c.rnh) b.tblRnh ∧ u.entry b x = p

section Removal

variable {i : ℕ} {s t : Sys} {es : List Call} (hs : AtRest i s) (r : Run (UpdateStep i) s es t)
include hs r

lemma entry_of_run {a b : Action} (ha : a ∈ s.actionList) (haid : a.id = i) (hb : b ∈ t.actionList)
    (hbid : b.id = i) : t.entry b = s.entry a := by
  have hinv : AtRest i t ∧ ∀ b ∈ t.actionList, b.id = i → t.entry b = s.entry a := by
    refine r.invariant (I := fun u => AtRest i u ∧ ∀ b ∈ u.actionList, b.id = i → u.entry b = s.entry a)
      (fun u c v hu hstep => ⟨hu.1.step hstep, fun b hb hbid => ?_⟩) ⟨hs, fun b hb hbid => ?_⟩
    · obtain ⟨d, hd, hdid, -, hres, -, hthreads, -, -⟩ := hstep.cases hu.1.ids
      rw [(hres b hb).mp hbid, entry_result hthreads]
      exact hu.2 d hd hdid
    · rw [inj_on_of_nodup_map hs.ids.actions hb ha (hbid.trans haid.symm)]
  exact hinv.2 b hb hbid

/-- What is in `tbl_rnh` has been added. -/
lemma exists_addedAs (hempty : ∀ a ∈ s.actionList, a.id = i → a.tblRnh = []) (ha : a ∈ t.actionList)
    (haid : a.id = i) {x : Sockaddr} (hx : x ∈ vals a.tblRnh) : ∃ p, AddedAs i s es t x p := by
  have hnot : ¬∃ b ∈ s.actionList, b.id = i ∧ x ∈ vals b.tblRnh := by
    rintro ⟨b, hb, hbid, hxb⟩
    rw [hempty b hb hbid] at hxb
    exact absurd hxb not_mem_nil
  obtain ⟨es₁, c, es₂, u, v, hes, r₁, hstep, r₂, hu, d, hd, hdid, hxd⟩ :=
    r.exists_entry (P := fun u => ∃ b ∈ u.actionList, b.id = i ∧ x ∈ vals b.tblRnh) hnot
      ⟨a, ha, haid, hx⟩
  have hrest : AtRest i u := r₁.invariant (fun _ _ _ h hstep => AtRest.step h hstep) hs
  obtain ⟨b, hb, hbid, -, hres, -, -, -, -⟩ := hstep.cases hrest.ids
  rw [(hres d hd).mp hdid] at hxd
  refine ⟨_, es₁, c, es₂, u, v, hes, r₁, hstep, r₂, b, hb, hbid, ?_, rfl⟩
  exact (add_mem_report (hrest.resting b hb hbid) _).mpr ⟨hxd, fun hxb => hu ⟨b, hb, hbid, hxb⟩⟩

end Removal

/-- **What deleting an action removes.**  After any calls of `table_update`, `action_del` issues one
deletion for each address in `tbl_rnh`, all of which were added.  A deletion names what the addition
did, for all of them, exactly if the host asks for whole addresses. -/
theorem actionDel_deletes_iff {i : ℕ} {s t : Sys} {es : List Call} (hs : s.Ids)
    (hempty : ∀ a ∈ s.actionList, a.id = i → a.tblRnh = []) (r : Run (UpdateStep i) s es t)
    {a : Action} (ha : a ∈ t.actionList) (haid : a.id = i) :
    (actionDel a t).kernel
        = (cleanupOps a).foldl (Change.apply (tableEntry a.toRule none)) t.kernel ∧
      (cleanupOps a).Nodup ∧ (∀ o, o ∈ cleanupOps a ↔ ∃ x ∈ vals a.tblRnh, o = .del x) ∧
      (∀ x ∈ vals a.tblRnh, ∃ p, AddedAs i s es t x p) ∧
      ((∀ x ∈ vals a.tblRnh, ∀ p, AddedAs i s es t x p → tableEntry a.toRule none x = p) ↔
        ∀ x ∈ vals a.tblRnh, a.toRule.table ≠ none → ∀ h, t.hostOf a = some h →
          h.prefixOf x % 2 ^ 8 = x.width) := by
  have hrest : AtRest i s := ⟨hs, fun b hb hid => hempty b hb hid ▸ resting_nil⟩
  have hrestt : AtRest i t := r.invariant (fun _ _ _ h hstep => AtRest.step h hstep) hrest
  have hmem : ∀ o, o ∈ cleanupOps a ↔ ∃ x ∈ vals a.tblRnh, o = .del x := by
    simp [cleanupOps, vals, eq_comm]
  have hnodup : (cleanupOps a).Nodup := by
    have hmap : cleanupOps a = (vals a.tblRnh).map .del := by simp [cleanupOps, vals]
    rw [hmap]
    exact (hrestt.resting a ha haid).nodup.map fun _ _ h => Change.del.inj h
  refine ⟨kernel_actionDel a t, hnodup, hmem, fun x hx => exists_addedAs hrest r hempty ha haid hx,
    forall₂_congr fun x hx => ?_⟩
  have hsame : ∀ p, AddedAs i s es t x p → t.entry a x = p := by
    rintro p ⟨es₁, c, es₂, u, v, -, r₁, hstep, r₂, b, hb, hbid, -, rfl⟩
    have hu : AtRest i u := r₁.invariant (fun _ _ _ h hstep => AtRest.step h hstep) hrest
    rw [entry_of_run hu (.cons hstep r₂) hb hbid ha haid]
  rw [← tableEntry_none_eq_iff]
  constructor
  · intro hall
    obtain ⟨p, hp⟩ := exists_addedAs hrest r hempty ha haid hx
    exact (hall p hp).trans (hsame p hp).symm
  · intro heq p hp
    exact heq.trans (hsame p hp)

def literalCall : List Call := [⟨[⟨testAddr 1, false, false, true⟩], fun _ => true⟩]

/-- **A network is not deleted.**  The address of `192.0.2.1/24` is added with prefix length 24 and
deleted with 32, so the entry stays in the table when the action is gone. -/
theorem network_entry_left :
    let s := started [pfLine "192.0.2.1/24"]
    let t := afterCalls 0 s literalCall
    let net : ℕ → UInt8 → Table × Net := fun n len =>
      (.pf [] "blocked".toList, .in4 (BitVec.ofNat 32 (192 * 2 ^ 24 + 2 * 2 ^ 8 + n)) len)
    ∃ a ∈ t.actionList, a.id = 0 ∧ testAddr 1 ∈ vals a.tblRnh ∧
      AddedAs 0 s literalCall t (testAddr 1) (some (net 1 24)) ∧
      tableEntry a.toRule none (testAddr 1) = some (net 1 32) ∧
      net 1 24 ∈ t.kernel ∧ net 1 24 ∈ (actionDel a t).kernel := by
  intro s t net
  have hstep : UpdateStep 0 s ⟨[⟨testAddr 1, false, false, true⟩], fun _ => true⟩ t := rfl
  refine ⟨_, mem_cons_self, rfl, mem_cons_self, ?_, by decide +kernel, by decide +kernel,
    by decide +kernel⟩
  exact ⟨[], _, [], s, t, rfl, .nil s, hstep, .nil t, _, mem_cons_self, rfl, by decide +kernel,
    by decide +kernel⟩

theorem actionDel_deletes_iff_literal :
    let s := started [pfLine "192.0.2.1/32"]
    let t := afterCalls 0 s literalCall
    ∃ a ∈ t.actionList, a.id = 0 ∧ vals a.tblRnh = [testAddr 1] ∧
      ∀ p, AddedAs 0 s literalCall t (testAddr 1) p → tableEntry a.toRule none (testAddr 1) = p := by
  intro s t
  have hids := (run_counted (run_startup (show startup [pfLine "192.0.2.1/32"] = .ok s from rfl))).sys
  have hrun : Run (UpdateStep 0) s literalCall t := Run.of_foldlM rfl
  have hmem : t.actionList.head (by decide +kernel) ∈ t.actionList := head_mem _
  obtain ⟨-, -, -, -, hiff⟩ := actionDel_deletes_iff hids (by decide +kernel) hrun hmem rfl
  refine ⟨_, hmem, rfl, by decide +kernel, fun p hp => hiff.mpr (fun x hx _ h hh => ?_) _
    (by decide +kernel) p hp⟩
  obtain rfl := mem_singleton.mp hx
  cases hh
  decide +kernel

end FreeSense.Filterdns
