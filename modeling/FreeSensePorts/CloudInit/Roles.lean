import FreeSensePorts.CloudInit.Calls
import Mathlib.Data.List.Perm.Subperm

/-!
# The roles of the interfaces

`resolve_interfaces` finds the interfaces of the metadata on the machine, gives some of them the roles
of the mappings (`Mapped`), and fills up the rest (`fill_spec`).  The phases share the table of the
roles, in which no device and no role is twice (`Roles.Ok`).  `Assigned` is what the function is for.
-/

namespace FreeSense.CloudInit

open Python
open List hiding lookup getD get

variable {lib : Library}

variable {detected : List Detected} {metadata : List Item} {mappings : List Value} {g : Roles}
  {resolved : List Resolved} {explicit : List (Text × Text)} {r : Resolved} {extension : Dict}
  {result : List (Text × Resolved)}

/-! ## What a mapping says -/

def mappingRole (lib : Library) : Value → Text
  | .dict m => lib.unicode.str (getD m "role" (.str []))
  | _ => []

/-- A mapping names an interface: by its device, its name or its hardware address. -/
def mappingNames (lib : Library) (r : Resolved) : Value → Bool
  | .dict m => r.answersTo lib (lib.unicode.lower (lib.unicode.str
      ((get m "match").or ((get m "name").or ((get m "mac").or (.str []))))))
  | _ => false

def unmapped (lib : Library) (mappings : List Value) (r : Resolved) : Bool :=
  mappings.all fun m => !mappingNames lib r m

def hasRoute (r : Resolved) : Bool := (get r.raw "default_route").truthy

def wanRole : Text := "wan".toList

def lanRole : Text := "lan".toList

/-- **One to one.**  The result has the interfaces in their order, each with a device and a role of
its own. -/
structure Assigned (lib : Library) (metadata : List Item) (detected : List Detected)
    (mappings : List Value) (result : List (Text × Resolved)) : Prop where
  order : metadata ≠ [] → List.Forall₂ (fun item a => a.2.toItem = item ∧
    resolveDevice lib detected item = .ok a.2.device) metadata result
  detected : metadata = [] → result.map (fun a => a.2.device) = detected.map Detected.name
  devices : (result.map fun a => a.2.device).Nodup
  roles : (result.map Prod.fst).Nodup
  form : ∀ a ∈ result, isRole a.1 = true
  respected : ∀ m ∈ mappings, ∃ a, result.filter (fun a => mappingNames lib a.2 m) = [a] ∧
    a.1 = mappingRole lib m
  wan : (∃ a ∈ result, unmapped lib mappings a.2 = true) →
    ∃ a, result.filter (fun a => a.1 = wanRole) = [a]
  route : (∀ m ∈ mappings, mappingRole lib m ≠ wanRole) →
    ∀ {rest}, rest = result.filter (fun a => unmapped lib mappings a.2) →
      ∀ a, ((rest.find? fun a => hasRoute a.2).or rest.head?) = some a → a.1 = wanRole
  lan : ∀ {front a back}, result = front ++ a :: back → unmapped lib mappings a.2 = true →
    a.1 ≠ wanRole → a.1 ≠ lanRole →
      (∃ b ∈ front, b.1 = lanRole) ∨ ∃ m ∈ mappings, mappingRole lib m = lanRole

/-! ## The devices -/

lemma resolveItem_ok {resolved resolved' : List Resolved} {item : Item}
    (h : resolveItem lib detected resolved item = .ok resolved') :
    ∃ device, resolveDevice lib detected item = .ok device ∧
      device ∉ resolved.map Resolved.device ∧ resolved' = resolved ++ [⟨item, device⟩] := by
  simp only [resolveItem, bind_eq_ok] at h
  obtain ⟨device, hdevice, h⟩ := h
  obtain ⟨hused, h⟩ := refuses_eq_ok.mp h
  refine ⟨device, hdevice, fun hmem => hused ?_, (pure_eq_ok.mp h).symm⟩
  obtain ⟨r, hr, hrd⟩ := mem_map.mp hmem
  exact any_eq_true.mpr ⟨r, hr, decide_eq_true hrd⟩

lemma resolve_spec (h : metadata.foldlM (resolveItem lib detected) [] = .ok resolved) :
    List.Forall₂ (fun item r => r.toItem = item ∧ resolveDevice lib detected item = .ok r.device)
        metadata resolved ∧ (resolved.map Resolved.device).Nodup := by
  -- the items that are through, the items that are to come, and no device twice
  have hinv := foldlM_invariant (I := fun rest (acc : List Resolved) =>
      (∃ done, metadata = done ++ rest ∧ List.Forall₂ (fun item r => r.toItem = item ∧
        resolveDevice lib detected item = .ok r.device) done acc) ∧
        (acc.map Resolved.device).Nodup)
    (fun {item rest acc acc'} hacc hstep => ?_) metadata [] resolved ⟨⟨[], rfl, .nil⟩, nodup_nil⟩ h
  · obtain ⟨⟨done, hdone, hall⟩, hnodup⟩ := hinv
    rw [append_nil] at hdone
    exact ⟨hdone ▸ hall, hnodup⟩
  · obtain ⟨⟨done, rfl, hall⟩, hnodup⟩ := hacc
    obtain ⟨device, hdevice, hfresh, rfl⟩ := resolveItem_ok hstep
    refine ⟨⟨done ++ [item], by simp, rel_append hall (.cons ⟨rfl, hdevice⟩ .nil)⟩, ?_⟩
    rw [map_append, nodup_append]
    refine ⟨hnodup, nodup_singleton _, fun d hd d' hd' heq => hfresh ?_⟩
    obtain rfl : d' = device := mem_singleton.mp hd'
    exact heq ▸ hd

lemma device_detectedItems (order : ℕ) (detected : List Detected) :
    (detectedItems lib order detected).map Resolved.device = detected.map Detected.name := by
  induction detected generalizing order with
  | nil => rfl
  | cons d detected ih => rw [detectedItems, map_cons, map_cons, ih]

/-! ## The mappings -/

/-- No device and no role twice, and only roles. -/
structure Table (explicit : List (Text × Text)) : Prop where
  devices : (explicit.map Prod.fst).Nodup
  roles : (explicit.map Prod.snd).Nodup
  form : ∀ e ∈ explicit, isRole e.2 = true

variable {device role d : Text} {explicit' final : List (Text × Text)} {m : Value} {n : ℕ}
  {remaining : List Resolved} {g' : Roles} {α : Type}

lemma Table.concat (h : Table explicit) (hdevice : device ∉ explicit.map Prod.fst)
    (hrole : role ∉ explicit.map Prod.snd) (hform : isRole role = true) :
    Table (explicit ++ [(device, role)]) := by
  refine ⟨?_, ?_, ?_⟩
  · rw [map_append]
    exact List.Nodup.append h.devices (nodup_singleton _) (by simpa using hdevice)
  · rw [map_append]
    exact List.Nodup.append h.roles (nodup_singleton _) (by simpa using hrole)
  · intro e he
    rcases mem_append.mp he with he | he
    · exact h.form e he
    · rw [mem_singleton.mp he]
      exact hform

lemma mapRole_ok {explicit : List (Text × Text)}
    (h : mapRole lib resolved explicit m = .ok explicit') :
    ∃ r, resolved.filter (fun r => mappingNames lib r m) = [r] ∧ isRole (mappingRole lib m) = true ∧
      mappingRole lib m ∉ explicit.map Prod.snd ∧ r.device ∉ explicit.map Prod.fst ∧
      explicit' = explicit ++ [(r.device, mappingRole lib m)] := by
  cases m with
  | dict m =>
    obtain ⟨hform, h⟩ := refuses_eq_ok.mp h
    split at h
    · next r hr =>
        obtain ⟨hfree, h⟩ := refuses_eq_ok.mp h
        simp only [Bool.or_eq_true, not_or, Bool.not_eq_true, Option.isSome_eq_false_iff,
          Option.isNone_iff_eq_none, any_eq_false, decide_eq_true_eq] at hfree
        refine ⟨r, hr, by simpa [mappingRole] using hform, fun hmem => ?_, lookup_eq_none.mp hfree.2,
          (pure_eq_ok.mp h).symm⟩
        obtain ⟨e, he, heq⟩ := mem_map.mp hmem
        exact hfree.1 e he heq
    · simp at h
  | _ => simp [mapRole, asDict, invalid, bind_eq_ok] at h

/-- What the mappings make of the table. -/
structure Mapped (lib : Library) (resolved : List Resolved) (mappings : List Value)
    (explicit : List (Text × Text)) : Prop extends Table explicit where
  respected : ∀ m ∈ mappings, ∃ r, resolved.filter (fun r => mappingNames lib r m) = [r] ∧
    (r.device, mappingRole lib m) ∈ explicit
  origin : ∀ e ∈ explicit, ∃ m ∈ mappings, ∃ r ∈ resolved, mappingNames lib r m = true ∧
    e = (r.device, mappingRole lib m)

lemma Mapped.concat {explicit : List (Text × Text)} (h : Mapped lib resolved mappings explicit)
    (hm : mapRole lib resolved explicit m = .ok explicit') :
    Mapped lib resolved (mappings ++ [m]) explicit' := by
  obtain ⟨r, hr, hform, hrole, hdevice, rfl⟩ := mapRole_ok hm
  obtain ⟨hmem, hnames⟩ := mem_filter.mp (hr ▸ mem_singleton_self r)
  refine ⟨h.toTable.concat hdevice hrole hform, fun m' hm' => ?_, fun e he => ?_⟩
  · rcases mem_append.mp hm' with hm' | hm'
    · obtain ⟨r', hr', hin⟩ := h.respected m' hm'
      exact ⟨r', hr', mem_append_left _ hin⟩
    · rw [mem_singleton.mp hm']
      exact ⟨r, hr, mem_append_right _ mem_cons_self⟩
  · rcases mem_append.mp he with he | he
    · obtain ⟨m', hm', r', hr', hnames', rfl⟩ := h.origin e he
      exact ⟨m', mem_append_left _ hm', r', hr', hnames', rfl⟩
    · exact ⟨m, mem_append_right _ mem_cons_self, r, hmem, hnames, mem_singleton.mp he⟩

lemma map_spec (h : mappings.foldlM (mapRole lib resolved) [] = .ok explicit) :
    Mapped lib resolved mappings explicit := by
  have hnil : Mapped lib resolved [] [] :=
    ⟨⟨nodup_nil, nodup_nil, by simp⟩, by simp, by simp⟩
  have hinv := foldlM_invariant (I := fun rest explicit =>
      ∃ done, mappings = done ++ rest ∧ Mapped lib resolved done explicit)
    (fun {m rest acc acc'} hacc hstep => ?_) mappings [] explicit ⟨[], rfl, hnil⟩ h
  · obtain ⟨done, hdone, hmapped⟩ := hinv
    rw [append_nil] at hdone
    exact hdone ▸ hmapped
  · obtain ⟨done, rfl, hmapped⟩ := hacc
    exact ⟨done ++ [m], by simp, hmapped.concat hstep⟩

lemma Mapped.isNone_lookup (h : Mapped lib resolved mappings explicit)
    (hnodup : (resolved.map Resolved.device).Nodup) (hr : r ∈ resolved) :
    (lookup r.device explicit).isNone = unmapped lib mappings r := by
  rw [Bool.eq_iff_iff, Option.isNone_iff_eq_none, lookup_eq_none, unmapped, all_eq_true]
  constructor
  · intro hfree m hm
    by_contra hnames
    obtain ⟨r', hr', hin⟩ := h.respected m hm
    have hmem : r ∈ resolved.filter fun r => mappingNames lib r m :=
      mem_filter.mpr ⟨hr, by simpa using hnames⟩
    rw [hr', mem_singleton] at hmem
    exact hfree (hmem ▸ mem_map_of_mem hin)
  · intro hall hmem
    obtain ⟨e, he, hdevice⟩ := mem_map.mp hmem
    obtain ⟨m, hm, r', hr', hnames, rfl⟩ := h.origin e he
    obtain rfl : r' = r := inj_on_of_nodup_map hnodup hr' hr hdevice
    have := hall m hm
    rw [hnames] at this
    cases this

/-! ## The rest -/

lemma toList_toString (n : ℕ) : (toString n).toList = Nat.toDigits 10 n := by
  rw [Nat.toString_eq_repr, Nat.repr_eq_ofList_toDigits, String.toList_ofList]

lemma optRole_injective : Function.Injective optRole := by
  intro m n h
  have hdigits := append_cancel_left h
  rw [toList_toString, toList_toString] at hdigits
  rw [← @Nat.ofDigitChars_toDigits 10 m (by decide) (by decide), hdigits,
    Nat.ofDigitChars_toDigits (by decide) (by decide)]

lemma head_toDigits (hn : 1 ≤ n) : ∃ d, (Nat.toDigits 10 n).head? = some (Nat.digitChar d) ∧
    1 ≤ d ∧ d < 10 := by
  induction n using Nat.strong_induction_on with
  | _ n ih =>
    rw [Nat.toDigits_eq_if (by decide)]
    split_ifs with hlt
    · exact ⟨n, rfl, hn, hlt⟩
    · obtain ⟨d, hd, hrange⟩ := ih (n / 10) (by omega) (by omega)
      refine ⟨d, ?_, hrange⟩
      rw [head?_append, hd, Option.some_or]

lemma isRole_optRole (hn : 1 ≤ n) : isRole (optRole n) = true := by
  obtain ⟨d, hhead, hd⟩ := head_toDigits hn
  have hchar : ∀ d < 10, 1 ≤ d → '1' ≤ Nat.digitChar d ∧ Nat.digitChar d ≤ '9' := by decide
  have hall : ∀ c ∈ Nat.toDigits 10 n, '0' ≤ c ∧ c ≤ '9' := fun c hc => by
    simpa [Char.isDigit, Char.le_def] using Nat.isDigit_of_mem_toDigits (by decide) (by decide) hc
  have hdrop : (optRole n).drop 3 = Nat.toDigits 10 n := by
    rw [optRole, toList_toString]
    rfl
  have hfirst : (Nat.toDigits 10 n).head?.any (fun c => '1' ≤ c ∧ c ≤ '9') = true := by
    rw [hhead]
    exact decide_eq_true (hchar d hd.2 hd.1)
  have hrest : (Nat.toDigits 10 n).all (fun c => '0' ≤ c ∧ c ≤ '9') = true :=
    all_eq_true.mpr fun c hc => decide_eq_true (hall c hc)
  refine decide_eq_true (.inr (.inr ⟨rfl, ?_, ?_⟩))
  · rw [hdrop]
    exact hfirst
  · rw [hdrop]
    exact hrest

lemma freeOpt_spec (taken : List Text) :
    freeOpt taken ∉ taken ∧ isRole (freeOpt taken) = true := by
  rw [freeOpt]
  cases hfind : ((List.range (taken.length + 1)).map (· + 1)).find? (optRole · ∉ taken) with
  | some n =>
    obtain ⟨k, -, rfl⟩ := mem_map.mp (mem_of_find?_eq_some hfind)
    exact ⟨by simpa using find?_some hfind, isRole_optRole (by simp)⟩
  | none =>
    -- there are more numbers than roles that are taken
    have hsub : ((List.range (taken.length + 1)).map fun k => optRole (k + 1)) ⊆ taken := by
      intro role hrole
      obtain ⟨k, hk, rfl⟩ := mem_map.mp hrole
      have := find?_eq_none.mp hfind (k + 1) (mem_map_of_mem hk)
      simpa using this
    have hnodup : ((List.range (taken.length + 1)).map fun k => optRole (k + 1)).Nodup :=
      List.Nodup.map (fun i j h => Nat.succ.inj (optRole_injective h)) nodup_range
    have hlen := (hnodup.subperm hsub).length_le
    rw [length_map, length_range] at hlen
    omega

/-- The invariant of the table and the roles that are taken. -/
structure Roles.Ok (g : Roles) : Prop extends Table g.explicit where
  assigned : ∀ role, role ∈ g.assigned ↔ role ∈ g.explicit.map Prod.snd

lemma Roles.Ok.add (h : g.Ok) (hdevice : device ∉ g.explicit.map Prod.fst)
    (hrole : role ∉ g.assigned) (hform : isRole role = true) :
    (g.add device role).Ok ∧ (g.add device role).explicit = g.explicit ++ [(device, role)] := by
  have heq : (g.add device role).explicit = g.explicit ++ [(device, role)] :=
    assign_of_notMem hdevice
  have htable : Table (g.add device role).explicit :=
    heq ▸ h.toTable.concat hdevice (fun hmem => hrole ((h.assigned role).mpr hmem)) hform
  refine ⟨⟨htable, fun role' => ?_⟩, heq⟩
  rw [heq, map_append, mem_append, map_singleton, mem_singleton, Roles.add,
    mem_cons, h.assigned, or_comm]

lemma assignRest_eq (g : Roles) (r : Resolved) : assignRest g r
    = g.add r.device (if lanRole ∈ g.assigned then freeOpt g.assigned else lanRole) := by
  rw [assignRest, ite_not]
  rfl

/-- **Filling up.**  Each interface gets a role, and the first of them `lan` if it is free. -/
lemma fill_spec (h : g.Ok) {rest : List Resolved} (hnodup : (rest.map Resolved.device).Nodup)
    (hfresh : ∀ r ∈ rest, r.device ∉ g.explicit.map Prod.fst) :
    (rest.foldl assignRest g).Ok ∧ g.explicit ⊆ (rest.foldl assignRest g).explicit ∧
      (∀ r ∈ rest, r.device ∈ (rest.foldl assignRest g).explicit.map Prod.fst) ∧
      (lanRole ∉ g.assigned → ∀ r, rest.head? = some r →
        (r.device, lanRole) ∈ (rest.foldl assignRest g).explicit) := by
  induction rest generalizing g with
  | nil => exact ⟨h, fun e he => he, by simp, by simp⟩
  | cons r rest ih =>
    rw [map_cons, nodup_cons] at hnodup
    obtain ⟨hfree, hform⟩ := freeOpt_spec g.assigned
    obtain ⟨role, hrole, hstep, hlan⟩ : ∃ role, role ∉ g.assigned ∧
        (isRole role = true ∧ assignRest g r = g.add r.device role) ∧
        (lanRole ∉ g.assigned → role = lanRole) := by
      by_cases hlan : lanRole ∈ g.assigned
      · refine ⟨freeOpt g.assigned, hfree, ⟨hform, ?_⟩, fun hne => absurd hlan hne⟩
        rw [assignRest_eq, if_pos hlan]
      · refine ⟨lanRole, hlan, ⟨by decide, ?_⟩, fun _ => rfl⟩
        rw [assignRest_eq, if_neg hlan]
    obtain ⟨hok, heq⟩ := h.add (hfresh r mem_cons_self) hrole hstep.1
    have hfresh' : ∀ r' ∈ rest, r'.device ∉ (g.add r.device role).explicit.map Prod.fst := by
      intro r' hr' hmem
      rw [heq, map_append, mem_append] at hmem
      rcases hmem with hmem | hmem
      · exact hfresh r' (mem_cons_of_mem _ hr') hmem
      · have hsame : r'.device = r.device := mem_singleton.mp hmem
        exact hnodup.1 (hsame ▸ mem_map_of_mem hr')
    obtain ⟨hok', hsub, hall, -⟩ := ih hok hnodup.2 hfresh'
    rw [foldl_cons, hstep.2]
    have hhead : (r.device, role) ∈ (rest.foldl assignRest (g.add r.device role)).explicit :=
      hsub (heq ▸ mem_append_right _ mem_cons_self)
    refine ⟨hok', fun e he => hsub (heq ▸ mem_append_left _ he), fun r' hr' => ?_,
      fun hne r' hr' => ?_⟩
    · rcases mem_cons.mp hr' with rfl | hr'
      · exact mem_map_of_mem hhead
      · exact hall r' hr'
    · obtain rfl := Option.some.inj hr'
      rw [← hlan hne]
      exact hhead

lemma chooseWan_eq (remaining : List Resolved) :
    chooseWan remaining = match remaining.filter hasRoute, remaining with
      | [], r :: rest => .ok (some r, rest)
      | [r], _ => .ok (some r, remaining.eraseP hasRoute)
      | [], [] => .ok (none, [])
      | _, _ => invalid "multiple interfaces carry the metadata default route" := rfl

lemma chooseWan_ok {rest : List Resolved} {w : Option Resolved}
    (h : chooseWan remaining = .ok (w, rest)) :
    w = (remaining.find? hasRoute).or remaining.head? ∧ rest.Sublist remaining ∧
      (w.toList ++ rest).Perm remaining := by
  have hfind : remaining.find? hasRoute = (remaining.filter hasRoute).head? := by
    rw [head?_filter]
  rw [hfind]
  cases hfilter : remaining.filter hasRoute with
  | nil =>
    cases remaining with
    | nil =>
      cases h
      exact ⟨rfl, .refl _, .refl _⟩
    | cons r remaining =>
      rw [chooseWan_eq, hfilter] at h
      cases h
      exact ⟨rfl, sublist_cons_self _ _, .refl _⟩
  | cons r more =>
    rw [chooseWan_eq, hfilter] at h
    cases more with
    | nil =>
      cases h
      obtain ⟨hmem, hroute⟩ := mem_filter.mp (hfilter ▸ mem_singleton_self r)
      obtain ⟨r', front, back, -, hr', rfl, herase⟩ := exists_of_eraseP hmem hroute
      have hsame : r' ∈ (front ++ r' :: back).filter hasRoute :=
        mem_filter.mpr ⟨by simp, hr'⟩
      rw [hfilter, mem_singleton] at hsame
      rw [herase, hsame]
      simpa using perm_middle.symm
    | cons _ _ => simp at h

/-- The table when all interfaces have their roles.  `remaining` are those no mapping names. -/
structure Filled (resolved remaining : List Resolved) (explicit final : List (Text × Text)) : Prop
    extends Table final where
  kept : explicit ⊆ final
  all : ∀ r ∈ resolved, r.device ∈ final.map Prod.fst
  wan : remaining ≠ [] → ∃ r ∈ resolved, (r.device, wanRole) ∈ final
  route : wanRole ∉ explicit.map Prod.snd →
    ∀ r, (remaining.find? hasRoute).or remaining.head? = some r → (r.device, wanRole) ∈ final
  lan : lanRole ∉ explicit.map Prod.snd → ∃ rest : List Resolved, rest.Sublist remaining ∧
    (∀ r ∈ remaining, r ∈ rest ∨ (r.device, wanRole) ∈ final) ∧
    ∀ r, rest.head? = some r → (r.device, lanRole) ∈ final

/-- The roles when `wan` is given out, and the interfaces that are left. -/
def wanStep (roles : Roles) (remaining : List Resolved) : Except Exception (Roles × List Resolved) :=
  if wanRole ∈ roles.assigned then .ok (roles, remaining)
  else do
    let (wan, remaining) ← chooseWan remaining
    pure ((wan.map fun r => roles.add r.device wanRole).getD roles, remaining)

lemma Table.ok (h : Table explicit) : Roles.Ok ⟨explicit, explicit.map Prod.snd⟩ :=
  ⟨h, fun _ => Iff.rfl⟩

lemma wanStep_ok {g : Roles} {rest : List Resolved} (hg : g.Ok)
    (hnodup : (remaining.map Resolved.device).Nodup)
    (hfresh : ∀ r ∈ remaining, r.device ∉ g.explicit.map Prod.fst)
    (h : wanStep g remaining = .ok (g', rest)) :
    g'.Ok ∧ g.explicit ⊆ g'.explicit ∧ rest.Sublist remaining ∧
      (∀ r ∈ rest, r.device ∉ g'.explicit.map Prod.fst) ∧
      (∀ r ∈ remaining, r ∈ rest ∨ (r.device, wanRole) ∈ g'.explicit) ∧
      (lanRole ∈ g'.assigned ↔ lanRole ∈ g.assigned) ∧
      (wanRole ∉ g.assigned →
        ∀ r, (remaining.find? hasRoute).or remaining.head? = some r → (r.device, wanRole) ∈ g'.explicit) := by
  rw [wanStep] at h
  split_ifs at h with htaken
  · cases h
    exact ⟨hg, fun e he => he, .refl _, hfresh, fun r hr => .inl hr, Iff.rfl,
      fun hne => absurd htaken hne⟩
  · simp only [bind_eq_ok, Prod.exists, pure_eq_ok, Prod.mk.injEq] at h
    obtain ⟨w, rest', hchoose, rfl, rfl⟩ := h
    obtain ⟨hw, hsub, hperm⟩ := chooseWan_ok hchoose
    cases w with
    | none =>
      -- nothing is chosen only if nothing is there
      have hnil : remaining = [] := by
        have hhead := (Option.or_eq_none_iff.mp hw.symm).2
        exact head?_eq_none_iff.mp hhead
      subst hnil
      exact ⟨hg, fun e he => he, hsub, fun r hr => hfresh r (hsub.subset hr), by simp, Iff.rfl,
        by simp⟩
    | some w =>
      have hmem : w ∈ remaining := hperm.subset (by simp)
      obtain ⟨hok, heq⟩ := hg.add (hfresh w hmem) htaken (by decide)
      have hlast : (w.device, wanRole) ∈ (g.add w.device wanRole).explicit :=
        heq ▸ mem_append_right _ mem_cons_self
      have hdistinct : ((w :: rest').map Resolved.device).Nodup :=
        (hperm.map Resolved.device).nodup_iff.mpr hnodup
      refine ⟨hok, fun e he => heq ▸ mem_append_left _ he, hsub, fun r hr hin => ?_,
        fun r hr => ?_, ?_, fun _ r hr => ?_⟩
      · rw [Option.map_some, Option.getD_some, heq, map_append, mem_append] at hin
        rcases hin with hin | hin
        · exact hfresh r (hsub.subset hr) hin
        · have hsame : r.device = w.device := mem_singleton.mp hin
          rw [map_cons, nodup_cons] at hdistinct
          exact hdistinct.1 (hsame ▸ mem_map_of_mem hr)
      · rcases mem_cons.mp (hperm.symm.subset hr) with rfl | hr
        · exact .inr hlast
        · exact .inl hr
      · exact mem_cons.trans (or_iff_right (by decide))
      · obtain rfl : w = r := Option.some.inj (hw.trans hr)
        exact hlast

lemma exists_chosen (h : remaining ≠ []) :
    ∃ r ∈ remaining, (remaining.find? hasRoute).or remaining.head? = some r := by
  cases hfind : remaining.find? hasRoute with
  | some r => exact ⟨r, mem_of_find?_eq_some hfind, rfl⟩
  | none => exact ⟨remaining.head h, head_mem h, head?_eq_some_head h⟩

lemma filled_of_wanStep {resolved rest : List Resolved} (h : Mapped lib resolved mappings explicit)
    (hnodup : (resolved.map Resolved.device).Nodup)
    (hstep : wanStep ⟨explicit, explicit.map Prod.snd⟩ (resolved.filter (unmapped lib mappings)) = .ok (g, rest)) :
    Filled resolved (resolved.filter (unmapped lib mappings)) explicit
      (rest.foldl assignRest g).explicit := by
  have hunmapped : ((resolved.filter (unmapped lib mappings)).map Resolved.device).Nodup :=
    hnodup.sublist (filter_sublist.map _)
  have hfresh : ∀ r ∈ resolved.filter (unmapped lib mappings), r.device ∉ explicit.map Prod.fst := by
    intro r hr
    obtain ⟨hmem, hr⟩ := mem_filter.mp hr
    rw [← h.isNone_lookup hnodup hmem, Option.isNone_iff_eq_none, lookup_eq_none] at hr
    exact hr
  obtain ⟨hg, hkept, hsub, hfree, hleft, hlan, hroute⟩ :=
    wanStep_ok h.toTable.ok hunmapped hfresh hstep
  obtain ⟨hok, hgrow, hall, hhead⟩ := fill_spec hg (hunmapped.sublist (hsub.map _)) hfree
  refine ⟨hok.toTable, fun e he => hgrow (hkept he), fun r hr => ?_, fun hne => ?_,
    fun hne r hr => hgrow (hroute hne r hr), fun hne => ⟨rest, hsub, fun r hr => ?_, hhead fun hin => ?_⟩⟩
  · cases hr' : unmapped lib mappings r with
    | true =>
      rcases hleft r (mem_filter.mpr ⟨hr, hr'⟩) with hin | hin
      · exact hall r hin
      · exact mem_map_of_mem (hgrow hin)
    | false =>
      rw [← h.isNone_lookup hnodup hr, Option.isNone_eq_false_iff, Option.isSome_iff_ne_none, Ne,
        lookup_eq_none, not_not] at hr'
      exact map_subset _ (fun e he => hgrow (hkept he)) hr'
  · by_cases hwan : wanRole ∈ explicit.map Prod.snd
    · obtain ⟨e, he, heq⟩ := mem_map.mp hwan
      obtain ⟨m, -, r, hr, -, rfl⟩ := h.origin e he
      exact ⟨r, hr, hgrow (hkept (heq ▸ he))⟩
    · obtain ⟨r, hr, hchosen⟩ := exists_chosen hne
      exact ⟨r, (mem_filter.mp hr).1, hgrow (hroute hwan r hchosen)⟩
  · exact (hleft r hr).imp_right fun hin => hgrow hin
  · exact hne (hlan.mp hin)

/-! ## The result -/

lemma resolveInterfaces_ok (h : resolveInterfaces lib metadata detected extension = .ok result) :
    ∃ found resolved mappings explicit g rest,
      metadata.foldlM (resolveItem lib detected) [] = .ok found ∧
      resolved = (if found.isEmpty then detectedItems lib 0 detected else found) ∧
      roleMappings extension = .ok mappings ∧
      mappings.foldlM (mapRole lib resolved) [] = .ok explicit ∧
      wanStep ⟨explicit, explicit.map Prod.snd⟩
        (resolved.filter fun r => (lookup r.device explicit).isNone) = .ok (g, rest) ∧
      result = resolved.map fun r =>
        ((lookup r.device (rest.foldl assignRest g).explicit).getD [], r) := by
  simp only [resolveInterfaces, bind_eq_ok] at h
  obtain ⟨found, hfound, mappings, hmappings, explicit, hexplicit, h⟩ := h
  generalize hres : (if found.isEmpty then detectedItems lib 0 detected else found) = resolved
    at h hexplicit
  split_ifs at h with htaken
  · exact ⟨found, resolved, mappings, explicit, _, _, hfound, hres.symm, hmappings, hexplicit,
      if_pos htaken, (pure_eq_ok.mp h).symm⟩
  · simp only [pure_bind, bind_eq_ok] at h
    obtain ⟨w, hchoose, h⟩ := h
    refine ⟨found, resolved, mappings, explicit, _, _, hfound, hres.symm, hmappings, hexplicit, ?_,
      (pure_eq_ok.mp h).symm⟩
    refine (if_neg htaken).trans ?_
    rw [hchoose]
    rfl

def HasRole (g : Roles) (device : Text) : Prop :=
  ∃ role, lookup device g.explicit = some role ∧ isRole role = true

lemma HasRole.add (hform : isRole role = true) (h : d = device ∨ HasRole g d) :
    HasRole (g.add device role) d := by
  by_cases hd : d = device
  · exact ⟨role, by rw [Roles.add, hd, lookup_assign_self], hform⟩
  · obtain ⟨role', hlookup, hrole'⟩ := h.resolve_left hd
    exact ⟨role', by rw [Roles.add, lookup_assign_ne hd, hlookup], hrole'⟩

lemma hasRole_assignRest (h : d = r.device ∨ HasRole g d) : HasRole (assignRest g r) d := by
  refine HasRole.add ?_ h
  split_ifs
  · exact (freeOpt_spec g.assigned).2
  · decide

lemma hasRole_fill {rest : List Resolved} (h : (∃ r ∈ rest, d = r.device) ∨ HasRole g d) :
    HasRole (rest.foldl assignRest g) d := by
  induction rest generalizing g with
  | nil => exact h.resolve_left (by simp)
  | cons r rest ih =>
    refine ih ?_
    rcases h with ⟨r', hr', rfl⟩ | h
    · rcases mem_cons.mp hr' with rfl | hr'
      · exact .inr (hasRole_assignRest (.inl rfl))
      · exact .inl ⟨r', hr', rfl⟩
    · exact .inr (hasRole_assignRest (.inr h))

lemma hasRole_wanStep {g : Roles} {rest : List Resolved} (h : wanStep g remaining = .ok (g', rest))
    (hd : (∃ r ∈ remaining, d = r.device) ∨ HasRole g d) :
    (∃ r ∈ rest, d = r.device) ∨ HasRole g' d := by
  rw [wanStep] at h
  split_ifs at h with htaken
  · cases h
    exact hd
  · simp only [bind_eq_ok, Prod.exists, pure_eq_ok, Prod.mk.injEq] at h
    obtain ⟨w, rest', hchoose, rfl, rfl⟩ := h
    obtain ⟨-, -, hperm⟩ := chooseWan_ok hchoose
    cases w with
    | none =>
      refine hd.imp_left ?_
      rintro ⟨r, hr, heq⟩
      exact ⟨r, hperm.symm.subset hr, heq⟩
    | some w =>
      rcases hd with ⟨r, hr, rfl⟩ | hd
      · rcases mem_cons.mp (hperm.symm.subset hr) with rfl | hr
        · exact .inr (HasRole.add (by decide) (.inl rfl))
        · exact .inl ⟨r, hr, rfl⟩
      · exact .inr (HasRole.add (by decide) (.inr hd))

/-- **Every interface has a role**, also when the machine has two of one name. -/
theorem isRole_of_resolveInterfaces
    (h : resolveInterfaces lib metadata detected extension = .ok result) :
    ∀ a ∈ result, isRole a.1 = true := by
  obtain ⟨-, resolved, mappings, explicit, g, rest, -, -, -, hmap, hstep, rfl⟩ :=
    resolveInterfaces_ok h
  have htable := (map_spec hmap).toTable
  refine forall_mem_map.mpr fun r hr => ?_
  have hstart : (∃ r' ∈ resolved.filter (fun r => (lookup r.device explicit).isNone),
      r.device = r'.device) ∨ HasRole ⟨explicit, explicit.map Prod.snd⟩ r.device := by
    cases hlookup : lookup r.device explicit with
    | none => exact .inl ⟨r, mem_filter.mpr ⟨hr, by rw [hlookup]; rfl⟩, rfl⟩
    | some role => exact .inr ⟨role, hlookup, htable.form _ (mem_of_lookup hlookup)⟩
  obtain ⟨role, hlookup, hrole⟩ := hasRole_fill (hasRole_wanStep hstep hstart)
  rw [hlookup]
  exact hrole

lemma detectedItems_raw (order : ℕ) (detected : List Detected) :
    ∀ r ∈ detectedItems lib order detected,
      (∃ first, r.raw = [(lit "dhcp4", .bool first)]) ∧ r.addresses = [] := by
  induction detected generalizing order with
  | nil => simp [detectedItems]
  | cons d detected ih =>
    refine forall_mem_cons.mpr ⟨⟨⟨_, rfl⟩, rfl⟩, ih (order + 1)⟩

/-- The items of the result are those of the metadata, or stand for the machine's interfaces. -/
lemma items_of_resolveInterfaces
    (h : resolveInterfaces lib metadata detected extension = .ok result) :
    result.map (fun a => a.2.toItem) = metadata ∨
      metadata = [] ∧ ∀ a ∈ result,
        (∃ first, a.2.raw = [(lit "dhcp4", .bool first)]) ∧ a.2.addresses = [] := by
  obtain ⟨found, resolved, -, -, -, -, hfound, hres, -, -, -, rfl⟩ := resolveInterfaces_ok h
  obtain ⟨hall, -⟩ := resolve_spec hfound
  have hitems : found.map Resolved.toItem = metadata := by
    refine (List.forall₂_eq_eq_eq ▸ List.forall₂_map_left_iff.mpr ?_ :)
    exact hall.flip.imp fun _ _ h => h.1
  cases found with
  | nil =>
    refine .inr ⟨hitems.symm, fun a ha => ?_⟩
    obtain ⟨r, hr, rfl⟩ := mem_map.mp ha
    rw [hres] at hr
    exact detectedItems_raw 0 detected r hr
  | cons r found =>
    left
    rw [map_map, hres]
    exact hitems

lemma filter_of_nodup_map {β : Type} [DecidableEq β] {f : α → β} {l : List α} (h : (l.map f).Nodup)
    {a : α} (ha : a ∈ l) : l.filter (fun x => f x = f a) = [a] := by
  induction l with
  | nil => cases ha
  | cons x l ih =>
    rw [map_cons, nodup_cons] at h
    rcases mem_cons.mp ha with rfl | ha
    · have hnone : l.filter (fun x => f x = f a) = [] := by
        refine filter_eq_nil_iff.mpr fun y hy heq => h.1 ?_
        rw [← of_decide_eq_true heq]
        exact mem_map_of_mem hy
      rw [filter_cons_of_pos (by simp), hnone]
    · have hne : f x ≠ f a := fun heq => h.1 (heq ▸ mem_map_of_mem ha)
      rw [filter_cons_of_neg (by simpa using hne), ih h.2 ha]

def roleOf (final : List (Text × Text)) (r : Resolved) : Text := (lookup r.device final).getD []

lemma Table.roleOf_eq (h : Table final) (hr : (r.device, role) ∈ final) :
    roleOf final r = role := by
  rw [roleOf, lookup_of_mem h.devices hr, Option.getD_some]

lemma Table.mem_roleOf (h : Table final) (hr : r.device ∈ final.map Prod.fst) :
    (r.device, roleOf final r) ∈ final := by
  obtain ⟨⟨device, role⟩, hmem, heq⟩ := mem_map.mp hr
  obtain rfl : device = r.device := heq
  rw [h.roleOf_eq hmem]
  exact hmem

lemma Filled.roles_nodup {resolved : List Resolved} {explicit : List (Text × Text)}
    (h : Filled resolved remaining explicit final) (hnodup : (resolved.map Resolved.device).Nodup) :
    (resolved.map (roleOf final)).Nodup := by
  refine List.Nodup.map_on (fun r hr r' hr' heq => ?_) hnodup.of_map
  have hmem := h.mem_roleOf (h.all r hr)
  have hmem' := h.mem_roleOf (h.all r' hr')
  have hsame := inj_on_of_nodup_map h.roles hmem hmem' heq
  exact inj_on_of_nodup_map hnodup hr hr' (Prod.ext_iff.mp hsame).1

/-- Of two members of a list without repetition, the first one stands before the second. -/
lemma mem_front {front back : List α} {a b : α} (h : (front ++ a :: back).Nodup)
    (hsub : [b, a].Sublist (front ++ a :: back)) (hne : b ≠ a) : b ∈ front := by
  obtain ⟨l₁, l₂, heq, h₁, h₂⟩ := sublist_append_iff.mp hsub
  cases l₁ with
  | nil =>
    have hin : [b, a].Sublist (a :: back) := heq ▸ h₂
    have hback : a ∈ back := by
      cases hin with
      | cons _ hin => exact hin.subset (by simp)
      | cons_cons _ _ => exact absurd rfl hne
    exact absurd hback (nodup_cons.mp (nodup_append.mp h).2.1).1
  | cons x l₁ =>
    obtain ⟨rfl, -⟩ := List.cons.inj heq
    exact h₁.subset mem_cons_self

/-- An interface with an `opt` role that no mapping gave it stands behind the `lan` interface. -/
lemma Filled.lan_first {resolved front back : List Resolved} {explicit : List (Text × Text)}
    (h : Filled resolved remaining explicit final) (hnodup : (resolved.map Resolved.device).Nodup)
    (hsub : remaining.Sublist resolved) (hsplit : resolved = front ++ r :: back)
    (hr : r ∈ remaining) (hwan : roleOf final r ≠ wanRole) (hlan : roleOf final r ≠ lanRole) :
    (∃ b ∈ front, roleOf final b = lanRole) ∨ lanRole ∈ explicit.map Prod.snd := by
  by_cases hin : lanRole ∈ explicit.map Prod.snd
  · exact .inr hin
  obtain ⟨rest, hrest, hleft, hhead⟩ := h.lan hin
  have hmem : r ∈ rest := (hleft r hr).resolve_right fun hw => hwan (h.roleOf_eq hw)
  cases rest with
  | nil => cases hmem
  | cons b rest =>
    have hb : roleOf final b = lanRole := h.roleOf_eq (hhead b rfl)
    have hne : b ≠ r := fun heq => hlan (heq ▸ hb)
    have hpair : [b, r].Sublist (b :: rest) := by
      refine List.Sublist.cons_cons b (singleton_sublist.mpr ?_)
      exact (mem_cons.mp hmem).resolve_left fun heq => hne heq.symm
    have hall : (front ++ r :: back).Nodup := hsplit ▸ hnodup.of_map
    exact .inl ⟨b, mem_front hall (hsplit ▸ (hpair.trans hrest).trans hsub) hne, hb⟩

lemma assigned_of_filled {found resolved : List Resolved} {explicit : List (Text × Text)}
    (hfound : metadata.foldlM (resolveItem lib detected) [] = .ok found)
    (hres : resolved = if found.isEmpty then detectedItems lib 0 detected else found)
    (hnodup : (resolved.map Resolved.device).Nodup)
    (hmapped : Mapped lib resolved mappings explicit)
    (h : Filled resolved (resolved.filter (unmapped lib mappings)) explicit final) :
    Assigned lib metadata detected mappings (resolved.map fun r => (roleOf final r, r)) := by
  obtain ⟨hall, -⟩ := resolve_spec hfound
  have hroles : ((resolved.map fun r => (roleOf final r, r)).map Prod.fst).Nodup := by
    rw [map_map]
    exact h.roles_nodup hnodup
  have hdevices : (resolved.map fun r => (roleOf final r, r)).map (fun a => a.2.device)
      = resolved.map Resolved.device := by
    rw [map_map]
    rfl
  have hrest : (resolved.map fun r => (roleOf final r, r)).filter (fun a => unmapped lib mappings a.2)
      = (resolved.filter (unmapped lib mappings)).map fun r => (roleOf final r, r) := by
    rw [filter_map]
    rfl
  -- a role that is in the table of the mappings comes from one of them
  have horigin : ∀ role, role ∈ explicit.map Prod.snd → ∃ m ∈ mappings, mappingRole lib m = role := by
    intro role hin
    obtain ⟨e, he, rfl⟩ := mem_map.mp hin
    obtain ⟨m, hm, r, -, -, rfl⟩ := hmapped.origin e he
    exact ⟨m, hm, rfl⟩
  refine ⟨fun hne => ?_, fun hnil => ?_, hdevices ▸ hnodup, hroles, ?_, fun m hm => ?_, ?_, ?_, ?_⟩
  · have hlen : found ≠ [] := fun hf => hne (length_eq_zero_iff.mp
      (hall.length_eq.trans (length_eq_zero_iff.mpr hf)))
    rw [if_neg (by simpa using hlen)] at hres
    rw [hres, List.forall₂_map_right_iff]
    exact hall
  · subst hnil
    cases hall
    rw [hdevices, hres]
    exact device_detectedItems 0 detected
  · intro a ha
    obtain ⟨r, hr, rfl⟩ := mem_map.mp ha
    exact h.form _ (h.mem_roleOf (h.all r hr))
  · obtain ⟨r, hr, hin⟩ := hmapped.respected m hm
    refine ⟨(roleOf final r, r), ?_, h.roleOf_eq (h.kept hin)⟩
    rw [filter_map]
    exact congrArg (List.map fun r => (roleOf final r, r)) hr
  · rintro ⟨a, ha, hun⟩
    obtain ⟨r, hr, rfl⟩ := mem_map.mp ha
    obtain ⟨w, hw, hin⟩ := h.wan (ne_nil_of_mem (mem_filter.mpr ⟨hr, hun⟩))
    have hone := filter_of_nodup_map hroles (mem_map_of_mem hw)
    rw [h.roleOf_eq hin] at hone
    exact ⟨_, hone⟩
  · rintro hfree rest rfl a ha
    rw [hrest, find?_map, head?_map, ← Option.map_or] at ha
    obtain ⟨r, hr, rfl⟩ := Option.map_eq_some_iff.mp ha
    refine h.roleOf_eq (h.route (fun hin => ?_) r hr)
    obtain ⟨m, hm, hrole⟩ := horigin _ hin
    exact hfree m hm hrole
  · intro front a back hsplit hun hwan hlan
    obtain ⟨front', more, hfm, rfl, hmore⟩ := map_eq_append_iff.mp hsplit
    obtain ⟨r, back', rfl, rfl, -⟩ := map_eq_cons_iff.mp hmore
    have hr : r ∈ resolved := by
      rw [hfm]
      simp
    refine (h.lan_first hnodup filter_sublist hfm (mem_filter.mpr ⟨hr, hun⟩) hwan hlan).imp
      (fun ⟨b, hb, hrole⟩ => ⟨_, mem_map_of_mem hb, hrole⟩) (horigin _)

lemma assigned_of_devices (hnames : metadata = [] → (detected.map Detected.name).Nodup)
    (hmappings : roleMappings extension = .ok mappings)
    (h : resolveInterfaces lib metadata detected extension = .ok result) :
    Assigned lib metadata detected mappings result := by
  obtain ⟨found, resolved, mappings', explicit, g, rest, hfound, hres, hmap, hexplicit, hstep, rfl⟩ :=
    resolveInterfaces_ok h
  obtain rfl : mappings' = mappings := Except.ok.inj (hmap.symm.trans hmappings)
  obtain ⟨hall, hdevices⟩ := resolve_spec hfound
  have hnodup : (resolved.map Resolved.device).Nodup := by
    rw [hres]
    split_ifs with hempty
    · rw [List.isEmpty_iff.mp hempty] at hall
      rw [device_detectedItems]
      exact hnames (List.forall₂_nil_right_iff.mp hall)
    · exact hdevices
  have hmapped := map_spec hexplicit
  have hunmapped : resolved.filter (fun r => (lookup r.device explicit).isNone)
      = resolved.filter (unmapped lib mappings') :=
    filter_congr fun r hr => hmapped.isNone_lookup hnodup hr
  rw [hunmapped] at hstep
  exact assigned_of_filled hfound hres hnodup hmapped (filled_of_wanStep hmapped hnodup hstep)

/-- **The roles of the interfaces.**  If `resolve_interfaces` returns, every interface of the
metadata has a device and a role of its own, as the mappings and the order of the interfaces say. -/
theorem resolveInterfaces_assigned {metadata : List Item} {detected : List Detected} {extension : Dict}
    {mappings : List Value} {result : List (Text × Resolved)}
    (hnames : (detected.map Detected.name).Nodup) (hmappings : roleMappings extension = .ok mappings)
    (h : resolveInterfaces lib metadata detected extension = .ok result) :
    Assigned lib metadata detected mappings result :=
  assigned_of_devices (fun _ => hnames) hmappings h

def threeItems : List Item :=
  [⟨[], some (lit "vtnet0"), none, []⟩, ⟨[], some (lit "vtnet1"), none, []⟩,
    ⟨[(lit "default_route", .bool true)], some (lit "vtnet2"), none, []⟩]

def threeDetected : List Detected := ["vtnet0", "vtnet1", "vtnet2"].map fun n => ⟨lit n, none⟩

def threeMapping : Value := .dict [(lit "name", .str (lit "VTNET0")), (lit "role", .str (lit "opt2"))]

theorem resolveInterfaces_assigned_three :
    ∃ result, resolveInterfaces sampleLibrary threeItems threeDetected
        [(lit "interfaces", .list [threeMapping])] = .ok result ∧
      result.map Prod.fst = [lit "opt2", lit "lan", lit "wan"] ∧
      Assigned sampleLibrary threeItems threeDetected [threeMapping] result := by
  obtain ⟨result, h, hroles⟩ := exists_ok_of_view (List.map Prod.fst)
    (x := resolveInterfaces sampleLibrary threeItems threeDetected
      [(lit "interfaces", .list [threeMapping])])
    (c := [lit "opt2", lit "lan", lit "wan"]) (by decide +kernel)
  exact ⟨result, h, hroles, resolveInterfaces_assigned (by decide +kernel) rfl h⟩

end FreeSense.CloudInit
