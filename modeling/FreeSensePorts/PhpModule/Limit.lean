import FreeSensePorts.PhpModule.States

/-!
# What the limit of the listing counts

The callback counts every state it is called with, before it looks at the filter, and it stops at
the state number `50002`.  So the listing has the records of those of the first `50001` states that
pass the filter, which are the first `50000` that pass it only where one of the two bounds does not
bite.
-/

namespace FreeSense.PhpModule

open List
open Php (Value Entries Key)

/-! ## Filters by interface -/

/-- An array of sub-arrays, each with at least one interface. -/
structure InterfaceFilter where
  groups : List (ℤ × List (Text × Text))
  some_group : groups ≠ []
  some_name : ∀ g ∈ groups, g.2 ≠ []
  keys : ∀ g ∈ groups, ∀ e ∈ g.2, Text.eqIgnoreCase e.1 "interface".toList = true

namespace InterfaceFilter

def groupValue (names : List (Text × Text)) : Value :=
  .arr (Entries.ofList (names.map fun e => (.str e.1, .str e.2)))

def value (f : InterfaceFilter) : Value :=
  .arr (Entries.ofList (f.groups.map fun g => (.int g.1, groupValue g.2)))

/-- The state's interface is one of those named. -/
def admits (f : InterfaceFilter) (s : State) : Bool :=
  f.groups.any fun g => g.2.any fun e => Text.eqIgnoreCase s.origIfname e.2

end InterfaceFilter

def passes (f : Option InterfaceFilter) (s : State) : Bool :=
  match f with
  | some f => f.admits s
  | none => true

theorem toList_ofList (l : List (Key × Value)) : (Entries.ofList l).toList = l := by
  induction l with
  | nil => rfl
  | cons e l ih => rw [Entries.ofList, Entries.toList, ih]

/-! ## The first pass -/

variable {f : InterfaceFilter}

/-- The flags of a call with an interface filter. -/
def interfaceFlags : Flags := ⟨true, true, false, none⟩

theorem flagEntry_interface {flags : Flags} {e : Text × Text}
    (he : Text.eqIgnoreCase e.1 "interface".toList = true)
    (hflags : flags = noFlags ∨ flags = interfaceFlags) :
    flagEntry flags (.str e.1, .str e.2) = some interfaceFlags := by
  simp only [flagEntry, he, if_true]
  rcases hflags with rfl | rfl <;> rfl

theorem foldlM_flagEntry {flags : Flags} {names : List (Text × Text)} (hnames : names ≠ [])
    (hkeys : ∀ e ∈ names, Text.eqIgnoreCase e.1 "interface".toList = true)
    (hflags : flags = noFlags ∨ flags = interfaceFlags) :
    (names.map fun e => ((.str e.1, .str e.2) : Key × Value)).foldlM flagEntry flags =
      some interfaceFlags := by
  induction names generalizing flags with
  | nil => exact absurd rfl hnames
  | cons e names ih =>
    rw [map_cons, foldlM_cons, flagEntry_interface (hkeys e mem_cons_self) hflags]
    cases names with
    | nil => rfl
    | cons e' names =>
      exact ih (cons_ne_nil _ _) (fun e he => hkeys e (mem_cons_of_mem _ he)) (.inr rfl)

theorem foldlM_flagGroup {flags : Flags} {groups : List (ℤ × List (Text × Text))}
    (hgroups : groups ≠ []) (hnames : ∀ g ∈ groups, g.2 ≠ [])
    (hkeys : ∀ g ∈ groups, ∀ e ∈ g.2, Text.eqIgnoreCase e.1 "interface".toList = true)
    (hflags : flags = noFlags ∨ flags = interfaceFlags) :
    (groups.map fun g => ((.int g.1, InterfaceFilter.groupValue g.2) : Key × Value)).foldlM
      flagGroup flags = some interfaceFlags := by
  induction groups generalizing flags with
  | nil => exact absurd rfl hgroups
  | cons g groups ih =>
    have hfirst : flagGroup flags (.int g.1, InterfaceFilter.groupValue g.2) =
        some interfaceFlags := by
      show (Entries.ofList _).toList.foldlM flagEntry flags = _
      rw [toList_ofList]
      exact foldlM_flagEntry (hnames g mem_cons_self) (hkeys g mem_cons_self) hflags
    rw [map_cons, foldlM_cons, hfirst]
    cases groups with
    | nil => rfl
    | cons g' groups =>
      exact ih (cons_ne_nil _ _) (fun g hg => hnames g (mem_cons_of_mem _ hg))
        (fun g hg => hkeys g (mem_cons_of_mem _ hg)) (.inr rfl)

/-! ## The filter in the callback -/

variable {a : StateArg} {s : State}

theorem groupFound_names (hif : a.filterIf = true) (found : Bool) (names : List (Text × Text)) :
    groupFound a s found (names.map fun e => (.str e.1, .str e.2)) =
      some (found || names.any fun e => Text.eqIgnoreCase s.origIfname e.2) := by
  induction names generalizing found with
  | nil => simp [groupFound]
  | cons e names ih =>
    have hentry : entryFound a s (.str e.2) = some (Text.eqIgnoreCase s.origIfname e.2) := by
      simp [entryFound, hif]
    rw [groupFound, map_cons, foldlM_cons, hentry]
    refine (ih _).trans ?_
    rw [any_cons, Bool.or_assoc]

theorem filterFound_groups (hif : a.filterIf = true) (found : Bool)
    (groups : List (ℤ × List (Text × Text))) (hnames : ∀ g ∈ groups, g.2 ≠ []) :
    filterFound a s (groups.map fun g => (.int g.1, InterfaceFilter.groupValue g.2)) found =
      some (some (found || groups.any fun g => g.2.any fun e =>
        Text.eqIgnoreCase s.origIfname e.2)) := by
  induction groups generalizing found with
  | nil => simp [filterFound]
  | cons g groups ih =>
    have hne : g.2.map (fun e => ((.str e.1, .str e.2) : Key × Value)) ≠ [] := by
      simpa using hnames g mem_cons_self
    rw [map_cons, InterfaceFilter.groupValue, filterFound, toList_ofList,
      groupFound_names hif, Option.bind_eq_bind, Option.bind_some, if_neg hne,
      ih _ fun g hg => hnames g (mem_cons_of_mem _ hg), any_cons, Bool.or_assoc]

/-! ## Whole runs -/

/-- The argument of the callback belongs to a call with this filter. -/
structure Serves (f : Option InterfaceFilter) (a : StateArg) : Prop where
  filterIf : a.filterIf = f.isSome
  filterRl : a.filterRl = false
  zvar : a.zvar = f.map InterfaceFilter.value
  filter : a.filter = none

variable {f : Option InterfaceFilter}

/-- The states that the listing takes, of those that are seen. -/
def taken (f : Option InterfaceFilter) (lib : Lib) (states : List State) : List Value :=
  (states.filter (passes f)).map (record lib)

theorem taken_cons (lib : Lib) (states : List State) :
    taken f lib (s :: states) = taken f lib [s] ++ taken f lib states := by
  rw [taken, taken, taken, ← map_append, ← filter_append, singleton_append]

theorem appendState_eq (lib : Lib) (ha : Serves f a) (hcount : a.count ≤ 50000) :
    appendState lib a s =
      some (0, { a with count := a.count + 1, rows := a.rows ++ taken f lib [s] }) := by
  obtain ⟨count, filterIf, filterRl, zvar, filter, rows⟩ := a
  obtain ⟨rfl, rfl, rfl, rfl⟩ := ha
  rw [appendState, if_neg (by simpa using hcount)]
  cases f with
  | none =>
    have hone : taken none lib [s] = [record lib s] := rfl
    simp [hone]
  | some f =>
    have hfound := filterFound_groups (a := ⟨count + 1, true, false, some f.value, none, rows⟩)
      (s := s) rfl false f.groups f.some_name
    simp only [Option.isSome_some, Option.map_some, InterfaceFilter.value, true_or, if_true,
      toList_ofList]
    simp only [InterfaceFilter.value] at hfound
    rw [hfound]
    have hpass : passes (some f) s = f.groups.any fun g => g.2.any fun e =>
      Text.eqIgnoreCase s.origIfname e.2 := rfl
    cases hany : f.groups.any fun g => g.2.any fun e => Text.eqIgnoreCase s.origIfname e.2 with
    | true => simp [hany, hpass, taken]
    | false => simp [hany, hpass, taken]

theorem getStatesIter_eq (lib : Lib) (states : List State) (ha : Serves f a)
    (hcount : a.count ≤ 50001) :
    ∃ code count, (code = 0 ∨ code = e2big) ∧ getStatesIter lib states a =
      some (code, { a with
        count := count, rows := a.rows ++ taken f lib (states.take (50001 - a.count)) }) := by
  induction states generalizing a with
  | nil => exact ⟨0, a.count, .inl rfl, by simp [getStatesIter, taken]⟩
  | cons s states ih =>
    by_cases hfull : 50000 < a.count
    · refine ⟨e2big, a.count, .inr rfl, ?_⟩
      rw [getStatesIter, appendState, if_pos hfull, show 50001 - a.count = 0 by omega]
      simp [e2big, taken]
    · obtain ⟨code, count, hcode, hrest⟩ := @ih
        { a with count := a.count + 1, rows := a.rows ++ taken f lib [s] }
        ⟨ha.filterIf, ha.filterRl, ha.zvar, ha.filter⟩ (Nat.succ_le_succ (not_lt.1 hfull))
      refine ⟨code, count, hcode, ?_⟩
      rw [getStatesIter, appendState_eq lib ha (not_lt.1 hfull)]
      refine hrest.trans ?_
      rw [show 50001 - a.count = (50001 - (a.count + 1)) + 1 by omega, take_succ_cons,
        taken_cons lib (states.take _), ← append_assoc]

/-- The listing, with an interface filter or none. -/
theorem getPfStates_eq (lib : Lib) (f : Option InterfaceFilter) (states : List State) :
    getPfStates lib (f.map InterfaceFilter.value) states =
      some (list (taken f lib (states.take 50001))) := by
  have hrun : ∀ a : StateArg, Serves f a → a.count = 0 → a.rows = [] →
      ((getStatesIter lib states a).bind fun r =>
        if r.1 ≠ 0 ∧ r.1 ≠ e2big then some .null else some (list r.2.rows)) =
      some (list (taken f lib (states.take 50001))) := by
    intro a ha hcount hrows
    obtain ⟨code, count, hcode, hiter⟩ := getStatesIter_eq lib states ha (by omega)
    rw [hiter, hcount, hrows]
    rcases hcode with rfl | rfl <;> rfl
  cases f with
  | none => exact hrun _ ⟨rfl, rfl, rfl, rfl⟩ rfl rfl
  | some f =>
    have hflags : readFlags (some f.value) = some interfaceFlags := by
      rw [InterfaceFilter.value, readFlags, toList_ofList]
      exact foldlM_flagGroup f.some_group f.some_name f.keys (.inl rfl)
    rw [Option.map_some, getPfStates, hflags]
    exact hrun ⟨0, true, false, some f.value, none, []⟩ ⟨rfl, rfl, rfl, rfl⟩ rfl rfl

/-! ## The limit -/

theorem length_entries_list (values : List Value) : (list values).entries.length = values.length := by
  rw [list, Value.entries, toList_ofList, length_map, length_zipIdx]

theorem length_taken_none (lib : Lib) (states : List State) :
    (taken none lib states).length = states.length := by
  have hall : passes none = fun _ => true := rfl
  rw [taken, length_map, hall, filter_true]

theorem list_take_eq_iff {l₁ l₂ : List Value} (n : ℕ) :
    list l₁ = list ((l₁ ++ l₂).take n) ↔ l₁.length ≤ n ∧ (l₁.length = n ∨ l₂ = []) := by
  constructor
  · intro heq
    have hlen := congrArg (fun v : Value => v.entries.length) heq
    simp only [length_entries_list, length_take, length_append] at hlen
    rw [← length_eq_zero_iff]
    omega
  · rintro ⟨hle, rfl | rfl⟩
    · rw [take_left]
    · rw [append_nil, take_of_length_le hle]

/-- The bound on the states seen and the bound on the records agree: at most `50000` of the first
`50001` states pass, and fewer only where no later one does. -/
def WithinLimit (f : Option InterfaceFilter) (states : List State) : Prop :=
  let seen := (states.take 50001).filter (passes f)
  seen.length ≤ 50000 ∧ (seen.length = 50000 ∨ (states.drop 50001).filter (passes f) = [])

/-- **The limit counts results** exactly where the two bounds agree. -/
theorem first_matches_iff (lib : Lib) (f : Option InterfaceFilter) (states : List State) :
    getPfStates lib (f.map InterfaceFilter.value) states =
        some (list (((states.filter (passes f)).take 50000).map (record lib))) ↔
      WithinLimit f states := by
  have hsplit : (states.filter (passes f)).map (record lib) =
      taken f lib (states.take 50001) ++ taken f lib (states.drop 50001) := by
    rw [taken, taken, ← map_append, ← filter_append, take_append_drop]
  rw [getPfStates_eq, Option.some_inj, map_take, hsplit, list_take_eq_iff, WithinLimit,
    taken, taken, length_map, map_eq_nil_iff]

def sampleState : State where
  ifname := "all".toList
  origIfname := "igb0".toList
  rtIfname := []
  direction := .outgoing
  wire := ⟨fun _ => [192, 0, 2, 1], fun _ => 443, afInet, ipprotoTcp⟩
  stack := ⟨fun _ => [192, 0, 2, 1], fun _ => 443, afInet, ipprotoTcp⟩
  src := 4
  dst := 4
  creation := 61
  expire := 3600
  packets := (1, 2)
  bytes := (100, 200)
  anchor := -1
  rule := 5
  id := 1
  creatorid := 2

def sampleLib : Lib := ⟨fun n => if n = ipprotoTcp then some "tcp".toList else none, fun _ _ => none⟩

/-- Without a filter `50001` states are listed. -/
theorem listing_exceeds_limit :
    getPfStates sampleLib none (List.replicate 50001 sampleState) ≠
      some (list (((List.replicate 50001 sampleState).take 50000).map (record sampleLib))) := by
  intro heq
  have hlisted := getPfStates_eq sampleLib none (List.replicate 50001 sampleState)
  have hlen := congrArg (fun v : Value => v.entries.length)
    (Option.some_inj.1 (hlisted.symm.trans heq))
  simp only [length_entries_list, length_taken_none, length_map, length_take,
    length_replicate] at hlen
  omega

end FreeSense.PhpModule
