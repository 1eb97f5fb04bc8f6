import Mathlib.Data.Finset.Insert
import Mathlib.Data.List.Nodup
import Mathlib.Tactic

/-!
# Mark and sweep over a list

A list of flagged elements is brought up to date with a list of targets: every element that is not
static is *marked* old; each target is *added*, which clears the mark of the element it meets or puts a
new element in front; and a *sweep* drops what is still marked, and reports what it added and deleted.

Between two rounds a list is `Resting`: no element twice, no flag pending.  There the round is a set
difference (`mem_vals_refresh`, `add_mem_report`, `del_mem_report`), and `mem_foldl_apply` carries the
report over to a set that follows the list.  Proofs read a list through `find`.
-/

namespace FreeSense

open List

structure Marked (α : Type*) where
  val : α
  new : Bool
  old : Bool
  static : Bool
  deriving DecidableEq, Repr

inductive Change (α : Type*)
  | add (a : α)
  | del (a : α)
  deriving DecidableEq, Repr

namespace MarkSweep

variable {α : Type*} {l : List (Marked α)} {a : α} {e : Marked α}

def vals (l : List (Marked α)) : List α := l.map Marked.val

def mark (l : List (Marked α)) : List (Marked α) :=
  l.map fun e => if e.static then e else { e with old := true }

def changes (l : List (Marked α)) : List (Change α) :=
  l.flatMap fun e =>
    (if e.new then [.add e.val] else []) ++ (if e.old then [.del e.val] else [])

def sweep (l : List (Marked α)) : List (Marked α) :=
  (l.filter fun e => !e.old).map fun e => { e with new := false }

/-- No element twice, no flag pending. -/
structure Resting (l : List (Marked α)) : Prop where
  nodup : (vals l).Nodup
  new : ∀ e ∈ l, e.new = false
  old : ∀ e ∈ l, e.old = false

/-- No element twice, no deletion pending.  Elements may be new, as long as nobody has looked. -/
structure Swept (l : List (Marked α)) : Prop where
  nodup : (vals l).Nodup
  old : ∀ e ∈ l, e.old = false

lemma Resting.swept (h : Resting l) : Swept l := ⟨h.nodup, h.old⟩

/-- The elements that have been reported. -/
def seen (l : List (Marked α)) : List α := vals (l.filter fun e => !e.new)

lemma mem_seen : a ∈ seen l ↔ ∃ e ∈ l, e.val = a ∧ e.new = false := by
  simp [seen, vals, and_assoc, and_comm]

@[simp] lemma resting_nil : Resting ([] : List (Marked α)) :=
  ⟨by simp [vals], by simp, by simp⟩

variable [DecidableEq α]

/-- Take the mark off the first element with this value. -/
def clearOld (a : α) : List (Marked α) → List (Marked α)
  | [] => []
  | e :: l => if e.val = a then { e with old := false } :: l else e :: clearOld a l

def add (l : List (Marked α)) (t : α × Bool) : List (Marked α) :=
  if t.1 ∈ vals l then clearOld t.1 l else ⟨t.1, true, false, t.2⟩ :: l

def addAll (ts : List (α × Bool)) (l : List (Marked α)) : List (Marked α) := ts.foldl add l

/-- One round: mark, add every target, sweep. -/
def refresh (ts : List (α × Bool)) (l : List (Marked α)) : List (Marked α) :=
  sweep (addAll ts (mark l))

def report (ts : List (α × Bool)) (l : List (Marked α)) : List (Change α) :=
  changes (addAll ts (mark l))

/-! ## Reading a list as a partial function -/

def find (l : List (Marked α)) (a : α) : Option (Marked α) := l.find? fun e => e.val = a

@[simp] lemma find_nil (a : α) : find [] a = none := rfl

lemma find_cons (e : Marked α) (l : List (Marked α)) (a : α) :
    find (e :: l) a = if e.val = a then some e else find l a := by
  by_cases h : e.val = a <;> simp [h, find]

lemma mem_vals : a ∈ vals l ↔ ∃ e, find l a = some e := by
  induction l with
  | nil => simp [vals]
  | cons e l ih =>
    have hcons : vals (e :: l) = e.val :: vals l := rfl
    rw [hcons, find_cons]
    by_cases h : e.val = a
    · simp [h]
    · rw [if_neg h, ← ih]
      simp [Ne.symm h]

lemma find_eq_some (h : (vals l).Nodup) : find l a = some e ↔ e ∈ l ∧ e.val = a := by
  induction l with
  | nil => simp
  | cons d l ih =>
    have hcons : vals (d :: l) = d.val :: vals l := rfl
    rw [hcons, nodup_cons] at h
    rw [find_cons, mem_cons]
    by_cases hd : d.val = a
    · rw [if_pos hd, Option.some.injEq]
      constructor
      · rintro rfl
        exact ⟨Or.inl rfl, hd⟩
      · rintro ⟨rfl | he, hea⟩
        · rfl
        · exact absurd (mem_map.mpr ⟨e, he, hea.trans hd.symm⟩) h.1
    · rw [if_neg hd, ih h.2]
      constructor
      · rintro ⟨he, hea⟩
        exact ⟨Or.inr he, hea⟩
      · rintro ⟨rfl | he, hea⟩
        · exact absurd hea hd
        · exact ⟨he, hea⟩

lemma find_none : find l a = none ↔ a ∉ vals l := by
  rw [mem_vals, ← Option.isSome_iff_exists, Option.not_isSome_iff_eq_none]

/-! ## One lemma for each pass -/

omit [DecidableEq α] in
lemma vals_mark (l : List (Marked α)) : vals (mark l) = vals l := by
  simp only [vals, mark, map_map]
  refine map_congr_left fun e _ => ?_
  simp only [Function.comp_apply]
  split_ifs <;> rfl

lemma find_mark (l : List (Marked α)) (a : α) :
    find (mark l) a = (find l a).map fun e => if e.static then e else { e with old := true } := by
  induction l with
  | nil => rfl
  | cons e l ih =>
    have hcons : mark (e :: l) = (if e.static then e else { e with old := true }) :: mark l := rfl
    rw [hcons, find_cons, find_cons, ih]
    by_cases hs : e.static = true <;> by_cases h : e.val = a <;> simp [hs, h]

lemma vals_clearOld (a : α) : ∀ l : List (Marked α), vals (clearOld a l) = vals l
  | [] => rfl
  | e :: l => by
    rw [clearOld]
    split_ifs
    · rfl
    · have ih := vals_clearOld a l
      simp only [vals, map_cons] at ih ⊢
      rw [ih]

lemma find_clearOld (a b : α) : ∀ l : List (Marked α), find (clearOld a l) b
    = if b = a then (find l b).map fun e => { e with old := false } else find l b
  | [] => by simp [clearOld]
  | e :: l => by
    have ih := find_clearOld a b l
    rw [clearOld]
    by_cases h : e.val = a
    · rw [if_pos h, find_cons, find_cons]
      by_cases hb : b = a
      · simp [h, hb]
      · simp [h, hb, Ne.symm hb]
    · rw [if_neg h, find_cons, find_cons, ih]
      by_cases hb : b = a
      · subst hb
        simp [h]
      · simp [hb]

lemma nodup_add (h : (vals l).Nodup) (t : α × Bool) : (vals (add l t)).Nodup := by
  unfold add
  split_ifs with ht
  · rwa [vals_clearOld]
  · exact nodup_cons.mpr ⟨ht, h⟩

lemma find_add (l : List (Marked α)) (t : α × Bool) (a : α) :
    find (add l t) a = if a = t.1 then
        some ((find l a).elim ⟨a, true, false, t.2⟩ fun e => { e with old := false })
      else find l a := by
  unfold add
  by_cases ht : t.1 ∈ vals l
  · rw [if_pos ht, find_clearOld]
    by_cases ha : a = t.1
    · obtain ⟨e, he⟩ := mem_vals.mp (ha ▸ ht)
      simp [ha, ha ▸ he]
    · simp [ha]
  · rw [if_neg ht, find_cons]
    by_cases ha : a = t.1
    · subst ha
      simp [find_none.mpr ht]
    · rw [if_neg (Ne.symm ha), if_neg ha]

lemma nodup_addAll : ∀ (ts : List (α × Bool)) {l : List (Marked α)}, (vals l).Nodup →
    (vals (addAll ts l)).Nodup
  | [], _, h => h
  | t :: ts, _, h => nodup_addAll ts (nodup_add h t)

lemma find_addAll_of_notMem : ∀ {ts : List (α × Bool)} (l : List (Marked α)),
    a ∉ ts.map Prod.fst → find (addAll ts l) a = find l a
  | [], _, _ => rfl
  | t :: ts, l, h => by
    rw [map_cons, mem_cons, not_or] at h
    have hstep : addAll (t :: ts) l = addAll ts (add l t) := rfl
    rw [hstep, find_addAll_of_notMem _ h.2, find_add, if_neg h.1]

/-- A target ends up unmarked: as it was if it was there, and otherwise new, as static as it was
asked for. -/
lemma find_addAll_of_mem : ∀ {ts : List (α × Bool)} (l : List (Marked α)),
    a ∈ ts.map Prod.fst → ∃ e, find (addAll ts l) a = some e ∧ e.old = false ∧
      (find l a = none → e.new = true ∧ (a, e.static) ∈ ts) ∧
      ∀ d, find l a = some d → e.new = d.new ∧ e.static = d.static
  | [], _, h => by simp at h
  | t :: ts, l, h => by
    have hstep : addAll (t :: ts) l = addAll ts (add l t) := rfl
    rw [hstep]
    by_cases hlater : a ∈ ts.map Prod.fst
    · obtain ⟨e, he, hold, hnone, hsome⟩ := find_addAll_of_mem (add l t) hlater
      refine ⟨e, he, hold, ?_⟩
      rw [find_add] at hnone hsome
      by_cases hat : a = t.1
      · rw [if_pos hat] at hsome
        obtain ⟨hnew, hstatic⟩ := hsome _ rfl
        cases hf : find l a with
        | none =>
          simp only [hf, Option.elim_none] at hnew hstatic
          refine ⟨fun _ => ⟨hnew, ?_⟩, by simp⟩
          rw [hstatic, hat]
          exact mem_cons_self
        | some d =>
          simp only [hf, Option.elim_some] at hnew hstatic
          simp [hnew, hstatic]
      · rw [if_neg hat] at hnone hsome
        refine ⟨fun hn => ⟨(hnone hn).1, mem_cons_of_mem _ (hnone hn).2⟩, hsome⟩
    · have hat : a = t.1 := by
        rw [map_cons, mem_cons] at h
        exact h.resolve_right hlater
      rw [find_addAll_of_notMem _ hlater, find_add, if_pos hat]
      cases hf : find l a with
      | none => exact ⟨_, rfl, rfl, fun _ => ⟨rfl, by simp [hat]⟩, by simp⟩
      | some d => exact ⟨_, rfl, rfl, by simp, by simp⟩

omit [DecidableEq α] in
lemma nodup_sweep (h : (vals l).Nodup) : (vals (sweep l)).Nodup := by
  have hvals : vals (sweep l) = (l.filter fun e => !e.old).map Marked.val := by
    simp only [vals, sweep, map_map]
    rfl
  rw [hvals]
  exact (filter_sublist.map _).nodup h

omit [DecidableEq α] in
lemma mem_sweep : e ∈ sweep l ↔ ∃ d ∈ l, d.old = false ∧ e = { d with new := false } := by
  simp only [sweep, mem_map, mem_filter, Bool.not_eq_true']
  constructor
  · rintro ⟨d, ⟨hd, hold⟩, rfl⟩
    exact ⟨d, hd, hold, rfl⟩
  · rintro ⟨d, hd, hold, rfl⟩
    exact ⟨d, ⟨hd, hold⟩, rfl⟩

omit [DecidableEq α] in
lemma mem_changes {c : Change α} : c ∈ changes l ↔
      ∃ e ∈ l, (e.new = true ∧ c = .add e.val) ∨ (e.old = true ∧ c = .del e.val) := by
  simp only [changes, mem_flatMap, mem_append]
  refine exists_congr fun e => and_congr_right fun _ => ?_
  by_cases hn : e.new = true <;> by_cases ho : e.old = true <;> simp [hn, ho]

omit [DecidableEq α] in
lemma changes_cons (e : Marked α) (l : List (Marked α)) :
    changes (e :: l) = (if e.new then [.add e.val] else []) ++ (if e.old then [.del e.val] else [])
      ++ changes l := rfl

omit [DecidableEq α] in
lemma nodup_changes (h : (vals l).Nodup) : (changes l).Nodup := by
  induction l with
  | nil => exact nodup_nil
  | cons e l ih =>
    have hcons : vals (e :: l) = e.val :: vals l := rfl
    rw [hcons, nodup_cons] at h
    have hother : ∀ c ∈ changes l, c ≠ .add e.val ∧ c ≠ .del e.val := by
      intro c hc
      obtain ⟨d, hd, ⟨-, rfl⟩ | ⟨-, rfl⟩⟩ := mem_changes.mp hc
      all_goals
        have hne : d.val ≠ e.val := fun heq => h.1 (heq ▸ mem_map_of_mem hd)
        simp [hne]
    rw [changes_cons, nodup_append]
    refine ⟨?_, ih h.2, ?_⟩
    · by_cases hn : e.new = true <;> by_cases ho : e.old = true <;> simp [hn, ho]
    · rintro c hc _ hd rfl
      obtain ⟨hadd, hdel⟩ := hother c hd
      by_cases hn : e.new = true <;> by_cases ho : e.old = true <;> simp_all

lemma add_mem_changes (h : (vals l).Nodup) :
    .add a ∈ changes l ↔ ∃ e, find l a = some e ∧ e.new = true := by
  rw [mem_changes]
  constructor
  · rintro ⟨e, he, ⟨hnew, hc⟩ | ⟨-, hc⟩⟩
    · rw [Change.add.injEq] at hc
      exact ⟨e, (find_eq_some h).mpr ⟨he, hc.symm⟩, hnew⟩
    · exact absurd hc (by simp)
  · rintro ⟨e, he, hnew⟩
    obtain ⟨hel, rfl⟩ := (find_eq_some h).mp he
    exact ⟨e, hel, Or.inl ⟨hnew, rfl⟩⟩

lemma del_mem_changes (h : (vals l).Nodup) :
    .del a ∈ changes l ↔ ∃ e, find l a = some e ∧ e.old = true := by
  rw [mem_changes]
  constructor
  · rintro ⟨e, he, ⟨-, hc⟩ | ⟨hold, hc⟩⟩
    · exact absurd hc (by simp)
    · rw [Change.del.injEq] at hc
      exact ⟨e, (find_eq_some h).mpr ⟨he, hc.symm⟩, hold⟩
  · rintro ⟨e, he, hold⟩
    obtain ⟨hel, rfl⟩ := (find_eq_some h).mp he
    exact ⟨e, hel, Or.inr ⟨hold, rfl⟩⟩

/-! ## One round -/

section Round

variable {l : List (Marked α)} (h : Swept l) (ts : List (α × Bool))

include h

private lemma nodup_round : (vals (addAll ts (mark l))).Nodup :=
  nodup_addAll ts (by rw [vals_mark]; exact h.nodup)

/-- What the list holds under `a` just before the sweep. -/
lemma find_round (a : α) :
    if a ∈ ts.map Prod.fst then
      ∃ e, find (addAll ts (mark l)) a = some e ∧ e.old = false ∧
        (e.new = true ↔ ∀ d ∈ l, d.val = a → d.new = true) ∧
        (a ∉ vals l → (a, e.static) ∈ ts) ∧ ∀ d ∈ l, d.val = a → e.static = d.static
    else find (addAll ts (mark l)) a
      = (find l a).map fun e => if e.static then e else { e with old := true } := by
  split_ifs with ha
  · obtain ⟨e, he, hold, hnone, hsome⟩ := find_addAll_of_mem (mark l) ha
    have hthere : ∀ d ∈ l, d.val = a → e.new = d.new ∧ e.static = d.static := by
      intro d hd hda
      have hfind := (find_eq_some h.nodup).mpr ⟨hd, hda⟩
      obtain ⟨hn, hs⟩ := hsome _ (by rw [find_mark, hfind, Option.map_some])
      split_ifs at hn hs
      · exact ⟨hn, hs⟩
      · exact ⟨hn, hs⟩
    have hgone : a ∉ vals l → e.new = true ∧ (a, e.static) ∈ ts := by
      intro hnot
      exact hnone (by rw [find_none, vals_mark]; exact hnot)
    refine ⟨e, he, hold, ⟨fun hnew d hd hda => (hthere d hd hda).1 ▸ hnew, fun hall => ?_⟩,
      fun hnot => (hgone hnot).2, fun d hd hda => (hthere d hd hda).2⟩
    by_cases hin : a ∈ vals l
    · obtain ⟨d, hd, hda⟩ := mem_map.mp hin
      exact (hthere d hd hda).1.trans (hall d hd hda)
    · exact (hgone hin).1
  · rw [find_addAll_of_notMem _ ha, find_mark]

lemma resting_refresh : Resting (refresh ts l) := by
  refine ⟨nodup_sweep (nodup_round h ts), ?_, ?_⟩
  · intro e he
    obtain ⟨d, -, -, rfl⟩ := mem_sweep.mp he
    rfl
  · intro e he
    obtain ⟨d, -, hold, rfl⟩ := mem_sweep.mp he
    exact hold

/-- **What a round leaves**: the targets, and the static elements. -/
theorem mem_vals_refresh :
    a ∈ vals (refresh ts l) ↔ a ∈ ts.map Prod.fst ∨ ∃ e ∈ l, e.val = a ∧ e.static = true := by
  have hfind := find_round h ts a
  have hmem : a ∈ vals (refresh ts l) ↔
      ∃ d, find (addAll ts (mark l)) a = some d ∧ d.old = false := by
    simp only [vals, refresh, mem_map]
    constructor
    · rintro ⟨e, he, rfl⟩
      obtain ⟨d, hd, hold, rfl⟩ := mem_sweep.mp he
      exact ⟨d, (find_eq_some (nodup_round h ts)).mpr ⟨hd, rfl⟩, hold⟩
    · rintro ⟨d, hd, hold⟩
      obtain ⟨hdl, rfl⟩ := (find_eq_some (nodup_round h ts)).mp hd
      exact ⟨_, mem_sweep.mpr ⟨d, hdl, hold, rfl⟩, rfl⟩
  rw [hmem]
  by_cases ha : a ∈ ts.map Prod.fst
  · rw [if_pos ha] at hfind
    obtain ⟨e, he, hold, -, -, -⟩ := hfind
    exact iff_of_true ⟨e, he, hold⟩ (Or.inl ha)
  · rw [if_neg ha] at hfind
    rw [hfind]
    simp only [Option.map_eq_some_iff]
    constructor
    · rintro ⟨_, ⟨e, he, rfl⟩, hold⟩
      obtain ⟨hel, hea⟩ := (find_eq_some h.nodup).mp he
      by_cases hs : e.static = true
      · exact Or.inr ⟨e, hel, hea, hs⟩
      · simp [hs] at hold
    · rintro (ha' | ⟨e, hel, hea, hs⟩)
      · exact absurd ha' ha
      · exact ⟨_, ⟨e, (find_eq_some h.nodup).mpr ⟨hel, hea⟩, rfl⟩, by simp [hs, h.old e hel]⟩

/-- An addition is reported for what comes in, and for what was there and still new. -/
theorem add_mem_report_iff : .add a ∈ report ts l ↔
      (a ∈ ts.map Prod.fst ∨ a ∈ vals l) ∧ ∀ d ∈ l, d.val = a → d.new = true := by
  have hfind := find_round h ts a
  rw [report, add_mem_changes (nodup_round h ts)]
  by_cases ha : a ∈ ts.map Prod.fst
  · rw [if_pos ha] at hfind
    obtain ⟨e, he, -, hnew, -, -⟩ := hfind
    rw [he]
    simp only [Option.some.injEq, exists_eq_left']
    rw [hnew]
    exact ⟨fun hall => ⟨Or.inl ha, hall⟩, fun hall => hall.2⟩
  · rw [if_neg ha] at hfind
    rw [hfind]
    simp only [Option.map_eq_some_iff]
    constructor
    · rintro ⟨_, ⟨e, he, rfl⟩, hnew⟩
      obtain ⟨hel, hea⟩ := (find_eq_some h.nodup).mp he
      refine ⟨Or.inr (mem_map.mpr ⟨e, hel, hea⟩), fun d hd hda => ?_⟩
      obtain rfl : e = d := inj_on_of_nodup_map h.nodup hel hd (hea.trans hda.symm)
      split_ifs at hnew <;> exact hnew
    · rintro ⟨ha' | hin, hall⟩
      · exact absurd ha' ha
      · obtain ⟨e, he⟩ := mem_vals.mp hin
        obtain ⟨hel, hea⟩ := (find_eq_some h.nodup).mp he
        refine ⟨_, ⟨e, he, rfl⟩, ?_⟩
        have := hall e hel hea
        split_ifs <;> exact this

/-- The report names a deletion exactly for what was there before and is not now. -/
theorem del_mem_report : .del a ∈ report ts l ↔ a ∈ vals l ∧ a ∉ vals (refresh ts l) := by
  have hfind := find_round h ts a
  rw [report, del_mem_changes (nodup_round h ts), mem_vals_refresh h ts]
  by_cases ha : a ∈ ts.map Prod.fst
  · rw [if_pos ha] at hfind
    obtain ⟨e, he, hold, -, -, -⟩ := hfind
    rw [he]
    simp [hold, ha]
  · rw [if_neg ha] at hfind
    rw [hfind]
    simp only [Option.map_eq_some_iff]
    constructor
    · rintro ⟨_, ⟨e, he, rfl⟩, hold⟩
      obtain ⟨hel, hea⟩ := (find_eq_some h.nodup).mp he
      refine ⟨mem_map.mpr ⟨e, hel, hea⟩, ?_⟩
      rintro (ha' | ⟨d, hdl, hda, hds⟩)
      · exact ha ha'
      · obtain rfl : e = d := inj_on_of_nodup_map h.nodup hel hdl (hea.trans hda.symm)
        simp [hds, h.old e hel] at hold
    · rintro ⟨hav, hnot⟩
      obtain ⟨e, he⟩ := mem_vals.mp hav
      obtain ⟨hel, hea⟩ := (find_eq_some h.nodup).mp he
      have hs : e.static = false := by
        by_contra hs
        exact hnot (Or.inr ⟨e, hel, hea, by simpa using hs⟩)
      exact ⟨_, ⟨e, he, rfl⟩, by simp [hs]⟩

/-- Static elements stay static. -/
theorem static_refresh {d : Marked α} (hd : d ∈ l) (hs : d.static = true) :
    ∃ e ∈ refresh ts l, e.val = d.val ∧ e.static = true := by
  have hfind := find_round h ts d.val
  have key : ∃ e, find (addAll ts (mark l)) d.val = some e ∧ e.old = false ∧ e.static = true := by
    split_ifs at hfind with ha
    · obtain ⟨e, he, hold, -, -, hstatic⟩ := hfind
      exact ⟨e, he, hold, (hstatic d hd rfl).trans hs⟩
    · rw [(find_eq_some h.nodup).mpr ⟨hd, rfl⟩, Option.map_some, if_pos hs] at hfind
      exact ⟨d, hfind, h.old d hd, hs⟩
  obtain ⟨e, he, hold, hes⟩ := key
  obtain ⟨hel, hval⟩ := (find_eq_some (nodup_round h ts)).mp he
  exact ⟨_, mem_sweep.mpr ⟨e, hel, hold, rfl⟩, hval, hes⟩

/-- A static element was static before, or was asked for as such. -/
theorem static_of_refresh (he : e ∈ refresh ts l) (hs : e.static = true) :
    (∃ d ∈ l, d.val = e.val ∧ d.static = true) ∨ (e.val, true) ∈ ts := by
  obtain ⟨d, hd, hold, rfl⟩ := mem_sweep.mp he
  have hfind := find_round h ts d.val
  have hfd := (find_eq_some (nodup_round h ts)).mpr ⟨hd, rfl⟩
  rw [hfd] at hfind
  split_ifs at hfind with ha
  · obtain ⟨_, heq, -, -, hnew, hthere⟩ := hfind
    rw [Option.some.injEq] at heq
    subst heq
    by_cases hin : d.val ∈ vals l
    · obtain ⟨c, hc, hcd⟩ := mem_map.mp hin
      exact Or.inl ⟨c, hc, hcd, (hthere c hc hcd).symm.trans hs⟩
    · have := hnew hin
      rw [show d.static = true from hs] at this
      exact Or.inr this
  · obtain ⟨c, hc, hcd⟩ := Option.map_eq_some_iff.mp hfind.symm
    obtain ⟨hcl, hcv⟩ := (find_eq_some h.nodup).mp hc
    refine Or.inl ⟨c, hcl, hcv, ?_⟩
    by_contra hcs
    rw [if_neg hcs] at hcd
    rw [← hcd] at hold
    exact Bool.noConfusion hold

/-- **Nothing is reported** exactly if a round leaves what has been reported before.  What is still
new is static, so that no round can take it away unseen. -/
theorem report_eq_nil_iff (hnew : ∀ e ∈ l, e.new = true → e.static = true) :
    report ts l = [] ↔ ∀ a, a ∈ vals (refresh ts l) ↔ a ∈ seen l := by
  have hstays : ∀ d ∈ l, d.new = true → d.val ∈ vals (refresh ts l) := fun d hd hn =>
    (mem_vals_refresh h ts).mpr (Or.inr ⟨d, hd, rfl, hnew d hd hn⟩)
  simp only [mem_seen]
  constructor
  · intro hnil a
    constructor
    · intro ha
      by_contra hall
      have hadd : .add a ∈ report ts l := by
        refine (add_mem_report_iff h ts).mpr ⟨?_, fun d hd hda => ?_⟩
        · rcases (mem_vals_refresh h ts).mp ha with hts | ⟨e, hel, hea, -⟩
          · exact Or.inl hts
          · exact Or.inr (mem_map.mpr ⟨e, hel, hea⟩)
        · by_contra hd'
          exact hall ⟨d, hd, hda, by simpa using hd'⟩
      simp [hnil] at hadd
    · rintro ⟨e, hel, rfl, -⟩
      by_contra hgone
      have := (del_mem_report h ts).mpr ⟨mem_map_of_mem hel, hgone⟩
      simp [hnil] at this
  · intro hsame
    rw [eq_nil_iff_forall_not_mem]
    rintro (a | a) hc
    · obtain ⟨hin, hall⟩ := (add_mem_report_iff h ts).mp hc
      have ha : a ∈ vals (refresh ts l) := by
        rcases hin with hts | hin
        · exact (mem_vals_refresh h ts).mpr (Or.inl hts)
        · obtain ⟨d, hd, rfl⟩ := mem_map.mp hin
          exact hstays d hd (hall d hd rfl)
      obtain ⟨e, hel, hea, hn⟩ := (hsame a).mp ha
      rw [hall e hel hea] at hn
      exact Bool.noConfusion hn
    · obtain ⟨hin, hgone⟩ := (del_mem_report h ts).mp hc
      obtain ⟨d, hd, rfl⟩ := mem_map.mp hin
      cases hn : d.new with
      | true => exact hgone (hstays d hd hn)
      | false => exact hgone ((hsame _).mpr ⟨d, hd, rfl, hn⟩)

lemma mem_vals_refresh_of_report_nil (hnil : report ts l = []) :
    a ∈ vals (refresh ts l) ↔ a ∈ vals l := by
  constructor
  · intro ha
    rcases (mem_vals_refresh h ts).mp ha with hts | ⟨e, hel, rfl, -⟩
    · by_contra hnot
      have hadd : .add a ∈ report ts l := (add_mem_report_iff h ts).mpr
        ⟨Or.inl hts, fun d hd hda => absurd (mem_map.mpr ⟨d, hd, hda⟩) hnot⟩
      simp [hnil] at hadd
    · exact mem_map_of_mem hel
  · intro ha
    by_contra hnot
    have := (del_mem_report h ts).mpr ⟨ha, hnot⟩
    simp [hnil] at this

end Round

/-- In a list at rest the report names an addition exactly for what is there now and was not
before. -/
theorem add_mem_report (h : Resting l) (ts : List (α × Bool)) :
    .add a ∈ report ts l ↔ a ∈ vals (refresh ts l) ∧ a ∉ vals l := by
  rw [add_mem_report_iff h.swept, mem_vals_refresh h.swept]
  have hnew : (∀ d ∈ l, d.val = a → d.new = true) ↔ a ∉ vals l := by
    refine ⟨fun hall hin => ?_, fun hnot d hd hda => absurd (mem_map.mpr ⟨d, hd, hda⟩) hnot⟩
    obtain ⟨d, hd, hda⟩ := mem_map.mp hin
    have := hall d hd hda
    rw [h.new d hd] at this
    exact Bool.noConfusion this
  rw [hnew]
  refine and_congr_left fun hnot => or_congr_right (iff_of_false hnot ?_)
  rintro ⟨e, hel, hea, -⟩
  exact hnot (mem_map.mpr ⟨e, hel, hea⟩)

lemma nodup_report (h : Swept l) (ts : List (α × Bool)) : (report ts l).Nodup :=
  nodup_changes (nodup_round h ts)

/-! ## The order of a report -/

/-- New elements in front, none of them marked. -/
def NewFirst (l : List (Marked α)) : Prop :=
  ∃ front back, l = front ++ back ∧ (∀ e ∈ front, e.new = true ∧ e.old = false) ∧
    ∀ e ∈ back, e.new = false

lemma mem_clearOld : ∀ {l : List (Marked α)} {e : Marked α}, e ∈ clearOld a l →
    ∃ d ∈ l, e.new = d.new ∧ (e.old = true → d.old = true)
  | [], _, he => absurd he not_mem_nil
  | d :: l, e, he => by
    rw [clearOld] at he
    split_ifs at he
    · rcases mem_cons.mp he with rfl | he
      · exact ⟨d, mem_cons_self, rfl, nofun⟩
      · exact ⟨e, mem_cons_of_mem _ he, rfl, id⟩
    · rcases mem_cons.mp he with rfl | he
      · exact ⟨e, mem_cons_self, rfl, id⟩
      · obtain ⟨c, hc, hflags⟩ := mem_clearOld he
        exact ⟨c, mem_cons_of_mem _ hc, hflags⟩

lemma clearOld_append (a : α) : ∀ l m : List (Marked α),
    clearOld a (l ++ m) = clearOld a l ++ m ∨ clearOld a (l ++ m) = l ++ clearOld a m
  | [], _ => Or.inr rfl
  | e :: l, m => by
    rw [cons_append, clearOld, clearOld]
    split_ifs
    · exact Or.inl rfl
    · rcases clearOld_append a l m with h | h
      · exact Or.inl (by rw [h, cons_append])
      · exact Or.inr (by rw [h, cons_append])

lemma NewFirst.add (h : NewFirst l) (t : α × Bool) : NewFirst (add l t) := by
  obtain ⟨front, back, rfl, hfront, hback⟩ := h
  unfold MarkSweep.add
  split_ifs
  · rcases clearOld_append t.1 front back with heq | heq
    · refine ⟨clearOld t.1 front, back, heq, fun e he => ?_, hback⟩
      obtain ⟨d, hd, hnew, hold⟩ := mem_clearOld he
      refine ⟨hnew.trans (hfront d hd).1, ?_⟩
      by_contra ho
      exact absurd (hold (by simpa using ho)) (by simp [(hfront d hd).2])
    · refine ⟨front, clearOld t.1 back, heq, hfront, fun e he => ?_⟩
      obtain ⟨d, hd, hnew, -⟩ := mem_clearOld he
      exact hnew.trans (hback d hd)
  · refine ⟨⟨t.1, true, false, t.2⟩ :: front, back, rfl, fun e he => ?_, hback⟩
    rcases mem_cons.mp he with rfl | he
    · exact ⟨rfl, rfl⟩
    · exact hfront e he

lemma NewFirst.addAll {l : List (Marked α)} (h : NewFirst l) : ∀ ts : List (α × Bool),
    NewFirst (addAll ts l)
  | [] => h
  | t :: ts => (h.add t).addAll ts

/-- **A report from a list at rest: additions, then deletions.** -/
theorem report_eq_append (h : Resting l) (ts : List (α × Bool)) :
    ∃ as ds : List α, report ts l = as.map .add ++ ds.map .del := by
  have hmark : NewFirst (mark l) := by
    refine ⟨[], mark l, rfl, by simp, fun e he => ?_⟩
    obtain ⟨d, hd, rfl⟩ := mem_map.mp he
    split_ifs <;> exact h.new d hd
  obtain ⟨front, back, heq, hfront, hback⟩ := hmark.addAll ts
  have hadds : changes front = (vals front).map .add := by
    clear heq
    induction front with
    | nil => rfl
    | cons e front ih =>
      obtain ⟨hn, ho⟩ := hfront e mem_cons_self
      rw [changes_cons, ih fun d hd => hfront d (mem_cons_of_mem _ hd)]
      simp [hn, ho, vals]
  have hdels : changes back = (vals (back.filter Marked.old)).map .del := by
    clear heq
    induction back with
    | nil => rfl
    | cons e back ih =>
      have hn := hback e mem_cons_self
      rw [changes_cons, ih fun d hd => hback d (mem_cons_of_mem _ hd)]
      by_cases ho : e.old = true <;> simp [hn, ho, vals]
  refine ⟨vals front, vals (back.filter Marked.old), ?_⟩
  rw [report, heq, changes, flatMap_append]
  exact congrArg₂ _ hadds hdels

/-! ## A round without targets -/

section Empty

variable {l : List (Marked α)} (hold : ∀ e ∈ l, e.old = false)
include hold

lemma vals_refresh_nil : vals (refresh [] l) = vals (l.filter Marked.static) := by
  show vals (sweep (mark l)) = _
  simp only [vals, sweep, mark, filter_map, map_map]
  rw [filter_congr fun e he => ?_]
  · refine map_congr_left fun e _ => ?_
    simp only [Function.comp_apply]
    split_ifs <;> rfl
  · simp only [Function.comp_apply]
    split_ifs with hs
    · simp [hold e he, hs]
    · simp [hs]

/-- **Only static elements survive.** -/
theorem vals_refresh_nil_eq_iff :
    vals (refresh [] l) = vals l ↔ ∀ e ∈ l, e.static = true := by
  rw [vals_refresh_nil hold]
  constructor
  · intro h
    have hlength := congrArg List.length h
    simp only [vals, length_map] at hlength
    exact length_filter_eq_length_iff.mp hlength
  · intro h
    rw [filter_eq_self.mpr h]

lemma exists_new_of_report_nil (hstatic : ∀ e ∈ l, e.static = true) (h : report [] l ≠ []) :
    ∃ e ∈ l, e.new = true := by
  obtain ⟨c, hc⟩ := exists_mem_of_ne_nil _ h
  obtain ⟨d, hd, hflags⟩ := mem_changes.mp hc
  obtain ⟨e, he, rfl⟩ := mem_map.mp hd
  rw [if_pos (hstatic e he)] at hflags
  rcases hflags with ⟨hnew, -⟩ | ⟨hmark, -⟩
  · exact ⟨e, he, hnew⟩
  · rw [hold e he] at hmark
    cases hmark

lemma old_add (t : α × Bool) : ∀ e ∈ add l t, e.old = false := by
  have hclear : ∀ {m : List (Marked α)}, (∀ e ∈ m, e.old = false) →
      ∀ e ∈ clearOld t.1 m, e.old = false := by
    intro m
    induction m with
    | nil => exact fun _ _ he => absurd he not_mem_nil
    | cons d m ih =>
      intro hm
      rw [clearOld]
      split_ifs
      · rintro e (_ | ⟨_, he⟩)
        · rfl
        · exact hm e (mem_cons_of_mem _ he)
      · rintro e (_ | ⟨_, he⟩)
        · exact hm d mem_cons_self
        · exact ih (fun e he => hm e (mem_cons_of_mem _ he)) e he
  unfold add
  split_ifs
  · exact hclear hold
  · rintro e (_ | ⟨_, he⟩)
    · rfl
    · exact hold e he

end Empty

lemma static_add (h : (vals l).Nodup) (hl : ∀ e ∈ l, e.new = true → e.static = true) (a : α) :
    ∀ e ∈ add l (a, true), e.new = true → e.static = true := by
  intro e he hnew
  have hfind := (find_eq_some (nodup_add h (a, true))).mpr ⟨he, rfl⟩
  rw [find_add] at hfind
  split_ifs at hfind
  · cases hd : find l e.val with
    | none =>
      rw [hd, Option.elim_none, Option.some.injEq] at hfind
      rw [← hfind]
    | some d =>
      rw [hd, Option.some.injEq] at hfind
      rw [← hfind] at hnew ⊢
      exact hl d ((find_eq_some h).mp hd).1 hnew
  · exact hl e ((find_eq_some h).mp hfind).1 hnew

lemma flags_refresh {ts : List (α × Bool)} (he : e ∈ refresh ts l) :
    e.new = false ∧ e.old = false := by
  obtain ⟨d, -, hold, rfl⟩ := mem_sweep.mp he
  exact ⟨rfl, hold⟩

lemma del_notMem_report_nil (ts : List (α × Bool)) (a : α) : .del a ∉ report ts [] := by
  rw [del_mem_report resting_nil.swept]
  exact fun h => absurd h.1 not_mem_nil

end MarkSweep

/-! ## Following a report -/

section Apply

variable {α β : Type*} [DecidableEq β]

/-- Carry a change over to a set, through a partial map. -/
def Change.apply (f : α → Option β) (K : Finset β) : Change α → Finset β
  | .add a => (f a).elim K fun b => insert b K
  | .del a => (f a).elim K fun b => K.erase b

lemma mem_foldl_add (f : α → Option β) (ok : Change α → Bool) : ∀ (as : List α) (K : Finset β) {b : β},
    b ∈ ((as.map .add).filter ok).foldl (Change.apply f) K ↔
      b ∈ K ∨ ∃ a ∈ as, ok (.add a) = true ∧ f a = some b
  | [], K, b => by simp
  | a :: as, K, b => by
    rw [map_cons, filter_cons]
    by_cases hok : ok (.add a) = true
    · rw [if_pos hok, foldl_cons, mem_foldl_add f ok as]
      cases hf : f a with
      | none => simp [Change.apply, hf]
      | some c =>
        simp only [Change.apply, hf, Option.elim_some, Finset.mem_insert, mem_cons,
          exists_eq_or_imp, hok, true_and, Option.some.injEq]
        rw [or_comm (a := b = c), or_assoc, eq_comm (a := b)]
    · rw [if_neg hok, mem_foldl_add f ok as]
      simp [hok]

lemma mem_foldl_del (f : α → Option β) (ok : Change α → Bool) : ∀ (ds : List α) (K : Finset β) {b : β},
    b ∈ ((ds.map .del).filter ok).foldl (Change.apply f) K ↔
      b ∈ K ∧ ∀ d ∈ ds, ok (.del d) = true → f d ≠ some b
  | [], K, b => by simp
  | d :: ds, K, b => by
    rw [map_cons, filter_cons]
    by_cases hok : ok (.del d) = true
    · rw [if_pos hok, foldl_cons, mem_foldl_del f ok ds]
      cases hf : f d with
      | none => simp [Change.apply, hf]
      | some c =>
        simp only [Change.apply, hf, Option.elim_some, Finset.mem_erase, mem_cons,
          forall_eq_or_imp, hok, true_imp_iff, ne_eq, Option.some.injEq]
        rw [and_comm (a := ¬b = c), and_assoc, eq_comm (a := b)]
    · rw [if_neg hok, mem_foldl_del f ok ds]
      simp [hok]

/-- **A set that follows changes**, additions first: a deletion can undo one. -/
theorem mem_foldl_apply {cs : List (Change α)} (h : ∃ as ds : List α, cs = as.map .add ++ ds.map .del)
    (f : α → Option β) (ok : Change α → Bool) (K : Finset β) {b : β} :
    b ∈ (cs.filter ok).foldl (Change.apply f) K ↔
      (b ∈ K ∨ ∃ a, .add a ∈ cs ∧ ok (.add a) = true ∧ f a = some b) ∧
        ∀ a, .del a ∈ cs → ok (.del a) = true → f a ≠ some b := by
  obtain ⟨as, ds, rfl⟩ := h
  rw [filter_append, foldl_append, mem_foldl_del, mem_foldl_add]
  simp

end Apply

end FreeSense
