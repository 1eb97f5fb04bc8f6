import FreeSensePorts.Core.Text
import Mathlib.Data.List.Nodup
import Mathlib.Data.Rat.Defs

/-!
# Values of Python

What `json.loads` can return, and how Python reads such a value: truth, `str`, `int`, iteration, and
dictionaries as lists of their entries.  What depends on tables of Unicode is a parameter
(`Unicode`); on ASCII it is fixed here.

The exceptions that a program may raise are values too: its own, which carries a message, and those
of the language.
-/

namespace FreeSense.Python

open List

inductive Value
  | none
  | bool (b : Bool)
  | int (n : ℤ)
  | float (v : ℚ)
  | str (s : Text)
  | list (l : List Value)
  | dict (d : List (Text × Value))

abbrev Dict := List (Text × Value)

inductive Exception
  /-- The exception a program defines for its input. -/
  | invalid (message : Text)
  | typeError
  | valueError
  | parseError
  deriving DecidableEq, Repr

/-! ## Dictionaries -/

section Dictionaries

variable {α : Type}

/-- `d[k]`, if it is there. -/
def lookup (k : Text) (d : List (Text × α)) : Option α := (d.find? fun e => e.1 = k).map Prod.snd

/-- `d[k] = v`. -/
def assign (k : Text) (v : α) : List (Text × α) → List (Text × α)
  | [] => [(k, v)]
  | e :: d => if e.1 = k then (k, v) :: d else e :: assign k v d

/-- `d.pop(k, None)`. -/
def pop (k : Text) (d : List (Text × α)) : List (Text × α) := d.eraseP fun e => e.1 = k

variable {k : Text} {v : α} {d : List (Text × α)}

lemma mem_of_lookup (h : lookup k d = some v) : (k, v) ∈ d := by
  obtain ⟨e, he, rfl⟩ := Option.map_eq_some_iff.mp h
  obtain rfl : e.1 = k := by simpa using find?_some he
  exact mem_of_find?_eq_some he

lemma lookup_eq_none : lookup k d = none ↔ k ∉ d.map Prod.fst := by
  rw [lookup, Option.map_eq_none_iff, find?_eq_none, mem_map]
  simp only [decide_eq_true_eq, not_exists, not_and]

lemma lookup_of_mem (hnodup : (d.map Prod.fst).Nodup) (h : (k, v) ∈ d) : lookup k d = some v := by
  cases hlookup : lookup k d with
  | none => exact absurd (mem_map_of_mem h) (lookup_eq_none.mp hlookup)
  | some w =>
    have heq := inj_on_of_nodup_map hnodup (mem_of_lookup hlookup) h rfl
    rw [(Prod.mk.inj heq).2]

lemma lookup_append (k : Text) (d e : List (Text × α)) :
    lookup k (d ++ e) = (lookup k d).or (lookup k e) := by
  rw [lookup, find?_append, Option.map_or, ← lookup, ← lookup]

lemma assign_of_notMem (h : k ∉ d.map Prod.fst) : assign k v d = d ++ [(k, v)] := by
  induction d with
  | nil => rfl
  | cons e d ih =>
    rw [map_cons, mem_cons, not_or] at h
    rw [assign, if_neg (Ne.symm h.1), ih h.2, cons_append]

lemma assign_append_cons {w : α} {e : List (Text × α)} (h : k ∉ d.map Prod.fst) :
    assign k v (d ++ (k, w) :: e) = d ++ (k, v) :: e := by
  induction d with
  | nil => simp [assign]
  | cons c d ih =>
    rw [map_cons, mem_cons, not_or] at h
    rw [cons_append, assign, if_neg (Ne.symm h.1), ih h.2, cons_append]

lemma lookup_append_cons {e : List (Text × α)} (h : k ∉ d.map Prod.fst) :
    lookup k (d ++ (k, v) :: e) = some v := by
  rw [lookup_append, lookup_eq_none.mpr h]
  simp [lookup]

lemma lookup_assign_self (k : Text) (v : α) (d : List (Text × α)) :
    lookup k (assign k v d) = some v := by
  induction d with
  | nil => simp [assign, lookup]
  | cons e d ih =>
    rw [assign]
    split_ifs with he
    · simp [lookup]
    · rw [lookup, find?_cons_of_neg (by simpa using he)]
      exact ih

lemma lookup_assign_ne {j : Text} (hne : j ≠ k) (v : α) (d : List (Text × α)) :
    lookup j (assign k v d) = lookup j d := by
  induction d with
  | nil => simp [assign, lookup, hne.symm]
  | cons e d ih =>
    rw [assign]
    split_ifs with he
    · simp [lookup, he, hne.symm]
    · by_cases hj : e.1 = j
      · simp [lookup, hj]
      · rw [lookup, lookup, find?_cons_of_neg (by simpa using hj),
          find?_cons_of_neg (by simpa using hj)]
        exact ih

end Dictionaries

/-- `d.get(k)`. -/
def get (d : Dict) (k : String) : Value := (lookup k.toList d).getD .none

def getD (d : Dict) (k : String) (v : Value) : Value := (lookup k.toList d).getD v

/-- `{**d, k: v}`. -/
def set (d : Dict) (k : String) (v : Value) : Dict := assign k.toList v d

@[simp] lemma get_set_self (d : Dict) (k : String) (v : Value) : get (set d k v) k = v := by
  rw [get, set, lookup_assign_self, Option.getD_some]

lemma get_set_ne {d : Dict} {j k : String} (hne : j ≠ k) (v : Value) :
    get (set d k v) j = get d j := by
  rw [get, set, lookup_assign_ne (fun h => hne (String.toList_inj.mp h)), get]

lemma getD_of_get {d : Dict} {k : String} {v : Value} (h : get d k = v) (hne : v ≠ .none) (w : Value) :
    getD d k w = v := by
  unfold get at h
  unfold getD
  cases hlookup : lookup k.toList d with
  | none =>
    rw [hlookup] at h
    exact absurd h.symm hne
  | some u =>
    rw [hlookup] at h
    exact h

/-! ## Values -/

namespace Value

def truthy : Value → Bool
  | none => false
  | bool b => b
  | int n => n ≠ 0
  | float v => v ≠ 0
  | str s => s ≠ []
  | list l => !l.isEmpty
  | dict d => !d.isEmpty

/-- `v or w`. -/
def or (v w : Value) : Value := if v.truthy then v else w

def isNone : Value → Bool
  | none => true
  | _ => false

/-- Lists and dictionaries cannot be looked for in a set. -/
def hashable : Value → Bool
  | list _ => false
  | dict _ => false
  | _ => true

/-- `for x in v`. -/
def iterate : Value → Except Exception (List Value)
  | list l => .ok l
  | dict d => .ok (d.map fun e => str e.1)
  | str s => .ok (s.map fun c => str [c])
  | _ => .error .typeError

end Value

/-! ## Lists without repetition -/

/-- The members of a list, each where it occurs first. -/
structure FirstOccurrences {α : Type} [DecidableEq α] (l r : List α) : Prop where
  nodup : r.Nodup
  mem : ∀ x, x ∈ r ↔ x ∈ l
  order : r.Pairwise fun x y => l.idxOf x < l.idxOf y

section FirstOccurrences

variable {α : Type} [DecidableEq α] {l r : List α}

lemma FirstOccurrences.nil : FirstOccurrences ([] : List α) [] :=
  ⟨nodup_nil, fun _ => Iff.rfl, .nil⟩

lemma FirstOccurrences.idxOf_append (h : FirstOccurrences l r) {y : α} (hy : y ∈ r) (x : α) :
    (l ++ [x]).idxOf y = l.idxOf y := idxOf_append_of_mem ((h.mem y).mp hy)

lemma FirstOccurrences.order_append (h : FirstOccurrences l r) (x : α) :
    r.Pairwise fun y z => (l ++ [x]).idxOf y < (l ++ [x]).idxOf z := by
  refine h.order.imp_of_mem fun hy hz hlt => ?_
  rwa [h.idxOf_append hy, h.idxOf_append hz]

lemma FirstOccurrences.seen (h : FirstOccurrences l r) {x : α} (hx : x ∈ r) :
    FirstOccurrences (l ++ [x]) r := by
  refine ⟨h.nodup, fun y => ?_, h.order_append x⟩
  rw [mem_append, mem_singleton, ← h.mem]
  exact ⟨.inl, fun hy => hy.elim id fun heq => heq ▸ hx⟩

lemma FirstOccurrences.new (h : FirstOccurrences l r) {x : α} (hx : x ∉ r) :
    FirstOccurrences (l ++ [x]) (r ++ [x]) := by
  have hfresh : x ∉ l := fun hin => hx ((h.mem x).mpr hin)
  refine ⟨?_, fun y => ?_, ?_⟩
  · exact List.Nodup.append h.nodup (nodup_singleton x) (by simpa using hx)
  · rw [mem_append, mem_append, h.mem]
  · refine pairwise_append.mpr ⟨h.order_append x, pairwise_singleton _ _, fun y hy z hz => ?_⟩
    rw [mem_singleton.mp hz, h.idxOf_append hy, idxOf_append_of_notMem hfresh]
    have hlt := idxOf_lt_length_iff.mpr ((h.mem y).mp hy)
    omega

end FirstOccurrences

/-! ## `json.dumps` -/

/-- `sys.get_int_max_str_digits()`. -/
def maxStrDigits : ℕ := 4300

mutual

/-- An integer is not too long for `int.__repr__`, and a list has at most `sys.maxsize` elements, as
every list does.  `json.loads` returns no other values. -/
def Value.printable : Value → Bool
  | .int n => n.natAbs < 10 ^ maxStrDigits
  | .list l => l.length < 2 ^ 63 && printableList l
  | .dict d => printableDict d
  | _ => true

def printableList : List Value → Bool
  | [] => true
  | v :: l => v.printable && printableList l

def printableEntry : Text × Value → Bool
  | (_, v) => v.printable

def printableDict : List (Text × Value) → Bool
  | [] => true
  | e :: d => printableEntry e && printableDict d

end

lemma printableList_iff (l : List Value) :
    printableList l = true ↔ ∀ v ∈ l, v.printable = true := by
  induction l with
  | nil => simp [printableList]
  | cons v l ih => simp [printableList, ih]

lemma printableDict_iff (d : Dict) :
    printableDict d = true ↔ ∀ e ∈ d, e.2.printable = true := by
  induction d with
  | nil => simp [printableDict]
  | cons e d ih =>
    rcases e with ⟨k, v⟩
    simp [printableDict, printableEntry, ih]

lemma printable_getD {d : Dict} (h : printableDict d = true) (k : String) {v : Value}
    (hv : v.printable = true) : (getD d k v).printable = true := by
  unfold getD lookup
  cases hfind : d.find? fun e => e.1 = k.toList with
  | none => exact hv
  | some e => exact (printableDict_iff d).mp h e (mem_of_find?_eq_some hfind)

lemma printable_get {d : Dict} (h : printableDict d = true) (k : String) :
    (get d k).printable = true := printable_getD h k rfl

/-- `json.dumps(v)`, which keeps the value. -/
def dumps (v : Value) : Except Exception Value :=
  if v.printable then .ok v else .error .valueError

/-! ## Text -/

/-- What Python knows about characters beyond ASCII. -/
structure Unicode where
  isSpace : Char → Bool
  isDigit : Char → Bool
  decimal : Char → Option ℕ
  lower : Text → Text
  /-- `str` of a float, a list or a dictionary. -/
  repr : Value → Text

def ascii : Unicode where
  isSpace c := Text.isSpace c
  isDigit c := c.isDigit
  decimal _ := none
  lower s := s.map Char.toLower
  repr _ := []

namespace Unicode

variable (u : Unicode)

def strip (s : Text) : Text := ((s.dropWhile u.isSpace).reverse.dropWhile u.isSpace).reverse

def isdigit (s : Text) : Bool := s ≠ [] ∧ s.all u.isDigit

def str : Value → Text
  | .none => "None".toList
  | .bool true => "True".toList
  | .bool false => "False".toList
  | .int n => (toString n).toList
  | .str s => s
  | v => u.repr v

def strOption : Option Text → Text
  | some s => s
  | none => "None".toList

/-- A character as `int` sees it.  A blank or a digit beyond ASCII is read as one of ASCII, and for any
other stands `?`. -/
def asciiChar (c : Char) : Char :=
  if c.toNat < 127 then c
  else if u.isSpace c then ' '
  else match u.decimal c with
    | some d => Nat.digitChar d
    | none => '?'

/-- A numeral without sign: digits, with single underscores between them.  In base 10 there is a limit
on their number. -/
def natOfText (base : ℕ) (s : Text) : Option ℕ :=
  let groups := s.splitOn '_'
  if groups.any (·.isEmpty) || !groups.flatten.all (Text.isDigitIn base) ||
    base = 10 && maxStrDigits < groups.flatten.length then none
  else some (Text.number base groups.flatten)

/-- The prefix `0x`, which base 16 may have, and one underscore after it. -/
def dropBase (base : ℕ) : Text → Text
  | '0' :: x :: rest =>
    if base = 16 ∧ (x = 'x' ∨ x = 'X') then
      match rest with
      | '_' :: rest => rest
      | rest => rest
    else '0' :: x :: rest
  | s => s

/-- `int(s, base)`. -/
def intOfText (base : ℕ) (s : Text) : Option ℤ :=
  let (sign, t) := Text.signOf (ascii.strip (s.map u.asciiChar))
  (natOfText base (dropBase base t)).map fun n : ℕ => sign * (n : ℤ)

/-- `int(v)`. -/
def intOfValue : Value → Option ℤ
  | .bool b => some (if b then 1 else 0)
  | .int n => some n
  | .float v => some (v.num.tdiv v.den)
  | .str s => u.intOfText 10 s
  | _ => none

end Unicode

/-- `f"{n:02x}"`. -/
def hex02 (n : ℤ) : Text :=
  let ds := Nat.toDigits 16 n.natAbs
  if n < 0 then '-' :: ds else List.replicate (2 - ds.length) '0' ++ ds

def join (sep : Text) (l : List Text) : Text := (l.intersperse sep).flatten

example : ascii.intOfText 16 " -0xA_f".toList = some (-175) := by decide +kernel
example : hex02 10 = "0a".toList := by decide +kernel

end FreeSense.Python
