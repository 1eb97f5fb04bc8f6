import FreeSensePorts.Core.Double
import FreeSensePorts.Core.Text

/-!
# Values of PHP

What `json_decode($raw, true)` can return, how such a value is read, and the integers PHP computes
with.

An array is its entries in order.  The keys of a PHP array differ; the model does not ask for that,
it lets a later entry hide an earlier one with the same key, as an assignment would.  A double is
the number it stands for, with `INF` as `2 ^ 1024`, so that equality here is `===`.
-/

namespace FreeSense.Php

/-- The key of an array entry.  PHP turns a decimal string into an integer key. -/
inductive Key
  | int (n : ℤ)
  | str (s : Text)
  deriving DecidableEq, Repr

mutual

inductive Value
  | null
  | bool (b : Bool)
  | int (n : Int64)
  | float (v : ℚ)
  | str (s : Text)
  | arr (entries : Entries)
  deriving DecidableEq

inductive Entries
  | nil
  | cons (key : Key) (value : Value) (rest : Entries)
  deriving DecidableEq

end

def Entries.toList : Entries → List (Key × Value)
  | .nil => []
  | .cons key value rest => (key, value) :: rest.toList

def Entries.ofList : List (Key × Value) → Entries
  | [] => .nil
  | (key, value) :: rest => .cons key value (ofList rest)

def Entries.get? (k : Key) : Entries → Option Value
  | .nil => none
  | .cons key value rest => (rest.get? k).or (if key = k then some value else none)

namespace Value

def isArray : Value → Bool
  | .arr _ => true
  | _ => false

def isBool : Value → Bool
  | .bool _ => true
  | _ => false

def entries : Value → List (Key × Value)
  | .arr a => a.toList
  | _ => []

/-- `$v[$key] ?? null`. -/
def get (v : Value) (key : Text) : Value :=
  match v with
  | .arr a => (a.get? (.str key)).getD .null
  | _ => .null

/-- `array_key_exists($key, $v)`. -/
def hasKey (v : Value) (key : Text) : Bool :=
  match v with
  | .arr a => (a.get? (.str key)).isSome
  | _ => false

def text : Value → Text
  | .str s => s
  | _ => []

def toInt : Value → ℤ
  | .int n => n.toInt
  | _ => 0

/-- `$v ?? ""`. -/
def orEmpty : Value → Value
  | .null => .str []
  | v => v

end Value

lemma Entries.get?_eq_find (k : Key) : ∀ a : Entries,
    a.get? k = (a.toList.reverse.find? fun e => e.1 = k).map Prod.snd
  | .nil => rfl
  | .cons key value rest => by
    rw [Entries.get?, Entries.get?_eq_find k rest, Entries.toList, List.reverse_cons,
      List.find?_append, Option.map_or]
    by_cases hk : key = k <;> simp [hk]

lemma Value.get_eq_find (v : Value) (key : Text) :
    v.get key = ((v.entries.reverse.find? fun e => e.1 = .str key).map Prod.snd).getD .null := by
  cases v with
  | arr a => rw [Value.get, Entries.get?_eq_find, Value.entries]
  | _ => rfl

/-! ## Integers -/

def intMax : ℕ := 2 ^ 63 - 1

/-- `(int)$s`, for a string of digits: too large a number is cut. -/
def intOfDigits (ds : Text) : ℕ := min (Text.number 10 ds) intMax

/-- The result of an addition or a multiplication of non-negative numbers: an overflow makes it a
double. -/
inductive Number
  | int (n : ℕ)
  | float (v : ℕ)
  deriving DecidableEq, Repr

def add (a b : ℕ) : Number :=
  if a + b ≤ intMax then .int (a + b) else .float (toDouble (toDouble a + toDouble b))

def Number.mul (x : Number) (b : ℕ) : Number :=
  match x with
  | .int a =>
    if a * b ≤ intMax then .int (a * b) else .float (toDouble (toDouble a * toDouble b))
  | .float v => .float (toDouble (v * toDouble b))

/-- `$n < $x`.  An integer meets a double as a double. -/
def ltNumber (n : ℤ) : Number → Bool
  | .int m => n < m
  | .float v => n < 0 ∨ toDouble n.toNat < v

/-- `(string)$n`. -/
def toText (n : ℤ) : Text := (toString n).toList

end FreeSense.Php
