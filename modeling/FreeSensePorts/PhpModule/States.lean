import Mathlib.Data.List.Infix
import FreeSensePorts.Core.Php
import FreeSensePorts.Core.Printer

/-!
# The state listing of the PHP module

`FreeSense_get_pf_states` reads its filter from a PHP array and hands `FreeSense_append_state` to the
iterator of the kernel's states, which counts them, stops after `50001`, and appends a record for each
one that passes the filter.  Reading a value of the wrong type, or the name of an entry that has none,
is not defined in the source, and has no result here.
-/

namespace FreeSense.PhpModule

open Php (Value Entries Key)

/-- What the functions ask the C library for. -/
structure Lib where
  /-- `getprotobynumber`. -/
  protoName : ℕ → Option Text
  /-- `inet_ntop`, for a family and the bytes of an address. -/
  ntop : ℕ → List UInt8 → Option Text

def afInet : ℕ := 2
def afInet6 : ℕ := 28

def ipprotoIcmp : ℕ := 1
def ipprotoTcp : ℕ := 6
def ipprotoUdp : ℕ := 17
def ipprotoIcmpv6 : ℕ := 58

def e2big : ℕ := 7
def einval : ℕ := 22

/-! ## States -/

inductive Direction
  | either | incoming | outgoing
  deriving DecidableEq

/-- `struct pfctl_state_key`, with the ports in the host's order. -/
structure StateKey where
  addr : Bool → List UInt8
  port : Bool → ℕ
  af : ℕ
  proto : ℕ

/-- `struct pfctl_state`.  `src` and `dst` are the levels of the two peers. -/
structure State where
  ifname : Text
  origIfname : Text
  rtIfname : Text
  direction : Direction
  wire : StateKey
  stack : StateKey
  src : ℕ
  dst : ℕ
  creation : ℕ
  expire : ℕ
  packets : UInt64 × UInt64
  bytes : UInt64 × UInt64
  anchor : UInt32
  rule : UInt32
  id : UInt64
  creatorid : UInt32

/-! ## The record of a state -/

/-- `pf_print_host`.  The mask it hands to `pf_print_addr` is full, so no length is printed. -/
def printHost (lib : Lib) (key : StateKey) (side : Bool) : Text :=
  let af := if key.af = afInet then afInet else afInet6
  (lib.ntop af (key.addr side)).getD "?".toList ++
    (if key.port side = 0 then []
      else if af = afInet then ":".toList ++ unsigned (key.port side)
      else "[".toList ++ unsigned (key.port side) ++ "]".toList)

/-- `PF_ANEQ`. -/
def addrNe (a b : List UInt8) (af : ℕ) : Bool :=
  (af = afInet ∧ a.take 4 ≠ b.take 4) ∨ (af = afInet6 ∧ a ≠ b)

/-- The peers and keys of a state, seen from its source. -/
structure Oriented where
  src : ℕ
  dst : ℕ
  sk : StateKey
  nk : StateKey

def orient (s : State) : Oriented :=
  let icmp := s.wire.proto = ipprotoIcmp ∨ s.wire.proto = ipprotoIcmpv6
  if s.direction = .outgoing then
    { src := s.src, dst := s.dst, nk := s.wire
      sk := if icmp then
          { s.stack with port := Function.update s.stack.port false (s.wire.port false) }
        else s.stack }
  else
    { src := s.dst, dst := s.src, nk := s.stack
      sk := if icmp then
          { s.wire with port := Function.update s.wire.port true (s.stack.port true) }
        else s.wire }

def tcpstates : List Text :=
  ["CLOSED", "LISTEN", "SYN_SENT", "SYN_RCVD", "ESTABLISHED", "CLOSE_WAIT", "FIN_WAIT_1", "CLOSING",
    "LAST_ACK", "FIN_WAIT_2", "TIME_WAIT"].map String.toList

/-- `PFUDPS_NAMES`, and `PFOTHERS_NAMES` as well. -/
def levelNames : List Text := ["NO_TRAFFIC", "SINGLE", "MULTIPLE"].map String.toList

def pfTcpsProxySrc : ℕ := 11
def pfTcpsProxyDst : ℕ := 12

/-- The two names of a table, joined, and the names the text filter looks at. -/
def named (names : List Text) (src dst : ℕ) : Text × List Text :=
  let a := names.getD src []
  let b := names.getD dst []
  (a ++ ":".toList ++ b, [a, b])

/-- The entry `state`. -/
def levels (proto src dst : ℕ) : Text × List Text :=
  if proto = ipprotoTcp then
    if src < tcpstates.length ∧ dst < tcpstates.length then named tcpstates src dst
    else if src = pfTcpsProxySrc ∨ dst = pfTcpsProxySrc then ("PROXY:SRC".toList, [])
    else if src = pfTcpsProxyDst ∨ dst = pfTcpsProxyDst then ("PROXY:DST".toList, [])
    else ("<BAD STATE LEVELS ".toList ++ unsigned src ++ ":".toList ++ unsigned dst ++ ">".toList, [])
  else if proto = ipprotoUdp ∧ src < levelNames.length ∧ dst < levelNames.length then
    named levelNames src dst
  else if proto ≠ ipprotoIcmp ∧ src < levelNames.length ∧ dst < levelNames.length then
    named levelNames src dst
  else (unsigned src ++ ":".toList ++ unsigned dst, [])

def assoc (entries : List (String × Value)) : Value :=
  .arr (Entries.ofList (entries.map fun e => (.str e.1.toList, e.2)))

/-- `add_next_index_zval`, from an empty array on. -/
def list (values : List Value) : Value :=
  .arr (Entries.ofList (values.zipIdx.map fun e => (.int e.2, e.1)))

def long (n : ℕ) : Value := .int (Int64.ofNat n)

def double (n : UInt64) : Value := .float (toDouble n.toNat)

/-- One side of a state: its host on the wire, and the host behind it where the two differ. -/
def sideEntries (lib : Lib) (o : Oriented) (side : Bool) (name : String) : List (String × Text) :=
  let afto := o.sk.af ≠ o.nk.af
  (name, printHost lib o.nk side) ::
    if afto ∨ addrNe (o.nk.addr side) (o.sk.addr side) o.nk.af ∨ o.nk.port side ≠ o.sk.port side then
      [(name ++ "-orig", printHost lib o.sk (if afto then !side else side))]
    else []

def hostEntries (lib : Lib) (s : State) : List (String × Text) :=
  let o := orient s
  let out : Bool := s.direction = .outgoing ∨ (o.sk.af ≠ o.nk.af ∧ s.direction = .incoming)
  sideEntries lib o true (if out then "src" else "dst") ++
    sideEntries lib o false (if out then "dst" else "src")

def record (lib : Lib) (s : State) : Value :=
  let o := orient s
  let out : Bool := s.direction = .outgoing ∨ (o.sk.af ≠ o.nk.af ∧ s.direction = .incoming)
  assoc
    ([("if", .str s.ifname), ("origif", .str s.origIfname), ("rt_ifname", .str s.rtIfname),
      ("proto", match lib.protoName s.wire.proto with
        | some name => .str name
        | none => long s.wire.proto),
      ("direction", .str (if out then "out" else "in").toList)] ++
    (hostEntries lib s).map (fun e => (e.1, .str e.2)) ++
    [("state", .str (levels s.wire.proto o.src o.dst).1), ("age", .str (clock s.creation)),
      ("expires in", .str (clock s.expire)),
      ("packets total", double (s.packets.1 + s.packets.2)), ("packets in", double s.packets.1),
      ("packets out", double s.packets.2), ("bytes total", double (s.bytes.1 + s.bytes.2)),
      ("bytes in", double s.bytes.1), ("bytes out", double s.bytes.2)] ++
    (if s.anchor ≠ -1 then [("anchor", long s.anchor.toNat)] else []) ++
    (if s.rule ≠ -1 then [("rule", long s.rule.toNat)] else []) ++
    [("id", .str (hex 16 s.id.toNat)),
      ("creatorid", .str (hex 8 s.creatorid.toNat))])

def searched (lib : Lib) (s : State) : List Text :=
  let o := orient s
  (lib.protoName s.wire.proto).toList ++ (hostEntries lib s).map Prod.snd ++
    (levels s.wire.proto o.src o.dst).2

/-! ## The callback and its caller -/

/-- `struct FreeSense_state_arg`; `rows` is what `return_value` holds. -/
structure StateArg where
  count : ℕ
  filterIf : Bool
  filterRl : Bool
  zvar : Option Value
  filter : Option Text
  rows : List Value

/-- Whether an entry of the filter names the state. -/
def entryFound (a : StateArg) (s : State) (v : Value) : Option Bool :=
  if a.filterIf then
    match v with
    | .str name => some (Text.eqIgnoreCase s.origIfname name)
    | _ => none
  else
    match v with
    | .int n => some (s.rule ≠ -1 ∧ (s.rule.toNat : ℤ) = n.toInt)
    | _ => none

/-- The inner loop: every entry of a sub-array. -/
def groupFound (a : StateArg) (s : State) (found : Bool) (entries : List (Key × Value)) :
    Option Bool :=
  entries.foldlM (fun found e => (entryFound a s e.2).map (found || ·)) found

/-- The outer loop; `some none` is the return for an empty sub-array. -/
def filterFound (a : StateArg) (s : State) : List (Key × Value) → Bool → Option (Option Bool)
  | [], found => some (some found)
  | (_, .arr group) :: rest, found => do
    let found ← groupFound a s found group.toList
    if group.toList = [] then some none else filterFound a s rest found
  | _, _ => none

/-- `FreeSense_append_state`: what it returns and leaves in its argument. -/
def appendState (lib : Lib) (a : StateArg) (s : State) : Option (ℕ × StateArg) :=
  if 50000 < a.count then some (e2big, a)
  else do
    let a := { a with count := a.count + 1 }
    let passed ←
      if a.filterIf ∨ a.filterRl then
        match a.zvar with
        | some (.arr groups) => filterFound a s groups.toList false
        | _ => none
      else some (some true)
    match passed with
    | none => some (einval, a)
    | some false => some (0, a)
    | some true =>
      if a.filter.any fun t => !(searched lib s).any fun field => t <:+: field then some (0, a)
      else some (0, { a with rows := a.rows ++ [record lib s] })

/-- `pfctl_get_states_iter`: the callback on every state, until it returns something else than
zero. -/
def getStatesIter (lib : Lib) : List State → StateArg → Option (ℕ × StateArg)
  | [], a => some (0, a)
  | s :: states, a => do
    let (code, a) ← appendState lib a s
    if code = 0 then getStatesIter lib states a else some (code, a)

/-- What the first pass over the argument finds. -/
structure Flags where
  entries : Bool
  filterIf : Bool
  filterRl : Bool
  filter : Option Text

/-- An entry of a sub-array.  Its name is read without asking whether there is one. -/
def flagEntry (f : Flags) (e : Key × Value) : Option Flags :=
  match e.1 with
  | .int _ => none
  | .str key =>
    let f := { f with entries := true }
    match e.2 with
    | .str v =>
      if Text.eqIgnoreCase key "interface".toList then some { f with filterIf := true }
      else if Text.eqIgnoreCase key "filter".toList then some { f with filter := some v }
      else some f
    | .int _ =>
      some (if Text.eqIgnoreCase key "ruleid".toList then { f with filterRl := true } else f)
    | _ => some f

/-- An entry of the argument; only sub-arrays under a number count. -/
def flagGroup (f : Flags) (e : Key × Value) : Option Flags :=
  match e.1, e.2 with
  | .int _, .arr group => group.toList.foldlM flagEntry f
  | _, _ => some f

def noFlags : Flags := ⟨false, false, false, none⟩

/-- The first pass; an argument that is no array is no filter. -/
def readFlags : Option Value → Option Flags
  | some (.arr groups) => groups.toList.foldlM flagGroup noFlags
  | _ => some { noFlags with entries := true }

/-- `FreeSense_get_pf_states` on the states the kernel has. -/
def getPfStates (lib : Lib) (zvar : Option Value) (states : List State) : Option Value := do
  let flags ← readFlags zvar
  if flags.entries = false then some .null
  else if flags.filterIf ∧ flags.filterRl then some .null
  else
    let (code, a) ← getStatesIter lib states
      ⟨0, flags.filterIf, flags.filterRl, zvar, flags.filter, []⟩
    if code ≠ 0 ∧ code ≠ e2big then some .null else some (list a.rows)

end FreeSense.PhpModule
