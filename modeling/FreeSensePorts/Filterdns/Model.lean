import FreeSensePorts.Core.MarkSweep
import FreeSensePorts.Core.Run
import FreeSensePorts.Core.Text

/-!
# The threads of `filterdns`

`filterdns.c` and `tables.c`.  Each configured line is an *action*: a host name, and a firewall
table to keep filled with the addresses of that host, or a command to run when they change.  One
thread for each host looks its name up (`hostPass`) and wakes the threads of its actions
(`actionPass`), which copy its addresses and bring their tables up to date (`tableUpdate`).  All three
loops are `MarkSweep.refresh`, with `ADDR_OLD` for the mark; the number of updates the source counts is
the length of `MarkSweep.report`.

A pointer to a host or an action is its number `id`.  A pass runs under the main lock, so it is one
step.  What the resolver answers and whether the kernel accepts an entry is in the label.  Logging is
left out.
-/

namespace FreeSense.Filterdns

open MarkSweep

inductive ActType
  | IPFW | PF | CMD
  deriving DecidableEq, Repr

/-- `THR_STOPPED`, the value of a fresh structure, to `THR_RUNNING`. -/
inductive ThrState
  | STOPPED | DYING | STARTING | RUNNING
  deriving DecidableEq, Repr

/-- `struct sockaddr`: the address proper, and the other bytes `memcmp` sees (port, flow label and
scope). -/
inductive Sockaddr
  | in4 (addr : BitVec 32) (rest : List UInt8)
  | in6 (addr : BitVec 128) (rest : List UInt8)
  | other (family : UInt8) (data : List UInt8)
  deriving DecidableEq, Repr

abbrev AddrList := List (Marked Sockaddr)

structure Rule where
  type : ActType
  hostname : Text
  tablename : Option Text
  anchor : Option Text
  pipe : ℤ
  cmd : Option Text
  deriving DecidableEq, Repr

structure Action extends Rule where
  id : ℕ
  host : Option ℕ
  rnh : AddrList
  tblRnh : AddrList
  /-- `flags & ACT_FORCE`. -/
  force : Bool
  state : ThrState
  /-- The value of the semaphore the thread waits on. -/
  sem : ℕ
  deriving DecidableEq, Repr

structure Host where
  id : ℕ
  hostname : Text
  mask : ℤ
  mask6 : ℤ
  rnh : AddrList
  refcnt : ℕ
  state : ThrState
  actions : List ℕ
  sem : ℕ
  deriving DecidableEq, Repr

/-- A table of the kernel, under the name the two kernel interfaces are given. -/
inductive Table
  | pf (anchor name : Text)
  | ipfw (name : Text)
  deriving DecidableEq, Repr

/-- An entry of such a table: `pfr_addr` or `ipfw_obj_tentry`. -/
inductive Net
  | in4 (addr : BitVec 32) (len : UInt8)
  | in6 (addr : BitVec 128) (len : UInt8)
  deriving DecidableEq, Repr

structure Sys where
  threadList : List Host
  actionList : List Action
  fresh : ℕ
  kernel : Finset (Table × Net)
  deriving DecidableEq

def Sys.empty : Sys := ⟨[], [], 0, ∅⟩

def Sys.host? (s : Sys) (i : ℕ) : Option Host := s.threadList.find? fun h => h.id = i

def Sys.hostOf (s : Sys) (act : Action) : Option Host := act.host.bind s.host?

def Sys.updateHost (s : Sys) (i : ℕ) (f : Host → Host) : Sys :=
  { s with threadList := s.threadList.map fun h => if h.id = i then f h else h }

def Sys.updateAction (s : Sys) (i : ℕ) (f : Action → Action) : Sys :=
  { s with actionList := s.actionList.map fun a => if a.id = i then f a else a }

/-! ## Kernel tables -/

/-- The mask `set_ipmask` builds, word by word in network order, for `b` bits. -/
def ipmaskWords : ℕ → ℕ → List (BitVec 32)
  | 0, _ => []
  | n + 1, b =>
    if b ≥ 32 then BitVec.allOnes 32 :: ipmaskWords n (b - 32)
    else (List.range b).foldl (fun m k => m ||| 1#32 <<< (31 - k)) 0#32
      :: List.replicate n 0#32

def words (h : BitVec 128) : List (BitVec 32) :=
  [h.extractLsb' 96 32, h.extractLsb' 64 32, h.extractLsb' 32 32, h.extractLsb' 0 32]

/-- `set_ipmask`.  More than 128 bits would write past the mask in the source. -/
def setIpmask (h : BitVec 128) (b : ℕ) : BitVec 128 :=
  (List.zipWith (· &&& ·) (words h) (ipmaskWords 4 b)).foldl
    (fun acc w => acc <<< 32 ||| w.setWidth 128) 0#128

/-- The prefix length of an entry: a mask of the host other than `-1` replaces the whole address.
Both kernel structures keep it in one byte. -/
def prefixLen (mask : Option ℤ) (whole : UInt8) : UInt8 :=
  match mask with
  | none => whole
  | some m => if m = -1 then whole else UInt8.ofNat (m % 2 ^ 8).toNat

def pfTableNameSize : ℕ := 32

def pfAnchorSize : ℕ := 1024

def ipfwNameSize : ℕ := 64

/-- The entry `pf_tableentry` hands to the kernel, or `none` where it returns before. -/
def pfTableentry (act : Rule) (host : Option Host) (addr : Sockaddr) : Option (Table × Net) := do
  let name ← act.tablename
  if name.length ≥ pfTableNameSize then none
  let anchor := act.anchor.getD []
  if anchor.length ≥ pfAnchorSize then none
  match addr with
  | .in4 a _ => some (.pf anchor name, .in4 a (prefixLen (host.map Host.mask) 32))
  | .in6 a _ =>
    let len := prefixLen (host.map Host.mask6) 128
    some (.pf anchor name, .in6 (setIpmask a len.toNat) len)
  | .other _ _ => none

/-- The entry `ipfw_tableentry` hands to the kernel.  `strlcpy` cuts the name. -/
def ipfwTableentry (act : Rule) (host : Option Host) (addr : Sockaddr) : Option (Table × Net) := do
  let name ← act.tablename
  let table := Table.ipfw (name.take (ipfwNameSize - 1))
  match addr with
  | .in4 a _ => some (table, .in4 a (prefixLen (host.map Host.mask) 32))
  | .in6 a _ => some (table, .in6 a (prefixLen (host.map Host.mask6) 128))
  | .other _ _ => none

def tableEntry (act : Rule) (host : Option Host) (addr : Sockaddr) : Option (Table × Net) :=
  match act.type with
  | .IPFW => ipfwTableentry act host addr
  | .PF => pfTableentry act host addr
  | .CMD => none

def targets (l : AddrList) : List (Sockaddr × Bool) := l.map fun e => (e.val, e.static)

/-- `table_update`; `ok` says which of the kernel operations succeed. -/
def tableUpdate (act : Action) (ok : Change Sockaddr → Bool) (s : Sys) : Sys :=
  let ops := (report (targets act.rnh) act.tblRnh).filter ok
  let entry := tableEntry act.toRule (s.hostOf act)
  let s := { s with kernel := ops.foldl (Change.apply entry) s.kernel }
  s.updateAction act.id fun a => { a with tblRnh := refresh (targets act.rnh) act.tblRnh }

/-- `table_cleanup`, for an action that has already let go of its host. -/
def tableCleanup (act : Action) (s : Sys) : Sys :=
  let ops := act.tblRnh.map fun e => Change.del e.val
  { s with kernel := ops.foldl (Change.apply (tableEntry act.toRule none)) s.kernel }

/-! ## A host's thread -/

/-- What `check_hostname` does before its loop.  `literal` is the address the host name spells, if
`inet_pton` or `is_ipaddrv6` reads one. -/
def Host.start (literal : Option Sockaddr) (h : Host) : Host :=
  let h := match literal with
    | none => h
    | some (.in4 a rest) =>
      { h with
        mask := if h.mask = -1 ∨ h.mask > 32 then 32 else h.mask
        rnh := add h.rnh (.in4 a rest, true) }
    | some addr => { h with rnh := add h.rnh (addr, true) }
  { h with state := .RUNNING }

def hostStart (i : ℕ) (literal : Option Sockaddr) (s : Sys) : Sys :=
  s.updateHost i (Host.start literal)

/-- What `host_dns` adds: the addresses of the reply, or nothing when the lookup fails. -/
def hostDns (h : Host) (reply : Option (List Sockaddr)) : List (Sockaddr × Bool) :=
  if h.mask = -1 then (reply.getD []).map fun a => (a, false) else []

/-- `sem_post` to an action of the host, if something has changed or it asks for it. -/
def Action.wake (h : Host) (update : ℕ) (a : Action) : Action :=
  if a.id ∈ h.actions ∧ (update ≠ 0 ∨ a.force = true) then { a with sem := a.sem + 1 } else a

/-- One turn of the loop of `check_hostname`. -/
def hostPass (h : Host) (reply : Option (List Sockaddr)) (s : Sys) : Sys :=
  if h.refcnt = 0 then { s with threadList := s.threadList.filter fun t => t.id ≠ h.id }
  else
    let ts := hostDns h reply
    let update := (report ts h.rnh).length
    let s := s.updateHost h.id fun h => { h with rnh := refresh ts h.rnh }
    { s with actionList := s.actionList.map (Action.wake h update) }

/-! ## An action's thread -/

/-- One turn of the loop of `check_action`, for an action whose semaphore has been posted. -/
def actionPass (act : Action) (ok : Change Sockaddr → Bool) (s : Sys) : Sys :=
  match s.hostOf act with
  | none => s
  | some h =>
    let ts := targets h.rnh
    let update := (report ts act.rnh).length
    let act := { act with rnh := refresh ts act.rnh, force := false, sem := act.sem - 1,
                          state := .RUNNING }
    let s := s.updateAction act.id fun _ => act
    if update > 0 ∧ act.tablename ≠ none then tableUpdate act ok s else s

/-! ## The passes as steps -/

inductive Event
  | hostStart (i : ℕ) (literal : Option Sockaddr)
  | hostPass (h : Host) (reply : Option (List Sockaddr))
  | actionPass (act : Action) (ok : Change Sockaddr → Bool)

def handle (s : Sys) : Event → Sys
  | .hostStart i literal => hostStart i literal s
  | .hostPass h reply => hostPass h reply s
  | .actionPass act ok => actionPass act ok s

/-- A thread starts once, a host's passes follow its start, and an action's pass waits for a
post. -/
def Enabled (s : Sys) : Event → Prop
  | .hostStart i _ => ∃ h ∈ s.threadList, h.id = i ∧ h.state = .STARTING
  | .hostPass h _ => h ∈ s.threadList ∧ h.state = .RUNNING
  | .actionPass act _ => act ∈ s.actionList ∧ 0 < act.sem

def Step (s : Sys) (e : Event) (t : Sys) : Prop := Enabled s e ∧ t = handle s e

instance (s : Sys) : DecidablePred (Enabled s)
  | .hostStart i _ =>
    inferInstanceAs (Decidable (∃ h ∈ s.threadList, h.id = i ∧ h.state = .STARTING))
  | .hostPass h _ => inferInstanceAs (Decidable (h ∈ s.threadList ∧ h.state = .RUNNING))
  | .actionPass act _ => inferInstanceAs (Decidable (act ∈ s.actionList ∧ 0 < act.sem))

/-! ## Schedules

A concrete run is easier to write down by the numbers of the threads than by their states. -/

inductive Turn
  | start (i : ℕ) (literal : Option Sockaddr)
  | host (i : ℕ) (reply : List Sockaddr)
  | action (i : ℕ)

def Turn.event (s : Sys) : Turn → Option Event
  | .start i literal => some (.hostStart i literal)
  | .host i reply => (s.host? i).map fun h => .hostPass h (some reply)
  | .action i => (s.actionList.find? fun a => a.id = i).map fun a => .actionPass a fun _ => true

def play (s : Sys) : List Turn → List Event × Sys
  | [] => ([], s)
  | turn :: turns =>
    match turn.event s with
    | none => play s turns
    | some e =>
      if Enabled s e then
        let (es, t) := play (handle s e) turns
        (e :: es, t)
      else play s turns

lemma run_play : ∀ (s : Sys) (turns : List Turn), Run Step s (play s turns).1 (play s turns).2
  | s, [] => .nil s
  | s, turn :: turns => by
    rw [play]
    cases turn.event s with
    | none => exact run_play s turns
    | some e =>
      simp only
      split_ifs with hen
      · exact .cons ⟨hen, rfl⟩ (run_play _ turns)
      · exact run_play s turns

end FreeSense.Filterdns
