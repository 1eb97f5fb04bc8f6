import FreeSensePorts.Core.Run
import FreeSensePorts.CheckReload.Commands

/-!
# The event queue of `check_reload_status`

The queue `cmds` and what changes it: `runCommand` when a request has been answered `OK`,
`fcgiSendCommand` and `runCommandDetailed` when a timer expires, `socketReadFcgi` when php-fpm answers.

The address of an entry (`Runq`) is the number `id`, given out in order by `calloc`.  A timer and a
socket are Booleans.  Whether an allocation, a connection, a write or a fork succeeds, and what php-fpm
answers, is in the label of the step.  `State.out` records, newest first, each `OK` and each request
written to php-fpm.  `syslog` is left out, and so is the `EV_TIMEOUT` branch of `socket_read_fcgi`,
whose event has no timeout.
-/

namespace FreeSense.CheckReload

structure Runq where
  id : ℕ
  command : String
  params : Text
  requestId : ℕ
  aggregate : ℕ
  dontexec : Bool
  /-- `cmd->socket > 0`, with its read event registered. -/
  connected : Bool
  armed : Bool
  /-- The handler given to `timeout_set`: `fcgi_send_command` or `run_command_detailed`. -/
  fcgi : Bool
  deriving DecidableEq, Repr

inductive Output
  /-- `OK` to a client that asked for this leaf with this argument. -/
  | ok (leaf : Leaf) (argv : Text)
  /-- A request for this script with these parameters, written to php-fpm. -/
  | request (command : String) (params : Text)
  deriving DecidableEq, Repr

structure State where
  cmds : List Runq
  /-- The next address `calloc` gives out. -/
  fresh : ℕ
  /-- The static counter of `fcgi_send_command`. -/
  requestId : ℕ
  out : List Output
  deriving DecidableEq, Repr

def State.init : State := ⟨[], 0, 0, []⟩

def State.update (s : State) (q : Runq) : State :=
  { s with cmds := s.cmds.map fun p => if p.id = q.id then q else p }

/-- `TAILQ_REMOVE` and `free`. -/
def State.remove (s : State) (q : Runq) : State :=
  { s with cmds := s.cmds.filter fun p => p.id ≠ q.id }

def State.emit (s : State) (o : Output) : State := { s with out := o :: s.out }

/-! ## A request -/

/-- How the walk of `run_command` over the queue ends: it returns early, with one entry possibly
scheduled again, or it falls through with the aggregate count of the script. -/
inductive Walk
  | returned (cmds : List Runq)
  | through (aggregate : ℕ)

def Walk.cons (q : Runq) : Walk → Walk
  | .returned cmds => .returned (q :: cmds)
  | .through aggregate => .through aggregate

/-- "Rexec the command so the event is not lost." -/
def Runq.reschedule (q : Runq) : Runq := { q with dontexec := false, armed := true }

/-- The `TAILQ_FOREACH` of `run_command`. -/
def walk (cmd : RunSpec) : ℕ → List Runq → Walk
  | aggregate, [] => .through aggregate
  | aggregate, q :: rest =>
    if cmd.aggregate ∧ q.command = cmd.command then
      if aggregate + q.aggregate > 1 then
        if q.dontexec ∧ aggregate + q.aggregate < 3 then .returned (q.reschedule :: rest)
        else .returned (q :: rest)
      else (walk cmd (aggregate + q.aggregate) rest).cons q
    else (walk cmd aggregate rest).cons q

def paramsSize : ℕ := 256

def newEntry (leaf : Leaf) (argv : Text) (aggregate id : ℕ) : Runq where
  id := id
  command := leaf.cmd.command
  params := (leaf.expanded argv).take (paramsSize - 1)
  requestId := 0
  aggregate := if leaf.cmd.aggregate then aggregate + 1 else 0
  dontexec := false
  connected := false
  armed := true
  fcgi := leaf.cmd.fcgicmd

/-- `run_command`; `alloc` says whether `calloc` returns memory. -/
def runCommand (leaf : Leaf) (argv : Text) (alloc : Bool) (s : State) : State :=
  match walk leaf.cmd 0 s.cmds with
  | .returned cmds => { s with cmds := cmds }
  | .through aggregate =>
    if alloc = false then s
    else if leaf.type = .COMPOUND then { s with fresh := s.fresh + 1 }
    else { s with cmds := newEntry leaf argv aggregate s.fresh :: s.cmds, fresh := s.fresh + 1 }

/-- The end of `socket_read_command`: the answer, then `run_command`. -/
def request (leaf : Leaf) (argv : Text) (alloc : Bool) (s : State) : State :=
  runCommand leaf argv alloc (s.emit (.ok leaf argv))

/-! ## A timer -/

/-- `fcgi_send_command`, for an entry whose timer has just expired. -/
def fcgiSendCommand (q : Runq) (connects writes : Bool) (s : State) : State :=
  if q.dontexec then s.remove q
  else
    let s := { s with requestId := s.requestId + 1 }
    let q := { q with requestId := s.requestId }
    if q.connected = false ∧ connects = false then s.update { q with armed := true }
    else
      let s := s.emit (.request q.command q.params)
      if writes = false then s.update { q with connected := false, armed := true }
      else if q.aggregate > 0 then
        s.update { q with connected := true, dontexec := true, armed := true }
      else s.update { q with connected := true }

/-- `run_command_detailed`, for an entry whose timer has just expired. -/
def runCommandDetailed (q : Runq) (forks : Bool) (s : State) : State :=
  if q.dontexec then s.remove q
  else if forks = false then s.update q
  else if q.aggregate > 0 then s.update { q with dontexec := true, armed := true }
  else s.remove q

/-- The expiry of an entry's timer: it is no longer pending when its handler runs. -/
def timeout (q : Runq) (connects writes forks : Bool) (s : State) : State :=
  if q.fcgi then fcgiSendCommand { q with armed := false } connects writes s
  else runCommandDetailed { q with armed := false } forks s

/-! ## An answer -/

inductive RecordType
  | DATA | STDOUT | STDERR | ABORT_REQUEST | END_REQUEST | other
  deriving DecidableEq, Repr

def endRequestBodySize : ℕ := 8

/-- `FCGI_REQUEST_COMPLETE`; any other status is a refusal. -/
def requestComplete : UInt8 := 0

/-- A record as `socket_read_fcgi` sees it: its type, its content and padding length, and, for an
`END_REQUEST`, the protocol status of its body. -/
structure Record where
  type : RecordType
  len : ℕ
  protocolStatus : UInt8
  deriving DecidableEq, Repr

def Record.ends (r : Record) : Bool := r.type = .END_REQUEST ∧ r.len ≥ endRequestBodySize

def Record.success (r : Record) : Bool := r.protocolStatus = requestComplete

/-- `socket_read_fcgi`, for a record that was received whole. -/
def socketReadFcgi (q : Runq) (r : Record) (s : State) : State :=
  if r.ends then
    if r.success then s.remove q
    else s.update { q with dontexec := false }
  else s

/-! ## The event loop -/

inductive Event
  | request (leaf : Leaf) (argv : Text) (alloc : Bool)
  | timeout (q : Runq) (connects writes forks : Bool)
  | record (q : Runq) (r : Record)
  deriving DecidableEq, Repr

def handle (s : State) : Event → State
  | .request leaf argv alloc => request leaf argv alloc s
  | .timeout q connects writes forks => timeout q connects writes forks s
  | .record q r => socketReadFcgi q r s

/-- When an event can happen: a request is for a leaf of the table, a timer is pending, an answer
comes in on an open socket. -/
def Enabled (s : State) : Event → Prop
  | .request leaf _ _ => leaf ∈ leaves
  | .timeout q _ _ _ => q ∈ s.cmds ∧ q.armed = true
  | .record q _ => q ∈ s.cmds ∧ q.connected = true

instance (s : State) : DecidablePred (Enabled s)
  | .request leaf _ _ => inferInstanceAs (Decidable (leaf ∈ leaves))
  | .timeout q _ _ _ => inferInstanceAs (Decidable (q ∈ s.cmds ∧ q.armed = true))
  | .record q _ => inferInstanceAs (Decidable (q ∈ s.cmds ∧ q.connected = true))

def Step (s : State) (e : Event) (t : State) : Prop := Enabled s e ∧ t = handle s e

def EnabledAll (s : State) : List Event → Prop
  | [] => True
  | e :: es => Enabled s e ∧ EnabledAll (handle s e) es

instance decidableEnabledAll : ∀ (s : State) (es : List Event), Decidable (EnabledAll s es)
  | _, [] => inferInstanceAs (Decidable True)
  | s, e :: es =>
    have := decidableEnabledAll (handle s e) es
    inferInstanceAs (Decidable (_ ∧ _))

lemma run_of_enabled : ∀ {s : State} {es : List Event}, EnabledAll s es →
    Run Step s es (es.foldl handle s)
  | _, [], _ => .nil _
  | _, _ :: _, ⟨h, hs⟩ => .cons ⟨h, rfl⟩ (run_of_enabled hs)

end FreeSense.CheckReload
