import FreeSensePorts.Filterdns.Model

/-!
# Reading and replacing the configuration of `filterdns`

The grammar actions of `parse.y` and what they call (`action_add`, `host_add`), and the two users of
`parse_config`: `main`, and one turn of the loop of `merge_config` at each `SIGHUP`.  A `Dnsrule` is
what the grammar has reduced when the action of `dnsrule` runs; the number of a `pipe` is left out.
`parse_config` fails if any action has called `yyerror`, so the model stops at the first.
-/

namespace FreeSense.Filterdns

/-! ## Lines -/

inductive Dnsrule
  | filter (ftype : ActType) (hostname tablename : Text) (anchor : Option Text) (pipe : ℤ)
      (command : Option Text)
  | cmd (hostname : Text) (command : Option Text)
  deriving DecidableEq, Repr

def Dnsrule.rule : Dnsrule → Rule
  | .filter ftype hostname tablename anchor pipe command =>
    ⟨ftype, hostname, some tablename, anchor, pipe, command⟩
  | .cmd hostname command => ⟨.CMD, hostname, none, none, 0, command⟩

/-- The comparison of `host_add`: up to the first `/` of the new name, if it has one. -/
def Host.answersTo (name : Text) (h : Host) : Bool :=
  let len := if '/' ∈ name then (name.takeWhile (· ≠ '/')).length else 0
  if len > 0 then Text.eqIgnoreCase (h.hostname.take len) (name.take len)
  else Text.eqIgnoreCase h.hostname name

def afterSlash (name : Text) : Text := (name.reverse.takeWhile (· ≠ '/')).reverse

/-- The structure `host_add` allocates, with its first action; `none` for an invalid netmask. -/
def newHost (name : Text) (id act : ℕ) : Option Host :=
  let host (hostname : Text) (mask : ℤ) : Host :=
    ⟨id, hostname, mask, mask, [], 1, .STOPPED, [act], 0⟩
  if '/' ∈ name then
    let p := afterSlash name
    let (v, q) := Text.strtol p
    let mask := Text.toInt v
    if q ≠ [] ∨ mask > 128 ∨ q = p then none
    else some (host (name.take (name.length - p.length - 1)) mask)
  else some (host name (-1))

/-- `host_add`, for an action already in the list. -/
def hostAdd (act : Action) (s : Sys) : Option Sys :=
  match s.threadList.find? (Host.answersTo act.hostname) with
  | some h =>
    let s := s.updateHost h.id fun h =>
      { h with refcnt := h.refcnt + 1, actions := h.actions ++ [act.id] }
    some (s.updateAction act.id fun a => { a with host := some h.id })
  | none => do
    let h ← newHost act.hostname s.fresh act.id
    let s := { s with threadList := s.threadList ++ [h], fresh := s.fresh + 1 }
    return s.updateAction act.id fun a => { a with host := some h.id }

def Action.duplicates (r : Rule) (search : Action) : Bool :=
  search.host ≠ none ∧ search.toRule = r

def newAction (r : Rule) (id : ℕ) : Action := ⟨r, id, none, [], [], false, .STOPPED, 0⟩

def addRule (r : Rule) (s : Sys) : Except String Sys :=
  if s.actionList.any (Action.duplicates r) then
    .error "filterdns: duplicate configuration entry found"
  else
    let act := newAction r s.fresh
    match hostAdd act { s with actionList := s.actionList ++ [act], fresh := s.fresh + 1 } with
    | none => .error "filterdns: could not allocate memory"
    | some s => .ok s

def dnsrule (s : Sys) : Dnsrule → Except String Sys
  | .filter ftype hostname tablename anchor pipe command =>
    if ftype ≠ .IPFW ∧ ftype ≠ .PF then .error "Wrong configuration parameters"
    else if ftype ≠ .PF ∧ anchor ≠ none then .error "Anchors are only supported for pf"
    else addRule ⟨ftype, hostname, some tablename, anchor, pipe, command⟩ s
  | .cmd hostname command =>
    if command = none then
      .error "Hostname and Command are mandatory on CMD type directive"
    else addRule ⟨.CMD, hostname, none, none, 0, command⟩ s

def parseConfig (rules : List Dnsrule) (s : Sys) : Except String Sys := rules.foldlM dnsrule s

/-! ## Starting and deleting -/

/-- `action_create`, for an action without a thread. -/
def Action.create (a : Action) : Action :=
  if a.state ≠ .STOPPED then a else { a with state := .STARTING, force := true, sem := 0 }

/-- `check_hostname_create`, for a host without a thread. -/
def Host.create (h : Host) : Host :=
  if h.state ≠ .STOPPED then h else { h with state := .STARTING, sem := 0 }

/-- The end of `main`, and of a turn of `merge_config`: a thread for all who have none. -/
def startThreads (s : Sys) : Sys :=
  { s with
    actionList := s.actionList.map Action.create
    threadList := s.threadList.map Host.create }

/-- `main`, up to the threads. -/
def startup (rules : List Dnsrule) : Except String Sys := do
  let s ← parseConfig rules .empty
  return startThreads s

/-- `host_del`.  A running thread of the action has ended when it returns. -/
def hostDel (act : Action) (s : Sys) : Sys :=
  match act.host with
  | none => s
  | some i => s.updateHost i fun h =>
    { h with refcnt := h.refcnt - 1, actions := h.actions.erase act.id, sem := h.sem + 1 }

/-- `action_del`, without the list the action is on. -/
def actionDel (act : Action) (s : Sys) : Sys := tableCleanup act (hostDel act s)

/-! ## A reload -/

/-- The fields `merge_config` compares. -/
def Rule.key (r : Rule) : ActType × Text × Option Text × Option Text :=
  (r.type, r.hostname, r.tablename, r.anchor)

/-- The three lists of `merge_config`: `action_list` is the one of `sys`. -/
structure Merge where
  sys : Sys
  tmp : List Action
  new : List Action

def mergeOne (m : Merge) (act : Action) : Merge :=
  let new := m.new.eraseP fun a => a.id = act.id
  match m.tmp.find? fun t => t.key = act.key with
  | some tmpact =>
    let sys := { m.sys with actionList := tmpact :: m.sys.actionList }
    ⟨actionDel act sys, m.tmp.eraseP fun t => t.key = act.key, new⟩
  | none => ⟨{ m.sys with actionList := act :: m.sys.actionList }, m.tmp, new⟩

def clearOne (m : Merge) (act : Action) : Merge :=
  { m with sys := actionDel act m.sys, tmp := m.tmp.eraseP fun a => a.id = act.id }

/-- `merge_config` up to its assertion: the lists it has built. -/
def mergeLists (rules : List Dnsrule) (s : Sys) : Except String Merge := do
  let parsed ← parseConfig rules { s with actionList := [] }
  let m : Merge := ⟨{ parsed with actionList := [] }, s.actionList, parsed.actionList⟩
  let m := parsed.actionList.foldl mergeOne m
  return m.tmp.foldl clearOne m

def mergeConfig (rules : List Dnsrule) (s : Sys) : Except String Sys := do
  let m ← mergeLists rules s
  if m.new ≠ [] ∨ m.tmp ≠ [] then throw "assert: temporary lists are not empty."
  let s := startThreads m.sys
  return { s with threadList := s.threadList.map fun h =>
      if h.state = .RUNNING ∨ h.state = .STARTING then { h with sem := h.sem + 1 } else h }

end FreeSense.Filterdns
