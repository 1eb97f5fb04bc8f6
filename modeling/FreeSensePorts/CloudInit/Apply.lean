import FreeSensePorts.CloudInit.Network
import FreeSensePorts.Core.Xml

/-!
# Applying the metadata

`apply` of `freesense_cloud_init.py`: the metadata becomes `config.xml`.  Its files are the
configuration, the state file, the keys of `root` and the seed of the Fleet, all written after the
last exception the metadata can raise.  The configuration is its element tree, `none` where it cannot
be parsed; the state file is its dictionary, `none` where there is no readable one.
-/

namespace FreeSense.CloudInit

open Python Xml

/-! ## The files -/

structure Files where
  config : Option Element
  state : Option Dict
  authorizedKeys : Option Text
  seed : Option Value

/-- A literal of the program. -/
abbrev lit (s : String) : Text := s.toList

def instanceIdTag : Text := "instance_id".toList

def cloudinitTag : Text := "cloudinit".toList

def systemTag : Text := "system".toList

def userTag : Text := "user".toList

def nameTag : Text := "name".toList

def passwordTag : Text := "password".toList

def configuredInstanceId (config : Option Element) : Option Text :=
  config.bind (Element.findtext₂ cloudinitTag instanceIdTag)

/-- `value == text`. -/
def isText (s : Text) : Value → Bool
  | .str v => v = s
  | _ => false

def appliedBefore (state : Option Dict) (instanceId : Text) : Bool :=
  state.any fun d => isText instanceId (get d "instance_id")

variable (lib : Library)

def shouldSkipApply (state : Option Dict) (config : Option Element) (instanceId : Text)
    (keys cidrs : List Text) : Bool :=
  match state with
  | none => false
  | some previous =>
    if !isText instanceId (get previous "instance_id") then false
    else if configuredInstanceId config ≠ some instanceId then false
    else
      let previousKeys := (lib.unicode.intOfValue (getD previous "ssh_key_count" (.int 0))).getD 0
      let previousCidrs := match getD previous "management_cidrs" (.list []) with
        | .list l => l
        | _ => []
      if keys ≠ [] ∧ previousKeys = 0 then false
      else if cidrs ≠ [] ∧ previousCidrs.isEmpty ∧ keys ≠ [] then false
      else true

/-! ## Reading the metadata -/

def instanceIdOf (metadata : Dict) : Except Exception Text :=
  match get metadata "instance_id" with
  | .str s => if lib.unicode.strip s = [] then invalid "instance_id is required" else .ok s
  | _ => invalid "instance_id is required"

/-- `^\s*ssh_authorized_keys\s*:`, from here on. -/
def marksHere (s : Text) : Bool :=
  let rest := s.dropWhile lib.unicode.isSpace
  let name := lit "ssh_authorized_keys"
  rest.take name.length = name ∧
    ((rest.drop name.length).dropWhile lib.unicode.isSpace).head? = some ':'

/-- The same at some beginning of a line.  `start` says whether this is one. -/
def marks : Bool → Text → Bool
  | start, [] => start && marksHere lib []
  | start, c :: s => start && marksHere lib (c :: s) || marks (c = '\n') s

def importedKeys (metadata : Dict) : Except Exception (List Text) := do
  let keys ← validKeys lib (get metadata "ssh_authorized_keys")
  match get metadata "_freesense_raw_user_data" with
  | .str raw =>
    if marks lib true raw ∧ keys = [] then
      invalid "cloud-config declares ssh_authorized_keys but none were imported"
    else return keys
  | _ => return keys

def extensionOf (metadata : Dict) : Except Exception Dict :=
  match getD metadata "freesense" (.dict []) with
  | .none => .ok []
  | v => asDict "freesense extension must be an object" v

/-- `fleet.get("version") == 1`, where `True` and `1.0` are equal to `1`. -/
def isOne : Value → Bool
  | .int n => n = 1
  | .float v => v = 1
  | .bool b => b
  | _ => false

/-- A seed to join a Fleet with. -/
def fleetOk (fleet : Dict) : Bool :=
  let mode := get fleet "mode"
  isOne (get fleet "version") &&
    (isText (lit "attended") mode || isText (lit "pin") mode || isText (lit "unattended") mode) &&
    match get fleet "link" with
    | .str link => link.take 8 = lit "https://"
    | _ => false

def fleetOf (extension : Dict) : Except Exception Value :=
  let message := "freesense.fleet must be a FreeSense Fleet join seed (version 1, mode, https link)"
  match get extension "fleet" with
  | .none => .ok .none
  | .dict fleet => if fleetOk fleet then .ok (.dict fleet) else invalid message
  | _ => invalid message

def cidrsOf (extension : Dict) : Except Exception (List Address) :=
  match getD extension "management_cidrs" (.list []) with
  | .list l => l.mapM fun value =>
    match lib.ipNetwork value with
    | some a => .ok a
    | none => invalid "invalid management CIDR"
  | _ => invalid "management_cidrs must be an array"

/-- A single interface is `wan`, and gets its IPv4 address by DHCP. -/
def soleWan : List (Text × Resolved) → List (Text × Resolved)
  | [(_, r)] =>
    [(lit "wan", { r with
      raw := pop (lit "gateway4") (set r.raw "dhcp4" (.bool true))
      addresses := r.addresses.filter fun a => a.version = 6 })]
  | assignments => assignments

/-! ## The sections of the configuration -/

open Element

def setHostname (metadata : Dict) (system : Element) : Except Exception Element :=
  match get metadata "hostname" with
  | .str hostname =>
    if hostname = [] then .ok system
    else if 253 < hostname.length then invalid "invalid hostname"
    else
      let hostname := (hostname.reverse.dropWhile (· = '.')).reverse
      let label := hostname.takeWhile (· ≠ '.')
      let system := system.setText (lit "hostname") label
      .ok (match hostname.drop label.length with
        | [] => system
        | _ :: domain => system.setText (lit "domain") domain)
  | v => if v.truthy then invalid "invalid hostname" else .ok system

def hasDots : Text → Bool
  | '.' :: '.' :: _ => true
  | _ :: s => hasDots s
  | [] => false

def setTimezone (metadata : Dict) (system : Element) : Except Exception Element :=
  match get metadata "timezone" with
  | .str timezone =>
    if timezone = [] then .ok system
    else if hasDots timezone ∨ timezone.head? = some '/' then invalid "invalid timezone"
    else .ok (system.setText (lit "timezone") timezone)
  | v => if v.truthy then invalid "invalid timezone" else .ok system

def isAdmin (user : Element) : Bool := user.findtext nameTag = some (lit "admin")

def adminOf (system : Element) : Option Element := (system.findall userTag).find? isAdmin

def onAdmin (f : Element → Element) : Element → Element :=
  withChildren (onFirst (fun c => hasTag userTag c && isAdmin c) f)

/-- The fields that hold a credential. -/
inductive Field
  | password
  | bcrypt
  | sha512
  | md5
  deriving DecidableEq, Repr

def Field.tag : Field → Text
  | .password => passwordTag
  | .bcrypt => "bcrypt-hash".toList
  | .sha512 => "sha512-hash".toList
  | .md5 => "md5-hash".toList

def lockedText : Text := "*LOCKED*".toList

/-- The hashes go, and no password fits. -/
def lock (admin : Element) : Element :=
  ((admin.removeFirst Field.bcrypt.tag).removeFirst Field.sha512.tag).removeFirst Field.md5.tag
    |>.setText passwordTag lockedText

def authorizedkeysTag : Text := "authorizedkeys".toList

def keyLines (keys : List Text) : Text := join (lit "\n") keys ++ lit "\n"

/-- The keys as the account holds them, if there are any. -/
def encodedKeys (keys : List Text) : Except Exception (Option Text) :=
  if keys = [] then .ok none
  else if lib.encodable (keyLines keys) then .ok (some (Base64.encode (utf8 (keyLines keys))))
  else .error .valueError

def setKeys (encoded : Option Text) (admin : Element) : Element :=
  match encoded with
  | none => admin
  | some value => admin.setText authorizedkeysTag value

def enableSsh (keys : List Text) (system : Element) : Element :=
  if keys = [] then system
  else system.child (lit "ssh") fun ssh =>
    (ssh.setText (lit "enable") (lit "enabled")).setText (lit "sshdkeyonly") (lit "enabled")

/-- `set_text` of a value, if it is true. -/
def setIf (value : Value) (name : String) (node : Element) : Element :=
  if value.truthy then node.setText (lit name) (lib.unicode.str value) else node

def staticAddress (address subnet : String) (a : Interface) (node : Element) : Element :=
  (node.setText (lit address) a.ip).setText (lit subnet) (toString a.prefixlen).toList

def configureInterface (item : Resolved) (node : Element) : Element :=
  let node := (node.setText (lit "enable") []).setText (lit "if") item.device
  let node := ["ipaddr", "subnet", "ipaddrv6", "subnetv6", "gateway", "gatewayv6", "mtu"].foldl
    (fun node old => node.removeFirst (lit old)) node
  let v4 := (item.addresses.filter fun a => a.version = 4).head?
  let v6 := (item.addresses.filter fun a => a.version = 6).head?
  let node :=
    if (get item.raw "dhcp4").truthy then node.setText (lit "ipaddr") (lit "dhcp")
    else match v4 with
      | some a => staticAddress "ipaddr" "subnet" a node
      | none => node
  let node :=
    if (get item.raw "dhcp6").truthy then node.setText (lit "ipaddrv6") (lit "dhcp6")
    else if (getD item.raw "slaac" (getD item.raw "accept-ra" (.bool false))).truthy then
      node.setText (lit "ipaddrv6") (lit "slaac")
    else match v6 with
      | some a => staticAddress "ipaddrv6" "subnetv6" a node
      | none => node
  setIf lib (get item.raw "mtu") "mtu" node

/-- `f"{role.upper()}_CLOUD_GW"`. -/
def gatewayName (role : Text) : Text := role.map Char.toUpper ++ lit "_CLOUD_GW"

def gatewayNameV6 (role : Text) : Text := gatewayName role ++ lit "V6"

def gateway4 (item : Resolved) : Value := get item.raw "gateway4"

def gateway6 (item : Resolved) : Value := get item.raw "gateway6"

def addInterface (interfaces : Element) (a : Text × Resolved) : Element :=
  interfaces.sub a.1 fun node =>
    let node := configureInterface lib a.2 node
    let node :=
      if (gateway4 a.2).truthy then node.setText (lit "gateway") (gatewayName a.1) else node
    if (gateway6 a.2).truthy then node.setText (lit "gatewayv6") (gatewayNameV6 a.1) else node

/-- Everything that was configured before goes. -/
def setInterfaces (assignments : List (Text × Resolved)) (interfaces : Element) : Element :=
  assignments.foldl (addInterface lib) (interfaces.withChildren fun _ => [])

def gatewayDescr : Text := "FreeSense cloud gateway".toList

def addGateway (role name protocol : Text) (value : Value) (gateways : Element) : Element :=
  if value.truthy then
    gateways.sub (lit "gateway_item") fun g =>
      ((((g.setText (lit "interface") role).setText (lit "gateway") (lib.unicode.str value)).setText
        nameTag name).setText (lit "ipprotocol") protocol).setText (lit "descr") gatewayDescr
  else gateways

def hasDescr (name descr : Text) (c : Element) : Bool :=
  hasTag name c && (c.findtext (lit "descr") = some descr)

def setGateways (assignments : List (Text × Resolved)) (gateways : Element) : Element :=
  assignments.foldl (fun gateways a =>
    addGateway lib a.1 (gatewayNameV6 a.1) (lit "inet6") (gateway6 a.2)
      (addGateway lib a.1 (gatewayName a.1) (lit "inet") (gateway4 a.2) gateways))
    (gateways.removeAll (hasDescr (lit "gateway_item") gatewayDescr))

/-- The resolvers of an item.  The field `dns` counts only beside a `nameservers` that is not an
object. -/
def itemDns (item : Resolved) : Except Exception (List Text) :=
  let addresses := match getD item.raw "nameservers" (.dict []) with
    | .dict d => getD d "addresses" (.list [])
    | _ => getD item.raw "dns" (.list [])
  match addresses with
  | .list l => l.mapM fun value =>
    match lib.ipAddress value with
    | some a => .ok a.text
    | none => .error .valueError
  | _ => .ok []

/-- `dict.fromkeys`: without repetitions, in the order of the first occurrences. -/
def distinct (l : List Text) : List Text :=
  l.foldl (fun seen x => if seen.contains x then seen else seen ++ [x]) []

def dnsserverTag : Text := "dnsserver".toList

def setDns (dns : List Text) (system : Element) : Element :=
  (distinct dns).foldl (fun system address => system.sub dnsserverTag (withText address))
    (system.removeAll (hasTag dnsserverTag))

def sshDescr : Text := "FreeSense cloud temporary SSH".toList

/-- One temporary rule.  `none` is any source. -/
def sshRule (source : Option Text) (version : ℕ) (rule : Element) : Element :=
  let family := if version = 6 then lit "inet6" else lit "inet"
  let rule := (rule.setText (lit "type") (lit "pass")).setText (lit "interface") (lit "wan")
  let rule := (rule.setText (lit "ipprotocol") family).setText (lit "protocol") (lit "tcp")
  let rule := rule.setText (lit "descr") sshDescr
  let rule := rule.sub (lit "source") (match source with
    | none => setText (lit "any") []
    | some address => setText (lit "address") address)
  rule.sub (lit "destination") fun d =>
    (d.setText (lit "network") (if version = 6 then lit "wanip6" else lit "wanip")).setText
      (lit "port") (lit "22")

def sshSources (cidrs : List Address) : List (Option Text × ℕ) :=
  if cidrs.isEmpty then [(none, 4), (none, 6)] else cidrs.map fun a => (some a.text, a.version)

def setFilter (sole : Bool) (keys : List Text) (cidrs : List Address) (node : Element) : Element :=
  let node := node.removeAll (hasDescr (lit "rule") sshDescr)
  if sole ∧ keys ≠ [] then
    (sshSources cidrs).foldl (fun node s => node.sub (lit "rule") (sshRule s.1 s.2)) node
  else node

def setCloudinit (instanceId : Text) (cloud : Element) : Element :=
  (cloud.setText instanceIdTag instanceId).setText (lit "schema_version")
    (lit "freesense.cloud-metadata/v1")

/-! ## The configuration -/

def lockoutOff (sole : Bool) (system : Element) : Element :=
  if sole then system.child (lit "webgui") (setText (lit "noantilockout") (lit "true")) else system

/-- The section `system`.  `locks` says whether the account is locked. -/
def provisionSystem (metadata : Dict) (keys : List Text) (assignments : List (Text × Resolved))
    (locks : Bool) (system : Element) : Except Exception Element := do
  let system := lockoutOff (assignments.length = 1) system
  let system ← setHostname metadata system
  let system ← setTimezone metadata system
  if (adminOf system).isNone then invalid "config.xml has no admin account"
  let encoded ← encodedKeys lib keys
  let system := onAdmin (fun admin => setKeys encoded (if locks then lock admin else admin)) system
  let dns ← assignments.mapM fun a => itemDns lib a.2
  return setDns dns.flatten (enableSsh keys system)

def provisionRoot (metadata : Dict) (instanceId : Text) (keys : List Text) (cidrs : List Address)
    (assignments : List (Text × Resolved)) (locks : Bool) (root : Element) :
    Except Exception Element := do
  let system ← provisionSystem lib metadata keys assignments locks
    ((root.find systemTag).getD (empty systemTag))
  let root := root.child systemTag fun _ => system
  let root := root.child (lit "interfaces") (setInterfaces lib assignments)
  let root := root.child (lit "gateways") (setGateways lib assignments)
  let root := root.child (lit "filter") (setFilter (assignments.length = 1) keys cidrs)
  return root.child cloudinitTag (setCloudinit instanceId)

/-- The account is locked unless both files say that this instance was applied before. -/
def locksAccount (files : Files) (instanceId : Text) : Bool :=
  !(appliedBefore files.state instanceId && configuredInstanceId files.config = some instanceId)

def sealedState (instanceId : Text) (keys : List Text) (cidrs : List Address) : Dict :=
  [(lit "instance_id", .str instanceId),
    (lit "management_cidrs", .list (cidrs.map fun a => .str a.text)),
    (lit "schema", .int 2), (lit "ssh_key_count", .int keys.length)]

def apply (metadata : Dict) (detected : List Detected) (files : Files) :
    Except Exception (Bool × Files) := do
  let instanceId ← instanceIdOf lib metadata
  let keys ← importedKeys lib metadata
  let network ← normalizeNetwork lib (get metadata "network")
  let extension ← extensionOf metadata
  let fleet ← fleetOf extension
  let cidrs ← cidrsOf lib extension
  if shouldSkipApply lib files.state files.config instanceId keys (cidrs.map Address.text) then
    return (false, files)
  let assignments := soleWan (← resolveInterfaces lib network detected extension)
  match files.config with
  | none => .error .parseError
  | some root =>
    let root' ← provisionRoot lib metadata instanceId keys cidrs assignments
      (locksAccount files instanceId) root
    let joined := (root'.findtext₂ (lit "fleet") (lit "node_id")).getD []
    return (true,
      { config := some root'
        state := some (sealedState instanceId keys cidrs)
        authorizedKeys := if keys = [] then none else some (keyLines keys)
        seed := if !fleet.isNone && joined = [] then some fleet else files.seed })

end FreeSense.CloudInit
