import FreeSensePorts.Core.Base64
import FreeSensePorts.Core.Python

/-!
# The metadata of an instance

What `freesense_cloud_init.py` reads out of the metadata: the SSH keys, the network in one of its
three forms (OpenStack, a list of interfaces, netplan), and the roles of the interfaces.

The metadata is any value of JSON, and each function raises what Python raises on it.  `ipaddress` is a
parameter (`Library`), with `none` for its `ValueError`.  Of the normalised fields of an item, `order`
is stored and never read, and left out.
-/

namespace FreeSense.CloudInit

open Python

/-- `ipaddress.ip_interface`. -/
structure Interface where
  version : ℕ
  ip : Text
  prefixlen : ℕ
  deriving DecidableEq, Repr

/-- `ipaddress.ip_address` and `ipaddress.ip_network`. -/
structure Address where
  version : ℕ
  text : Text
  deriving DecidableEq, Repr

structure Library where
  unicode : Unicode
  /-- `s.encode()` has a value: no character of the text stands for a surrogate, of which Python's
  strings may have some. -/
  encodable : Text → Bool
  ipInterface : Value → Option Interface
  ipAddress : Value → Option Address
  /-- `ip_network(v, strict=False)`. -/
  ipNetwork : Value → Option Address
  /-- `ip_network(f"0.0.0.0/{s}").prefixlen`. -/
  netmask : Text → Option ℕ

def invalid {α : Type} (message : String) : Except Exception α := .error (.invalid message.toList)

/-- `isinstance(v, dict)`, or the exception. -/
def asDict (message : String) : Value → Except Exception Dict
  | .dict d => .ok d
  | _ => invalid message

variable (lib : Library)

/-! ## SSH keys -/

def keyTypes : List Text :=
  ["ssh-rsa".toList, "ssh-ed25519".toList, "ecdsa-sha2-nistp256".toList,
    "ecdsa-sha2-nistp384".toList, "ecdsa-sha2-nistp521".toList, "sk-ssh-ed25519@openssh.com".toList]

def isBase64 (c : Char) : Bool :=
  ('A' ≤ c ∧ c ≤ 'Z') ∨ ('a' ≤ c ∧ c ≤ 'z') ∨ ('0' ≤ c ∧ c ≤ '9') ∨ c = '+' ∨ c = '/'

/-- `KEY.fullmatch(s)`: the encoded part of the key. -/
def keyMatch (s : Text) : Option Text :=
  let kind := s.takeWhile (· ≠ ' ')
  let rest := s.drop (kind.length + 1)
  let body := rest.takeWhile isBase64
  let pad := (rest.drop body.length).takeWhile (· = '=')
  let tail := rest.drop (body.length + pad.length)
  if kind ∈ keyTypes ∧ body ≠ [] ∧ pad.length ≤ 3 ∧
      (tail = [] ∨ tail.head? = some ' ' ∧ '\n' ∉ tail) then some (body ++ pad)
  else none

def validKey (value : Value) : Except Exception Text :=
  let s := match value with
    | .str s => lib.unicode.strip s
    | _ => []
  match keyMatch s with
  | none => invalid "invalid SSH public key"
  | some encoded =>
    match Base64.decodeStrict encoded with
    | none => invalid "invalid SSH public key encoding"
    | some decoded =>
      if decoded.length < 16 then invalid "invalid SSH public key encoding" else .ok s

def validKeys : Value → Except Exception (List Text)
  | .none => .ok []
  | .list values => values.foldlM (fun keys value => do
    let key ← validKey lib value
    return if key ∈ keys then keys else keys ++ [key]) []
  | _ => invalid "ssh_authorized_keys must be an array"

/-! ## OpenStack -/

def openstackLinks : ℕ → List (Text × Dict) → List Value → Except Exception (List (Text × Dict))
  | _, byId, [] => .ok byId
  | order, byId, link :: links => do
    let link ← asDict "OpenStack network link is invalid" link
    match get link "id" with
    | .str id =>
      let item : Dict := [("name".toList, (get link "name").or (.str id)),
        ("mac".toList, get link "ethernet_mac_address"), ("mtu".toList, get link "mtu"),
        ("addresses".toList, .list []), ("order".toList, .int order)]
      openstackLinks (order + 1) (assign id item byId) links
    | _ => invalid "OpenStack network link is invalid"

/-- A static address: the address itself, and its gateway. -/
def openstackStatic (network item : Dict) (gateway : String) : Except Exception Dict := do
  let mask ← match get network "netmask" with
    | .str s =>
      if lib.unicode.isdigit s then pure (.str s)
      else match lib.netmask s with
        | some n => pure (.int n)
        | none => invalid "OpenStack static network is invalid"
    | v => pure v
  let address := lib.unicode.str (get network "ip_address") ++ "/".toList ++ lib.unicode.str mask
  let addresses := match get item "addresses" with
    | .list l => l
    | _ => []
  let item := set item "addresses" (.list (addresses ++ [.str address]))
  let via := get network "gateway"
  return if via.truthy then set (set item gateway via) "default_route" (.bool true) else item

/-- What a network adds to the item of its link. -/
def openstackItem (network item : Dict) : Except Exception Dict :=
  match get network "type" with
  | .str type =>
    if type = "ipv4_dhcp".toList then .ok (set item "dhcp4" (.bool true))
    else if type = "ipv6_dhcp".toList then .ok (set item "dhcp6" (.bool true))
    else if type = "ipv6_slaac".toList then .ok (set item "slaac" (.bool true))
    else if type = "ipv4".toList then openstackStatic lib network item "gateway4"
    else if type = "ipv6".toList then openstackStatic lib network item "gateway6"
    else .ok item
  | type => if type.hashable then .ok item else .error .typeError

def openstackNetwork (byId : List (Text × Dict)) (network : Value) :
    Except Exception (List (Text × Dict)) := do
  let unknown := "OpenStack network references an unknown link"
  let network ← asDict unknown network
  match get network "link" with
  | .str id =>
    match lookup id byId with
    | some item => return assign id (← openstackItem lib network item) byId
    | none => invalid unknown
  | link => if link.hashable then invalid unknown else .error .typeError

def openstackDns (services : List Value) : List Value :=
  services.filterMap fun service =>
    match service with
    | .dict d =>
      match get d "type" with
      | .str type => if type = "dns".toList then some (get d "address") else none
      | _ => none
    | _ => none

def openstackInterfaces (value : Dict) (links networks : List Value) :
    Except Exception (List Value) := do
  let byId ← openstackLinks 0 [] links
  let byId ← networks.foldlM (openstackNetwork lib) byId
  let dns := openstackDns (← (getD value "services" (.list [])).iterate)
  return byId.map fun e => .dict (if dns.isEmpty then e.2 else set e.2 "dns" (.list dns))

/-! ## Netplan -/

/-- `to in {"0.0.0.0/0", "::/0", "default"}`. -/
def isDefault : Value → Except Exception Bool
  | .str s => .ok (s ∈ ["0.0.0.0/0".toList, "::/0".toList, "default".toList])
  | v => if v.hashable then .ok false else .error .typeError

/-- One of the routes is a default route.  The rest is not looked at then. -/
def anyDefault : List Value → Except Exception Bool
  | [] => .ok false
  | .dict route :: routes => do
    if ← isDefault (get route "to") then return true else anyDefault routes
  | _ :: routes => anyDefault routes

def routeGateways (gateways : Dict) (route : Value) : Except Exception Dict :=
  match route with
  | .dict route => do
    if !(← isDefault (get route "to")) || !(get route "via").truthy then return gateways
    match lib.ipAddress (get route "via") with
    | none => invalid "default route gateway is invalid"
    | some a =>
      return set gateways (if a.version = 4 then "gateway4" else "gateway6") (get route "via")
  | _ => .ok gateways

def ethernet (order : ℕ) (name : Text) (item : Dict) : Except Exception Value := do
  let mac := match getD item "match" (.dict []) with
    | .dict d => get d "macaddress"
    | _ => .none
  let (dflt, gateways) ← match getD item "routes" (.list []) with
    | .list routes => do
      let dflt ← anyDefault routes
      pure (dflt, ← routes.foldlM (routeGateways lib) [])
    | .str _ => pure (false, [])
    | .dict _ => pure (false, [])
    | _ => .error .typeError
  let merged : Dict := gateways.foldl (fun d e => assign e.1 e.2 d) item
  let route := dflt || ((get item "gateway4").or (get item "gateway6")).truthy
  return .dict (set (set (set (set merged "name" ((get item "set-name").or (.str name)))
    "mac" mac) "default_route" (.bool route)) "order" (.int order))

def ethernets : ℕ → Dict → Except Exception (List Value)
  | _, [] => .ok []
  | order, (name, item) :: rest => do
    let item ← asDict "ethernet definition must be an object" item
    let value ← ethernet lib order name item
    return value :: (← ethernets (order + 1) rest)

/-! ## All forms -/

structure Item where
  raw : Dict
  name : Option Text
  mac : Option Text
  addresses : List Interface

def networkInterfaces (value : Dict) : Except Exception (List Value) :=
  match get value "links", get value "networks", get value "interfaces" with
  | .list links, .list networks, _ => openstackInterfaces lib value links networks
  | _, _, .list interfaces => .ok interfaces
  | _, _, _ => do
    let d ← asDict "network ethernets must be an object" (getD value "ethernets" (.dict []))
    ethernets lib 0 d

def itemName : Value → Except Exception (Option Text)
  | .none => .ok none
  | .str s => if s = [] then invalid "invalid interface name" else .ok (some s)
  | _ => invalid "invalid interface name"

def itemMac : Value → Except Exception (Option Text)
  | .none => .ok none
  | .str s =>
    match (s.splitOn ':').mapM (lib.unicode.intOfText 16) with
    | none => invalid "invalid interface MAC address"
    | some parts =>
      let mac := join ":".toList (parts.map hex02)
      if mac.length ≠ 17 then invalid "invalid interface MAC address" else .ok (some mac)
  | _ => invalid "invalid interface MAC address"

def itemAddress (address : Value) : Except Exception Interface :=
  match lib.ipInterface address with
  | some i => .ok i
  | none => .error (.invalid ("invalid address ".toList ++ lib.unicode.str address))

def itemAddresses : Value → Except Exception (List Interface)
  | .str s => do return [← itemAddress lib (.str s)]
  | .list l => l.mapM (itemAddress lib)
  | _ => invalid "addresses must be an array"

/-- `isinstance(mtu, int) and 576 <= mtu <= 9216`, where `True` is an `int` as well. -/
def mtuOk : Value → Bool
  | .none => true
  | .int n => 576 ≤ n ∧ n ≤ 9216
  | _ => false

/-- One pass of the loop: the names and addresses seen so far, and the items. -/
def networkItem (acc : List Text × List Text × List Item) (value : Value) :
    Except Exception (List Text × List Text × List Item) := do
  let (names, macs, items) := acc
  let raw ← asDict "network interface must be an object" value
  let name ← itemName (get raw "name")
  let mac ← itemMac lib (get raw "mac")
  if name.any (· ∈ names) || mac.any (· ∈ macs) then invalid "duplicate interface mapping"
  let addresses ← itemAddresses lib (getD raw "addresses" (.list []))
  if !mtuOk (get raw "mtu") then invalid "invalid MTU"
  return (names ++ name.toList, macs ++ mac.toList, items ++ [⟨raw, name, mac, addresses⟩])

def normalizeNetwork : Value → Except Exception (List Item)
  | .none => .ok []
  | .dict [] => .ok []
  | .dict value => do
    let interfaces ← networkInterfaces lib value
    let (_, _, items) ← interfaces.foldlM (networkItem lib) ([], [], [])
    return items
  | _ => invalid "network metadata must be an object"

/-! ## Devices and roles -/

structure Detected where
  name : Text
  mac : Option Text
  deriving DecidableEq, Repr

structure Resolved extends Item where
  device : Text

/-- `str(item.get("mac", "")).lower()`. -/
def Detected.lowerMac (d : Detected) : Text := lib.unicode.lower (d.mac.getD [])

def deviceByName (detected : List Detected) (name : Text) : Option Detected :=
  detected.reverse.find? fun d => d.name = name

def deviceByMac (detected : List Detected) (mac : Text) : Option Detected :=
  detected.reverse.find? fun d => d.lowerMac lib = mac

/-- The devices by name and by hardware address, which have to be one. -/
def resolveDevice (detected : List Detected) (item : Item) : Except Exception Text :=
  match item.name.bind (deviceByName detected), item.mac.bind (deviceByMac lib detected) with
  | some a, some b =>
    if a.name = b.name then .ok a.name
    else invalid "interface name and MAC resolve to different devices"
  | some a, none => .ok a.name
  | none, some b => .ok b.name
  | none, none => invalid "metadata interface is not present"

def resolveItem (detected : List Detected) (resolved : List Resolved) (item : Item) :
    Except Exception (List Resolved) := do
  let device ← resolveDevice lib detected item
  if resolved.any (·.device = device) then
    invalid "multiple metadata interfaces resolve to one device"
  return resolved ++ [⟨item, device⟩]

/-- The items that stand for the machine's interfaces if the metadata names none. -/
def detectedItems : ℕ → List Detected → List Resolved
  | _, [] => []
  | order, d :: rest =>
    let mac := d.lowerMac lib
    ⟨⟨[("dhcp4".toList, .bool (order = 0))], some d.name, if mac = [] then none else some mac, []⟩,
      d.name⟩ :: detectedItems (order + 1) rest

/-- `ROLE.fullmatch(s)`. -/
def isRole (s : Text) : Bool :=
  s = "wan".toList ∨ s = "lan".toList ∨
    s.take 3 = "opt".toList ∧ (s.drop 3).head?.any (fun c => '1' ≤ c ∧ c ≤ '9') ∧
      (s.drop 3).all (fun c => '0' ≤ c ∧ c ≤ '9')

/-- The mapping, and what it names, in lower case. -/
def Resolved.answersTo (match' : Text) (r : Resolved) : Bool :=
  match' = lib.unicode.lower r.device ∨ match' = lib.unicode.lower (Unicode.strOption r.name) ∨
    match' = lib.unicode.lower (Unicode.strOption r.mac)

/-- One mapping of a role.  `explicit` is the roles by device. -/
def mapRole (resolved : List Resolved) (explicit : List (Text × Text)) (mapping : Value) :
    Except Exception (List (Text × Text)) := do
  let mapping ← asDict "invalid FreeSense interface role mapping" mapping
  let role := lib.unicode.str (getD mapping "role" (.str []))
  if !isRole role then invalid "invalid FreeSense interface role mapping"
  let named := ((get mapping "match").or ((get mapping "name").or ((get mapping "mac").or (.str []))))
  match resolved.filter (Resolved.answersTo lib (lib.unicode.lower (lib.unicode.str named))) with
  | [r] =>
    if explicit.any (·.2 = role) || (lookup r.device explicit).isSome then
      invalid "duplicate FreeSense interface role mapping"
    return explicit ++ [(r.device, role)]
  | _ => invalid "ambiguous FreeSense interface role mapping"

def roleMappings (extension : Dict) : Except Exception (List Value) :=
  match getD extension "interfaces" (.list []) with
  | .dict d => .ok (d.map fun e => .dict [("match".toList, .str e.1), ("role".toList, e.2)])
  | v => v.iterate

def optRole (index : ℕ) : Text := "opt".toList ++ (toString index).toList

/-- The first free `opt` role.  There are fewer roles taken than indices tried. -/
def freeOpt (taken : List Text) : Text :=
  optRole (((List.range (taken.length + 1)).map (· + 1)).find? (optRole · ∉ taken) |>.getD 1)

/-- The interface that becomes `wan`, and the others. -/
def chooseWan (remaining : List Resolved) : Except Exception (Option Resolved × List Resolved) :=
  let hasRoute (r : Resolved) : Bool := (get r.raw "default_route").truthy
  match remaining.filter hasRoute, remaining with
  | [], r :: rest => .ok (some r, rest)
  | [r], _ => .ok (some r, remaining.eraseP hasRoute)
  | [], [] => .ok (none, [])
  | _, _ => invalid "multiple interfaces carry the metadata default route"

/-- The roles by device, and all roles that were ever assigned. -/
structure Roles where
  explicit : List (Text × Text)
  assigned : List Text

def Roles.add (g : Roles) (device role : Text) : Roles :=
  ⟨assign device role g.explicit, role :: g.assigned⟩

def assignRest (g : Roles) (r : Resolved) : Roles :=
  g.add r.device (if "lan".toList ∉ g.assigned then "lan".toList else freeOpt g.assigned)

def resolveInterfaces (metadata : List Item) (detected : List Detected) (extension : Dict) :
    Except Exception (List (Text × Resolved)) := do
  let resolved ← metadata.foldlM (resolveItem lib detected) []
  let resolved := if resolved.isEmpty then detectedItems lib 0 detected else resolved
  let explicit ← (← roleMappings extension).foldlM (mapRole lib resolved) []
  let remaining := resolved.filter fun r => (lookup r.device explicit).isNone
  let roles : Roles := ⟨explicit, explicit.map Prod.snd⟩
  let (roles, remaining) ←
    if "wan".toList ∈ roles.assigned then pure (roles, remaining)
    else do
      let (wan, remaining) ← chooseWan remaining
      pure ((wan.map fun r => roles.add r.device "wan".toList).getD roles, remaining)
  let roles := remaining.foldl assignRest roles
  return resolved.map fun r => ((lookup r.device roles.explicit).getD [], r)

end FreeSense.CloudInit
