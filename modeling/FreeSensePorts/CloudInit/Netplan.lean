import FreeSensePorts.CloudInit.Items
import FreeSensePorts.CloudInit.Mac
import FreeSensePorts.CloudInit.Written

/-!
# One static network in two forms

A network of links with static addresses can be given in the form of OpenStack or of netplan.  Both
mean the same to `normalize_network` if each leads to dictionaries that describe the links
(`Describes`).  In the form of OpenStack the dictionary of a link is completed network by network.  What
can go wrong is a netmask: it is read in the notation of IPv4, whatever the family of the network.
-/

namespace FreeSense.CloudInit

open Python
open List hiding getD get

variable {l : StaticLink} {raw : Dict} {links : List StaticLink} {s : Static}

/-! ## Links -/

/-- A static address.  `spelled` says that the netmask is written like an address, and not as the
number of its bits. -/
structure Static where
  address : Text
  prefixlen : ℕ
  gateway : Option Text
  spelled : Bool

structure StaticLink where
  id : Text
  name : Text
  mac : Text
  v4 : Option Static
  v6 : Option Static

def decimal (n : ℕ) : Text := (toString n).toList

/-- A byte of an IPv4 netmask, of which the first `n` bits are set. -/
def maskByte (n : ℕ) : ℕ := 256 - 2 ^ (8 - n)

/-- `255.255.255.0`, for a prefix of 24 bits. -/
def mask4 (n : ℕ) : Text :=
  join ['.'] ([n, n - 8, n - 16, n - 24].map fun m => decimal (maskByte m))

/-- `ffff:ffff:ffff:ffff::`, for a prefix of 64 bits. -/
def mask6 (n : ℕ) : Text :=
  let last := if n % 16 = 0 then [] else [Nat.toDigits 16 (2 ^ 16 - 2 ^ (16 - n % 16))]
  let groups := List.replicate (n / 16) "ffff".toList ++ last
  join [':'] groups ++ match 8 - groups.length with
    | 0 => []
    | 1 => ":0".toList
    | _ => "::".toList

example : mask4 24 = "255.255.255.0".toList ∧ mask4 1 = "128.0.0.0".toList ∧
    mask6 64 = "ffff:ffff:ffff:ffff::".toList ∧ mask6 0 = "::".toList ∧
    mask6 57 = "ffff:ffff:ffff:ff80::".toList ∧ mask6 113 = "ffff:ffff:ffff:ffff:ffff:ffff:ffff:8000".toList ∧
    mask6 112 = "ffff:ffff:ffff:ffff:ffff:ffff:ffff:0".toList := by
  decide +kernel

def Static.prefixText (s : Static) : Text := s.address ++ "/".toList ++ decimal s.prefixlen

def Static.netmask (mask : ℕ → Text) (s : Static) : Text :=
  if s.spelled then mask s.prefixlen else decimal s.prefixlen

namespace StaticLink

variable (l : StaticLink)

def gateway4 : Option Text := l.v4.bind Static.gateway

def gateway6 : Option Text := l.v6.bind Static.gateway

def addresses : List Value := (l.v4.toList ++ l.v6.toList).map fun s => .str s.prefixText

end StaticLink

/-! ## The documents -/

def staticNetwork (id : Text) (type : String) (mask : ℕ → Text) (s : Static) : Dict :=
  [("link".toList, .str id), ("type".toList, .str type.toList), ("ip_address".toList, .str s.address),
    ("netmask".toList, .str (s.netmask mask))] ++
    s.gateway.toList.map fun g => ("gateway".toList, .str g)

def StaticLink.networks (l : StaticLink) : List Value :=
  l.v4.toList.map (fun s => .dict (staticNetwork l.id "ipv4" mask4 s)) ++
    l.v6.toList.map (fun s => .dict (staticNetwork l.id "ipv6" mask6 s))

def StaticLink.link (l : StaticLink) : Dict :=
  [("id".toList, .str l.id), ("name".toList, .str l.name), ("ethernet_mac_address".toList, .str l.mac)]

def openstackOf (links : List StaticLink) : Dict :=
  [("links".toList, .list (links.map fun l => .dict l.link)),
    ("networks".toList, .list (links.flatMap StaticLink.networks))]

def StaticLink.gateways (l : StaticLink) : Dict :=
  l.gateway4.toList.map (fun g => ("gateway4".toList, .str g)) ++
    l.gateway6.toList.map (fun g => ("gateway6".toList, .str g))

def defaultRoute (dest : String) (via : Text) : Value :=
  .dict [("to".toList, .str dest.toList), ("via".toList, .str via)]

def StaticLink.routes (l : StaticLink) : List Value :=
  l.gateway4.toList.map (defaultRoute "0.0.0.0/0") ++ l.gateway6.toList.map (defaultRoute "::/0")

/-- The definition of an ethernet, with the gateways as routes or as fields. -/
def StaticLink.ethernet (routed : Bool) (l : StaticLink) : Dict :=
  [("match".toList, .dict [("macaddress".toList, .str l.mac)]), ("set-name".toList, .str l.name),
    ("addresses".toList, .list l.addresses)] ++
    if routed then [("routes".toList, .list l.routes)] else l.gateways

def netplanOf (routed : Bool) (links : List StaticLink) : Dict :=
  [("ethernets".toList, .dict (links.map fun l => (l.id, .dict (l.ethernet routed))))]

variable {lib : Library}

/-! ## The loop over the interfaces -/

variable {items : List Item} {version : ℕ} {k : String} {m : Value} {a : Address}

lemma networkItem_of_normal {value : Value} {item : Item} (h : NormalItem lib value item)
    {names macs : List Text} (hname : ∀ n ∈ item.name, n ∉ names) (hmac : ∀ m ∈ item.mac, m ∉ macs) :
    networkItem lib (names, macs, items) value
      = .ok (names ++ item.name.toList, macs ++ item.mac.toList, items ++ [item]) := by
  have hfresh : (item.name.any (· ∈ names) || item.mac.any (· ∈ macs)) = false := by
    rw [Bool.or_eq_false_iff]
    constructor
    · cases hn : item.name with
      | none => rfl
      | some n => simpa using hname n hn
    · cases hm : item.mac with
      | none => rfl
      | some m => simpa using hmac m hm
  rw [h.raw]
  simp only [networkItem, asDict, bind_eq_ok, Except.ok.injEq, exists_eq_left', h.name, h.mac,
    h.addresses, h.mtu, refuses_eq_ok, pure_eq_ok, hfresh, Bool.not_true, Bool.false_eq_true,
    not_false_eq_true, true_and]

/-- The interfaces that are what their items say are accepted if no name and no hardware address
occurs twice. -/
lemma normalize_of_normal {values : List Value} (h : List.Forall₂ (NormalItem lib) values items)
    (names macs : List Text) (done : List Item)
    (hnames : (names ++ items.filterMap Item.name).Nodup)
    (hmacs : (macs ++ items.filterMap Item.mac).Nodup) :
    values.foldlM (networkItem lib) (names, macs, done) = .ok
      (names ++ items.filterMap Item.name, macs ++ items.filterMap Item.mac, done ++ items) := by
  induction h generalizing names macs done with
  | nil => simp
  | @cons value item values items hitem _ ih =>
    -- the fields of the first item, in front of those of the others
    have hsplit : ∀ (f : Item → Option Text) (seen : List Text),
        seen ++ (item :: items).filterMap f = seen ++ (f item).toList ++ items.filterMap f := by
      intro f seen
      cases hf : f item <;> simp [hf]
    have hfresh : ∀ (f : Item → Option Text) (seen : List Text),
        (seen ++ (item :: items).filterMap f).Nodup → ∀ t ∈ f item, t ∉ seen := by
      intro f seen hnodup t ht hin
      refine (nodup_append.mp hnodup).2.2 t hin t ?_ rfl
      exact mem_filterMap.mpr ⟨item, mem_cons_self, ht⟩
    rw [foldlM_cons, networkItem_of_normal hitem (hfresh _ _ hnames) (hfresh _ _ hmacs)]
    rw [hsplit] at hnames hmacs
    rw [hsplit, hsplit, append_cons done item items]
    exact ih _ _ _ hnames hmacs

/-! ## Dictionaries that describe links -/

/-- What is used of `ipaddress` and of `str`: an address with a prefix in range is one of an interface,
a netmask in the notation of IPv4 is read, and one in the notation of IPv6 is not. -/
structure NetworkLaws (lib : Library) : Prop where
  digits : ∀ n, lib.unicode.isdigit (decimal n) = true
  dotted : ∀ n ≤ 32, lib.unicode.isdigit (mask4 n) = false ∧ lib.netmask (mask4 n) = some n
  colons : ∀ s, ':' ∈ s → lib.unicode.isdigit s = false ∧ lib.netmask s = none
  empty : lib.ipAddress (.str []) = none
  interface : ∀ {s a n}, lib.ipAddress (.str s) = some a → n ≤ (if a.version = 4 then 32 else 128) →
    (lib.ipInterface (.str (s ++ "/".toList ++ decimal n))).isSome = true

structure Static.Valid (lib : Library) (version : ℕ) (s : Static) : Prop where
  address : ∃ a, lib.ipAddress (.str s.address) = some a ∧ a.version = version
  prefixlen : s.prefixlen ≤ if version = 4 then 32 else 128
  gateway : ∀ g ∈ s.gateway, ∃ a, lib.ipAddress (.str g) = some a ∧ a.version = version

structure StaticLink.Valid (lib : Library) (l : StaticLink) : Prop where
  name : l.name ≠ []
  mac : IsMac l.mac
  v4 : ∀ s ∈ l.v4, s.Valid lib 4
  v6 : ∀ s ∈ l.v6, s.Valid lib 6

/-- What the two forms are compared by. -/
structure Summary where
  name : Option Text
  mac : Option Text
  addresses : List Interface
  gateway4 : Value
  gateway6 : Value
  defaultRoute : Bool

def Item.summary (i : Item) : Summary :=
  ⟨i.name, i.mac, i.addresses, get i.raw "gateway4", get i.raw "gateway6",
    (get i.raw "default_route").truthy⟩

def optional : Option Text → Value
  | none => .none
  | some s => .str s

def StaticLink.routed (l : StaticLink) : Bool := l.gateway4.isSome || l.gateway6.isSome

def StaticLink.summary (lib : Library) (l : StaticLink) : Summary :=
  ⟨some l.name, some (canonical l.mac), l.addresses.filterMap lib.ipInterface, optional l.gateway4,
    optional l.gateway6, l.routed⟩

structure Describes (l : StaticLink) (raw : Dict) : Prop where
  name : get raw "name" = .str l.name
  mac : get raw "mac" = .str l.mac
  mtu : get raw "mtu" = .none
  addresses : get raw "addresses" = .list l.addresses
  gateway4 : get raw "gateway4" = optional l.gateway4
  gateway6 : get raw "gateway6" = optional l.gateway6
  route : (get raw "default_route").truthy = l.routed

lemma Static.Valid.interface (hlib : NetworkLaws lib) (h : s.Valid lib version) :
    (lib.ipInterface (.str s.prefixText)).isSome = true := by
  obtain ⟨a, ha, rfl⟩ := h.address
  exact hlib.interface ha h.prefixlen

lemma StaticLink.Valid.interfaces (hlib : NetworkLaws lib) (h : l.Valid lib) :
    ∀ v ∈ l.addresses, (lib.ipInterface v).isSome = true := by
  intro v hv
  obtain ⟨s, hs, rfl⟩ := mem_map.mp hv
  rcases mem_append.mp hs with hs | hs
  · exact (h.v4 s (Option.mem_toList.mp hs)).interface hlib
  · exact (h.v6 s (Option.mem_toList.mp hs)).interface hlib

lemma mapM_itemAddress {values : List Value} (h : ∀ v ∈ values, (lib.ipInterface v).isSome = true) :
    values.mapM (itemAddress lib) = .ok (values.filterMap lib.ipInterface) := by
  induction values with
  | nil => rfl
  | cons v values ih =>
    obtain ⟨hv, hrest⟩ := forall_mem_cons.mp h
    obtain ⟨i, hi⟩ := Option.isSome_iff_exists.mp hv
    simp [itemAddress, hi, ih hrest]

def StaticLink.item (lib : Library) (l : StaticLink) (raw : Dict) : Item :=
  ⟨raw, some l.name, some (canonical l.mac), l.addresses.filterMap lib.ipInterface⟩

lemma Describes.normal (hlib : NetworkLaws lib) (h : Describes l raw) (hvalid : l.Valid lib) :
    NormalItem lib (.dict raw) (l.item lib raw) where
  raw := rfl
  name := by
    change itemName (get raw "name") = _
    rw [h.name, itemName, if_neg hvalid.name, StaticLink.item]
  mac := by
    change itemMac lib (get raw "mac") = _
    rw [h.mac, hvalid.mac.itemMac, StaticLink.item]
  addresses := by
    change itemAddresses lib (getD raw "addresses" (.list [])) = _
    rw [getD_of_get h.addresses (by simp), itemAddresses, mapM_itemAddress (hvalid.interfaces hlib),
      StaticLink.item]
  mtu := by
    change mtuOk (get raw "mtu") = true
    rw [h.mtu, mtuOk]

lemma Describes.summary (h : Describes l raw) : (l.item lib raw).summary = l.summary lib := by
  rw [Item.summary, StaticLink.summary]
  simp only [StaticLink.item, h.gateway4, h.gateway6, h.route]

/-- **A document that describes the links** is accepted, and means them. -/
theorem normalize_of_describes (hlib : NetworkLaws lib) {raws : List Dict} {value : Dict}
    (hne : value ≠ []) (hinterfaces : networkInterfaces lib value = .ok (raws.map .dict))
    (h : List.Forall₂ Describes links raws) (hvalid : ∀ l ∈ links, l.Valid lib)
    (hnames : (links.map StaticLink.name).Nodup)
    (hmacs : (links.map fun l => canonical l.mac).Nodup) :
    ∃ items, normalizeNetwork lib (.dict value) = .ok items ∧
      items.map Item.summary = links.map (StaticLink.summary lib) := by
  have hitems : ∃ items, List.Forall₂ (NormalItem lib) (raws.map .dict) items ∧
      items.map Item.summary = links.map (StaticLink.summary lib) ∧
      items.filterMap Item.name = links.map StaticLink.name ∧
      items.filterMap Item.mac = links.map fun l => canonical l.mac := by
    clear hinterfaces hnames hmacs
    induction h with
    | nil => exact ⟨[], .nil, rfl, rfl, rfl⟩
    | @cons l raw links raws hl _ ih =>
      obtain ⟨hhead, hrest⟩ := forall_mem_cons.mp hvalid
      obtain ⟨items, hnormal, hsummary, hname, hmac⟩ := ih hrest
      refine ⟨l.item lib raw :: items, .cons (hl.normal hlib hhead) hnormal, ?_, ?_, ?_⟩
      · rw [map_cons, hl.summary, hsummary, map_cons]
      · simp [StaticLink.item, hname]
      · simp [StaticLink.item, hmac]
  obtain ⟨items, hnormal, hsummary, hname, hmac⟩ := hitems
  have hloop := normalize_of_normal hnormal [] [] [] (by simpa [hname] using hnames)
    (by simpa [hmac] using hmacs)
  refine ⟨items, ?_, hsummary⟩
  cases value with
  | nil => exact absurd rfl hne
  | cons e value =>
    simp only [normalizeNetwork, bind_eq_ok, pure_eq_ok]
    exact ⟨_, hinterfaces, _, hloop, rfl⟩

/-! ## The form of OpenStack -/

def withGateway (key : String) (gateway : Option Text) (raw : Dict) : Dict :=
  match gateway with
  | none => raw
  | some g => set (set raw key (.str g)) "default_route" (.bool true)

section WithGateway

variable {key : String} {gateway : Option Text} {raw : Dict}

lemma get_withGateway_ne (hkey : k ≠ key) (hroute : k ≠ "default_route") :
    get (withGateway key gateway raw) k = get raw k := by
  cases gateway with
  | none => rfl
  | some g => rw [withGateway, get_set_ne hroute, get_set_ne hkey]

lemma get_withGateway_self (hkey : key ≠ "default_route") (hraw : get raw key = .none) :
    get (withGateway key gateway raw) key = optional gateway := by
  cases gateway with
  | none => exact hraw
  | some g => rw [withGateway, get_set_ne hkey, get_set_self, optional]

lemma truthy_withGateway : (get (withGateway key gateway raw) "default_route").truthy
    = (gateway.isSome || (get raw "default_route").truthy) := by
  cases gateway with
  | none => rfl
  | some g => rw [withGateway, get_set_self, Option.isSome_some, Bool.true_or, Value.truthy]

end WithGateway

section Static

variable {id : Text} {type : String} {mask : ℕ → Text} {s : Static}

lemma get_gateway_staticNetwork :
    get (staticNetwork id type mask s) "gateway" = optional s.gateway := by
  unfold staticNetwork
  cases s.gateway <;> rfl

lemma withStatic_staticNetwork {key : String} {old : List Value}
    (hold : get raw "addresses" = .list old) (hm : lib.unicode.str m = decimal s.prefixlen)
    (hgateway : ∀ g ∈ s.gateway, g ≠ []) : withStatic lib (staticNetwork id type mask s) raw key m
      = withGateway key s.gateway (set raw "addresses" (.list (old ++ [.str s.prefixText]))) := by
  have haddress : get (staticNetwork id type mask s) "ip_address" = .str s.address := rfl
  have haddresses : staticAddresses lib (staticNetwork id type mask s) raw m
      = old ++ [.str s.prefixText] := by
    rw [staticAddresses, hold, hm]
    rfl
  simp only [withStatic, haddresses, get_gateway_staticNetwork]
  cases hg : s.gateway with
  | none => rfl
  | some g =>
    have htruthy : (optional (some g)).truthy = true := by
      simpa [optional, Value.truthy] using hgateway g hg
    rw [if_pos htruthy]
    rfl

lemma openstackNetwork_static {key : String}
    (hitem : ∀ raw, openstackItem lib (staticNetwork id type mask s) raw = openstackStatic lib (staticNetwork id type mask s) raw key)
    {done rest : List (Text × Dict)} (hid : id ∉ done.map Prod.fst)
    (hmask : staticMask lib (staticNetwork id type mask s) = .ok m) :
    openstackNetwork lib (done ++ (id, raw) :: rest) (.dict (staticNetwork id type mask s))
      = .ok (done ++ (id, withStatic lib (staticNetwork id type mask s) raw key m) :: rest) := by
  have hlink : get (staticNetwork id type mask s) "link" = .str id := rfl
  simp only [openstackNetwork, asDict, hlink, lookup_append_cons hid, hitem, openstackStatic_eq, hmask,
    bind_eq_ok, pure_eq_ok, Except.ok.injEq, exists_eq_left', map_eq_ok]
  exact assign_append_cons hid

lemma exists_staticMask (hlib : NetworkLaws lib) (id : Text) (type : String)
    (h : s.spelled = true → mask s.prefixlen = mask4 s.prefixlen ∧ s.prefixlen ≤ 32) :
    ∃ m, staticMask lib (staticNetwork id type mask s) = .ok m ∧
      lib.unicode.str m = decimal s.prefixlen := by
  have hnetmask : get (staticNetwork id type mask s) "netmask" = .str (s.netmask mask) := rfl
  rw [staticMask, hnetmask, Static.netmask]
  cases hspelled : s.spelled with
  | false =>
    refine ⟨.str (decimal s.prefixlen), ?_, rfl⟩
    simp [hlib.digits]
  | true =>
    obtain ⟨heq, hle⟩ := h hspelled
    obtain ⟨hdigit, hmask⟩ := hlib.dotted s.prefixlen hle
    refine ⟨.int s.prefixlen, ?_, ?_⟩
    · simp [heq, hdigit, hmask]
    · rfl

end Static

lemma Static.Valid.gateway_ne (hlib : NetworkLaws lib) (h : s.Valid lib version) :
    ∀ g ∈ s.gateway, g ≠ [] := by
  rintro g hg rfl
  obtain ⟨a, ha, -⟩ := h.gateway [] hg
  rw [hlib.empty] at ha
  cases ha

def StaticLink.bare (l : StaticLink) : StaticLink := { l with v4 := none, v6 := none }

def StaticLink.only4 (l : StaticLink) : StaticLink := { l with v6 := none }

lemma describes_linkItem (hname : l.name ≠ []) (order : ℕ) :
    Describes l.bare (linkItem order l.id l.link) where
  name := by
    have hget : get (linkItem order l.id l.link) "name" = (Value.str l.name).or (.str l.id) := rfl
    rw [hget, Value.or, if_pos (by simpa [Value.truthy] using hname)]
    rfl
  mac := rfl
  mtu := rfl
  addresses := rfl
  gateway4 := rfl
  gateway6 := rfl
  route := rfl

lemma describes_four (h : Describes l.bare raw) (hs : l.v4 = some s) :
    Describes l.only4 (withGateway "gateway4" s.gateway
      (set raw "addresses" (.list (l.bare.addresses ++ [.str s.prefixText])))) where
  name := by rw [get_withGateway_ne (by decide) (by decide), get_set_ne (by decide), h.name]; rfl
  mac := by rw [get_withGateway_ne (by decide) (by decide), get_set_ne (by decide), h.mac]; rfl
  mtu := by rw [get_withGateway_ne (by decide) (by decide), get_set_ne (by decide), h.mtu]
  addresses := by
    rw [get_withGateway_ne (by decide) (by decide)]
    simp [StaticLink.addresses, StaticLink.bare, StaticLink.only4, hs]
  gateway4 := by
    have hnone : get (set raw "addresses" (.list (l.bare.addresses ++ [.str s.prefixText]))) "gateway4"
        = .none := by
      rw [get_set_ne (by decide), h.gateway4]
      rfl
    rw [get_withGateway_self (by decide) hnone]
    simp [StaticLink.gateway4, StaticLink.only4, hs]
  gateway6 := by
    rw [get_withGateway_ne (by decide) (by decide), get_set_ne (by decide), h.gateway6]
    rfl
  route := by
    rw [truthy_withGateway, get_set_ne (by decide), h.route]
    simp [StaticLink.routed, StaticLink.gateway4, StaticLink.gateway6, StaticLink.bare,
      StaticLink.only4, hs]

lemma describes_six (h : Describes l.only4 raw) (hs : l.v6 = some s) :
    Describes l (withGateway "gateway6" s.gateway
      (set raw "addresses" (.list (l.only4.addresses ++ [.str s.prefixText])))) where
  name := by rw [get_withGateway_ne (by decide) (by decide), get_set_ne (by decide), h.name]; rfl
  mac := by rw [get_withGateway_ne (by decide) (by decide), get_set_ne (by decide), h.mac]; rfl
  mtu := by rw [get_withGateway_ne (by decide) (by decide), get_set_ne (by decide), h.mtu]
  addresses := by
    rw [get_withGateway_ne (by decide) (by decide)]
    simp [StaticLink.addresses, StaticLink.only4, hs]
  gateway4 := by
    rw [get_withGateway_ne (by decide) (by decide), get_set_ne (by decide), h.gateway4]
    rfl
  gateway6 := by
    have hnone : get (set raw "addresses" (.list (l.only4.addresses ++ [.str s.prefixText]))) "gateway6"
        = .none := by
      rw [get_set_ne (by decide), h.gateway6]
      rfl
    rw [get_withGateway_self (by decide) hnone]
    simp [StaticLink.gateway6, hs]
  route := by
    rw [truthy_withGateway, get_set_ne (by decide), h.route]
    simp [StaticLink.routed, StaticLink.gateway4, StaticLink.gateway6, StaticLink.only4, hs,
      Bool.or_comm]

/-- No netmask of the link is written in the notation of IPv6. -/
def StaticLink.Readable (l : StaticLink) : Prop := ∀ s ∈ l.v6, s.spelled = false

/-- The network of one family, if there is one, leads from the description of one link to that of
another. -/
lemma network_of_static (hlib : NetworkLaws lib) {id : Text} (type : String) {key : String}
    {mask : ℕ → Text} {o : Option Static} (l' : StaticLink) (h : Describes l raw)
    (hnone : o = none → l' = l)
    (hsome : ∀ s, o = some s → Describes l' (withGateway key s.gateway (set raw "addresses" (.list (l.addresses ++ [.str s.prefixText])))))
    (hvalid : ∀ s ∈ o, s.Valid lib version)
    (hmask : ∀ s ∈ o, s.spelled = true → mask s.prefixlen = mask4 s.prefixlen ∧ s.prefixlen ≤ 32)
    (hitem : ∀ s raw, openstackItem lib (staticNetwork id type mask s) raw = openstackStatic lib (staticNetwork id type mask s) raw key)
    {done : List (Text × Dict)} (hid : id ∉ done.map Prod.fst) (rest : List (Text × Dict)) :
    ∃ raw', (o.toList.map fun s => Value.dict (staticNetwork id type mask s)).foldlM
        (openstackNetwork lib) (done ++ (id, raw) :: rest) = .ok (done ++ (id, raw') :: rest) ∧
      Describes l' raw' := by
  cases o with
  | none => exact ⟨raw, rfl, hnone rfl ▸ h⟩
  | some s =>
    obtain ⟨m, hok, hm⟩ := exists_staticMask hlib id type (hmask s rfl)
    refine ⟨_, ?_, hsome s rfl⟩
    rw [← withStatic_staticNetwork h.addresses hm ((hvalid s rfl).gateway_ne hlib)]
    simpa using openstackNetwork_static (hitem s) hid hok

/-- The networks of a link complete its dictionary, wherever it stands. -/
lemma networks_of_link (hlib : NetworkLaws lib) (hvalid : l.Valid lib) (hreadable : l.Readable)
    {done : List (Text × Dict)} (hid : l.id ∉ done.map Prod.fst) (h : Describes l.bare raw)
    (rest : List (Text × Dict)) :
    ∃ raw', l.networks.foldlM (openstackNetwork lib) (done ++ (l.id, raw) :: rest)
        = .ok (done ++ (l.id, raw') :: rest) ∧ Describes l raw' := by
  obtain ⟨raw₄, hfour, h₄⟩ := network_of_static hlib "ipv4" l.only4 h
    (fun hs => by rw [StaticLink.only4, StaticLink.bare, hs]) (fun s hs => describes_four h hs)
    hvalid.v4 (fun s hs _ => ⟨rfl, (hvalid.v4 s hs).prefixlen⟩) (fun _ _ => rfl) hid rest
  have hnone : l.v6 = none → l = l.only4 := fun hs => by
    rw [StaticLink.only4, ← hs]
  obtain ⟨raw₆, hsix, h₆⟩ := network_of_static hlib "ipv6" l h₄ hnone (fun s hs => describes_six h₄ hs)
    hvalid.v6 (fun s hs hspelled => by simp [hreadable s hs] at hspelled) (fun _ _ => rfl) hid rest
  refine ⟨raw₆, ?_, h₆⟩
  rw [StaticLink.networks, foldlM_append, hfour]
  exact hsix

def EntryOf (describes : StaticLink → Dict → Prop) (l : StaticLink) (e : Text × Dict) : Prop :=
  e.1 = l.id ∧ describes l e.2

lemma openstackLinks_of_links (hnames : ∀ l ∈ links, l.name ≠ []) (order : ℕ)
    (byId : List (Text × Dict)) (hids : (byId.map Prod.fst ++ links.map StaticLink.id).Nodup) :
    ∃ entries, openstackLinks order byId (links.map fun l => .dict l.link) = .ok (byId ++ entries) ∧
      List.Forall₂ (EntryOf fun l => Describes l.bare) links entries := by
  induction links generalizing order byId with
  | nil => exact ⟨[], by simp [openstackLinks], .nil⟩
  | cons l links ih =>
    obtain ⟨hname, hrest⟩ := forall_mem_cons.mp hnames
    have hfresh : l.id ∉ byId.map Prod.fst := fun hin =>
      (nodup_append.mp hids).2.2 l.id hin l.id mem_cons_self rfl
    have hids' : ((byId ++ [(l.id, linkItem order l.id l.link)]).map Prod.fst ++
        links.map StaticLink.id).Nodup := by simpa using hids
    obtain ⟨entries, hok, hall⟩ := ih hrest (order + 1) _ hids'
    refine ⟨(l.id, linkItem order l.id l.link) :: entries, ?_,
      .cons ⟨rfl, describes_linkItem hname order⟩ hall⟩
    have hstep : openstackLinks order byId ((l :: links).map fun l => .dict l.link)
        = openstackLinks (order + 1) (assign l.id (linkItem order l.id l.link) byId)
          (links.map fun l => .dict l.link) := rfl
    rw [hstep, assign_of_notMem hfresh, hok, append_assoc, singleton_append]

lemma networks_of_links (hlib : NetworkLaws lib) {entries : List (Text × Dict)}
    (h : List.Forall₂ (EntryOf fun l => Describes l.bare) links entries)
    (hvalid : ∀ l ∈ links, l.Valid lib) (hreadable : ∀ l ∈ links, l.Readable)
    (done : List (Text × Dict)) (hids : (done.map Prod.fst ++ links.map StaticLink.id).Nodup) :
    ∃ entries', (links.flatMap StaticLink.networks).foldlM (openstackNetwork lib) (done ++ entries)
        = .ok (done ++ entries') ∧ List.Forall₂ (EntryOf Describes) links entries' := by
  induction h generalizing done with
  | nil => exact ⟨[], rfl, .nil⟩
  | @cons l e links entries he _ ih =>
    obtain ⟨id, raw⟩ := e
    obtain ⟨rfl, hraw⟩ := he
    obtain ⟨hl, hvalid⟩ := forall_mem_cons.mp hvalid
    obtain ⟨hl', hreadable⟩ := forall_mem_cons.mp hreadable
    have hfresh : l.id ∉ done.map Prod.fst := fun hin =>
      (nodup_append.mp hids).2.2 l.id hin l.id mem_cons_self rfl
    obtain ⟨raw', hok, hraw'⟩ := networks_of_link hlib hl hl' hfresh hraw entries
    obtain ⟨entries', hok', hall⟩ := ih hvalid hreadable (done ++ [(l.id, raw')]) (by simpa using hids)
    refine ⟨(l.id, raw') :: entries', ?_, .cons ⟨rfl, hraw'⟩ hall⟩
    rw [flatMap_cons, foldlM_append, hok]
    simpa using hok'

/-- **The OpenStack document describes its links**, if every netmask can be read. -/
theorem openstackOf_describes (hlib : NetworkLaws lib) (hvalid : ∀ l ∈ links, l.Valid lib)
    (hreadable : ∀ l ∈ links, l.Readable) (hids : (links.map StaticLink.id).Nodup) :
    ∃ raws, networkInterfaces lib (openstackOf links) = .ok (raws.map .dict) ∧
      List.Forall₂ Describes links raws := by
  obtain ⟨entries, hlinks, hbare⟩ := openstackLinks_of_links (fun l hl => (hvalid l hl).name) 0 []
    (by simpa using hids)
  obtain ⟨entries', hnetworks, hall⟩ := networks_of_links hlib hbare hvalid hreadable [] (by simpa using hids)
  refine ⟨entries'.map Prod.snd, ?_, ?_⟩
  · have hdoc : networkInterfaces lib (openstackOf links) = openstackInterfaces lib (openstackOf links)
        (links.map fun l => .dict l.link) (links.flatMap StaticLink.networks) := rfl
    have hservices : (getD (openstackOf links) "services" (.list [])).iterate = .ok [] := rfl
    simp only [hdoc, openstackInterfaces, bind_eq_ok, pure_eq_ok, hlinks, Except.ok.injEq,
      exists_eq_left', hnetworks, hservices]
    simp [openstackDns]
  · rw [List.forall₂_map_right_iff]
    exact hall.imp fun _ _ he => he.2

/-! ## The form of netplan -/

lemma StaticLink.Valid.gateway4 (h : l.Valid lib) :
    ∀ g ∈ l.gateway4, ∃ a, lib.ipAddress (.str g) = some a ∧ a.version = 4 := by
  intro g hg
  obtain ⟨s, hs, hgateway⟩ := Option.bind_eq_some_iff.mp hg
  exact (h.v4 s hs).gateway g hgateway

lemma StaticLink.Valid.gateway6 (h : l.Valid lib) :
    ∀ g ∈ l.gateway6, ∃ a, lib.ipAddress (.str g) = some a ∧ a.version = 6 := by
  intro g hg
  obtain ⟨s, hs, hgateway⟩ := Option.bind_eq_some_iff.mp hg
  exact (h.v6 s hs).gateway g hgateway

lemma truthy_of_address (hlib : NetworkLaws lib) {g : Text} (h : lib.ipAddress (.str g) = some a) :
    (Value.str g).truthy = true := by
  cases g with
  | nil =>
    rw [hlib.empty] at h
    cases h
  | cons c g => rfl

lemma anyDefault_routes (l : StaticLink) : anyDefault l.routes = .ok l.routed := by
  unfold StaticLink.routes StaticLink.routed
  cases l.gateway4 <;> cases l.gateway6 <;> rfl

lemma routeGateways_default (hlib : NetworkLaws lib) {dest : String} {via : Text} {gateways : Dict}
    (hdest : isDefault (.str dest.toList) = .ok true) (ha : lib.ipAddress (.str via) = some a) :
    routeGateways lib gateways (defaultRoute dest via)
      = .ok (set gateways (if a.version = 4 then "gateway4" else "gateway6") (.str via)) := by
  have hto : get [("to".toList, .str dest.toList), ("via".toList, .str via)] "to"
      = .str dest.toList := rfl
  have hvia : get [("to".toList, Value.str dest.toList), ("via".toList, .str via)] "via"
      = .str via := rfl
  simp only [routeGateways, defaultRoute, hto, hvia, hdest, ha, truthy_of_address hlib ha, bind_eq_ok,
    Except.ok.injEq, exists_eq_left', Bool.not_true, Bool.or_false, Bool.false_eq_true, if_false,
    pure_eq_ok]

lemma routeGateways_routes (hlib : NetworkLaws lib) (h : l.Valid lib) :
    l.routes.foldlM (routeGateways lib) [] = .ok l.gateways := by
  have hfour : ∀ g ∈ l.gateway4, ∀ d, routeGateways lib d (defaultRoute "0.0.0.0/0" g)
      = .ok (set d "gateway4" (.str g)) := by
    intro g hg d
    obtain ⟨a, ha, hversion⟩ := h.gateway4 g hg
    rw [routeGateways_default hlib rfl ha, if_pos hversion]
  have hsix : ∀ g ∈ l.gateway6, ∀ d, routeGateways lib d (defaultRoute "::/0" g)
      = .ok (set d "gateway6" (.str g)) := by
    intro g hg d
    obtain ⟨a, ha, hversion⟩ := h.gateway6 g hg
    rw [routeGateways_default hlib rfl ha, if_neg (by omega)]
  unfold StaticLink.routes StaticLink.gateways
  cases hg4 : l.gateway4 with
  | none =>
    cases hg6 : l.gateway6 with
    | none => rfl
    | some g =>
      simp only [Option.toList, List.map, nil_append, foldlM_cons, hsix g hg6]
      rfl
  | some g =>
    cases hg6 : l.gateway6 with
    | none =>
      simp only [Option.toList, List.map, append_nil, foldlM_cons, hfour g hg4]
      rfl
    | some g' =>
      have hstep : ∀ d, (Except.ok d >>= fun d => [defaultRoute "::/0" g'].foldlM (routeGateways lib) d)
          = .ok (set d "gateway6" (.str g')) := by
        simp [hsix g' hg6]
      simp only [Option.toList, List.map, singleton_append, foldlM_cons, hfour g hg4]
      exact hstep _

def StaticLink.merged (routed : Bool) (l : StaticLink) : Dict :=
  l.ethernet routed ++ if routed then l.gateways else []

def StaticLink.interface (routed : Bool) (order : ℕ) (l : StaticLink) : Dict :=
  set (set (set (set (l.merged routed) "name" (.str l.name)) "mac" (.str l.mac)) "default_route"
    (.bool l.routed)) "order" (.int order)

section Interface

variable {l : StaticLink} {routed : Bool} {order : ℕ}

lemma get_interface (hname : k ≠ "name") (hmac : k ≠ "mac") (hroute : k ≠ "default_route")
    (horder : k ≠ "order") : get (l.interface routed order) k = get (l.merged routed) k := by
  rw [StaticLink.interface, get_set_ne horder, get_set_ne hroute, get_set_ne hmac, get_set_ne hname]

lemma describes_interface : Describes l (l.interface routed order) where
  name := by
    rw [StaticLink.interface, get_set_ne (by decide), get_set_ne (by decide), get_set_ne (by decide),
      get_set_self]
  mac := by
    rw [StaticLink.interface, get_set_ne (by decide), get_set_ne (by decide), get_set_self]
  mtu := by
    rw [get_interface (by decide) (by decide) (by decide) (by decide)]
    unfold StaticLink.merged StaticLink.ethernet StaticLink.gateways
    cases l.gateway4 <;> cases l.gateway6 <;> cases routed <;> rfl
  addresses := by
    rfl
  gateway4 := by
    rw [get_interface (by decide) (by decide) (by decide) (by decide)]
    unfold StaticLink.merged StaticLink.ethernet StaticLink.gateways
    cases l.gateway4 <;> cases l.gateway6 <;> cases routed <;> rfl
  gateway6 := by
    rw [get_interface (by decide) (by decide) (by decide) (by decide)]
    unfold StaticLink.merged StaticLink.ethernet StaticLink.gateways
    cases l.gateway4 <;> cases l.gateway6 <;> cases routed <;> rfl
  route := by
    rw [StaticLink.interface, get_set_ne (by decide), get_set_self]
    rfl

lemma truthy_gateways (hlib : NetworkLaws lib) (h : l.Valid lib) :
    ((optional l.gateway4).or (optional l.gateway6)).truthy = l.routed := by
  have hfour : (optional l.gateway4).truthy = l.gateway4.isSome := by
    cases hg : l.gateway4 with
    | none => rfl
    | some g =>
      obtain ⟨a, ha, -⟩ := h.gateway4 g hg
      exact truthy_of_address hlib ha
  have hsix : (optional l.gateway6).truthy = l.gateway6.isSome := by
    cases hg : l.gateway6 with
    | none => rfl
    | some g =>
      obtain ⟨a, ha, -⟩ := h.gateway6 g hg
      exact truthy_of_address hlib ha
  unfold Value.or StaticLink.routed
  rw [← hfour, ← hsix]
  cases htruthy : (optional l.gateway4).truthy with
  | true => simp [htruthy]
  | false => simp

lemma ethernet_eq (hlib : NetworkLaws lib) (h : l.Valid lib) :
    ethernet lib order l.id (l.ethernet routed) = .ok (.dict (l.interface routed order)) := by
  have hname : (get (l.ethernet routed) "set-name").or (.str l.id) = .str l.name := by
    have hget : get (l.ethernet routed) "set-name" = .str l.name := rfl
    rw [hget, Value.or, if_pos (by simpa [Value.truthy] using h.name)]
  have hmatch : getD (l.ethernet routed) "match" (.dict []) = .dict [("macaddress".toList, .str l.mac)] :=
    rfl
  have hmac : get [("macaddress".toList, Value.str l.mac)] "macaddress" = .str l.mac := rfl
  cases routed with
  | true =>
    have hroutes : getD (l.ethernet true) "routes" (.list []) = .list l.routes := rfl
    have hfields : ((get (l.ethernet true) "gateway4").or (get (l.ethernet true) "gateway6")).truthy
        = false := rfl
    have hmerged : l.gateways.foldl (fun d e => assign e.1 e.2 d) (l.ethernet true)
        = l.merged true := by
      unfold StaticLink.merged StaticLink.gateways
      cases l.gateway4 <;> cases l.gateway6 <;> rfl
    simp only [ethernet, hmatch, hmac, hroutes, anyDefault_routes, routeGateways_routes hlib h, hname,
      hfields, bind_eq_ok, pure_eq_ok, Except.ok.injEq, exists_eq_left', Bool.or_false, hmerged]
    rfl
  | false =>
    have hroutes : getD (l.ethernet false) "routes" (.list []) = .list [] := by
      unfold StaticLink.ethernet StaticLink.gateways
      cases l.gateway4 <;> cases l.gateway6 <;> rfl
    have hfour : get (l.ethernet false) "gateway4" = optional l.gateway4 := by
      unfold StaticLink.ethernet StaticLink.gateways
      cases l.gateway4 <;> cases l.gateway6 <;> rfl
    have hsix : get (l.ethernet false) "gateway6" = optional l.gateway6 := by
      unfold StaticLink.ethernet StaticLink.gateways
      cases l.gateway4 <;> cases l.gateway6 <;> rfl
    have hmerged : l.ethernet false = l.merged false := by simp [StaticLink.merged]
    simp only [ethernet, hmatch, hmac, hroutes, hname, hfour, hsix, truthy_gateways hlib h, anyDefault,
      foldlM_nil, bind_eq_ok, pure_eq_ok, Except.ok.injEq, exists_eq_left', Bool.false_or,
      foldl_nil]
    rw [StaticLink.interface, ← hmerged]

end Interface

/-- **The netplan document describes its links.** -/
theorem netplanOf_describes (hlib : NetworkLaws lib) (hvalid : ∀ l ∈ links, l.Valid lib)
    (routed : Bool) :
    ∃ raws, networkInterfaces lib (netplanOf routed links) = .ok (raws.map .dict) ∧
      List.Forall₂ Describes links raws := by
  have hall : ∀ order, ∃ raws,
      ethernets lib order (links.map fun l => (l.id, .dict (l.ethernet routed))) = .ok (raws.map .dict) ∧
      List.Forall₂ Describes links raws := by
    induction links with
    | nil => exact fun order => ⟨[], rfl, .nil⟩
    | cons l links ih =>
      intro order
      obtain ⟨hl, hrest⟩ := forall_mem_cons.mp hvalid
      obtain ⟨raws, hok, hraws⟩ := ih hrest (order + 1)
      refine ⟨l.interface routed order :: raws, ?_, .cons describes_interface hraws⟩
      simp only [map_cons, ethernets, asDict, ethernet_eq hlib hl, bind_eq_ok, pure_eq_ok,
        Except.ok.injEq, exists_eq_left', hok]
  exact hall 0

/-! ## Both forms -/

/-- Both documents are accepted, and mean the same interfaces in the same order. -/
def SameNetwork (lib : Library) (a b : Dict) : Prop :=
  ∃ items items', normalizeNetwork lib (.dict a) = .ok items ∧
    normalizeNetwork lib (.dict b) = .ok items' ∧ items.map Item.summary = items'.map Item.summary

lemma colon_mem_mask6 {n : ℕ} (h : n ≤ 128) : ':' ∈ mask6 n := by
  have hall : ((List.range 129).all fun n => mask6 n |>.contains ':') = true := by decide +kernel
  simpa using all_eq_true.mp hall n (mem_range.mpr (by omega))

lemma readable_of_accepted (hlib : NetworkLaws lib) (hvalid : ∀ l ∈ links, l.Valid lib)
    (h : normalizeNetwork lib (.dict (openstackOf links)) = .ok items) :
    ∀ l ∈ links, l.Readable := by
  intro l hl s hs
  have hinterfaces : ∃ interfaces, openstackInterfaces lib (openstackOf links)
      (links.map fun l => .dict l.link) (links.flatMap StaticLink.networks) = .ok interfaces := by
    rcases normalizeNetwork_ok h with ⟨hnil, -⟩ | ⟨interfaces, hinterfaces, -⟩
    · cases hnil
    · exact ⟨interfaces, hinterfaces⟩
  obtain ⟨interfaces, hinterfaces⟩ := hinterfaces
  simp only [openstackInterfaces, bind_eq_ok] at hinterfaces
  obtain ⟨byId, -, byId', hnetworks, -⟩ := hinterfaces
  have hmem : Value.dict (staticNetwork l.id "ipv6" mask6 s) ∈ links.flatMap StaticLink.networks := by
    refine mem_flatMap.mpr ⟨l, hl, mem_append_right _ ?_⟩
    exact mem_map.mpr ⟨s, Option.mem_toList.mpr hs, rfl⟩
  obtain ⟨before, after, hstep⟩ := exists_of_mem_foldlM hnetworks hmem
  -- the step reads the netmask
  have hread : ∃ m, staticMask lib (staticNetwork l.id "ipv6" mask6 s) = .ok m := by
    have hlink : get (staticNetwork l.id "ipv6" mask6 s) "link" = .str l.id := rfl
    have hitem : ∀ raw, openstackItem lib (staticNetwork l.id "ipv6" mask6 s) raw
        = openstackStatic lib (staticNetwork l.id "ipv6" mask6 s) raw "gateway6" := fun _ => rfl
    simp only [openstackNetwork, asDict, hlink, bind_eq_ok, Except.ok.injEq, exists_eq_left'] at hstep
    split at hstep
    · simp only [hitem, openstackStatic_eq, bind_eq_ok, map_eq_ok] at hstep
      obtain ⟨_, ⟨m, hm, -⟩, -⟩ := hstep
      exact ⟨m, hm⟩
    · simp at hstep
  obtain ⟨m, hm⟩ := hread
  have hcolon := colon_mem_mask6 (hvalid l hl |>.v6 s hs).prefixlen
  cases hspelled : s.spelled with
  | false => rfl
  | true =>
    have hnetmask : get (staticNetwork l.id "ipv6" mask6 s) "netmask" = .str (s.netmask mask6) := rfl
    obtain ⟨hdigit, hnone⟩ := hlib.colons _ hcolon
    simp [staticMask, hnetmask, Static.netmask, hspelled, hdigit, hnone] at hm

/-- **The two forms of a static network are equivalent** exactly if no netmask is written in the
notation of IPv6. -/
theorem sameNetwork_iff (hlib : NetworkLaws lib) (links : List StaticLink)
    (hvalid : ∀ l ∈ links, l.Valid lib) (hids : (links.map StaticLink.id).Nodup)
    (hnames : (links.map StaticLink.name).Nodup) (hmacs : (links.map fun l => canonical l.mac).Nodup)
    (routed : Bool) :
    SameNetwork lib (openstackOf links) (netplanOf routed links) ↔ ∀ l ∈ links, l.Readable := by
  constructor
  · rintro ⟨items, -, hstack, -, -⟩
    exact readable_of_accepted hlib hvalid hstack
  · intro hreadable
    obtain ⟨raws, hraws, hall⟩ := openstackOf_describes hlib hvalid hreadable hids
    obtain ⟨raws', hraws', hall'⟩ := netplanOf_describes hlib hvalid routed
    obtain ⟨items, hitems, hsummary⟩ :=
      normalize_of_describes hlib (cons_ne_nil _ _) hraws hall hvalid hnames hmacs
    obtain ⟨items', hitems', hsummary'⟩ :=
      normalize_of_describes hlib (cons_ne_nil _ _) hraws' hall' hvalid hnames hmacs
    exact ⟨items, items', hitems, hitems', hsummary.trans hsummary'.symm⟩

/-! ## One link with two addresses -/

/-- Addresses of the samples with any prefix in range, and all netmasks. -/
def prefixLibrary : Library :=
  { addressLibrary with
    ipInterface := fun v => match v with
      | .str s =>
        (knownAddresses.find? fun a => a.text = s.takeWhile (· ≠ '/')).bind fun a =>
          ((List.range (if a.version = 4 then 33 else 129)).find? fun n =>
            s = a.text ++ "/".toList ++ decimal n).map fun n => ⟨a.version, a.text, n⟩
      | _ => none
    netmask := fun s => (List.range 33).find? fun n => mask4 n = s }

lemma networkLaws_prefixLibrary : NetworkLaws prefixLibrary where
  digits := by
    intro n
    have hdigits : ∀ c ∈ Nat.toDigits 10 n, c.isDigit = true := fun c hc =>
      Nat.isDigit_of_mem_toDigits (by decide) (by decide) hc
    change ascii.isdigit (decimal n) = true
    rw [decimal]
    simpa [Unicode.isdigit, ascii, Nat.toDigits_ne_nil] using hdigits
  dotted := by
    have hall : ((List.range 33).all fun n => !prefixLibrary.unicode.isdigit (mask4 n) &&
        prefixLibrary.netmask (mask4 n) == some n) = true := by decide +kernel
    intro n hn
    simpa using all_eq_true.mp hall n (mem_range.mpr (by omega))
  colons := by
    have hall : ((List.range 33).all fun n => !(mask4 n).contains ':') = true := by decide +kernel
    intro s hs
    constructor
    · simpa [Unicode.isdigit, ascii] using fun _ => ⟨':', hs, by decide⟩
    · refine find?_eq_none.mpr fun n hn => ?_
      have hcolon := all_eq_true.mp hall n hn
      rw [decide_eq_true_eq]
      rintro rfl
      simp [hs] at hcolon
  empty := by decide +kernel
  interface := by
    have hslash : (knownAddresses.all fun a => !a.text.contains '/') = true := by decide +kernel
    intro s a n ha hn
    have hfind : (knownAddresses.find? fun a => a.text = s) = some a := ha
    have hmem : a ∈ knownAddresses := mem_of_find?_eq_some hfind
    obtain rfl : a.text = s := by simpa using find?_some hfind
    have hno : '/' ∉ a.text := by simpa using all_eq_true.mp hslash a hmem
    have htake : (a.text ++ "/".toList ++ decimal n).takeWhile (· ≠ '/') = a.text := by
      rw [append_assoc, takeWhile_append_of_pos]
      · simp
      · intro c hc
        have hne : c ≠ '/' := fun heq => hno (heq ▸ hc)
        simpa using hne
    have hn' : n ∈ List.range (if a.version = 4 then 33 else 129) := by
      rw [mem_range]
      split_ifs at hn ⊢ <;> omega
    change ((knownAddresses.find? fun b => b.text =
      (a.text ++ "/".toList ++ decimal n).takeWhile (· ≠ '/')).bind _).isSome = true
    rw [htake, hfind, Option.bind_some, Option.isSome_map, find?_isSome]
    exact ⟨n, hn', by simp⟩

def dualLink (spelled : Bool) : StaticLink where
  id := lit "tap0"
  name := lit "vtnet0"
  mac := lit "fa:16:3e:00:00:01"
  v4 := some ⟨lit "192.0.2.10", 24, some (lit "192.0.2.1"), true⟩
  v6 := some ⟨lit "2001:db8::10", 64, some (lit "2001:db8::1"), spelled⟩

lemma valid_dualLink (spelled : Bool) : (dualLink spelled).Valid prefixLibrary where
  name := by simp [dualLink]
  mac := by
    change IsMac (lit "fa:16:3e:00:00:01")
    exact ⟨by decide +kernel, by decide +kernel⟩
  v4 := by
    rintro s ⟨⟩
    refine ⟨⟨⟨4, lit "192.0.2.10"⟩, by decide +kernel, rfl⟩, by decide, ?_⟩
    rintro g ⟨⟩
    exact ⟨⟨4, lit "192.0.2.1"⟩, by decide +kernel, rfl⟩
  v6 := by
    have haddress : prefixLibrary.ipAddress (.str (lit "2001:db8::10")) = some ⟨6, lit "2001:db8::10"⟩ := by
      decide +kernel
    rintro s ⟨⟩
    refine ⟨⟨_, haddress, rfl⟩, ?_, ?_⟩
    · change 64 ≤ 128
      decide
    · rintro g ⟨⟩
      exact ⟨⟨6, lit "2001:db8::1"⟩, by decide +kernel, rfl⟩

theorem sameNetwork_iff_dual :
    SameNetwork prefixLibrary (openstackOf [dualLink false]) (netplanOf true [dualLink false]) :=
  (sameNetwork_iff networkLaws_prefixLibrary [dualLink false]
    (forall_mem_singleton.mpr (valid_dualLink false)) (nodup_singleton _) (nodup_singleton _)
    (nodup_singleton _) true).mpr (by simp [StaticLink.Readable, dualLink])

/-- **A netmask of IPv6 in its own notation** makes the document invalid. -/
theorem spelled_refused :
    normalizeNetwork prefixLibrary (.dict (openstackOf [dualLink true]))
      = .error (.invalid (lit "OpenStack static network is invalid")) ∧
    ∃ items, normalizeNetwork prefixLibrary (.dict (netplanOf true [dualLink true])) = .ok items ∧
      items.map Item.addresses = [[⟨4, lit "192.0.2.10", 24⟩, ⟨6, lit "2001:db8::10", 64⟩]] := by
  refine ⟨?_, exists_ok_of_view (List.map Item.addresses) (by decide +kernel)⟩
  rfl

end FreeSense.CloudInit
