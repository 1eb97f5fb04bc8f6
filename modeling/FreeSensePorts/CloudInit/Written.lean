import FreeSensePorts.CloudInit.Again
import FreeSensePorts.CloudInit.Roles

/-!
# What a call writes about the network

A call that returns `True` has written three things from the assigned interfaces: the section of the
interfaces, the gateways that carry its description, and the resolvers.  `Written` says so once; what
is known about addresses, gateways and resolvers is derived from it.
-/

namespace FreeSense.CloudInit

open Python Xml Element
open List hiding lookup getD get lookup_append

variable {lib : Library}

variable {name : Text} {assignments : List (Text × Resolved)}

def interfacesTag : Text := "interfaces".toList

/-- The texts of the elements `dnsserver`. -/
def dnsservers (root : Element) : List Text :=
  ((sectionChildren systemTag root).filter (hasTag dnsserverTag)).map text

/-- What is in the configuration of the network after a call. -/
structure Written (lib : Library) (assignments : List (Text × Resolved)) (root root' : Element) :
    Prop where
  interfaces : sectionChildren interfacesTag root' = assignments.map (interfaceNode lib)
  gateways : sectionChildren gatewaysTag root' = otherGateways root ++ gatewayItems lib assignments
  resolvers : ∃ dns, assignments.mapM (fun a => itemDns lib a.2) = .ok dns ∧
    dnsservers root' = distinct dns.flatten

variable {metadata : Dict} {keys tags tags' : List Text} {locks : Bool} {root root' c : Element}
  {front back : List (Text × Text)}

lemma provisionSystem_dns {s s' : Element}
    (h : provisionSystem lib metadata keys assignments locks s = .ok s') :
    ∃ dns, assignments.mapM (fun a => itemDns lib a.2) = .ok dns ∧ ∃ e, s' = setDns dns.flatten e := by
  simp only [provisionSystem, bind_eq_ok] at h
  obtain ⟨s₁, -, s₂, -, h⟩ := h
  obtain ⟨-, h⟩ := refuses_eq_ok.mp h
  simp only [bind_eq_ok, pure_eq_ok] at h
  obtain ⟨encoded, -, dns, hdns, rfl⟩ := h
  exact ⟨dns, hdns, _, rfl⟩

lemma filter_dnsserver_setDns (dns : List Text) (e : Element) :
    ((setDns dns e).children.filter (hasTag dnsserverTag)).map text = distinct dns := by
  have hold : (e.children.filter fun c => !hasTag dnsserverTag c).filter (hasTag dnsserverTag) = [] := by
    simp
  have hnew : (dnsServers dns).filter (hasTag dnsserverTag) = dnsServers dns := by
    refine filter_eq_self.mpr fun c hc => ?_
    obtain ⟨address, -, rfl⟩ := mem_map.mp hc
    rfl
  rw [setDns_eq, children_withChildren, filter_append, hold, hnew, nil_append, dnsServers,
    map_map]
  exact map_id _

lemma written_of_provisionRoot {instanceId : Text} {cidrs : List Address}
    (h : provisionRoot lib metadata instanceId keys cidrs assignments locks root = .ok root') :
    Written lib assignments root root' := by
  have hsections := provisionRoot_sections h
  simp only [provisionRoot, bind_eq_ok, pure_eq_ok] at h
  obtain ⟨system, hsystem, rfl⟩ := h
  have hconst := keepsTag_provisionSystem hsystem
  refine ⟨?_, ?_, ?_⟩
  · rw [sectionChildren, find_child_ne (keepsTag_setCloudinit _ _) (by decide),
      find_child_ne (keepsTag_setFilter _ _ _ _) (by decide),
      find_child_ne (keepsTag_setGateways _ _) (by decide),
      show interfacesTag = lit "interfaces" from rfl, find_child (keepsTag_setInterfaces _ _),
      setInterfaces_eq]
    rfl
  · rw [← children_headD_findall, hsections.2, headD_cons, setGateways_eq, children_withChildren,
      children_headD_findall, otherGateways]
  · obtain ⟨dns, hdns, e, rfl⟩ := provisionSystem_dns hsystem
    refine ⟨dns, hdns, ?_⟩
    rw [dnsservers, sectionChildren, find_child_ne (keepsTag_setCloudinit _ _) (by decide),
      find_child_ne (keepsTag_setFilter _ _ _ _) (by decide),
      find_child_ne (keepsTag_setGateways _ _) (by decide),
      find_child_ne (keepsTag_setInterfaces _ _) (by decide), find_child hconst]
    exact filter_dnsserver_setDns dns.flatten e

/-- **A call that returns `True`** has written the network of its metadata. -/
theorem written_of_apply {detected : List Detected} {files files' : Files}
    (h : apply lib metadata detected files = .ok (true, files')) :
    ∃ i assigned root root', importOf lib metadata = .ok i ∧
      assignedOf lib i detected = .ok assigned ∧ files.config = some root ∧
      files'.config = some root' ∧ Written lib (soleWan assigned) root root' := by
  obtain ⟨i, hi, ⟨-, hb, -⟩ | ⟨-, -, assigned, root, root', hassigned, hroot, hprov, rfl⟩⟩ :=
    apply_eq_ok.mp h
  · cases hb
  · exact ⟨i, assigned, root, root', hi, hassigned, hroot, rfl, written_of_provisionRoot hprov⟩

/-! ## The element of an interface -/

def ofTexts (tag : Text) (texts : List (Text × Text)) : Element :=
  .mk tag [] (texts.map fun p => .mk p.1 p.2 [])

lemma setText_ofTexts {tag name : Text} {texts : List (Text × Text)} (h : name ∉ texts.map Prod.fst)
    (value : Text) : (ofTexts tag texts).setText name value = ofTexts tag (texts ++ [(name, value)]) := by
  have hchild : ∀ l : List (Text × Text), name ∉ l.map Prod.fst →
      onChild name (withText value) (l.map fun p => .mk p.1 p.2 [])
        = (l ++ [(name, value)]).map fun p => .mk p.1 p.2 [] := by
    intro l
    induction l with
    | nil => exact fun _ => rfl
    | cons p l ih =>
      intro hl
      rw [map_cons, mem_cons, not_or] at hl
      have hp : hasTag name (.mk p.1 p.2 []) = false := decide_eq_false (Ne.symm hl.1)
      rw [map_cons, onChild, hp, ih hl.2]
      rfl
  exact congrArg (Element.mk tag []) (hchild texts h)

lemma findtext_ofTexts (tag name : Text) (texts : List (Text × Text)) :
    (ofTexts tag texts).findtext name = lookup name texts := by
  rw [findtext, find, ofTexts, children, find?_map, Option.map_map]
  rfl

def firstAddress (version : ℕ) (item : Resolved) : Option Interface :=
  (item.addresses.filter fun a => a.version = version).head?

def staticTexts (address subnet : String) (a : Option Interface) : List (Text × Text) :=
  match a with
  | some a => [(lit address, a.ip), (lit subnet, (toString a.prefixlen).toList)]
  | none => []

def texts4 (item : Resolved) : List (Text × Text) :=
  if (get item.raw "dhcp4").truthy then [(lit "ipaddr", lit "dhcp")]
  else staticTexts "ipaddr" "subnet" (firstAddress 4 item)

def texts6 (item : Resolved) : List (Text × Text) :=
  if (get item.raw "dhcp6").truthy then [(lit "ipaddrv6", lit "dhcp6")]
  else if (getD item.raw "slaac" (getD item.raw "accept-ra" (.bool false))).truthy then
    [(lit "ipaddrv6", lit "slaac")]
  else staticTexts "ipaddrv6" "subnetv6" (firstAddress 6 item)

/-- A text for a value, if it is true. -/
def textIf (value : Value) (name : String) (text : Text) : List (Text × Text) :=
  if value.truthy then [(lit name, text)] else []

def baseTexts (item : Resolved) : List (Text × Text) := [(lit "enable", []), (lit "if", item.device)]

def mtuTexts (lib : Library) (item : Resolved) : List (Text × Text) :=
  textIf (get item.raw "mtu") "mtu" (lib.unicode.str (get item.raw "mtu"))

def gatewayTexts (a : Text × Resolved) : List (Text × Text) :=
  textIf (gateway4 a.2) "gateway" (gatewayName a.1) ++
    textIf (gateway6 a.2) "gatewayv6" (gatewayNameV6 a.1)

def interfaceTexts (lib : Library) (a : Text × Resolved) : List (Text × Text) :=
  baseTexts a.2 ++ texts4 a.2 ++ texts6 a.2 ++ mtuTexts lib a.2 ++ gatewayTexts a

lemma tags_staticTexts (address subnet : String) (a : Option Interface) :
    ((staticTexts address subnet a).map Prod.fst).Sublist [lit address, lit subnet] := by
  cases a with
  | none => exact nil_sublist _
  | some a => exact .refl _

lemma tags_texts4 (item : Resolved) :
    ((texts4 item).map Prod.fst).Sublist [lit "ipaddr", lit "subnet"] := by
  rw [texts4]
  split_ifs
  · exact List.Sublist.cons_cons _ (nil_sublist _)
  · exact tags_staticTexts _ _ _

lemma tags_texts6 (item : Resolved) :
    ((texts6 item).map Prod.fst).Sublist [lit "ipaddrv6", lit "subnetv6"] := by
  rw [texts6]
  split_ifs
  · exact List.Sublist.cons_cons _ (nil_sublist _)
  · exact List.Sublist.cons_cons _ (nil_sublist _)
  · exact tags_staticTexts _ _ _

lemma tags_textIf (value : Value) (name : String) (text : Text) :
    ((textIf value name text).map Prod.fst).Sublist [lit name] := by
  rw [textIf]
  split_ifs
  · exact .refl _
  · exact nil_sublist _

lemma tags_baseTexts (item : Resolved) :
    ((baseTexts item).map Prod.fst).Sublist [lit "enable", lit "if"] := .refl _

lemma tags_mtuTexts (lib : Library) (item : Resolved) :
    ((mtuTexts lib item).map Prod.fst).Sublist [lit "mtu"] := tags_textIf _ _ _

lemma sublist_tags (h : (front.map Prod.fst).Sublist tags) (h' : (back.map Prod.fst).Sublist tags') :
    ((front ++ back).map Prod.fst).Sublist (tags ++ tags') := by
  rw [map_append]
  exact h.append h'

lemma notMem_tags {texts : List (Text × Text)} (h : (texts.map Prod.fst).Sublist tags)
    (hname : name ∉ tags) : name ∉ texts.map Prod.fst :=
  fun hin => hname (h.subset hin)

section Steps

variable {role : Text} {l : List (Text × Text)}

lemma setText_textIf {name : String} (value : Value) (text : Text) (h : lit name ∉ l.map Prod.fst) :
    (if value.truthy then (ofTexts role l).setText (lit name) text else ofTexts role l)
      = ofTexts role (l ++ textIf value name text) := by
  rw [textIf]
  split_ifs
  · exact setText_ofTexts h text
  · rw [append_nil]

lemma staticAddress_ofTexts {address subnet : String} (hne : lit subnet ≠ lit address)
    (haddress : lit address ∉ l.map Prod.fst) (hsubnet : lit subnet ∉ l.map Prod.fst)
    (a : Option Interface) :
    (match a with
      | some a => staticAddress address subnet a (ofTexts role l)
      | none => ofTexts role l) = ofTexts role (l ++ staticTexts address subnet a) := by
  cases a with
  | none => rw [staticTexts, append_nil]
  | some a =>
    have hsubnet' : lit subnet ∉ (l ++ [(lit address, a.ip)]).map Prod.fst := by
      rw [map_append, mem_append, not_or]
      exact ⟨hsubnet, fun hin => hne (mem_singleton.mp hin)⟩
    simp only [staticAddress, setText_ofTexts haddress, setText_ofTexts hsubnet', staticTexts,
      append_assoc]
    rfl

end Steps

lemma configureInterface_eq (role : Text) (item : Resolved) :
    configureInterface lib item (empty role) = ofTexts role (baseTexts item ++ texts4 item ++
      texts6 item ++ mtuTexts lib item) := by
  have hbase : ["ipaddr", "subnet", "ipaddrv6", "subnetv6", "gateway", "gatewayv6", "mtu"].foldl
      (fun node old => node.removeFirst (lit old))
      (((empty role).setText (lit "enable") []).setText (lit "if") item.device)
      = ofTexts role (baseTexts item) := rfl
  have htags := tags_baseTexts item
  have htags4 := sublist_tags htags (tags_texts4 item)
  have htags6 := sublist_tags htags4 (tags_texts6 item)
  have hfour : (if (get item.raw "dhcp4").truthy then
        (ofTexts role (baseTexts item)).setText (lit "ipaddr") (lit "dhcp")
      else match firstAddress 4 item with
        | some a => staticAddress "ipaddr" "subnet" a (ofTexts role (baseTexts item))
        | none => ofTexts role (baseTexts item)) = ofTexts role (baseTexts item ++ texts4 item) := by
    rw [texts4]
    split_ifs
    · exact setText_ofTexts (notMem_tags htags (by decide)) _
    · exact staticAddress_ofTexts (by decide) (notMem_tags htags (by decide))
        (notMem_tags htags (by decide)) _
  have hsix : ∀ node, node = ofTexts role (baseTexts item ++ texts4 item) →
      (if (get item.raw "dhcp6").truthy then node.setText (lit "ipaddrv6") (lit "dhcp6")
      else if (getD item.raw "slaac" (getD item.raw "accept-ra" (.bool false))).truthy then
        node.setText (lit "ipaddrv6") (lit "slaac")
      else match firstAddress 6 item with
        | some a => staticAddress "ipaddrv6" "subnetv6" a node
        | none => node) = ofTexts role (baseTexts item ++ texts4 item ++ texts6 item) := by
    rintro node rfl
    rw [texts6]
    split_ifs
    · exact setText_ofTexts (notMem_tags htags4 (by decide)) _
    · exact setText_ofTexts (notMem_tags htags4 (by decide)) _
    · exact staticAddress_ofTexts (by decide) (notMem_tags htags4 (by decide))
        (notMem_tags htags4 (by decide)) _
  refine Eq.trans ?_ (setText_textIf _ _ (notMem_tags htags6 (by decide)))
  rw [← hsix _ hfour]
  rfl

/-- **The element of an interface** is its texts. -/
theorem interfaceNode_eq (a : Text × Resolved) :
    interfaceNode lib a = ofTexts a.1 (interfaceTexts lib a) := by
  have htags := tags_baseTexts a.2
  have htags6 := sublist_tags (sublist_tags htags (tags_texts4 a.2)) (tags_texts6 a.2)
  have htagsMtu := sublist_tags htags6 (tags_mtuTexts lib a.2)
  have htagsGateway := sublist_tags htagsMtu (tags_textIf (gateway4 a.2) "gateway" (gatewayName a.1))
  have hgateway : lit "gateway" ∉ (baseTexts a.2 ++ texts4 a.2 ++ texts6 a.2 ++
      mtuTexts lib a.2).map Prod.fst := notMem_tags htagsMtu (by decide)
  rw [interfaceNode, configureInterface_eq, interfaceTexts, gatewayTexts, ← append_assoc]
  simp only [setText_textIf _ _ hgateway]
  exact setText_textIf _ _ (notMem_tags htagsGateway (by decide))

lemma lookup_of_tags {texts : List (Text × Text)} (h : (texts.map Prod.fst).Sublist tags)
    (hname : name ∉ tags) : lookup name texts = none :=
  lookup_eq_none.mpr (notMem_tags h hname)

lemma lookup_textIf (value : Value) (name : String) (text : Text) :
    lookup (lit name) (textIf value name text) = if value.truthy then some text else none := by
  rw [textIf]
  split_ifs
  · simp [lookup]
  · rfl

section Fields

variable (lib) (a : Text × Resolved)

lemma findtext_part {part : List (Text × Text)} (heq : interfaceTexts lib a = front ++ part ++ back)
    (hfront : (front.map Prod.fst).Sublist tags) (hback : (back.map Prod.fst).Sublist tags')
    (hname : name ∉ tags ∧ name ∉ tags') :
    (interfaceNode lib a).findtext name = lookup name part := by
  rw [interfaceNode_eq, findtext_ofTexts, heq, lookup_append, lookup_append,
    lookup_of_tags hfront hname.1, lookup_of_tags hback hname.2, Option.none_or, Option.or_none]

lemma tags_gatewayTexts :
    ((gatewayTexts a).map Prod.fst).Sublist [lit "gateway", lit "gatewayv6"] :=
  sublist_tags (tags_textIf _ _ _) (tags_textIf _ _ _)

lemma findtext_four (hname : name ∈ [lit "ipaddr", lit "subnet"]) :
    (interfaceNode lib a).findtext name = lookup name (texts4 a.2) := by
  have htags : ∀ name ∈ [lit "ipaddr", lit "subnet"], name ∉ [lit "enable", lit "if"] ∧
      name ∉ [lit "ipaddrv6", lit "subnetv6"] ++ ([lit "mtu"] ++ [lit "gateway", lit "gatewayv6"]) := by
    decide
  have heq : interfaceTexts lib a = baseTexts a.2 ++ texts4 a.2 ++
      (texts6 a.2 ++ (mtuTexts lib a.2 ++ gatewayTexts a)) := by
    simp only [interfaceTexts, append_assoc]
  exact findtext_part lib a heq (tags_baseTexts a.2) (sublist_tags (tags_texts6 a.2)
    (sublist_tags (tags_mtuTexts lib a.2) (tags_gatewayTexts a))) (htags name hname)

lemma findtext_six (hname : name ∈ [lit "ipaddrv6", lit "subnetv6"]) :
    (interfaceNode lib a).findtext name = lookup name (texts6 a.2) := by
  have htags : ∀ name ∈ [lit "ipaddrv6", lit "subnetv6"],
      name ∉ [lit "enable", lit "if"] ++ [lit "ipaddr", lit "subnet"] ∧
        name ∉ [lit "mtu"] ++ [lit "gateway", lit "gatewayv6"] := by
    decide
  have heq : interfaceTexts lib a = baseTexts a.2 ++ texts4 a.2 ++ texts6 a.2 ++
      (mtuTexts lib a.2 ++ gatewayTexts a) := by
    simp only [interfaceTexts, append_assoc]
  exact findtext_part lib a heq (sublist_tags (tags_baseTexts a.2) (tags_texts4 a.2))
    (sublist_tags (tags_mtuTexts lib a.2) (tags_gatewayTexts a)) (htags name hname)

lemma findtext_gateway : (interfaceNode lib a).findtext (lit "gateway")
      = (if (gateway4 a.2).truthy then some (gatewayName a.1) else none) ∧
    (interfaceNode lib a).findtext (lit "gatewayv6")
      = if (gateway6 a.2).truthy then some (gatewayNameV6 a.1) else none := by
  have htags := sublist_tags (sublist_tags (sublist_tags (tags_baseTexts a.2) (tags_texts4 a.2))
    (tags_texts6 a.2)) (tags_mtuTexts lib a.2)
  have hnil : (([] : List (Text × Text)).map Prod.fst).Sublist [] := .refl _
  have heq : interfaceTexts lib a = baseTexts a.2 ++ texts4 a.2 ++ texts6 a.2 ++ mtuTexts lib a.2 ++
      gatewayTexts a ++ [] := by
    rw [append_nil, interfaceTexts]
  rw [findtext_part lib a heq htags hnil (by decide),
    findtext_part lib a heq htags hnil (by decide), gatewayTexts, lookup_append,
    lookup_append, lookup_textIf, lookup_textIf, lookup_of_tags (tags_textIf _ "gateway" _) (by decide),
    lookup_of_tags (tags_textIf _ "gatewayv6" _) (by decide), Option.or_none]
  exact ⟨rfl, rfl⟩

end Fields

/-! ## The gateways -/

lemma findtext_gatewayItem {role name protocol : Text} {value : Value}
    (h : c ∈ gatewayItem lib role name protocol value) :
    value.truthy = true ∧ c.findtext (lit "interface") = some role ∧
      c.findtext (lit "gateway") = some (lib.unicode.str value) ∧ c.findtext nameTag = some name ∧
      c.findtext (lit "ipprotocol") = some protocol := by
  rw [gatewayItem] at h
  split_ifs at h with htruthy
  · rw [mem_singleton.mp h]
    exact ⟨htruthy, rfl, rfl, rfl, rfl⟩
  · cases h

lemma exists_gatewayItem (lib : Library) (role name protocol : Text) {value : Value} (h : value.truthy = true) :
    ∃ c, c ∈ gatewayItem lib role name protocol value := by
  rw [gatewayItem, if_pos h]
  exact ⟨_, mem_cons_self⟩

lemma mem_gatewayItems : c ∈ gatewayItems lib assignments ↔ ∃ a ∈ assignments,
      c ∈ gatewayItem lib a.1 (gatewayName a.1) (lit "inet") (gateway4 a.2) ∨
        c ∈ gatewayItem lib a.1 (gatewayNameV6 a.1) (lit "inet6") (gateway6 a.2) := by
  simp only [gatewayItems, mem_flatMap, mem_append]

lemma Written.described (h : Written lib assignments root root') :
    (sectionChildren gatewaysTag root').filter (hasDescr gatewayItemTag gatewayDescr)
      = gatewayItems lib assignments := by
  have hother : (otherGateways root).filter (hasDescr gatewayItemTag gatewayDescr) = [] := by
    rw [otherGateways]
    simp
  rw [h.gateways, filter_append, hother]
  exact filter_eq_self.mpr fun c hc => hasDescr_gatewayItems hc

/-! ## A library that knows a few addresses -/

def knownAddresses : List Address :=
  [⟨4, lit "192.0.2.1"⟩, ⟨4, lit "192.0.2.10"⟩, ⟨4, lit "198.51.100.7"⟩, ⟨6, lit "2001:db8::1"⟩,
    ⟨6, lit "2001:db8::10"⟩]

def knownInterfaces : List (Text × Interface) :=
  [(lit "192.0.2.10/24", ⟨4, lit "192.0.2.10", 24⟩), (lit "198.51.100.7/28", ⟨4, lit "198.51.100.7", 28⟩),
    (lit "2001:db8::10/64", ⟨6, lit "2001:db8::10", 64⟩)]

def knownNetmasks : List (Text × ℕ) := [(lit "255.255.255.0", 24), (lit "255.255.255.240", 28)]

def addressLibrary : Library :=
  { sampleLibrary with
    ipInterface := fun v => match v with
      | .str s => lookup s knownInterfaces
      | _ => none
    ipAddress := fun v => match v with
      | .str s => knownAddresses.find? fun a => a.text = s
      | _ => none
    netmask := fun s => lookup s knownNetmasks }

end FreeSense.CloudInit
