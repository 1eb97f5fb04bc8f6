import FreeSensePorts.CloudInit.Resolvers

/-!
# Only addresses

The static addresses and the resolvers go through `ipaddress` before they are written.  The gateways
do not: `gateway4`, `gateway6` and the gateway of an OpenStack network are written as they are, and the
one of a default route is looked at, but written as it was given.  So only addresses are written
(`OnlyAddresses`) exactly if the gateways are addresses already (`GatewaysValid`).
-/

namespace FreeSense.CloudInit

open Python Xml Element
open List hiding lookup get

variable {lib : Library}

/-- What is used of `ipaddress`: the text of an address is read as that address, and a prefix is not
longer than the address. -/
structure IpLaws (lib : Library) : Prop where
  address : ∀ {v a}, lib.ipAddress v = some a → lib.ipAddress (.str a.text) = some a
  interface : ∀ {v i}, lib.ipInterface v = some i → lib.ipAddress (.str i.ip) = some ⟨i.version, i.ip⟩
  prefixlen : ∀ {v i}, lib.ipInterface v = some i → i.prefixlen ≤ if i.version = 4 then 32 else 128

def IsAddress (lib : Library) (version : ℕ) (text : Text) : Prop :=
  ∃ a, lib.ipAddress (.str text) = some a ∧ a.version = version

/-- A decimal number that is at most `bits`. -/
def IsSubnet (bits : ℕ) (text : Option Text) : Prop := ∃ n ≤ bits, text = some (toString n).toList

def protocolOf (version : ℕ) : Text := if version = 6 then lit "inet6" else lit "inet"

/-- **What is meant to reach the configuration.** -/
structure OnlyAddresses (lib : Library) (root : Element) : Prop where
  gateways : ∀ g ∈ sectionChildren gatewaysTag root, hasDescr gatewayItemTag gatewayDescr g = true →
    ∃ version text, (version = 4 ∨ version = 6) ∧
      g.findtext (lit "ipprotocol") = some (protocolOf version) ∧
      g.findtext (lit "gateway") = some text ∧ IsAddress lib version text
  four : ∀ node ∈ sectionChildren interfacesTag root, ∀ text, node.findtext (lit "ipaddr") = some text →
    text ≠ lit "dhcp" → IsAddress lib 4 text ∧ IsSubnet 32 (node.findtext (lit "subnet"))
  six : ∀ node ∈ sectionChildren interfacesTag root, ∀ text, node.findtext (lit "ipaddrv6") = some text →
    text ≠ lit "dhcp6" → text ≠ lit "slaac" →
      IsAddress lib 6 text ∧ IsSubnet 128 (node.findtext (lit "subnetv6"))
  resolvers : ∀ text ∈ dnsservers root, (lib.ipAddress (.str text)).isSome = true

def GatewayValid (lib : Library) (version : ℕ) (value : Value) : Prop :=
  value.truthy = true → IsAddress lib version (lib.unicode.str value)

/-- The fields of an item as they are used.  A sole interface loses its IPv4 gateway. -/
def lastRaw (network : List Item) (raw : Dict) : Dict :=
  if network.length = 1 then pop (lit "gateway4") (set raw "dhcp4" (.bool true)) else raw

def GatewaysValid (lib : Library) (network : List Item) : Prop :=
  ∀ item ∈ network, GatewayValid lib 4 (get (lastRaw network item.raw) "gateway4") ∧
    GatewayValid lib 6 (get (lastRaw network item.raw) "gateway6")

/-! ## The assigned interfaces -/

lemma raw_soleWan (assigned : List (Text × Resolved)) :
    (soleWan assigned).map (fun a => a.2.raw)
      = (assigned.map fun a => a.2.toItem).map
          fun item => lastRaw (assigned.map fun a => a.2.toItem) item.raw := by
  match assigned with
  | [] => rfl
  | [_] => rfl
  | a :: b :: l =>
    have hlong : ((a :: b :: l).map fun a => a.2.toItem).length ≠ 1 := by simp
    rw [map_map]
    refine map_congr_left fun c _ => ?_
    simp only [Function.comp_apply, lastRaw, if_neg hlong]

variable {assigned : List (Text × Resolved)} {metadata : Dict} {i : Import}
  {detected : List Detected} {subnet : String} {version : ℕ}

lemma addresses_soleWan :
    ∀ a ∈ soleWan assigned, ∃ b ∈ assigned, a.2.addresses ⊆ b.2.addresses := by
  match assigned with
  | [] => simp [soleWan]
  | [b] =>
    intro a ha
    obtain rfl := mem_singleton.mp ha
    exact ⟨b, mem_cons_self, filter_sublist.subset⟩
  | _ :: _ :: _ => exact fun a ha => ⟨a, ha, List.Subset.refl _⟩

lemma itemAddress_ok {v : Value} {i : Interface} (h : itemAddress lib v = .ok i) :
    lib.ipInterface v = some i := by
  unfold itemAddress at h
  split at h
  · next i' hi' =>
      rw [hi', Except.ok.inj h]
  · cases h

lemma NormalItem.interface {value : Value} {item : Item} (h : NormalItem lib value item) :
    ∀ i ∈ item.addresses, ∃ v, lib.ipInterface v = some i := by
  have hok := h.addresses
  intro i hi
  unfold itemAddresses at hok
  split at hok
  · next s _ =>
      simp only [bind_eq_ok, pure_eq_ok] at hok
      obtain ⟨i', hi', heq⟩ := hok
      rw [← heq, mem_singleton] at hi
      exact ⟨.str s, itemAddress_ok (hi ▸ hi')⟩
  · obtain ⟨v, -, hv⟩ := exists_of_mem_mapM hok hi
    exact ⟨v, itemAddress_ok hv⟩
  · simp at hok

lemma normal_of_importOf (hi : importOf lib metadata = .ok i) :
    ∀ item ∈ i.network, ∃ v, NormalItem lib v item := by
  have hitems := (importOf_eq_ok.mp hi).2.2.1
  intro item hitem
  cases hvalue : get metadata "network" with
  | dict value =>
    rw [hvalue] at hitems
    rcases normalizeNetwork_ok hitems with ⟨-, hnil⟩ | ⟨interfaces, -, hall⟩
    · rw [hnil] at hitem
      cases hitem
    · obtain ⟨v, -, hnormal⟩ := exists_of_mem_right hall hitem
      exact ⟨v, hnormal⟩
  | none =>
    rw [hvalue] at hitems
    rw [← Except.ok.inj hitems] at hitem
    cases hitem
  | _ =>
    rw [hvalue] at hitems
    simp [normalizeNetwork] at hitems

lemma addresses_of_assigned (hi : importOf lib metadata = .ok i)
    (hassigned : assignedOf lib i detected = .ok assigned) :
    ∀ a ∈ assigned, ∀ j ∈ a.2.addresses, ∃ v, lib.ipInterface v = some j := by
  rcases items_of_resolveInterfaces hassigned with heq | ⟨-, hnone⟩
  · intro a ha
    obtain ⟨v, hnormal⟩ := normal_of_importOf hi a.2.toItem (heq ▸ mem_map_of_mem ha)
    exact hnormal.interface
  · intro a ha j hj
    rw [(hnone a ha).2] at hj
    cases hj

/-! ## What is written -/

section Written

variable {assignments : List (Text × Resolved)} {root root' : Element}
  (h : Written lib assignments root root')
include h

lemma gateways_iff :
    (∀ g ∈ sectionChildren gatewaysTag root', hasDescr gatewayItemTag gatewayDescr g = true →
      ∃ version text, (version = 4 ∨ version = 6) ∧
        g.findtext (lit "ipprotocol") = some (protocolOf version) ∧
        g.findtext (lit "gateway") = some text ∧ IsAddress lib version text) ↔
      ∀ a ∈ assignments, GatewayValid lib 4 (gateway4 a.2) ∧ GatewayValid lib 6 (gateway6 a.2) := by
  have hmem : ∀ c, c ∈ gatewayItems lib assignments ↔
      c ∈ sectionChildren gatewaysTag root' ∧ hasDescr gatewayItemTag gatewayDescr c = true := by
    intro c
    rw [← h.described, mem_filter]
  -- the version is the one of the protocol
  have hversion : ∀ {v w : ℕ}, (v = 4 ∨ v = 6) → (w = 4 ∨ w = 6) → protocolOf v = protocolOf w →
      v = w := by
    rintro v w (rfl | rfl) (rfl | rfl) heq
    · rfl
    · exact absurd heq (by decide)
    · exact absurd heq (by decide)
    · rfl
  constructor
  · intro hall a ha
    have hvalid : ∀ {name value version}, (version = 4 ∨ version = 6) →
        (∀ c ∈ gatewayItem lib a.1 name (protocolOf version) value, c ∈ gatewayItems lib assignments) →
        GatewayValid lib version value := by
      intro name value version hv hin htruthy
      obtain ⟨c, hc⟩ := exists_gatewayItem lib a.1 name (protocolOf version) htruthy
      obtain ⟨-, -, htext, -, hprotocol⟩ := findtext_gatewayItem hc
      obtain ⟨hsection, hdescr⟩ := (hmem c).mp (hin c hc)
      obtain ⟨version', text, hv', hprotocol', htext', haddress⟩ := hall c hsection hdescr
      rw [hversion hv hv' (Option.some.inj (hprotocol.symm.trans hprotocol')),
        Option.some.inj (htext.symm.trans htext')]
      exact haddress
    exact ⟨hvalid (.inl rfl) fun c hc => mem_gatewayItems.mpr ⟨a, ha, .inl hc⟩,
      hvalid (.inr rfl) fun c hc => mem_gatewayItems.mpr ⟨a, ha, .inr hc⟩⟩
  · intro hall g hg hdescr
    obtain ⟨a, ha, hin | hin⟩ := mem_gatewayItems.mp ((hmem g).mpr ⟨hg, hdescr⟩)
    · obtain ⟨htruthy, -, htext, -, hprotocol⟩ := findtext_gatewayItem hin
      exact ⟨4, _, .inl rfl, hprotocol, htext, (hall a ha).1 htruthy⟩
    · obtain ⟨htruthy, -, htext, -, hprotocol⟩ := findtext_gatewayItem hin
      exact ⟨6, _, .inr rfl, hprotocol, htext, (hall a ha).2 htruthy⟩

lemma resolvers_valid (hlib : IpLaws lib) :
    ∀ text ∈ dnsservers root', (lib.ipAddress (.str text)).isSome = true := by
  obtain ⟨dns, hdns, heq⟩ := h.resolvers
  intro text ht
  rw [heq, (firstOccurrences_distinct _).mem] at ht
  obtain ⟨texts, htexts, htext⟩ := mem_flatten.mp ht
  obtain ⟨a, -, ha⟩ := exists_of_mem_mapM hdns htexts
  have hvalid : ∃ values, texts = validTexts lib values := by
    by_cases hlist : ∃ values, dnsField a.2 = .list values
    · obtain ⟨values, hvalues⟩ := hlist
      exact ⟨values, (itemDns_ok ha).1 values hvalues⟩
    · exact ⟨[], (itemDns_ok ha).2 fun values hvalues => hlist ⟨values, hvalues⟩⟩
  obtain ⟨values, rfl⟩ := hvalid
  obtain ⟨v, -, hv⟩ := mem_filterMap.mp htext
  obtain ⟨address, haddress, rfl⟩ := Option.map_eq_some_iff.mp hv
  rw [hlib.address haddress]
  rfl

end Written

lemma lookup_staticTexts {address : String} (hne : lit address ≠ lit subnet) {item : Resolved}
    {text : Text}
    (h : lookup (lit address) (staticTexts address subnet (firstAddress version item)) = some text) :
    ∃ i ∈ item.addresses, i.version = version ∧ text = i.ip ∧
      lookup (lit subnet) (staticTexts address subnet (firstAddress version item))
        = some (toString i.prefixlen).toList := by
  cases hfirst : firstAddress version item with
  | none =>
    rw [hfirst] at h
    cases h
  | some i =>
    rw [hfirst] at h
    obtain ⟨hmem, hversion⟩ := mem_filter.mp (mem_of_head? hfirst)
    refine ⟨i, hmem, of_decide_eq_true hversion, ?_, ?_⟩
    · simpa [lookup, staticTexts] using h.symm
    · simp [lookup, staticTexts, hne]

section Static

variable (hlib : IpLaws lib) {a : Text × Resolved}
  (haddresses : ∀ i ∈ a.2.addresses, ∃ v, lib.ipInterface v = some i)
include hlib haddresses

lemma static_valid {address : String} (hne : lit address ≠ lit subnet) {text : Text}
    (h : lookup (lit address) (staticTexts address subnet (firstAddress version a.2)) = some text) :
    IsAddress lib version text ∧ IsSubnet (if version = 4 then 32 else 128)
      (lookup (lit subnet) (staticTexts address subnet (firstAddress version a.2))) := by
  obtain ⟨i, hi, rfl, rfl, hsubnet⟩ := lookup_staticTexts hne h
  obtain ⟨v, hv⟩ := haddresses i hi
  exact ⟨⟨_, hlib.interface hv, rfl⟩, i.prefixlen, hlib.prefixlen hv, hsubnet⟩

lemma four_valid {text : Text} (h : (interfaceNode lib a).findtext (lit "ipaddr") = some text)
    (hdhcp : text ≠ lit "dhcp") :
    IsAddress lib 4 text ∧ IsSubnet 32 ((interfaceNode lib a).findtext (lit "subnet")) := by
  rw [findtext_four lib a (by decide)] at h ⊢
  rw [texts4] at h ⊢
  split_ifs at h ⊢
  · exact absurd (Option.some.inj h).symm hdhcp
  · exact static_valid hlib haddresses (by decide) h

lemma six_valid {text : Text} (h : (interfaceNode lib a).findtext (lit "ipaddrv6") = some text)
    (hdhcp : text ≠ lit "dhcp6") (hslaac : text ≠ lit "slaac") :
    IsAddress lib 6 text ∧ IsSubnet 128 ((interfaceNode lib a).findtext (lit "subnetv6")) := by
  rw [findtext_six lib a (by decide)] at h ⊢
  rw [texts6] at h ⊢
  split_ifs at h ⊢
  · exact absurd (Option.some.inj h).symm hdhcp
  · exact absurd (Option.some.inj h).symm hslaac
  · exact static_valid hlib haddresses (by decide) h

end Static

lemma gatewaysValid_iff (hassigned : assignedOf lib i detected = .ok assigned) :
    (∀ a ∈ soleWan assigned, GatewayValid lib 4 (gateway4 a.2) ∧ GatewayValid lib 6 (gateway6 a.2)) ↔
      GatewaysValid lib i.network := by
  have hraw : ∀ P : Dict → Prop, (∀ a ∈ soleWan assigned, P a.2.raw) ↔
      ∀ raw ∈ (soleWan assigned).map fun a => a.2.raw, P raw := fun P => forall_mem_map.symm
  rw [show (∀ a ∈ soleWan assigned, GatewayValid lib 4 (gateway4 a.2) ∧
      GatewayValid lib 6 (gateway6 a.2)) ↔ _ from hraw fun raw =>
        GatewayValid lib 4 (get raw "gateway4") ∧ GatewayValid lib 6 (get raw "gateway6"), raw_soleWan]
  rcases items_of_resolveInterfaces hassigned with heq | ⟨hnil, hnone⟩
  · rw [heq, forall_mem_map]
    rfl
  · -- nothing is known about the interfaces of the machine but their names
    refine iff_of_true ?_ (by simp [GatewaysValid, hnil])
    have hvalid : ∀ version, GatewayValid lib version .none := fun _ h => absurd h Bool.false_ne_true
    refine forall_mem_map.mpr (forall_mem_map.mpr fun a ha => ?_)
    obtain ⟨⟨first, hraw⟩, -⟩ := hnone a ha
    rw [hraw, lastRaw]
    split_ifs
    · exact ⟨hvalid 4, hvalid 6⟩
    · exact ⟨hvalid 4, hvalid 6⟩

/-- **When only addresses are written.** -/
theorem onlyAddresses_iff (hlib : IpLaws lib) {metadata : Dict} {detected : List Detected}
    {files files' : Files} {network : List Item}
    (hnetwork : normalizeNetwork lib (get metadata "network") = .ok network)
    (h : apply lib metadata detected files = .ok (true, files')) :
    ∃ root', files'.config = some root' ∧
      (OnlyAddresses lib root' ↔ GatewaysValid lib network) := by
  obtain ⟨i, assigned, root, root', hi, hassigned, -, hroot', hwritten⟩ := written_of_apply h
  obtain rfl : i.network = network :=
    Except.ok.inj ((importOf_eq_ok.mp hi).2.2.1.symm.trans hnetwork)
  refine ⟨root', hroot', ?_⟩
  rw [← gatewaysValid_iff hassigned, ← gateways_iff hwritten]
  refine ⟨OnlyAddresses.gateways, fun hgateways => ⟨hgateways, ?_, ?_, resolvers_valid hwritten hlib⟩⟩
  all_goals
    intro node hnode
    rw [hwritten.interfaces] at hnode
    obtain ⟨a, ha, rfl⟩ := mem_map.mp hnode
    obtain ⟨b, hb, hsub⟩ := addresses_soleWan a ha
    have haddresses : ∀ j ∈ a.2.addresses, ∃ v, lib.ipInterface v = some j := fun j hj =>
      addresses_of_assigned hi hassigned b hb j (hsub hj)
  · exact fun text => four_valid hlib haddresses
  · exact fun text => six_valid hlib haddresses

lemma ipLaws_addressLibrary : IpLaws addressLibrary := by
  have hinterfaces : ∀ e ∈ knownInterfaces,
      addressLibrary.ipAddress (.str e.2.ip) = some ⟨e.2.version, e.2.ip⟩ ∧
        e.2.prefixlen ≤ if e.2.version = 4 then 32 else 128 := by decide +kernel
  have haddresses : ∀ a ∈ knownAddresses, addressLibrary.ipAddress (.str a.text) = some a := by
    decide +kernel
  have hknown : ∀ {v i}, addressLibrary.ipInterface v = some i → ∃ s, (s, i) ∈ knownInterfaces := by
    intro v i h
    cases v with
    | str s => exact ⟨s, mem_of_lookup h⟩
    | _ => cases h
  refine ⟨fun {v a} h => ?_, fun {v i} h => ?_, fun {v i} h => ?_⟩
  · cases v with
    | str s =>
      have hfind : knownAddresses.find? (fun a => a.text = s) = some a := h
      exact haddresses a (mem_of_find?_eq_some hfind)
    | _ => cases h
  · obtain ⟨s, hs⟩ := hknown h
    exact (hinterfaces _ hs).1
  · obtain ⟨s, hs⟩ := hknown h
    exact (hinterfaces _ hs).2

/-- Two interfaces with a static address each, and a gateway of the first. -/
def gatewayDocument (gateway : String) : Dict :=
  [(lit "interfaces", .list [
    .dict [(lit "name", .str (lit "vtnet0")), (lit "addresses", .str (lit "192.0.2.10/24")),
      (lit "gateway4", .str (lit gateway))],
    .dict [(lit "name", .str (lit "vtnet1")), (lit "addresses", .str (lit "2001:db8::10/64"))]])]

def twoDetected : List Detected := ["vtnet0", "vtnet1"].map fun n => ⟨lit n, none⟩

def gatewayFiles (gateway : String) : Files :=
  (outcome addressLibrary (networkMetadata (gatewayDocument gateway)) twoDetected bootFiles).2

def gatewayValues (root : Element) : List (Option Text × Option Text) :=
  (sectionChildren gatewaysTag root).map fun g =>
    (g.findtext (lit "gateway"), g.findtext (lit "ipprotocol"))

theorem onlyAddresses_iff_gateway :
    ∃ root', (gatewayFiles "192.0.2.1").config = some root' ∧ OnlyAddresses addressLibrary root' := by
  let isValid (version : ℕ) (value : Value) : Bool := value.truthy = true →
    (addressLibrary.ipAddress (.str (addressLibrary.unicode.str value))).any (·.version = version)
  obtain ⟨network, hnetwork, hall⟩ := exists_ok_of_view (fun network : List Item => network.all fun item =>
      isValid 4 (get (lastRaw network item.raw) "gateway4") &&
        isValid 6 (get (lastRaw network item.raw) "gateway6"))
    (x := normalizeNetwork addressLibrary
      (get (networkMetadata (gatewayDocument "192.0.2.1")) "network")) (c := true) (by decide +kernel)
  have hvalid : ∀ {version value}, isValid version value = true →
      GatewayValid addressLibrary version value := fun h htruthy => by
    simpa [IsAddress, Option.any_eq_true] using of_decide_eq_true h htruthy
  have hcall : apply addressLibrary (networkMetadata (gatewayDocument "192.0.2.1")) twoDetected bootFiles
      = .ok (true, gatewayFiles "192.0.2.1") := apply_eq_true (by decide +kernel)
  obtain ⟨root', hroot', hiff⟩ := onlyAddresses_iff ipLaws_addressLibrary hnetwork hcall
  refine ⟨root', hroot', hiff.mpr fun item hitem => ?_⟩
  have hitem := (Bool.and_eq_true _ _).mp (all_eq_true.mp hall item hitem)
  exact ⟨hvalid hitem.1, hvalid hitem.2⟩

/-- **A gateway that is no address**, and one of the other family. -/
theorem gateway_no_address :
    (apply addressLibrary (networkMetadata (gatewayDocument "not-an-ip")) twoDetected bootFiles
        = .ok (true, gatewayFiles "not-an-ip") ∧
      (gatewayFiles "not-an-ip").config.map gatewayValues
        = some [(some (lit "not-an-ip"), some (lit "inet"))] ∧
      addressLibrary.ipAddress (.str (lit "not-an-ip")) = none) ∧
    apply addressLibrary (networkMetadata (gatewayDocument "2001:db8::1")) twoDetected bootFiles
        = .ok (true, gatewayFiles "2001:db8::1") ∧
      (gatewayFiles "2001:db8::1").config.map gatewayValues
        = some [(some (lit "2001:db8::1"), some (lit "inet"))] :=
  ⟨⟨apply_eq_true (by decide +kernel), by decide +kernel, by decide +kernel⟩,
    apply_eq_true (by decide +kernel), by decide +kernel⟩

end FreeSense.CloudInit
