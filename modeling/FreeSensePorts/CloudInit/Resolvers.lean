import FreeSensePorts.CloudInit.Items
import FreeSensePorts.CloudInit.Written

/-!
# The resolvers

An OpenStack document announces resolvers as services, and the program keeps them in the field `dns`
of each interface.  A netplan document has them in an object `nameservers`.  Where the configuration
is written, `dns` is looked at only beside a `nameservers` that is no object; an item of an OpenStack
document has no such field at all, so that its resolvers are never written.
-/

namespace FreeSense.CloudInit

open Python Xml Element
open List hiding lookup getD get

variable {lib : Library}

lemma firstOccurrences_distinct (l : List Text) : FirstOccurrences l (distinct l) := by
  have hfold : ∀ (rest done seen : List Text), FirstOccurrences done seen →
      FirstOccurrences (done ++ rest)
        (rest.foldl (fun seen x => if seen.contains x then seen else seen ++ [x]) seen) := by
    intro rest
    induction rest with
    | nil =>
      intro done seen h
      rwa [append_nil]
    | cons x rest ih =>
      intro done seen h
      rw [foldl_cons, ← singleton_append, ← append_assoc]
      refine ih _ _ ?_
      split_ifs with hx
      · exact h.seen (contains_iff_mem.mp hx)
      · exact h.new fun hin => hx (contains_iff_mem.mpr hin)
  exact hfold l [] [] .nil

def validTexts (lib : Library) (values : List Value) : List Text :=
  values.filterMap fun v => (lib.ipAddress v).map Address.text

/-- Where the resolvers of an item are looked for. -/
def dnsField (item : Resolved) : Value :=
  match getD item.raw "nameservers" (.dict []) with
  | .dict d => getD d "addresses" (.list [])
  | _ => getD item.raw "dns" (.list [])

/-- `str(ipaddress.ip_address(value))`. -/
def resolverText (lib : Library) (value : Value) : Except Exception Text :=
  match lib.ipAddress value with
  | some a => .ok a.text
  | none => .error .valueError

lemma itemDns_eq (item : Resolved) : itemDns lib item = match dnsField item with
    | .list l => l.mapM (resolverText lib)
    | _ => .ok [] := rfl

lemma texts_of_mapM {values : List Value} {texts : List Text}
    (h : values.mapM (resolverText lib) = .ok texts) : texts = validTexts lib values := by
  have hall := forall₂_of_mapM h
  clear h
  induction hall with
  | nil => rfl
  | @cons v text values texts hv _ ih =>
    unfold resolverText at hv
    split at hv
    · next a ha =>
        have hcons : validTexts lib (v :: values) = a.text :: validTexts lib values := by
          simp only [validTexts, filterMap_cons, ha, Option.map_some]
        rw [hcons, ← ih, Except.ok.inj hv]
    · cases hv

lemma itemDns_ok {item : Resolved} {texts : List Text} (h : itemDns lib item = .ok texts) :
    (∀ values, dnsField item = .list values → texts = validTexts lib values) ∧
      ((∀ values, dnsField item ≠ .list values) → texts = []) := by
  rw [itemDns_eq] at h
  cases hfield : dnsField item with
  | list values =>
    rw [hfield] at h
    refine ⟨fun values' heq => ?_, fun hno => absurd rfl (hno values)⟩
    rw [← Value.list.inj heq]
    exact texts_of_mapM h
  | _ =>
    rw [hfield] at h
    refine ⟨fun values heq => ?_, fun _ => (Except.ok.inj h).symm⟩
    cases heq

/-- **Resolvers of an object `nameservers`** are configured. -/
theorem resolvers_of_nameservers {assignments : List (Text × Resolved)} {root root' : Element}
    (h : Written lib assignments root root') (servers : Resolved → List Value)
    (hservers : ∀ a ∈ assignments, dnsField a.2 = .list (servers a.2)) :
    FirstOccurrences (validTexts lib (assignments.flatMap fun a => servers a.2)) (dnsservers root') := by
  obtain ⟨dns, hdns, heq⟩ := h.resolvers
  have hflatten : dns.flatten = validTexts lib (assignments.flatMap fun a => servers a.2) := by
    have hall := forall₂_of_mapM hdns
    clear hdns heq h
    induction hall with
    | nil => rfl
    | @cons a texts assignments dns ha _ ih =>
      obtain ⟨hfirst, hrest⟩ := forall_mem_cons.mp hservers
      rw [flatten_cons, ih hrest, flatMap_cons, (itemDns_ok ha).1 _ hfirst, validTexts,
        validTexts, validTexts, filterMap_append]
  rw [heq, hflatten]
  exact firstOccurrences_distinct _

/-! ## OpenStack -/

lemma lookup_set_ne {d : Dict} {k : Text} {j : String} (hne : k ≠ j.toList) (v : Value) :
    lookup k (set d j v) = lookup k d := lookup_assign_ne hne v d

lemma lookup_pop_ne {α : Type} {j k : Text} (hne : k ≠ j) (d : List (Text × α)) :
    lookup k (pop j d) = lookup k d := by
  induction d with
  | nil => rfl
  | cons e d ih =>
    rw [pop, eraseP_cons]
    cases he : decide (e.1 = j) with
    | true =>
      have hk : ¬e.1 = k := fun h => hne (h.symm.trans (of_decide_eq_true he))
      rw [cond_true, lookup, lookup, find?_cons_of_neg (by simpa using hk)]
    | false =>
      rw [cond_false]
      simp only [lookup, find?_cons] at ih ⊢
      split
      · rfl
      · exact ih

lemma lookup_openstackItem {k : Text} {network item item' : Dict}
    (hk : k ∉ ["dhcp4", "dhcp6", "slaac", "addresses", "gateway4", "gateway6", "default_route"].map
      String.toList)
    (h : openstackItem lib network item = .ok item') : lookup k item' = lookup k item := by
  simp only [map_cons, map_nil, mem_cons, not_mem_nil, or_false, not_or] at hk
  obtain ⟨hdhcp4, hdhcp6, hslaac, haddresses, hgateway4, hgateway6, hroute⟩ := hk
  have hstatic : ∀ {gateway : String}, k ≠ gateway.toList →
      openstackStatic lib network item gateway = .ok item' → lookup k item' = lookup k item := by
    intro gateway hgateway h
    rw [openstackStatic_eq] at h
    obtain ⟨mask, -, rfl⟩ := map_eq_ok.mp h
    rw [withStatic]
    split_ifs
    · rw [lookup_set_ne hroute, lookup_set_ne hgateway, lookup_set_ne haddresses]
    · rw [lookup_set_ne haddresses]
  rw [openstackItem] at h
  split at h
  · split_ifs at h
    · rw [← Except.ok.inj h, lookup_set_ne hdhcp4]
    · rw [← Except.ok.inj h, lookup_set_ne hdhcp6]
    · rw [← Except.ok.inj h, lookup_set_ne hslaac]
    · exact hstatic hgateway4 h
    · exact hstatic hgateway6 h
    · rw [Except.ok.inj h]
  · split_ifs at h
    rw [Except.ok.inj h]

def nameserversKey : Text := "nameservers".toList

lemma openstack_nameservers {value : Dict} {links networks interfaces : List Value}
    (h : openstackInterfaces lib value links networks = .ok interfaces) :
    (∀ v ∈ interfaces, ∃ d, v = .dict d ∧ lookup nameserversKey d = none) ∧
      (links ≠ [] → interfaces ≠ []) := by
  refine openstackInterfaces_forall (P := fun d => lookup nameserversKey d = none)
    (fun order id link => rfl) (fun {network item item'} hitem h => ?_) (fun {item dns} h => ?_) h
  · rw [lookup_openstackItem (by decide) hitem, h]
  · rw [lookup_set_ne (by decide), h]

lemma dnsField_openstack {metadata value : Dict} {links networks : List Value} {i : Import}
    {detected : List Detected} {assigned : List (Text × Resolved)}
    (hnetwork : get metadata "network" = .dict value) (hlinks : get value "links" = .list links)
    (hnetworks : get value "networks" = .list networks) (hne : links ≠ [])
    (hi : importOf lib metadata = .ok i) (hassigned : assignedOf lib i detected = .ok assigned) :
    ∀ a ∈ soleWan assigned, dnsField a.2 = .list [] := by
  have hitems := (importOf_eq_ok.mp hi).2.2.1
  rw [hnetwork] at hitems
  -- no item of the network has a field `nameservers`
  have hraw : i.network ≠ [] ∧ ∀ item ∈ i.network, lookup nameserversKey item.raw = none := by
    rcases normalizeNetwork_ok hitems with ⟨rfl, -⟩ | ⟨interfaces, hinterfaces, hall⟩
    · cases hlinks
    · simp only [networkInterfaces, hlinks, hnetworks] at hinterfaces
      obtain ⟨hlacks, hnonempty⟩ := openstack_nameservers hinterfaces
      refine ⟨fun hnil => hnonempty hne ?_, fun item hitem => ?_⟩
      · exact length_eq_zero_iff.mp (hall.length_eq.trans (length_eq_zero_iff.mpr hnil))
      · obtain ⟨v, hv, hnormal⟩ := exists_of_mem_right hall hitem
        obtain ⟨d, hd, hlookup⟩ := hlacks v hv
        rwa [← Value.dict.inj (hd.symm.trans hnormal.raw)]
  have hassigned' : ∀ a ∈ assigned, lookup nameserversKey a.2.raw = none := by
    rcases items_of_resolveInterfaces hassigned with heq | ⟨hnil, -⟩
    · exact fun a ha => hraw.2 _ (heq ▸ mem_map_of_mem ha)
    · exact absurd hnil hraw.1
  have hfield : ∀ {r : Resolved}, lookup nameserversKey r.raw = none → dnsField r = .list [] := by
    intro r hr
    simp only [dnsField, getD, show "nameservers".toList = nameserversKey from rfl, hr,
      Option.getD_none]
    rfl
  match assigned, hassigned' with
  | [], _ => simp [soleWan]
  | [(role, r)], hsole =>
    have hr := hsole _ mem_cons_self
    refine forall_mem_singleton.mpr (hfield ?_)
    rw [lookup_pop_ne (by decide), lookup_set_ne (by decide)]
    exact hr
  | _ :: _ :: _, hmany => exact fun a ha => hfield (hmany a ha)

/-- The addresses that the services of an OpenStack document announce. -/
def announced (value : Dict) : List Value :=
  match getD value "services" (.list []) with
  | .list services => openstackDns services
  | _ => []

/-- **Which resolvers of an OpenStack document are configured.**  The elements `dnsserver` are those
announced exactly if none is announced. -/
theorem resolvers_iff {metadata value : Dict} {links networks : List Value}
    {detected : List Detected} {files files' : Files}
    (hnetwork : get metadata "network" = .dict value) (hlinks : get value "links" = .list links)
    (hnetworks : get value "networks" = .list networks) (hne : links ≠ [])
    (hvalid : ∀ v ∈ announced value, (lib.ipAddress v).isSome = true)
    (h : apply lib metadata detected files = .ok (true, files')) :
    ∃ root', files'.config = some root' ∧
      (FirstOccurrences (validTexts lib (announced value)) (dnsservers root') ↔
        announced value = []) := by
  obtain ⟨i, assigned, root, root', hi, hassigned, -, hroot', hwritten⟩ := written_of_apply h
  refine ⟨root', hroot', ?_⟩
  have hnone := resolvers_of_nameservers hwritten (fun _ => [])
    (dnsField_openstack hnetwork hlinks hnetworks hne hi hassigned)
  have hnil : dnsservers root' = [] := eq_nil_iff_forall_not_mem.mpr fun text ht => by
    simpa [validTexts] using (hnone.mem text).mp ht
  rw [hnil]
  constructor
  · intro hfirst
    refine eq_nil_iff_forall_not_mem.mpr fun v hv => ?_
    obtain ⟨a, ha⟩ := Option.isSome_iff_exists.mp (hvalid v hv)
    have hin : a.text ∈ validTexts lib (announced value) :=
      mem_filterMap.mpr ⟨v, hv, by rw [ha, Option.map_some]⟩
    exact absurd ((hfirst.mem _).mpr hin) not_mem_nil
  · intro hempty
    rw [hempty]
    exact .nil

/-! ## One resolver, in two forms -/

def stackServices : List Value :=
  [.dict [(lit "type", .str (lit "dns")), (lit "address", .str (lit "192.0.2.1"))]]

def stackDocument (services : List Value) : Dict :=
  [(lit "links", .list [.dict [(lit "id", .str (lit "vtnet0"))]]), (lit "networks", .list []),
    (lit "services", .list services)]

def netplanDocument : Dict :=
  [(lit "ethernets", .dict [(lit "vtnet0", .dict [(lit "nameservers",
    .dict [(lit "addresses", .list [.str (lit "192.0.2.1")])])])])]

def networkMetadata (network : Dict) : Dict :=
  [(lit "instance_id", .str (lit "i-1")), (lit "network", .dict network)]

/-- **The announced resolver is lost**, while netplan's is not. -/
theorem announced_resolver_lost :
    let stack := (outcome addressLibrary (networkMetadata (stackDocument stackServices)) sampleDetected
      bootFiles).2
    let netplan := (outcome addressLibrary (networkMetadata netplanDocument) sampleDetected bootFiles).2
    (apply addressLibrary (networkMetadata (stackDocument stackServices)) sampleDetected bootFiles
        = .ok (true, stack) ∧ stack.config.map dnsservers = some []) ∧
      apply addressLibrary (networkMetadata netplanDocument) sampleDetected bootFiles
        = .ok (true, netplan) ∧ netplan.config.map dnsservers = some [lit "192.0.2.1"] :=
  ⟨⟨apply_eq_true (by decide +kernel), by decide +kernel⟩, apply_eq_true (by decide +kernel),
    by decide +kernel⟩

theorem resolvers_iff_stack :
    ∃ root', (outcome addressLibrary (networkMetadata (stackDocument stackServices)) sampleDetected
        bootFiles).2.config = some root' ∧
      ¬FirstOccurrences (validTexts addressLibrary (announced (stackDocument stackServices)))
        (dnsservers root') := by
  have hnetwork : get (networkMetadata (stackDocument stackServices)) "network"
      = .dict (stackDocument stackServices) := rfl
  have hcall : apply addressLibrary (networkMetadata (stackDocument stackServices)) sampleDetected bootFiles
      = .ok (true, _) := apply_eq_true (by decide +kernel)
  obtain ⟨root', hroot', hiff⟩ := resolvers_iff hnetwork rfl rfl (by simp) (fun v hv => by
    obtain rfl := mem_singleton.mp hv
    decide +kernel) hcall
  exact ⟨root', hroot', mt hiff.mp (by decide +kernel)⟩

end FreeSense.CloudInit
