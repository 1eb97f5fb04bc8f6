import FreeSensePorts.CloudInit.Resolvers

/-!
# Exceptions that are not about the metadata

`main` reports an `InvalidMetadata`; any other exception ends the program with a traceback (`Raises`).
It comes from a list or an object looked for among keys, from iterating over no sequence, from the
codec of the keys, or from `ip_address` of a resolver.  Every function gets the exact condition under
which it raises, and `Unguarded` puts them together in the order in which `apply` comes to them.
-/

namespace FreeSense.CloudInit

open Python Xml Element

variable {v : Value} {metadata : Dict} {keys : List Text}

/-- An exception other than the program's own. -/
def Foreign (e : Exception) : Prop := ∀ message, e ≠ .invalid message

abbrev Raises {α : Type} (x : Except Exception α) : Prop := Fails Foreign x

@[simp] lemma not_foreign_invalid (message : Text) : ¬Foreign (.invalid message) :=
  fun h => h message rfl

@[simp] lemma foreign_typeError : Foreign .typeError := by
  intro message h
  cases h

@[simp] lemma foreign_valueError : Foreign .valueError := by
  intro message h
  cases h

@[simp] lemma foreign_parseError : Foreign .parseError := by
  intro message h
  cases h

variable {α : Type} {message : String} {d : Dict} {s : Element}
  {assignments : List (Text × Resolved)} {locks : Bool}

@[simp] lemma not_raises_invalid (message : String) :
    ¬Raises (invalid message : Except Exception α) := by
  rw [invalid, Raises, fails_error]
  exact not_foreign_invalid _

lemma raises_refuses {β : Type} {c : Prop} [Decidable c] {f : β → Except Exception α}
    {x : Except Exception α} : Raises (if c then invalid message >>= f else x) ↔ ¬c ∧ Raises x := by
  split_ifs with hc
  · simp [hc, fails_bind]
  · simp [hc]

/-- `null`, a truth value or a number: what no loop runs over. -/
def Uniterable : Value → Prop
  | .none => True
  | .bool _ => True
  | .int _ => True
  | .float _ => True
  | _ => False

lemma raises_iterate : Raises v.iterate ↔ Uniterable v := by
  cases v <;> simp [Value.iterate, Uniterable]

variable {lib : Library}

/-! ## Checks that raise `InvalidMetadata` only -/

lemma not_raises_asDict (message : String) (v : Value) : ¬Raises (asDict message v) := by
  cases v <;> simp [asDict]

lemma asDict_eq_ok : asDict message v = .ok d ↔ v = .dict d := by
  cases v <;> simp [asDict]

lemma not_raises_instanceIdOf (metadata : Dict) : ¬Raises (instanceIdOf lib metadata) := by
  unfold instanceIdOf
  split
  · split_ifs <;> simp
  · simp

lemma not_raises_validKey (value : Value) : ¬Raises (validKey lib value) := by
  unfold validKey
  dsimp only
  split
  · simp
  · split
    · simp
    · split_ifs <;> simp

lemma not_raises_validKeys (v : Value) : ¬Raises (validKeys lib v) := by
  unfold validKeys
  split
  · simp
  · refine not_fails_foldlM (fun keys value => ?_) _ _
    simp [not_raises_validKey]
  · simp

lemma not_raises_importedKeys (metadata : Dict) : ¬Raises (importedKeys lib metadata) := by
  unfold importedKeys
  rw [Raises, fails_bind]
  rintro (h | ⟨keys, -, h⟩)
  · exact not_raises_validKeys _ h
  · split at h
    · split_ifs at h <;> simp at h
    · simp at h

lemma not_raises_itemMac (v : Value) : ¬Raises (itemMac lib v) := by
  unfold itemMac
  split
  · simp
  · split
    · simp
    · dsimp only
      split_ifs <;> simp
  · simp

lemma not_raises_itemName (v : Value) : ¬Raises (itemName v) := by
  unfold itemName
  split
  · simp
  · split_ifs <;> simp
  · simp

lemma not_raises_itemAddress (v : Value) : ¬Raises (itemAddress lib v) := by
  unfold itemAddress
  split <;> simp

lemma not_raises_itemAddresses (v : Value) : ¬Raises (itemAddresses lib v) := by
  unfold itemAddresses
  split
  · simp [not_raises_itemAddress]
  · exact not_fails_mapM not_raises_itemAddress _
  · simp

lemma not_raises_networkItem (acc : List Text × List Text × List Item) (v : Value) :
    ¬Raises (networkItem lib acc v) := by
  simp only [networkItem, Raises, fails_bind, not_raises_asDict, not_raises_itemName,
    not_raises_itemMac, not_raises_itemAddresses, raises_refuses, not_fails_pure, and_false,
    exists_false, or_false, not_false_eq_true]

lemma not_raises_extensionOf (metadata : Dict) : ¬Raises (extensionOf metadata) := by
  unfold extensionOf
  split
  · simp
  · exact not_raises_asDict _ _

lemma not_raises_fleetOf (extension : Dict) : ¬Raises (fleetOf extension) := by
  unfold fleetOf
  split
  · simp
  · split_ifs <;> simp
  · simp

lemma not_raises_cidrsOf (extension : Dict) : ¬Raises (cidrsOf lib extension) := by
  unfold cidrsOf
  split
  · refine not_fails_mapM (fun value => ?_) _
    split <;> simp
  · simp

lemma not_raises_resolveItem (detected : List Detected) (resolved : List Resolved) (item : Item) :
    ¬Raises (resolveItem lib detected resolved item) := by
  have hdevice : ¬Raises (resolveDevice lib detected item) := by
    unfold resolveDevice
    split
    · split_ifs <;> simp
    all_goals simp
  simp only [resolveItem, Raises, fails_bind, hdevice, raises_refuses, not_fails_pure, and_false,
    exists_false, or_false, not_false_eq_true]

lemma not_raises_mapRole (resolved : List Resolved) (explicit : List (Text × Text)) (v : Value) :
    ¬Raises (mapRole lib resolved explicit v) := by
  simp only [mapRole, Raises, fails_bind, not_raises_asDict, raises_refuses, false_or]
  rintro ⟨mapping, -, -, h⟩
  split at h
  · exact not_fails_pure (raises_refuses.mp h).2
  · simp at h

lemma not_raises_chooseWan (remaining : List Resolved) : ¬Raises (chooseWan remaining) := by
  unfold chooseWan
  dsimp only
  split <;> simp

/-! ## OpenStack -/

lemma not_raises_openstackLinks : ∀ (order : ℕ) (byId : List (Text × Dict)) (links : List Value),
    ¬Raises (openstackLinks order byId links)
  | _, _, [] => by simp [openstackLinks]
  | order, byId, link :: links => by
    rw [openstackLinks, Raises, fails_bind]
    rintro (h | ⟨d, -, h⟩)
    · exact not_raises_asDict _ _ h
    · split at h
      · exact not_raises_openstackLinks _ _ links h
      · simp at h

lemma not_raises_openstackStatic (network item : Dict) (gateway : String) :
    ¬Raises (openstackStatic lib network item gateway) := by
  have hmask : ¬Raises (staticMask lib network) := by
    unfold staticMask
    split
    · split_ifs
      · simp
      · split <;> simp
    · simp
  rw [openstackStatic_eq]
  exact fun h => hmask (fails_map.mp h)

lemma raises_openstackItem {network item : Dict} :
    Raises (openstackItem lib network item) ↔ (get network "type").hashable = false := by
  unfold openstackItem
  cases htype : get network "type" with
  | str type =>
    simp only [Value.hashable, Bool.true_eq_false, iff_false]
    split_ifs <;> first | exact not_fails_ok | exact not_raises_openstackStatic _ _ _
  | _ => simp [Value.hashable]

/-- A network of which the link or the type cannot be looked up, where the type is looked up only if
there is such a link. -/
def Unhashable (byId : List (Text × Dict)) (v : Value) : Prop :=
  ∃ network, v = .dict network ∧
    ((get network "link").hashable = false ∨
      (∃ id item, get network "link" = .str id ∧ lookup id byId = some item) ∧
        (get network "type").hashable = false)

lemma raises_openstackNetwork {byId : List (Text × Dict)} :
    Raises (openstackNetwork lib byId v) ↔ Unhashable byId v := by
  cases v with
  | dict network =>
    have hdict : ∀ message, asDict message (.dict network) = .ok network := fun _ => rfl
    simp only [openstackNetwork, Unhashable, hdict, Raises, fails_bind, not_fails_ok, false_or,
      Except.ok.injEq, exists_eq_left', Value.dict.injEq]
    cases hlink : get network "link" with
    | str id =>
      cases hlookup : lookup id byId with
      | none => simp [hlookup, Value.hashable]
      | some item =>
        have hknown : ∃ id' item', Value.str id = .str id' ∧ lookup id' byId = some item' :=
          ⟨id, item, rfl, hlookup⟩
        have hhash : (Value.str id).hashable = true := rfl
        simp only [hlookup, hknown, hhash, fails_bind, not_fails_pure, and_false, exists_false,
          or_false, Bool.true_eq_false, false_or, true_and]
        exact raises_openstackItem
    | _ => simp [Value.hashable]
  | _ => simp [openstackNetwork, Unhashable, asDict, fails_bind]

/-- An OpenStack document of which a network or the services cannot be read.  Everything before them
has passed. -/
def StackRaises (lib : Library) (value : Dict) (links networks : List Value) : Prop :=
  ∃ byId, openstackLinks 0 [] links = .ok byId ∧
    ((∃ front network back byId', networks = front ++ network :: back ∧
        front.foldlM (openstackNetwork lib) byId = .ok byId' ∧ Unhashable byId' network) ∨
      (∃ byId', networks.foldlM (openstackNetwork lib) byId = .ok byId') ∧
        Uniterable (getD value "services" (.list [])))

lemma raises_openstackInterfaces {value : Dict} {links networks : List Value} :
    Raises (openstackInterfaces lib value links networks) ↔ StackRaises lib value links networks := by
  have hservices : ∀ byId : List (Text × Dict),
      Raises (do
        let dns := openstackDns (← (getD value "services" (.list [])).iterate)
        return byId.map fun e => Value.dict (if dns.isEmpty then e.2 else set e.2 "dns" (.list dns))) ↔
      Uniterable (getD value "services" (.list [])) := by
    intro byId
    rw [← raises_iterate, Raises]
    simp
  rw [openstackInterfaces, Raises, fails_bind, or_iff_right (not_raises_openstackLinks _ _ _)]
  refine exists_congr fun byId => and_congr_right fun _ => ?_
  rw [fails_bind, fails_foldlM]
  simp only [raises_openstackNetwork, hservices, exists_and_right]

/-! ## Netplan -/

lemma raises_isDefault : Raises (isDefault v) ↔ v.hashable = false := by
  cases v <;> simp [isDefault, Value.hashable]

lemma raises_routeGateways {gateways : Dict} :
    Raises (routeGateways lib gateways v) ↔ ∃ route, v = .dict route ∧ (get route "to").hashable = false := by
  cases v with
  | dict route =>
    simp only [routeGateways, Raises, fails_bind, raises_isDefault, Value.dict.injEq, exists_eq_left']
    refine or_iff_left ?_
    rintro ⟨b, -, h⟩
    split_ifs at h
    · simp at h
    · split at h <;> simp at h
  | _ => simp [routeGateways]

lemma anyDefault_cases (routes : List Value) :
    Raises (anyDefault routes) ∨ ∃ b, anyDefault routes = .ok b := by
  cases h : anyDefault routes with
  | ok b => exact .inr ⟨b, rfl⟩
  | error e =>
    induction routes with
    | nil => cases h
    | cons v routes ih =>
      cases v with
      | dict route =>
        rw [anyDefault] at h
        cases hto : isDefault (get route "to") with
        | error e' =>
          rw [hto] at h
          obtain rfl : e' = e := Except.error.inj h
          cases hvalue : get route "to" <;> simp [isDefault, hvalue, Value.hashable] at hto <;>
            simp [← hto]
        | ok b =>
          rw [hto] at h
          cases b with
          | true => cases h
          | false => exact ih h
      | _ => exact ih h

lemma raises_of_anyDefault {routes : List Value} (h : Raises (anyDefault routes)) (gateways : Dict) :
    Raises (routes.foldlM (routeGateways lib) gateways) := by
  induction routes with
  | nil => simp [anyDefault] at h
  | cons v routes ih =>
    rw [List.foldlM_cons, Raises, fails_bind]
    cases v with
    | dict route =>
      rw [anyDefault, Raises, fails_bind] at h
      rcases h with h | ⟨b, hb, h⟩
      · exact .inl (raises_routeGateways.mpr ⟨route, rfl, raises_isDefault.mp h⟩)
      · cases b with
        | true => simp at h
        | false =>
          refine .inr ⟨gateways, ?_, ih h⟩
          simp [routeGateways, hb]
    | _ => exact .inr ⟨gateways, rfl, ih h⟩

/-- The routes of an ethernet definition are no sequence, or one of them has a destination that cannot
be looked for; the routes before it have passed. -/
def RoutesRaise (lib : Library) (item : Dict) : Prop :=
  Uniterable (getD item "routes" (.list [])) ∨
    ∃ front route back gateways, getD item "routes" (.list []) = .list (front ++ .dict route :: back) ∧
      front.foldlM (routeGateways lib) [] = .ok gateways ∧ (get route "to").hashable = false

lemma raises_ethernet {order : ℕ} {name : Text} {item : Dict} :
    Raises (ethernet lib order name item) ↔ RoutesRaise lib item := by
  unfold ethernet RoutesRaise
  cases hroutes : getD item "routes" (.list []) with
  | list routes =>
    have hloop : Raises (routes.foldlM (routeGateways lib) []) ↔
        ∃ front route back gateways, routes = front ++ .dict route :: back ∧
          front.foldlM (routeGateways lib) [] = .ok gateways ∧
            (get route "to").hashable = false := by
      rw [Raises, fails_foldlM]
      simp only [raises_routeGateways]
      constructor
      · rintro ⟨front, _, back, gateways, hsplit, hfront, route, rfl, hto⟩
        exact ⟨front, route, back, gateways, hsplit, hfront, hto⟩
      · rintro ⟨front, route, back, gateways, hsplit, hfront, hto⟩
        exact ⟨front, _, back, gateways, hsplit, hfront, route, rfl, hto⟩
    simp only [Raises, fails_bind, not_fails_pure, and_false, exists_false, or_false, Uniterable,
      false_or, Value.list.injEq, pure_bind]
    rw [← hloop]
    constructor
    · rintro (h | ⟨-, -, h⟩)
      · exact raises_of_anyDefault h []
      · exact h
    · intro h
      rcases anyDefault_cases routes with hany | ⟨b, hb⟩
      · exact .inl hany
      · exact .inr ⟨b, hb, h⟩
  | _ => simp [Uniterable]

lemma raises_ethernets (order : ℕ) : Raises (ethernets lib order d) ↔
    ∃ front name item back values, d = front ++ (name, .dict item) :: back ∧
      ethernets lib order front = .ok values ∧ RoutesRaise lib item := by
  induction d generalizing order with
  | nil => simp [ethernets]
  | cons e d ih =>
    obtain ⟨name, v⟩ := e
    simp only [ethernets, Raises, fails_bind, not_fails_pure, and_false, exists_false, or_false]
    constructor
    · rintro (h | ⟨item, hitem, h | ⟨value, hvalue, h⟩⟩)
      · exact absurd h (not_raises_asDict _ _)
      · obtain rfl := asDict_eq_ok.mp hitem
        exact ⟨[], name, item, d, [], rfl, rfl, raises_ethernet.mp h⟩
      · obtain ⟨front, name', item', back, values, rfl, hfront, hroutes⟩ := (ih _).mp h
        refine ⟨(name, v) :: front, name', item', back, value :: values, rfl, ?_, hroutes⟩
        simp [ethernets, hitem, hvalue, hfront]
    · rintro ⟨front, name', item, back, values, heq, hfront, hroutes⟩
      cases front with
      | nil =>
        obtain ⟨hhead, rfl⟩ := List.cons.inj heq
        obtain ⟨rfl, rfl⟩ := Prod.mk.inj hhead
        exact .inr ⟨item, rfl, .inl (raises_ethernet.mpr hroutes)⟩
      | cons c front =>
        obtain ⟨rfl, rfl⟩ := List.cons.inj heq
        simp only [ethernets, bind_eq_ok, pure_eq_ok] at hfront
        obtain ⟨item', hitem', value, hvalue, values', hvalues', -⟩ := hfront
        exact .inr ⟨item', hitem', .inr ⟨value, hvalue,
          (ih _).mpr ⟨front, name', item, back, values', rfl, hvalues', hroutes⟩⟩⟩

def DocumentRaises (lib : Library) (value : Dict) : Prop :=
  (∃ links networks, get value "links" = .list links ∧ get value "networks" = .list networks ∧
      StackRaises lib value links networks) ∨
    (¬∃ links networks, get value "links" = .list links ∧ get value "networks" = .list networks) ∧
      (¬∃ interfaces, get value "interfaces" = .list interfaces) ∧
      ∃ d, getD value "ethernets" (.dict []) = .dict d ∧
        ∃ front name item back values, d = front ++ (name, .dict item) :: back ∧
          ethernets lib 0 front = .ok values ∧ RoutesRaise lib item

lemma raises_networkInterfaces {value : Dict} :
    Raises (networkInterfaces lib value) ↔ DocumentRaises lib value := by
  unfold networkInterfaces DocumentRaises
  split
  · next links networks hlinks hnetworks =>
      rw [raises_openstackInterfaces]
      simp [hlinks, hnetworks]
  · next interfaces hinterfaces hstack =>
      have hnot : ¬∃ links networks, get value "links" = .list links ∧
          get value "networks" = .list networks := by
        rintro ⟨links, networks, hlinks, hnetworks⟩
        exact hstack links networks hlinks hnetworks
      constructor
      · intro h
        simp at h
      · rintro (⟨links, networks, hlinks, hnetworks, -⟩ | ⟨-, hno, -⟩)
        · exact absurd ⟨links, networks, hlinks, hnetworks⟩ hnot
        · exact absurd ⟨interfaces, hinterfaces⟩ hno
  · next hstack hlist =>
      rw [or_iff_right, and_iff_right, and_iff_right, Raises, fails_bind,
        or_iff_right (not_raises_asDict _ _)]
      · refine exists_congr fun d => ?_
        rw [asDict_eq_ok, ← raises_ethernets]
      · rintro ⟨interfaces, hinterfaces⟩
        exact hlist interfaces hinterfaces
      · rintro ⟨links, networks, hlinks, hnetworks⟩
        exact hstack links networks hlinks hnetworks
      · rintro ⟨links, networks, hlinks, hnetworks, -⟩
        exact hstack links networks hlinks hnetworks

lemma raises_normalizeNetwork :
    Raises (normalizeNetwork lib v) ↔ ∃ value, v = .dict value ∧ DocumentRaises lib value := by
  unfold normalizeNetwork
  split
  · simp
  · have hempty : networkInterfaces lib [] = .ok [] := rfl
    simp only [not_fails_ok, Value.dict.injEq, exists_eq_left', false_iff]
    rw [← raises_networkInterfaces]
    exact not_fails_ok
  · next value _ =>
      simp only [Raises, fails_bind, Value.dict.injEq, exists_eq_left']
      rw [← raises_networkInterfaces]
      refine or_iff_left ?_
      rintro ⟨interfaces, -, h | ⟨acc, -, h⟩⟩
      · exact not_fails_foldlM not_raises_networkItem _ _ h
      · exact not_fails_pure h
  · next hnone hempty hdict =>
      simp only [not_raises_invalid, false_iff]
      rintro ⟨value, rfl, -⟩
      exact hdict value rfl

/-! ## The call -/

lemma raises_importOf : Raises (importOf lib metadata) ↔
    (∃ id, instanceIdOf lib metadata = .ok id) ∧ (∃ keys, importedKeys lib metadata = .ok keys) ∧
      ∃ value, get metadata "network" = .dict value ∧ DocumentRaises lib value := by
  simp only [importOf, Raises, fails_bind, not_raises_instanceIdOf, not_raises_importedKeys,
    not_raises_extensionOf, not_raises_fleetOf, not_raises_cidrsOf, not_fails_pure, and_false,
    exists_false, or_false, false_or, exists_and_right]
  exact and_congr_right fun _ => and_congr_right fun _ => raises_normalizeNetwork

lemma raises_resolveInterfaces {items : List Item} {detected : List Detected} {extension : Dict} :
    Raises (resolveInterfaces lib items detected extension) ↔
      (∃ found, items.foldlM (resolveItem lib detected) [] = .ok found) ∧
        Uniterable (getD extension "interfaces" (.list [])) := by
  have hmappings : Raises (roleMappings extension) ↔
      Uniterable (getD extension "interfaces" (.list [])) := by
    unfold roleMappings
    split
    · next d hd => simp [hd, Uniterable]
    · exact raises_iterate
  rw [resolveInterfaces, Raises, fails_bind,
    or_iff_right (not_fails_foldlM (not_raises_resolveItem detected) _ _), ← hmappings,
    ← exists_and_right]
  refine exists_congr fun found => and_congr_right fun _ => ?_
  -- what follows the mappings checks the roles and picks the interface of `wan`
  dsimp only
  generalize (if found.isEmpty = true then detectedItems lib 0 detected else found) = resolved
  rw [fails_bind]
  refine or_iff_left ?_
  rintro ⟨mappings, -, h⟩
  rw [fails_bind] at h
  rcases h with h | ⟨explicit, -, h⟩
  · exact not_fails_foldlM (not_raises_mapRole _) _ _ h
  · split_ifs at h
    · simp at h
    · rw [fails_bind] at h
      rcases h with h | ⟨⟨wan, remaining⟩, -, h⟩
      · exact not_raises_chooseWan _ h
      · simp at h

/-- The host name is a text that is not too long, or there is none. -/
def HostnamePasses (metadata : Dict) : Prop :=
  match get metadata "hostname" with
  | .str s => s.length ≤ 253
  | v => v.truthy = false

def TimezonePasses (metadata : Dict) : Prop :=
  match get metadata "timezone" with
  | .str s => hasDots s = false ∧ s.head? ≠ some '/'
  | v => v.truthy = false

lemma setHostname_passes : (∃ s', setHostname metadata s = .ok s') ↔ HostnamePasses metadata := by
  unfold setHostname HostnamePasses
  cases get metadata "hostname" with
  | str hostname =>
    dsimp only
    split_ifs with hnil hlong
    · simp [hnil]
    · simp only [invalid_ne_ok, exists_false, false_iff]
      omega
    · simp only [Except.ok.injEq, exists_eq', true_iff]
      omega
  | _ =>
    dsimp only
    split_ifs with htruthy <;> simp [htruthy]

lemma setTimezone_passes : (∃ s', setTimezone metadata s = .ok s') ↔ TimezonePasses metadata := by
  unfold setTimezone TimezonePasses
  cases get metadata "timezone" with
  | str timezone =>
    dsimp only
    split_ifs with hnil hbad
    · simp [hnil, hasDots]
    · simp only [invalid_ne_ok, exists_false, false_iff, not_and_or, Bool.not_eq_false, not_not]
      exact hbad
    · simp only [Except.ok.injEq, exists_eq', true_iff]
      rwa [not_or, Bool.not_eq_true] at hbad
  | _ =>
    dsimp only
    split_ifs with htruthy <;> simp [htruthy]

lemma not_raises_setHostname (metadata : Dict) (s : Element) : ¬Raises (setHostname metadata s) := by
  unfold setHostname
  split
  · split_ifs <;> simp
  · split_ifs <;> simp

lemma not_raises_setTimezone (metadata : Dict) (s : Element) : ¬Raises (setTimezone metadata s) := by
  unfold setTimezone
  split
  · split_ifs <;> simp
  · split_ifs <;> simp

/-- A resolver that is no address raises, and nothing else about an item does. -/
lemma fails_resolverText {P : Exception → Prop} :
    Fails P (resolverText lib v) ↔ lib.ipAddress v = none ∧ P .valueError := by
  unfold resolverText
  split <;> simp [*]

lemma fails_itemDns (item : Resolved) : ¬Fails (fun e => ¬Foreign e) (itemDns lib item) := by
  rw [itemDns_eq]
  split
  · refine not_fails_mapM (fun v => ?_) _
    simp [fails_resolverText]
  · exact not_fails_ok

lemma raises_itemDns {item : Resolved} : Raises (itemDns lib item) ↔
    ∃ values, dnsField item = .list values ∧ ∃ v ∈ values, lib.ipAddress v = none := by
  rw [itemDns_eq]
  cases dnsField item with
  | list values =>
    rw [Raises, fails_mapM (by simp [fails_resolverText])]
    simp [fails_resolverText]
  | _ => simp

def KeysRaise (lib : Library) (keys : List Text) : Prop :=
  keys ≠ [] ∧ lib.encodable (keyLines keys) = false

def ResolversRaise (lib : Library) (assignments : List (Text × Resolved)) : Prop :=
  ∃ a ∈ assignments, ∃ values, dnsField a.2 = .list values ∧ ∃ v ∈ values, lib.ipAddress v = none

lemma raises_encodedKeys : Raises (encodedKeys lib keys) ↔ KeysRaise lib keys := by
  unfold encodedKeys KeysRaise
  split_ifs with hnil hencodable
  · simp [hnil]
  · simp [hencodable]
  · simp [hnil, hencodable]

lemma encodedKeys_of_not_raises (h : ¬KeysRaise lib keys) :
    ∃ encoded, encodedKeys lib keys = .ok encoded := by
  unfold encodedKeys
  split_ifs with hnil hencodable
  · exact ⟨none, rfl⟩
  · exact ⟨_, rfl⟩
  · exact absurd ⟨hnil, by simpa using hencodable⟩ h

lemma raises_resolvers :
    Raises (assignments.mapM fun a => itemDns lib a.2) ↔ ResolversRaise lib assignments := by
  have hkind : ∀ a : Text × Resolved, ¬Fails (fun e => ¬Foreign e) (itemDns lib a.2) :=
    fun a => fails_itemDns a.2
  rw [Raises, fails_mapM hkind]
  exact exists_congr fun a => and_congr_right fun _ => raises_itemDns

lemma raises_provisionSystem {system : Element} (hadmin : (adminOf system).isSome = true) :
    Raises (provisionSystem lib metadata keys assignments locks system) ↔
      HostnamePasses metadata ∧ TimezonePasses metadata ∧
        (KeysRaise lib keys ∨ ResolversRaise lib assignments) := by
  rw [provisionSystem, Raises]
  rw [fails_bind, or_iff_right (not_raises_setHostname _ _)]
  constructor
  · rintro ⟨s₁, hhost, h⟩
    rw [fails_bind, or_iff_right (not_raises_setTimezone _ _)] at h
    obtain ⟨s₂, hzone, h⟩ := h
    refine ⟨setHostname_passes.mp ⟨_, hhost⟩, setTimezone_passes.mp ⟨_, hzone⟩, ?_⟩
    rcases fails_bind.mp (raises_refuses.mp h).2 with h | ⟨encoded, -, h⟩
    · exact .inl (raises_encodedKeys.mp h)
    · rcases fails_bind.mp h with h | ⟨dns, -, h⟩
      · exact .inr (raises_resolvers.mp h)
      · exact absurd h not_fails_pure
  · rintro ⟨hhost, hzone, h⟩
    obtain ⟨s₁, hs₁⟩ :=
      (setHostname_passes (s := lockoutOff (assignments.length = 1) system)).mpr hhost
    obtain ⟨s₂, hs₂⟩ := (setTimezone_passes (s := s₁)).mpr hzone
    have hkeeps : KeepsUsers system s₂ := ((keepsUsers_lockoutOff _ _).trans
      (keepsUsers_setHostname hs₁)).trans (keepsUsers_setTimezone hs₂)
    have hsome : ¬(adminOf s₂).isNone = true := by
      rw [adminOf_congr hkeeps.2]
      simpa [Option.isNone_iff_eq_none, Option.isSome_iff_ne_none] using hadmin
    refine ⟨s₁, hs₁, fails_bind.mpr (.inr ⟨s₂, hs₂, raises_refuses.mpr ⟨hsome, fails_bind.mpr ?_⟩⟩)⟩
    by_cases hkeys : KeysRaise lib keys
    · exact .inl (raises_encodedKeys.mpr hkeys)
    · obtain ⟨encoded, hencoded⟩ := encodedKeys_of_not_raises hkeys
      exact .inr ⟨encoded, hencoded, fails_bind.mpr (.inl (raises_resolvers.mpr (h.resolve_left hkeys)))⟩

lemma raises_provisionRoot {instanceId : Text} {cidrs : List Address} {root : Element}
    (hadmin : ((root.find systemTag).bind adminOf).isSome = true) :
    Raises (provisionRoot lib metadata instanceId keys cidrs assignments locks root) ↔
      HostnamePasses metadata ∧ TimezonePasses metadata ∧
        (KeysRaise lib keys ∨ ResolversRaise lib assignments) := by
  obtain ⟨system, hsystem⟩ : ∃ system, root.find systemTag = some system := by
    cases h : root.find systemTag with
    | none => simp [h] at hadmin
    | some system => exact ⟨system, rfl⟩
  rw [hsystem] at hadmin
  simp only [provisionRoot, hsystem, Option.getD_some, Raises, fails_bind, not_fails_pure, and_false,
    exists_false, or_false]
  exact raises_provisionSystem hadmin

/-- A use of a value that no check has excluded, with all the checks before it passed. -/
inductive Unguarded (lib : Library) (metadata : Dict) (detected : List Detected) (files : Files) : Prop
  | network {id : Text} {keys : List Text} {value : Dict} (hid : instanceIdOf lib metadata = .ok id)
      (hkeys : importedKeys lib metadata = .ok keys) (hvalue : get metadata "network" = .dict value)
      (h : DocumentRaises lib value)
  | mappings {i : Import} {found : List Resolved} (hi : importOf lib metadata = .ok i)
      (hskips : skips lib i files = false)
      (hfound : i.network.foldlM (resolveItem lib detected) [] = .ok found)
      (h : Uniterable (getD i.extension "interfaces" (.list [])))
  | provision {i : Import} {assigned : List (Text × Resolved)} (hi : importOf lib metadata = .ok i)
      (hskips : skips lib i files = false) (hassigned : assignedOf lib i detected = .ok assigned)
      (hhost : HostnamePasses metadata) (hzone : TimezonePasses metadata)
      (h : KeysRaise lib i.keys ∨ ResolversRaise lib (soleWan assigned))

section Call

variable {metadata : Dict} {detected : List Detected} {files : Files} {root : Element}
variable (hroot : files.config = some root)
variable (hadmin : ((root.find systemTag).bind adminOf).isSome = true)

include hroot hadmin

lemma raises_call {i : Import} (hi : importOf lib metadata = .ok i)
    (hskips : skips lib i files = false) : Raises (apply lib metadata detected files) ↔
      Raises (assignedOf lib i detected) ∨ ∃ assigned, assignedOf lib i detected = .ok assigned ∧
        HostnamePasses metadata ∧ TimezonePasses metadata ∧
          (KeysRaise lib i.keys ∨ ResolversRaise lib (soleWan assigned)) := by
  simp only [apply_eq, hi, hskips, Bool.false_eq_true, if_false, hroot, Raises, fails_bind,
    not_fails_ok, not_fails_pure, and_false, exists_false, or_false, false_or, Except.ok.injEq,
    exists_eq_left']
  exact or_congr_right (exists_congr fun _ => and_congr_right fun _ => raises_provisionRoot hadmin)

lemma raises_apply :
    Raises (apply lib metadata detected files) ↔ Unguarded lib metadata detected files := by
  constructor
  · intro h
    have hcall := h
    rw [apply_eq, Raises, fails_bind] at hcall
    rcases hcall with himport | ⟨i, hi, hcall⟩
    · obtain ⟨⟨id, hid⟩, ⟨keys, hkeys⟩, value, hvalue, hdocument⟩ := raises_importOf.mp himport
      exact .network hid hkeys hvalue hdocument
    · cases hskips : skips lib i files with
      | true => simp [hskips] at hcall
      | false =>
        rcases (raises_call hroot hadmin hi hskips).mp h with h | ⟨_, hassigned, hhost, hzone, h⟩
        · obtain ⟨⟨found, hfound⟩, h⟩ := raises_resolveInterfaces.mp h
          exact .mappings hi hskips hfound h
        · exact .provision hi hskips hassigned hhost hzone h
  · intro h
    cases h with
    | network hid hkeys hvalue h =>
      rw [apply_eq, Raises, fails_bind]
      exact .inl (raises_importOf.mpr ⟨⟨_, hid⟩, ⟨_, hkeys⟩, _, hvalue, h⟩)
    | mappings hi hskips hfound h =>
      refine (raises_call hroot hadmin hi hskips).mpr (.inl ?_)
      exact raises_resolveInterfaces.mpr ⟨⟨_, hfound⟩, h⟩
    | provision hi hskips hassigned hhost hzone h =>
      exact (raises_call hroot hadmin hi hskips).mpr (.inr ⟨_, hassigned, hhost, hzone, h⟩)

end Call

/-- `apply` returns, or says that the metadata is invalid. -/
def Reported (x : Except Exception (Bool × Files)) : Prop :=
  (∃ r, x = .ok r) ∨ ∃ message, x = .error (.invalid message)

lemma reported_iff {x : Except Exception (Bool × Files)} : Reported x ↔ ¬Raises x := by
  cases x with
  | ok r => simp [Reported]
  | error e => cases e <;> simp [Reported]

/-- **Malformed metadata is reported as such**, with a configuration that has an account to provision,
exactly if the call comes to no unguarded use of a value. -/
theorem apply_reported_iff (lib : Library) (metadata : Dict) (detected : List Detected) (files : Files)
    (root : Element) (hroot : files.config = some root)
    (hadmin : ((root.find systemTag).bind adminOf).isSome = true) :
    Reported (apply lib metadata detected files) ↔ ¬Unguarded lib metadata detected files := by
  rw [reported_iff, raises_apply hroot hadmin]

theorem apply_reported_iff_netplan :
    let call := apply addressLibrary (networkMetadata netplanDocument) sampleDetected bootFiles
    (∃ files, call = .ok (true, files)) ∧
      ¬Unguarded addressLibrary (networkMetadata netplanDocument) sampleDetected bootFiles := by
  intro call
  have hcall : call = .ok (true, _) := apply_eq_true (by decide +kernel)
  exact ⟨⟨_, hcall⟩, (apply_reported_iff addressLibrary _ sampleDetected bootFiles sampleImage rfl
    (by decide +kernel)).mp (.inl ⟨_, hcall⟩)⟩

/-! ## Documents with one bad value -/

def raised {α : Type} : Except Exception α → Option Exception
  | .ok _ => none
  | .error e => some e

lemma eq_error_of_raised {x : Except Exception α} {e : Exception} (h : raised x = some e) :
    x = .error e := by
  cases x with
  | ok a => cases h
  | error e' => rw [Option.some.inj h]

/-- `{"links": [], "networks": [], "services": null}`. -/
def noServices : Dict :=
  [(lit "links", .list []), (lit "networks", .list []), (lit "services", .none)]

def listDestination : Dict :=
  [(lit "ethernets", .dict [(lit "vtnet0", .dict [(lit "routes",
    .list [.dict [(lit "to", .list [])]])])])]

def namedResolver : Dict :=
  [(lit "ethernets", .dict [(lit "vtnet0", .dict [(lit "nameservers",
    .dict [(lit "addresses", .list [.str (lit "dns.example")])])])])]

/-- **Three documents that end the program with a traceback.** -/
theorem malformed_not_reported :
    apply addressLibrary (networkMetadata noServices) sampleDetected bootFiles = .error .typeError ∧
    apply addressLibrary (networkMetadata listDestination) sampleDetected bootFiles = .error .typeError ∧
    apply addressLibrary (networkMetadata namedResolver) sampleDetected bootFiles
      = .error .valueError :=
  ⟨eq_error_of_raised (by decide +kernel), eq_error_of_raised (by decide +kernel),
    eq_error_of_raised (by decide +kernel)⟩

end FreeSense.CloudInit
