import FreeSensePorts.CloudInit.Calls

/-!
# The items of a network

The three forms of a network end in one loop, which checks each interface and keeps its dictionary
(`NormalItem`, `normalizeNetwork_ok`).  In front of it, `openstackInterfaces_forall` carries a property
of the dictionaries through the links and the networks of an OpenStack document.
-/

namespace FreeSense.CloudInit

open Python
open List hiding getD get

variable {lib : Library}

/-! ## The loop -/

/-- What is known about an item. -/
structure NormalItem (lib : Library) (value : Value) (item : Item) : Prop where
  raw : value = .dict item.raw
  name : itemName (get item.raw "name") = .ok item.name
  mac : itemMac lib (get item.raw "mac") = .ok item.mac
  addresses : itemAddresses lib (getD item.raw "addresses" (.list [])) = .ok item.addresses
  mtu : mtuOk (get item.raw "mtu") = true

lemma networkItem_ok {acc acc' : List Text × List Text × List Item} {value : Value}
    (h : networkItem lib acc value = .ok acc') :
    ∃ item, NormalItem lib value item ∧
      (item.name.any (· ∈ acc.1) || item.mac.any (· ∈ acc.2.1)) = false ∧
      acc' = (acc.1 ++ item.name.toList, acc.2.1 ++ item.mac.toList, acc.2.2 ++ [item]) := by
  cases value with
  | dict raw =>
    simp only [networkItem, asDict, bind_eq_ok, Except.ok.injEq, exists_eq_left'] at h
    obtain ⟨name, hname, mac, hmac, h⟩ := h
    obtain ⟨hfresh, h⟩ := refuses_eq_ok.mp h
    simp only [bind_eq_ok] at h
    obtain ⟨addresses, haddresses, h⟩ := h
    obtain ⟨hmtu, h⟩ := refuses_eq_ok.mp h
    exact ⟨⟨raw, name, mac, addresses⟩, ⟨rfl, hname, hmac, haddresses, by simpa using hmtu⟩,
      by simpa using hfresh, (pure_eq_ok.mp h).symm⟩
  | _ => simp [networkItem, asDict, invalid, bind_eq_ok] at h

variable {items : List Item} {α : Type} {byId byId' : List (Text × Dict)}

lemma normalize_ok {interfaces : List Value} {names macs : List Text}
    (h : interfaces.foldlM (networkItem lib) ([], [], []) = .ok (names, macs, items)) :
    List.Forall₂ (NormalItem lib) interfaces items := by
  have hinv := foldlM_invariant (I := fun rest (acc : List Text × List Text × List Item) =>
      ∃ done, interfaces = done ++ rest ∧ List.Forall₂ (NormalItem lib) done acc.2.2)
    (fun {value rest acc acc'} hacc hstep => ?_) interfaces ([], [], []) _ ⟨[], rfl, .nil⟩ h
  · obtain ⟨done, hdone, hall⟩ := hinv
    rw [append_nil] at hdone
    exact hdone ▸ hall
  · obtain ⟨done, rfl, hall⟩ := hacc
    obtain ⟨item, hitem, -, rfl⟩ := networkItem_ok hstep
    exact ⟨done ++ [value], by simp, rel_append hall (.cons hitem .nil)⟩

/-- **The items of a network**, one for each interface of the document. -/
theorem normalizeNetwork_ok {value : Dict} (h : normalizeNetwork lib (.dict value) = .ok items) :
    value = [] ∧ items = [] ∨
      ∃ interfaces, networkInterfaces lib value = .ok interfaces ∧
        List.Forall₂ (NormalItem lib) interfaces items := by
  cases value with
  | nil =>
    left
    cases h
    exact ⟨rfl, rfl⟩
  | cons e value =>
    right
    simp only [normalizeNetwork, bind_eq_ok, pure_eq_ok, Prod.exists] at h
    obtain ⟨interfaces, hinterfaces, names, macs, items', hfold, rfl⟩ := h
    exact ⟨interfaces, hinterfaces, normalize_ok hfold⟩

/-! ## OpenStack -/

lemma mem_assign {k : Text} {v : α} {d : List (Text × α)} {e : Text × α} (h : e ∈ assign k v d) :
    e = (k, v) ∨ e ∈ d := by
  induction d with
  | nil => exact .inl (mem_singleton.mp h)
  | cons a d ih =>
    rw [assign] at h
    split_ifs at h with heq
    · exact (mem_cons.mp h).imp_right (mem_cons_of_mem _)
    · rcases mem_cons.mp h with rfl | h
      · exact .inr mem_cons_self
      · exact (ih h).imp_right (mem_cons_of_mem _)

lemma assign_ne_nil (k : Text) (v : α) (d : List (Text × α)) : assign k v d ≠ [] := by
  cases d with
  | nil => simp [assign]
  | cons a d =>
    rw [assign]
    split_ifs <;> simp

def linkItem (order : ℕ) (id : Text) (link : Dict) : Dict :=
  [("name".toList, (get link "name").or (.str id)), ("mac".toList, get link "ethernet_mac_address"),
    ("mtu".toList, get link "mtu"), ("addresses".toList, .list []), ("order".toList, .int order)]

def staticMask (lib : Library) (network : Dict) : Except Exception Value :=
  match get network "netmask" with
  | .str s =>
    if lib.unicode.isdigit s then .ok (.str s)
    else match lib.netmask s with
      | some n => .ok (.int n)
      | none => invalid "OpenStack static network is invalid"
  | v => .ok v

def staticAddresses (lib : Library) (network item : Dict) (mask : Value) : List Value :=
  (match get item "addresses" with
    | .list l => l
    | _ => []) ++
    [.str (lib.unicode.str (get network "ip_address") ++ "/".toList ++ lib.unicode.str mask)]

def withStatic (lib : Library) (network item : Dict) (gateway : String) (mask : Value) : Dict :=
  let item := set item "addresses" (.list (staticAddresses lib network item mask))
  let via := get network "gateway"
  if via.truthy then set (set item gateway via) "default_route" (.bool true) else item

lemma openstackStatic_eq (network item : Dict) (gateway : String) :
    openstackStatic lib network item gateway
      = (staticMask lib network).map (withStatic lib network item gateway) := by
  unfold openstackStatic staticMask
  cases get network "netmask" with
  | str s =>
    dsimp only
    cases lib.unicode.isdigit s with
    | true => rfl
    | false =>
      cases lib.netmask s with
      | none => rfl
      | some n => rfl
  | _ => rfl

section Forall

variable {P : Dict → Prop}

lemma openstackLinks_forall (hlink : ∀ order id link, P (linkItem order id link))
    {links : List Value} {order : ℕ} (hbyId : ∀ e ∈ byId, P e.2)
    (h : openstackLinks order byId links = .ok byId') :
    (∀ e ∈ byId', P e.2) ∧ (byId ≠ [] ∨ links ≠ [] → byId' ≠ []) := by
  induction links generalizing order byId with
  | nil =>
    cases h
    exact ⟨hbyId, fun hne => hne.resolve_right fun hnil => hnil rfl⟩
  | cons link links ih =>
    cases link with
    | dict link =>
      simp only [openstackLinks, asDict, bind_eq_ok, Except.ok.injEq, exists_eq_left'] at h
      split at h
      · next id hid =>
          have hstep := ih (fun e he => ?_) h
          · exact ⟨hstep.1, fun _ => hstep.2 (.inl (assign_ne_nil _ _ _))⟩
          · rcases mem_assign he with rfl | he
            · exact hlink order id link
            · exact hbyId e he
      · simp at h
    | _ => simp [openstackLinks, asDict, invalid, bind_eq_ok] at h

lemma openstackNetwork_forall
    (hitem : ∀ {network item item'}, openstackItem lib network item = .ok item' → P item → P item')
    {network : Value} (hbyId : ∀ e ∈ byId, P e.2)
    (h : openstackNetwork lib byId network = .ok byId') : (∀ e ∈ byId', P e.2) ∧ byId' ≠ [] := by
  cases network with
  | dict network =>
    simp only [openstackNetwork, asDict, bind_eq_ok, Except.ok.injEq, exists_eq_left'] at h
    split at h
    · next id hid =>
        split at h
        · next item hlookup =>
            simp only [bind_eq_ok, pure_eq_ok] at h
            obtain ⟨item', hitem', rfl⟩ := h
            refine ⟨fun e he => ?_, assign_ne_nil _ _ _⟩
            rcases mem_assign he with rfl | he
            · exact hitem hitem' (hbyId _ (mem_of_lookup hlookup))
            · exact hbyId e he
        · simp at h
    · split_ifs at h
      · simp at h
  | _ => simp [openstackNetwork, asDict, invalid, bind_eq_ok] at h

/-- **A property of the items** of an OpenStack document. -/
theorem openstackInterfaces_forall (hlink : ∀ order id link, P (linkItem order id link))
    (hitem : ∀ {network item item'}, openstackItem lib network item = .ok item' → P item → P item')
    (hdns : ∀ {item dns}, P item → P (set item "dns" dns)) {value : Dict} {links networks : List Value}
    {interfaces : List Value} (h : openstackInterfaces lib value links networks = .ok interfaces) :
    (∀ v ∈ interfaces, ∃ d, v = .dict d ∧ P d) ∧ (links ≠ [] → interfaces ≠ []) := by
  simp only [openstackInterfaces, bind_eq_ok, pure_eq_ok] at h
  obtain ⟨byId, hlinks, byId', hnetworks, services, -, rfl⟩ := h
  obtain ⟨hall, hne⟩ := openstackLinks_forall (P := P) hlink (by simp) hlinks
  have hinv := foldlM_invariant (I := fun _ (byId : List (Text × Dict)) =>
      (∀ e ∈ byId, P e.2) ∧ (links ≠ [] → byId ≠ []))
    (fun {network rest acc acc'} hacc hstep => ?_) networks byId byId'
    ⟨hall, fun hl => hne (.inr hl)⟩ hnetworks
  · refine ⟨fun v hv => ?_, fun hl hnil => hinv.2 hl (map_eq_nil_iff.mp hnil)⟩
    obtain ⟨e, he, rfl⟩ := mem_map.mp hv
    refine ⟨_, rfl, ?_⟩
    split_ifs
    · exact hinv.1 e he
    · exact hdns (hinv.1 e he)
  · obtain ⟨hall', hne'⟩ := openstackNetwork_forall hitem hacc.1 hstep
    exact ⟨hall', fun _ => hne'⟩

end Forall

end FreeSense.CloudInit
