import FreeSensePorts.CloudInit.Addresses
import FreeSensePorts.CloudInit.Gateways
import FreeSensePorts.CloudInit.Keys
import FreeSensePorts.CloudInit.Stored

/-!
# Whether the configuration can be read again

Keys, addresses, prefixes, an MTU and a role can be read again whatever the metadata is.  The instance,
the host name, the time zone, the device, the gateways, and an address or a network with a scope, may
have a control character or a carriage return.  The file can be read exactly if none of those has.
-/

namespace FreeSense.CloudInit

open Python Xml Element
open List hiding get iter

/-- What is used of the library: the address of an interface is printed without its scope. -/
structure Prints (lib : Library) : Prop where
  interface : ∀ {v i}, lib.ipInterface v = some i → isReadable i.ip = true

/-- **The condition**, on what a call finds. -/
structure SourcesReadable (lib : Library) (metadata : Dict) (i : Import)
    (assignments : List (Text × Resolved)) : Prop where
  instanceId : isReadable i.instanceId = true
  hostname : ∀ s, get metadata "hostname" = .str s → isReadable s = true
  timezone : ∀ s, get metadata "timezone" = .str s → isReadable s = true
  devices : ∀ a ∈ assignments, isReadable a.2.device = true
  gateways : ∀ a ∈ assignments, ∀ v ∈ [gateway4 a.2, gateway6 a.2], v.truthy = true →
    isReadable (lib.unicode.str v) = true
  resolvers : ∀ a ∈ assignments, ∀ t ∈ resolverTexts lib a, isReadable t = true
  cidrs : ∀ t ∈ openingTexts i.keys i.cidrs assignments, isReadable t = true

variable {lib : Library}

/-! ## What can always be read -/

lemma isReadable_digits (n : ℕ) : isReadable (toString n).toList = true := by
  rw [toList_toString]
  refine all_eq_true.mpr fun c hc => ?_
  have hdigit := Nat.isDigit_of_mem_toDigits (b := 10) (by decide) (by decide) hc
  have hrange : '0' ≤ c ∧ c ≤ '9' := by simpa [Char.isDigit, Char.le_def] using hdigit
  have hlo : 48 ≤ c.toNat := hrange.1
  have hhi : c.toNat ≤ 57 := hrange.2
  exact isPlain_of_le (by omega) (by omega)

lemma isReadable_encode (bytes : List UInt8) : isReadable (Base64.encode bytes) = true := by
  have hsigns : ∀ n < 65, isPlain (Base64.sign n) = true := by decide +kernel
  refine all_eq_true.mpr (Base64.forall_mem_encode (fun n => ?_) bytes)
  by_cases hn : n < 65
  · exact hsigns n hn
  · rw [Base64.sign_of_le (by omega)]
    rfl

lemma isReadable_keyTexts (keys : List Text) :
    ∀ t ∈ keyTexts lib keys, isReadable t = true := by
  unfold keyTexts
  split
  · next text h =>
      rw [encodedKeys] at h
      split_ifs at h
      · cases h
      · obtain rfl := Option.some.inj (Except.ok.inj h)
        exact forall_mem_singleton.mpr (isReadable_encode _)
  · exact fun t ht => absurd ht not_mem_nil

lemma isReadable_mtu {v : Value} (hv : mtuOk v = true) (htruthy : v.truthy = true) :
    isReadable (lib.unicode.str v) = true := by
  cases v with
  | int n =>
    obtain ⟨hlo, -⟩ : 576 ≤ n ∧ n ≤ 9216 := of_decide_eq_true hv
    obtain ⟨k, rfl⟩ := Int.eq_ofNat_of_zero_le (show 0 ≤ n by omega)
    exact isReadable_digits k
  | none => cases htruthy
  | _ => cases hv

lemma digit_of_role {c : Char} (h : '0' ≤ c ∧ c ≤ '9') :
    isNameChar c = true ∧ isPlain c.toUpper = true := by
  have hdigits : ∀ n < 58, 48 ≤ n →
      isNameChar (Char.ofNat n) = true ∧ isPlain (Char.ofNat n).toUpper = true := by decide
  have hlo : 48 ≤ c.toNat := h.1
  have hhi : c.toNat ≤ 57 := h.2
  have hc := hdigits c.toNat (by omega) hlo
  rwa [Char.ofNat_toNat] at hc

variable {role : Text} {metadata : Dict} {i : Import} {detected : List Detected}
  {assigned : List (Text × Resolved)}

lemma isName_of_isRole (h : isRole role = true) :
    isName role = true ∧ isReadable (role.map Char.toUpper) = true := by
  rcases of_decide_eq_true h with rfl | rfl | ⟨hopt, -, hdigits⟩
  · decide
  · decide
  · have hall : ∀ c ∈ role.drop 3, isNameChar c = true ∧ isPlain c.toUpper = true := fun c hc =>
      digit_of_role (of_decide_eq_true (all_eq_true.mp hdigits c hc))
    have hname : (role.drop 3).all isNameChar = true :=
      all_eq_true.mpr fun c hc => (hall c hc).1
    have hupper : ((role.drop 3).map Char.toUpper).all isPlain = true :=
      all_eq_true.mpr (forall_mem_map.mpr fun c hc => (hall c hc).2)
    rw [← take_append_drop 3 role, hopt, isName, isReadable, map_append, all_append,
      all_append, hname, hupper]
    exact ⟨rfl, by decide⟩

lemma isReadable_gatewayName (h : isRole role = true) :
    isReadable (gatewayName role) = true ∧ isReadable (gatewayNameV6 role) = true := by
  have hname : isReadable (gatewayName role) = true := by
    rw [gatewayName, isReadable_append, (isName_of_isRole h).2]
    decide
  rw [gatewayNameV6, isReadable_append, hname]
  decide

/-! ## The interfaces -/

lemma mtu_of_assigned (hi : importOf lib metadata = .ok i)
    (hassigned : assignedOf lib i detected = .ok assigned) :
    ∀ a ∈ assigned, mtuOk (get a.2.raw "mtu") = true := by
  rcases items_of_resolveInterfaces hassigned with heq | ⟨-, hnone⟩
  · intro a ha
    obtain ⟨v, hnormal⟩ := normal_of_importOf hi a.2.toItem (heq ▸ mem_map_of_mem ha)
    exact hnormal.mtu
  · intro a ha
    obtain ⟨first, hraw⟩ := (hnone a ha).1
    rw [hraw]
    rfl

/-- What is known of an interface when it is written. -/
structure Checked (lib : Library) (a : Text × Resolved) : Prop where
  role : isRole a.1 = true
  mtu : mtuOk (get a.2.raw "mtu") = true
  addresses : ∀ j ∈ a.2.addresses, ∃ v, lib.ipInterface v = some j

lemma checked_of_assigned (hi : importOf lib metadata = .ok i)
    (hassigned : assignedOf lib i detected = .ok assigned) :
    ∀ a ∈ soleWan assigned, Checked lib a := by
  have hall : ∀ a ∈ assigned, Checked lib a := fun a ha =>
    ⟨isRole_of_resolveInterfaces hassigned a ha, mtu_of_assigned hi hassigned a ha,
      addresses_of_assigned hi hassigned a ha⟩
  match assigned, hall with
  | [], _ => exact fun a ha => absurd ha not_mem_nil
  | [a], hall =>
    obtain ⟨-, hmtu, haddresses⟩ := hall a mem_cons_self
    have hwan : isRole (lit "wan") = true := by decide
    have hraw : get (pop (lit "gateway4") (set a.2.raw "dhcp4" (.bool true))) "mtu"
        = get a.2.raw "mtu" := by
      rw [Python.get, lookup_pop_ne (by decide), ← Python.get, get_set_ne (by decide)]
    refine forall_mem_singleton.mpr ⟨hwan, ?_, fun j hj => ?_⟩
    · rwa [← hraw] at hmtu
    · exact haddresses j (mem_filter.mp hj).1
  | _ :: _ :: _, hall => exact hall

lemma isReadable_staticTexts {address subnet : String} {o : Option Interface}
    (ho : ∀ j ∈ o, isReadable j.ip = true) :
    ∀ p ∈ staticTexts address subnet o, isReadable p.2 = true := by
  cases o with
  | none => exact fun p hp => absurd hp not_mem_nil
  | some j =>
    exact forall_mem_cons.mpr ⟨ho j rfl, forall_mem_singleton.mpr (isReadable_digits _)⟩

lemma isReadable_interfaceTexts (hlib : Prints lib) {a : Text × Resolved} (ha : Checked lib a) :
    (∀ p ∈ interfaceTexts lib a, isReadable p.2 = true) ↔ isReadable a.2.device = true := by
  constructor
  · exact fun h => h (lit "if", a.2.device) (by simp [interfaceTexts, baseTexts])
  · intro hdevice
    have hfirst : ∀ version, ∀ j ∈ firstAddress version a.2, isReadable j.ip = true := by
      intro version j hj
      obtain ⟨v, hv⟩ := ha.addresses j (mem_filter.mp (mem_of_mem_head? hj)).1
      exact hlib.interface hv
    have hif : ∀ {value : Value} {name : String} {text : Text},
        (value.truthy = true → isReadable text = true) →
          ∀ p ∈ textIf value name text, isReadable p.2 = true := by
      intro value name text htext
      rw [textIf]
      split_ifs with htruthy
      · exact forall_mem_singleton.mpr (htext htruthy)
      · exact fun p hp => absurd hp not_mem_nil
    obtain ⟨hname, hnameV6⟩ := isReadable_gatewayName ha.role
    simp only [interfaceTexts, gatewayTexts, forall_mem_append]
    refine ⟨⟨⟨⟨?_, ?_⟩, ?_⟩, hif (isReadable_mtu ha.mtu)⟩, hif fun _ => hname, hif fun _ => hnameV6⟩
    · exact forall_mem_cons.mpr ⟨rfl, forall_mem_singleton.mpr hdevice⟩
    · rw [texts4]
      split_ifs
      · exact forall_mem_singleton.mpr (by decide : isReadable (lit "dhcp") = true)
      · exact isReadable_staticTexts (hfirst 4)
    · rw [texts6]
      split_ifs
      · exact forall_mem_singleton.mpr (by decide : isReadable (lit "dhcp6") = true)
      · exact forall_mem_singleton.mpr (by decide : isReadable (lit "slaac") = true)
      · exact isReadable_staticTexts (hfirst 6)

lemma isReadable_gatewayStored {name : Text} {value : Value} (hrole : isReadable role = true)
    (hname : isReadable name = true) :
    (∀ t ∈ gatewayStored lib role name value, isReadable t = true) ↔
      (value.truthy = true → isReadable (lib.unicode.str value) = true) := by
  rw [gatewayStored]
  split_ifs with htruthy
  · simp [htruthy, hrole, hname]
  · simp [htruthy]

/-! ## The host name and the time zone -/

lemma isReadable_stripDots (hostname : Text) :
    isReadable (stripDots hostname) = isReadable hostname := by
  have hsplit := takeWhile_append_dropWhile (p := (· = '.')) (l := hostname.reverse)
  have hdots : (hostname.reverse.takeWhile (· = '.')).all isPlain = true := by
    refine all_eq_true.mpr fun c hc => ?_
    have hdot : c = '.' := by simpa using mem_takeWhile_imp hc
    rw [hdot]
    decide
  have hreverse : hostname.reverse.all isPlain = (hostname.reverse.dropWhile (· = '.')).all isPlain := by
    conv_lhs => rw [← hsplit, all_append, hdots, Bool.true_and]
  rw [stripDots, isReadable, isReadable, all_reverse, ← hreverse, all_reverse]

lemma isReadable_splitHost (name : Text) :
    (∀ p ∈ splitHost name, isReadable p.2 = true) ↔ isReadable name = true := by
  have hsplit := takeWhile_append_dropWhile (p := (· ≠ '.')) (l := name)
  have hdrop : (name.takeWhile (· ≠ '.') ++ name.dropWhile (· ≠ '.')).drop
      (name.takeWhile (· ≠ '.')).length = name.dropWhile (· ≠ '.') := drop_left
  rw [hsplit] at hdrop
  have hname : isReadable name = (isReadable (name.takeWhile (· ≠ '.')) &&
      isReadable (name.dropWhile (· ≠ '.'))) := by rw [← isReadable_append, hsplit]
  rw [splitHost, hname]
  simp only [hdrop]
  cases hrest : name.dropWhile (· ≠ '.') with
  | nil => simp
  | cons c domain =>
    have hdot : c = '.' := by
      have hhead := head?_dropWhile_not (· ≠ '.') name
      rw [hrest] at hhead
      simpa using hhead
    have hplain : isPlain '.' = true := by decide
    simp [hdot, hplain]

lemma isReadable_hostTexts (metadata : Dict) :
    (∀ t ∈ (hostnameTexts metadata ++ timezoneTexts metadata).map Prod.snd, isReadable t = true) ↔
      (∀ s, get metadata "hostname" = .str s → isReadable s = true) ∧
        ∀ s, get metadata "timezone" = .str s → isReadable s = true := by
  rw [forall_mem_map, forall_mem_append]
  refine and_congr ?_ ?_
  · unfold hostnameTexts
    cases hmeta : get metadata "hostname" with
    | str hostname =>
      have hparts := isReadable_splitHost (stripDots hostname)
      rw [isReadable_stripDots] at hparts
      by_cases hnil : hostname = []
      · simp [hnil]
      · simpa only [if_neg hnil, Value.str.injEq, forall_eq'] using hparts
    | _ => simp
  · unfold timezoneTexts
    cases hmeta : get metadata "timezone" with
    | str timezone =>
      by_cases hnil : timezone = []
      · simp [hnil]
      · simp [hnil]
    | _ => simp

/-! ## The call -/

/-- **The texts of a call** can be read exactly under the condition. -/
theorem isReadable_storedTexts (hlib : Prints lib) (metadata : Dict) (i : Import)
    {assignments : List (Text × Resolved)} (hchecked : ∀ a ∈ assignments, Checked lib a) :
    (∀ t ∈ storedTexts lib metadata i.instanceId i.keys i.cidrs assignments, isReadable t = true) ↔
      SourcesReadable lib metadata i assignments := by
  have hnetwork : ∀ a ∈ assignments, (∀ t ∈ networkTexts lib a, isReadable t = true) ↔
      (∀ t ∈ resolverTexts lib a, isReadable t = true) ∧ isReadable a.2.device = true ∧
        ∀ v ∈ [gateway4 a.2, gateway6 a.2], v.truthy = true → isReadable (lib.unicode.str v) = true := by
    intro a ha
    have hrole := (hchecked a ha).role
    obtain ⟨hname, hnameV6⟩ := isReadable_gatewayName hrole
    have hreadable := isReadable_of_isName (isName_of_isRole hrole).1
    simp only [networkTexts, forall_mem_append, forall_mem_map,
      isReadable_interfaceTexts hlib (hchecked a ha), isReadable_gatewayStored hreadable hname,
      isReadable_gatewayStored hreadable hnameV6, forall_mem_cons, not_mem_nil,
      false_imp_iff, implies_true, and_true, and_assoc]
  simp only [storedTexts, forall_mem_cons, forall_mem_append, isReadable_hostTexts,
    forall_mem_flatMap]
  constructor
  · rintro ⟨hid, ⟨⟨⟨hhost, hzone⟩, -⟩, hall⟩, hcidrs⟩
    have hparts := fun a ha => (hnetwork a ha).mp (hall a ha)
    exact ⟨hid, hhost, hzone, fun a ha => (hparts a ha).2.1, fun a ha => (hparts a ha).2.2,
      fun a ha => (hparts a ha).1, hcidrs⟩
  · rintro ⟨hid, hhost, hzone, hdevices, hgateways, hresolvers, hcidrs⟩
    refine ⟨hid, ⟨⟨⟨hhost, hzone⟩, isReadable_keyTexts i.keys⟩, fun a ha => ?_⟩, hcidrs⟩
    exact (hnetwork a ha).mpr ⟨hresolvers a ha, hdevices a ha, hgateways a ha⟩

def Plain (root : Element) : Prop :=
  Every (fun tag text => isName tag = true ∧ isReadable text = true) root

/-- **What a call that returns `True` has written** can be read again exactly if the sources of its
texts can.  The list of the texts is complete (`Stores`), and if the file could be read before, then
reading the new one gives the tree of the call. -/
theorem readable_iff (hlib : Prints lib) {metadata : Dict} {detected : List Detected}
    {files files' : Files} (h : apply lib metadata detected files = .ok (true, files')) :
    ∃ i assigned root root', importOf lib metadata = .ok i ∧
      assignedOf lib i detected = .ok assigned ∧ files.config = some root ∧
      files'.config = some root' ∧
      Stores (storedTexts lib metadata i.instanceId i.keys i.cidrs (soleWan assigned)) root root' ∧
      ((∀ t ∈ storedTexts lib metadata i.instanceId i.keys i.cidrs (soleWan assigned),
          isReadable t = true) ↔ SourcesReadable lib metadata i (soleWan assigned)) ∧
      (Plain root → (parse (document root') = some root' ↔
        SourcesReadable lib metadata i (soleWan assigned))) := by
  obtain ⟨i, hi, ⟨-, hb, -⟩ | ⟨-, -, assigned, root, root', hassigned, hroot, hprov, rfl⟩⟩ :=
    apply_eq_ok.mp h
  · cases hb
  have hchecked := checked_of_assigned hi hassigned
  have hstores := stores_of_provisionRoot
    (fun a ha => (isName_of_isRole (hchecked a ha).role).1) hprov
  have hsources := isReadable_storedTexts hlib metadata i hchecked
  refine ⟨i, assigned, root, root', hi, hassigned, hroot, rfl, hstores, hsources, fun hplain => ?_⟩
  have hliterals : ∀ t ∈ literals, isReadable t = true := by decide
  have hnames : Every (fun tag _ => isName tag = true) root := Every.imp (fun _ _ => And.left) hplain
  have hold : Every (fun _ text => isReadable text = true) root :=
    Every.imp (fun _ _ => And.right) hplain
  rw [parse_document_iff (hstores.names hnames), every_iff_texts, ← hsources]
  constructor
  · exact fun hall t ht => hall t (hstores.kept ht)
  · intro hall t ht
    rcases hstores.only t ht with hbefore | hliteral | hstored
    · exact every_iff_texts.mp hold t hbefore
    · exact hliterals t hliteral
    · exact hall t hstored

/-! ## Two calls -/

lemma prints_addressLibrary : Prints addressLibrary := by
  have hknown : ∀ e ∈ knownInterfaces, isReadable e.2.ip = true := by decide +kernel
  refine ⟨fun {v i} h => ?_⟩
  cases v with
  | str s => exact hknown (s, i) (mem_of_lookup h)
  | _ => cases h

lemma plain_sampleImage : Plain sampleImage := by
  have hall : ∀ n ∈ iter sampleImage, isName n.tag = true ∧ isReadable n.text = true := by
    decide +kernel
  exact hall

/-- A call whose texts can be read. -/
theorem readable_iff_gateway :
    let files' := (outcome addressLibrary (networkMetadata (gatewayDocument "192.0.2.1")) twoDetected
      bootFiles).2
    apply addressLibrary (networkMetadata (gatewayDocument "192.0.2.1")) twoDetected bootFiles
        = .ok (true, files') ∧
      ∃ root', files'.config = some root' ∧ parse (document root') = some root' := by
  intro files'
  have hcall : apply addressLibrary (networkMetadata (gatewayDocument "192.0.2.1")) twoDetected bootFiles
      = .ok (true, files') := apply_eq_true (by decide +kernel)
  have hreadable : ∀ root' ∈ files'.config, ∀ t ∈ texts root', isReadable t = true := by
    decide +kernel
  obtain ⟨i, assigned, root, root', -, -, hroot, hroot', hstores, hsources, hparse⟩ :=
    readable_iff prints_addressLibrary hcall
  obtain rfl : sampleImage = root := Option.some.inj hroot
  refine ⟨hcall, root', hroot', (hparse plain_sampleImage).mpr (hsources.mp fun t ht => ?_)⟩
  exact hreadable root' hroot' t (hstores.kept ht)

def namedMetadata (instanceId hostname : String) : Dict :=
  [(lit "instance_id", .str (lit instanceId)), (lit "hostname", .str (lit hostname))]

def namedFiles (instanceId hostname : String) : Files :=
  (outcome addressLibrary (namedMetadata instanceId hostname) sampleDetected bootFiles).2

/-- **A control character and a carriage return.**  Both calls return `True`.  After the first the
file cannot be parsed, and after the second it has another host name. -/
theorem configuration_not_readable :
    apply addressLibrary (namedMetadata "i\x01" "fw") sampleDetected bootFiles
        = .ok (true, namedFiles "i\x01" "fw") ∧
      (∃ root', (namedFiles "i\x01" "fw").config = some root' ∧ parse (document root') = none) ∧
      apply addressLibrary (namedMetadata "i" "f\x0dw") sampleDetected bootFiles
        = .ok (true, namedFiles "i" "f\x0dw") ∧
      ∃ root' root'', (namedFiles "i" "f\x0dw").config = some root' ∧
        parse (document root') = some root'' ∧
        root'.findtext₂ systemTag (lit "hostname") = some (lit "f\x0dw") ∧
        root''.findtext₂ systemTag (lit "hostname") = some (lit "f\x0aw") := by
  refine ⟨apply_eq_true (by decide +kernel), ?_, apply_eq_true (by decide +kernel), ?_⟩
  · have hnone : (namedFiles "i\x01" "fw").config.map (fun r => (parse (document r)).isNone) = some true := by
      decide +kernel
    obtain ⟨root', hroot', hparse⟩ := Option.map_eq_some_iff.mp hnone
    exact ⟨root', hroot', Option.isNone_iff_eq_none.mp hparse⟩
  · have hother : (namedFiles "i" "f\x0dw").config.map (fun r =>
        (r.findtext₂ systemTag (lit "hostname"),
          (parse (document r)).map (·.findtext₂ systemTag (lit "hostname"))))
        = some (some (lit "f\x0dw"), some (some (lit "f\x0aw"))) := by decide +kernel
    obtain ⟨root', hroot', heq⟩ := Option.map_eq_some_iff.mp hother
    obtain ⟨hbefore, hafter⟩ := Prod.mk.injEq .. ▸ heq
    obtain ⟨root'', hparse, hhost⟩ := Option.map_eq_some_iff.mp hafter
    exact ⟨root', root'', hroot', hparse, hbefore, hhost⟩

end FreeSense.CloudInit
