import FreeSensePorts.CloudInit.Resolvers
import FreeSensePorts.Core.XmlText

/-!
# The texts that a call stores

Every text of the configuration after a call was there before, is a literal of the program, or is in
the list `storedTexts`; and every text of that list is in the configuration (`Stores`).  Nothing else
is added (`every_provisionRoot`), as each change keeps a property that holds of what it writes, and
nothing is lost (`stored_of_every`).
-/

namespace FreeSense.CloudInit

open List Python Xml Element

variable {lib : Library}

variable {assignments : List (Text × Resolved)} {tag text : Text}

/-! ## The list -/

def keyTexts (lib : Library) (keys : List Text) : List Text :=
  match encodedKeys lib keys with
  | .ok (some text) => [text]
  | _ => []

def resolverTexts (lib : Library) (a : Text × Resolved) : List Text :=
  match dnsField a.2 with
  | .list values => validTexts lib values
  | _ => []

def gatewayStored (lib : Library) (role name : Text) (value : Value) : List Text :=
  if value.truthy then [role, lib.unicode.str value, name] else []

def networkTexts (lib : Library) (a : Text × Resolved) : List Text :=
  resolverTexts lib a ++ (interfaceTexts lib a).map Prod.snd ++
    gatewayStored lib a.1 (gatewayName a.1) (gateway4 a.2) ++
    gatewayStored lib a.1 (gatewayNameV6 a.1) (gateway6 a.2)

def openingTexts (keys : List Text) (cidrs : List Address) (assignments : List (Text × Resolved)) :
    List Text :=
  if assignments.length = 1 ∧ keys ≠ [] then cidrs.map Address.text else []

/-- **The texts that come from outside.** -/
def storedTexts (lib : Library) (metadata : Dict) (instanceId : Text) (keys : List Text)
    (cidrs : List Address) (assignments : List (Text × Resolved)) : List Text :=
  instanceId :: ((hostnameTexts metadata ++ timezoneTexts metadata).map Prod.snd ++ keyTexts lib keys ++
    assignments.flatMap (networkTexts lib) ++ openingTexts keys cidrs assignments)

/-- The texts that the program has itself. -/
def literals : List Text :=
  [[], lit "true", lockedText, lit "enabled", lit "inet", lit "inet6", gatewayDescr, lit "pass",
    lit "wan", lit "tcp", sshDescr, lit "wanip", lit "wanip6", lit "22",
    lit "freesense.cloud-metadata/v1"]

/-! ## The section `system`, computed -/

lemma flatten_itemDns {dns : List (List Text)}
    (h : assignments.mapM (fun a => itemDns lib a.2) = .ok dns) :
    dns.flatten = assignments.flatMap (resolverTexts lib) := by
  have hall := forall₂_of_mapM h
  clear h
  induction hall with
  | nil => rfl
  | @cons a texts assignments dns ha _ ih =>
    have htexts : texts = resolverTexts lib a := by
      obtain ⟨hlist, hnone⟩ := itemDns_ok ha
      unfold resolverTexts
      split
      · next values hvalues => exact hlist values hvalues
      · next hno => exact hnone hno
    rw [flatten_cons, flatMap_cons, ih, htexts]

/-- **The section** as a function of what was there, with the texts of the list. -/
lemma provisionSystem_systemOf {metadata : Dict} {keys : List Text} {locks : Bool} {s s' : Element}
    (h : provisionSystem lib metadata keys assignments locks s = .ok s') :
    ∃ encoded, keyTexts lib keys = encoded.toList ∧
      s' = systemOf (assignments.length = 1) (hostnameTexts metadata ++ timezoneTexts metadata) keys
        encoded (assignments.flatMap (resolverTexts lib)) locks s := by
  unfold provisionSystem at h
  simp only [bind_eq_ok] at h
  obtain ⟨s₁, hhost, s₂, hzone, h⟩ := h
  obtain ⟨-, h⟩ := refuses_eq_ok.mp h
  simp only [bind_eq_ok, pure_eq_ok] at h
  obtain ⟨encoded, hencoded, dns, hdns, rfl⟩ := h
  refine ⟨encoded, ?_, ?_⟩
  · rw [keyTexts, hencoded]
    cases encoded with
    | none => rfl
    | some text => rfl
  · obtain rfl : _ = s₁ := Except.ok.inj ((setHostname_eq hhost _).symm.trans hhost)
    obtain rfl : _ = s₂ := Except.ok.inj ((setTimezone_eq hzone _).symm.trans hzone)
    rw [systemOf, setTexts_append, flatten_itemDns hdns]

/-! ## Nothing else is added -/

lemma isName_interfaceTexts (a : Text × Resolved) : ∀ p ∈ interfaceTexts lib a, isName p.1 = true := by
  have htags := sublist_tags (sublist_tags (sublist_tags (sublist_tags (tags_baseTexts a.2)
    (tags_texts4 a.2)) (tags_texts6 a.2)) (tags_mtuTexts lib a.2)) (tags_gatewayTexts a)
  have hnames : ∀ tag ∈ [lit "enable", lit "if"] ++ [lit "ipaddr", lit "subnet"] ++
      [lit "ipaddrv6", lit "subnetv6"] ++ [lit "mtu"] ++ [lit "gateway", lit "gatewayv6"],
      isName tag = true := by decide
  exact fun p hp => hnames p.1 (htags.subset (mem_map_of_mem hp))

/-- A property of elements without children that allows the literals and a list of texts. -/
def Allows (P : Text → Text → Prop) (allowed : List Text) : Prop :=
  ∀ tag, isName tag = true → ∀ text ∈ literals ++ allowed, P tag text

variable {encoded : Option Text} {dns : List Text} {role protocol : Text} {a : Text × Resolved}

section Only

variable {P : Text → Text → Prop} {allowed : List Text} {e : Element}

lemma Allows.literal (hP : Allows P allowed) (htag : isName tag = true) (htext : text ∈ literals) :
    P tag text :=
  hP tag htag text (mem_append_left _ htext)

lemma Allows.stored (hP : Allows P allowed) (htag : isName tag = true) (htext : text ∈ allowed) :
    P tag text :=
  hP tag htag text (mem_append_right _ htext)

lemma Allows.blank (hP : Allows P allowed) {tag : Text} (htag : isName tag = true) : P tag [] :=
  hP.literal htag mem_cons_self

/-- `set_text` with a literal. -/
lemma Allows.setLiteral (hP : Allows P allowed) (htag : isName tag = true) (htext : text ∈ literals)
    (he : Every P e) : Every P (e.setText tag text) :=
  he.setText (hP.blank htag) (hP.literal htag htext)

/-- `set_text` with another text. -/
lemma Allows.setStored (hP : Allows P allowed) (htag : isName tag = true) (htext : text ∈ allowed)
    (he : Every P e) : Every P (e.setText tag text) :=
  he.setText (hP.blank htag) (hP.stored htag htext)

variable (hP : Allows P allowed)
include hP

lemma every_lockoutOff (sole : Bool) (he : Every P e) : Every P (lockoutOff sole e) := by
  unfold lockoutOff
  split_ifs
  · exact he.child (hP.blank (by decide)) fun c _ hc => hP.setLiteral (by decide) (by decide) hc
  · exact he

lemma every_lock (he : Every P e) : Every P (lock e) :=
  hP.setLiteral (by decide) (by decide) (((he.removeFirst _).removeFirst _).removeFirst _)

lemma every_setKeys (hkeys : encoded.toList ⊆ allowed) (he : Every P e) :
    Every P (setKeys encoded e) := by
  cases encoded with
  | none => exact he
  | some text => exact hP.setStored (by decide) (hkeys mem_cons_self) he

lemma every_enableSsh (keys : List Text) (he : Every P e) : Every P (enableSsh keys e) := by
  unfold enableSsh
  split_ifs
  · exact he
  · refine he.child (hP.blank (by decide)) fun c _ hc => ?_
    exact hP.setLiteral (by decide) (by decide) (hP.setLiteral (by decide) (by decide) hc)

lemma every_setDns (hdns : dns ⊆ allowed) (he : Every P e) : Every P (setDns dns e) := by
  rw [setDns_eq]
  refine he.withChildren fun c hc => ?_
  rcases mem_append.mp hc with hc | hc
  · exact he.of_mem (mem_filter.mp hc).1
  · obtain ⟨t, ht, rfl⟩ := mem_map.mp hc
    exact every_leaf (hP.stored (by decide) (hdns (((firstOccurrences_distinct dns).mem t).mp ht)))

lemma every_systemOf (sole : Bool) {texts : List (Text × Text)} (keys : List Text) (locks : Bool)
    (htags : ∀ p ∈ texts, isName p.1 = true) (htexts : texts.map Prod.snd ⊆ allowed)
    (hkeys : encoded.toList ⊆ allowed) (hdns : dns ⊆ allowed) (he : Every P e) :
    Every P (systemOf sole texts keys encoded dns locks e) := by
  have hbefore : Every P ((lockoutOff sole e).setTexts texts) :=
    (every_lockoutOff hP sole he).setTexts fun p hp =>
      ⟨hP.blank (htags p hp), hP.stored (htags p hp) (htexts (mem_map_of_mem hp))⟩
  have haccount : Every P (onAdmin (fun admin => setKeys encoded (if locks then lock admin else admin))
      ((lockoutOff sole e).setTexts texts)) := by
    refine hbefore.withChildren (every_onFirst (fun c hc => every_setKeys hP hkeys ?_)
      (every_iff.mp hbefore).2)
    split_ifs
    · exact every_lock hP hc
    · exact hc
  exact every_setDns hP hdns (every_enableSsh hP keys haccount)

lemma every_setInterfaces (hroles : ∀ a ∈ assignments, isName a.1 = true)
    (htexts : ∀ a ∈ assignments, (interfaceTexts lib a).map Prod.snd ⊆ allowed) (he : Every P e) :
    Every P (setInterfaces lib assignments e) := by
  rw [setInterfaces_eq]
  refine he.withChildren (forall_mem_map.mpr fun a ha => ?_)
  rw [interfaceNode_eq]
  refine every_mk.mpr ⟨hP.blank (hroles a ha), forall_mem_map.mpr fun p hp => every_leaf ?_⟩
  exact hP.stored (isName_interfaceTexts a p hp) (htexts a ha (mem_map_of_mem hp))

lemma every_gatewayItem {name : Text} {value : Value}
    (hstored : gatewayStored lib role name value ⊆ allowed) (hprotocol : protocol ∈ literals) :
    ∀ c ∈ gatewayItem lib role name protocol value, Every P c := by
  unfold gatewayItem
  unfold gatewayStored at hstored
  split_ifs at hstored ⊢
  · simp only [cons_subset, nil_subset, and_true] at hstored
    simp only [forall_mem_cons, not_mem_nil, false_imp_iff, implies_true, and_true, every_mk]
    exact ⟨hP.blank (by decide), every_leaf (hP.stored (by decide) hstored.1),
      every_leaf (hP.stored (by decide) hstored.2.1), hP.stored (by decide) hstored.2.2,
      every_leaf (hP.literal (by decide) hprotocol), every_leaf (hP.literal (by decide) (by decide))⟩
  · exact fun c hc => absurd hc not_mem_nil

lemma every_setGateways
    (hstored : ∀ a ∈ assignments, gatewayStored lib a.1 (gatewayName a.1) (gateway4 a.2) ⊆ allowed ∧ gatewayStored lib a.1 (gatewayNameV6 a.1) (gateway6 a.2) ⊆ allowed)
    (he : Every P e) : Every P (setGateways lib assignments e) := by
  rw [setGateways_eq]
  refine he.withChildren fun c hc => ?_
  rcases mem_append.mp hc with hc | hc
  · exact he.of_mem (mem_filter.mp hc).1
  · obtain ⟨a, ha, hc | hc⟩ := mem_gatewayItems.mp hc
    · exact every_gatewayItem hP (hstored a ha).1 (by decide) c hc
    · exact every_gatewayItem hP (hstored a ha).2 (by decide) c hc

lemma every_opening {source : Option Text} (version : ℕ) (hsource : source.toList ⊆ allowed) :
    Every P (opening source version) := by
  have hfamily : (if version = 6 then lit "inet6" else lit "inet") ∈ literals := by
    split_ifs <;> decide
  have hnetwork : (if version = 6 then lit "wanip6" else lit "wanip") ∈ literals := by
    split_ifs <;> decide
  simp only [opening, textElement, every_mk, forall_mem_cons, not_mem_nil, false_imp_iff,
    implies_true, and_true]
  refine ⟨hP.blank (by decide), hP.literal (by decide) (by decide), hP.literal (by decide) (by decide),
    hP.literal (by decide) hfamily, hP.literal (by decide) (by decide),
    hP.literal (by decide) (by decide), ⟨hP.blank (by decide), ?_⟩, hP.blank (by decide),
    hP.literal (by decide) hnetwork, hP.literal (by decide) (by decide)⟩
  cases source with
  | none => exact every_leaf (hP.blank (by decide))
  | some text => exact every_leaf (hP.stored (by decide) (hsource mem_cons_self))

lemma every_setFilter {sole : Bool} {keys : List Text} {cidrs : List Address}
    (hcidrs : sole = true ∧ keys ≠ [] → cidrs.map Address.text ⊆ allowed) (he : Every P e) :
    Every P (setFilter sole keys cidrs e) := by
  rw [setFilter_eq]
  refine he.withChildren fun c hc => ?_
  rcases mem_append.mp hc with hc | hc
  · exact he.of_mem (mem_filter.mp hc).1
  split_ifs at hc with hopen
  · cases cidrs with
    | nil =>
      rcases mem_pair.mp hc with rfl | rfl
      · exact every_opening hP 4 (nil_subset _)
      · exact every_opening hP 6 (nil_subset _)
    | cons a cidrs =>
      obtain ⟨b, hb, rfl⟩ := mem_map.mp hc
      refine every_opening hP b.version (cons_subset.mpr ⟨?_, nil_subset _⟩)
      exact hcidrs hopen (mem_map_of_mem hb)
  · cases hc

lemma every_setCloudinit {instanceId : Text} (hid : instanceId ∈ allowed) (he : Every P e) :
    Every P (setCloudinit instanceId e) :=
  hP.setLiteral (by decide) (by decide) (hP.setStored (by decide) hid he)

end Only

/-! ## The configuration -/

section Root

variable {metadata : Dict} {instanceId : Text} {keys : List Text} {cidrs : List Address}
  {assignments : List (Text × Resolved)} {locks : Bool} {root root' : Element}

lemma isName_hostTexts (metadata : Dict) :
    ∀ p ∈ hostnameTexts metadata ++ timezoneTexts metadata, isName p.1 = true := by
  have hnames : ∀ tag ∈ textTags, isName tag = true := by decide
  exact fun p hp => hnames p.1 ((tags_hostTexts metadata).subset (mem_map_of_mem hp))

lemma flatMap_subset_iff {α : Type} {f : α → List Text} {l : List α} {allowed : List Text} :
    l.flatMap f ⊆ allowed ↔ ∀ a ∈ l, f a ⊆ allowed := by
  simp only [subset_def, mem_flatMap]
  exact ⟨fun h a ha t ht => h ⟨a, ha, ht⟩, fun h t ⟨a, ha, ht⟩ => h a ha ht⟩

lemma storedTexts_subset {allowed : List Text} :
    storedTexts lib metadata instanceId keys cidrs assignments ⊆ allowed ↔
      instanceId ∈ allowed ∧
        (hostnameTexts metadata ++ timezoneTexts metadata).map Prod.snd ⊆ allowed ∧
        keyTexts lib keys ⊆ allowed ∧
        (∀ a ∈ assignments, resolverTexts lib a ⊆ allowed ∧
          (interfaceTexts lib a).map Prod.snd ⊆ allowed ∧
          gatewayStored lib a.1 (gatewayName a.1) (gateway4 a.2) ⊆ allowed ∧
          gatewayStored lib a.1 (gatewayNameV6 a.1) (gateway6 a.2) ⊆ allowed) ∧
        openingTexts keys cidrs assignments ⊆ allowed := by
  simp only [storedTexts, networkTexts, cons_subset, append_subset, flatMap_subset_iff,
    and_assoc]

/-- **Nothing else is added.**  What holds of the tree before, of the literals and of the texts of
the list, holds of the tree afterwards. -/
theorem every_provisionRoot {P : Text → Text → Prop}
    (hP : Allows P (storedTexts lib metadata instanceId keys cidrs assignments))
    (hroles : ∀ a ∈ assignments, isName a.1 = true) (hroot : Every P root)
    (h : provisionRoot lib metadata instanceId keys cidrs assignments locks root = .ok root') :
    Every P root' := by
  obtain ⟨hid, hhost, hkeys, hnetwork, hopening⟩ := storedTexts_subset.mp
    (List.Subset.refl (storedTexts lib metadata instanceId keys cidrs assignments))
  simp only [provisionRoot, bind_eq_ok, pure_eq_ok] at h
  obtain ⟨system, hsystem, rfl⟩ := h
  obtain ⟨encoded, hencoded, rfl⟩ := provisionSystem_systemOf hsystem
  have hbefore : Every P ((root.find systemTag).getD (empty systemTag)) := by
    cases hfind : root.find systemTag with
    | none => exact every_empty (hP.blank (by decide))
    | some s => exact (hroot.find hfind).1
  have hafter := every_systemOf hP (assignments.length = 1) keys locks (isName_hostTexts metadata) hhost (hencoded ▸ hkeys)
    (flatMap_subset_iff.mpr fun a ha => (hnetwork a ha).1) hbefore
  refine (((((hroot.child (hP.blank (by decide)) fun _ _ _ => hafter).child (hP.blank (by decide))
    fun c _ hc => ?_).child (hP.blank (by decide)) fun c _ hc => ?_).child (hP.blank (by decide))
    fun c _ hc => ?_).child (hP.blank (by decide)) fun c _ hc => ?_)
  · exact every_setInterfaces hP hroles (fun a ha => (hnetwork a ha).2.1) hc
  · exact every_setGateways hP (fun a ha => (hnetwork a ha).2.2) hc
  · refine every_setFilter hP (fun hopen => ?_) hc
    rwa [openingTexts, if_pos ⟨of_decide_eq_true hopen.1, hopen.2⟩] at hopening
  · exact every_setCloudinit hP hid hc

/-! ## Nothing is lost -/

lemma find_system
    (h : provisionRoot lib metadata instanceId keys cidrs assignments locks root = .ok root') :
    ∃ encoded, keyTexts lib keys = encoded.toList ∧
      root'.find systemTag = some (systemOf (assignments.length = 1)
        (hostnameTexts metadata ++ timezoneTexts metadata) keys encoded
        (assignments.flatMap (resolverTexts lib)) locks
        ((root.find systemTag).getD (empty systemTag))) := by
  simp only [provisionRoot, bind_eq_ok, pure_eq_ok] at h
  obtain ⟨system, hsystem, rfl⟩ := h
  have hconst := keepsTag_provisionSystem hsystem
  obtain ⟨encoded, hencoded, rfl⟩ := provisionSystem_systemOf hsystem
  refine ⟨encoded, hencoded, ?_⟩
  rw [find_child_ne (keepsTag_setCloudinit _ _) (by decide),
    find_child_ne (keepsTag_setFilter _ _ _ _) (by decide),
    find_child_ne (keepsTag_setGateways _ _) (by decide),
    find_child_ne (keepsTag_setInterfaces _ _) (by decide), find_child hconst]

lemma every_sectionChildren {P : Text → Text → Prop} (hroot : Every P root) (name : Text) :
    ∀ c ∈ sectionChildren name root, Every P c := by
  rw [sectionChildren]
  cases hfind : root.find name with
  | none => simp
  | some s => exact fun c hc => (hroot.find hfind).1.of_mem hc

section Kept

variable {kept : List Text} (hkept : Every (fun _ text => text ∈ kept) root')
  (h : provisionRoot lib metadata instanceId keys cidrs assignments locks root = .ok root')
include hkept h

lemma hostTexts_kept : (hostnameTexts metadata ++ timezoneTexts metadata).map Prod.snd ⊆ kept := by
  obtain ⟨encoded, -, hfind⟩ := find_system h
  intro t ht
  obtain ⟨p, hp, rfl⟩ := mem_map.mp ht
  exact (hkept.find hfind).1.findtext (findtext_systemOf _ (tags_hostTexts metadata) hp)

lemma keyTexts_kept : keyTexts lib keys ⊆ kept := by
  obtain ⟨-, admin, encoded, hencoded, -, hadmin⟩ := provisionRoot_ok h
  obtain ⟨system, hfind, hsystem⟩ := Option.bind_eq_some_iff.mp hadmin
  rw [adminOf_eq] at hsystem
  have haccount := (hkept.find hfind).1.of_mem (mem_of_find?_eq_some hsystem)
  cases encoded with
  | none => simp [keyTexts, hencoded]
  | some text =>
    have hfield := findtext_authorizedkeys_setKeys (some text) (if locks then lock admin else admin)
    rw [keyTexts, hencoded]
    exact cons_subset.mpr ⟨haccount.findtext hfield, nil_subset _⟩

lemma resolverTexts_kept (ha : a ∈ assignments) : resolverTexts lib a ⊆ kept := by
  obtain ⟨dns, hdns, hservers⟩ := (written_of_provisionRoot h).resolvers
  intro t ht
  have hmem : t ∈ dnsservers root' := by
    rw [hservers, (firstOccurrences_distinct _).mem, flatten_itemDns hdns]
    exact mem_flatMap.mpr ⟨a, ha, ht⟩
  obtain ⟨c, hc, rfl⟩ := mem_map.mp hmem
  exact (every_iff.mp (every_sectionChildren hkept systemTag c (mem_filter.mp hc).1)).1

lemma interfaceTexts_kept (ha : a ∈ assignments) : (interfaceTexts lib a).map Prod.snd ⊆ kept := by
  intro t ht
  obtain ⟨p, hp, rfl⟩ := mem_map.mp ht
  have hnode : Every (fun _ text => text ∈ kept) (interfaceNode lib a) := by
    refine every_sectionChildren hkept interfacesTag _ ?_
    rw [(written_of_provisionRoot h).interfaces]
    exact mem_map_of_mem ha
  rw [interfaceNode_eq] at hnode
  exact (every_mk.mp (hnode.of_mem (mem_map_of_mem hp))).1

omit h in
lemma gatewayStored_kept {name : Text} {value : Value}
    (hitem : ∀ c ∈ gatewayItem lib role name protocol value, c ∈ sectionChildren gatewaysTag root') :
    gatewayStored lib role name value ⊆ kept := by
  rw [gatewayStored]
  split_ifs with htruthy
  · obtain ⟨c, hc⟩ := exists_gatewayItem lib role name protocol htruthy
    have hevery := every_sectionChildren hkept gatewaysTag c (hitem c hc)
    obtain ⟨-, hrole, hvalue, hname, -⟩ := findtext_gatewayItem hc
    simp only [cons_subset, nil_subset, and_true]
    exact ⟨hevery.findtext hrole, hevery.findtext hvalue, hevery.findtext hname⟩
  · exact nil_subset _

lemma openingTexts_kept : openingTexts keys cidrs assignments ⊆ kept := by
  rw [openingTexts]
  split_ifs with hopen
  · intro t ht
    obtain ⟨a, ha, rfl⟩ := mem_map.mp ht
    have hrule : opening (some a.text) a.version ∈ sectionChildren filterTag root' := by
      rw [← children_headD_findall, (provisionRoot_sections h).1, headD_cons, children_setFilter,
        if_pos ⟨decide_eq_true hopen.1, hopen.2⟩]
      refine mem_append_right _ ?_
      cases cidrs with
      | nil => cases ha
      | cons b cidrs => exact mem_map_of_mem (f := fun a => opening (some a.text) a.version) ha
    have hevery := every_sectionChildren hkept filterTag _ hrule
    have hsource : (opening (some a.text) a.version).findtext₂ (lit "source") (lit "address")
        = some a.text := rfl
    exact hevery.findtext₂ hsource
  · exact nil_subset _

/-- **Nothing is lost.**  The texts of the list are in the tree afterwards. -/
theorem storedTexts_kept :
    storedTexts lib metadata instanceId keys cidrs assignments ⊆ kept := by
  have hgateways := (written_of_provisionRoot h).gateways
  have hitems : ∀ c ∈ gatewayItems lib assignments, c ∈ sectionChildren gatewaysTag root' := by
    intro c hc
    rw [hgateways]
    exact mem_append_right _ hc
  refine storedTexts_subset.mpr ⟨hkept.findtext₂ (provisionRoot_ok h).1, hostTexts_kept hkept h,
    keyTexts_kept hkept h, fun a ha => ⟨resolverTexts_kept hkept h ha, interfaceTexts_kept hkept h ha,
      ?_, ?_⟩, openingTexts_kept hkept h⟩
  · exact gatewayStored_kept hkept fun c hc => hitems c (mem_gatewayItems.mpr ⟨a, ha, .inl hc⟩)
  · exact gatewayStored_kept hkept fun c hc => hitems c (mem_gatewayItems.mpr ⟨a, ha, .inr hc⟩)

end Kept

/-- The tree afterwards has the texts of the list, and else only those of the tree before and the
literals. -/
structure Stores (stored : List Text) (root root' : Element) : Prop where
  kept : stored ⊆ texts root'
  only : ∀ t ∈ texts root', t ∈ texts root ∨ t ∈ literals ∨ t ∈ stored
  names : Every (fun tag _ => isName tag = true) root → Every (fun tag _ => isName tag = true) root'

theorem stores_of_provisionRoot (hroles : ∀ a ∈ assignments, isName a.1 = true)
    (h : provisionRoot lib metadata instanceId keys cidrs assignments locks root = .ok root') :
    Stores (storedTexts lib metadata instanceId keys cidrs assignments) root root' := by
  refine ⟨storedTexts_kept (every_texts root') h, every_iff_texts.mp ?_, fun hnames => ?_⟩
  · refine every_provisionRoot (fun tag _ t ht => .inr (mem_append.mp ht)) hroles ?_ h
    exact (every_texts root).imp fun _ _ => .inl
  · exact every_provisionRoot (fun tag htag _ _ => htag) hroles hnames h

end Root

end FreeSense.CloudInit
