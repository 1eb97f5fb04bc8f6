import FreeSensePorts.CloudInit.Written

/-!
# The gateways and their references

An interface names its gateways, and a gateway its interface.  Both are written from the list of the
assigned interfaces, and the gateways of the call before are taken away in between; so the references
fit in both directions (`ReferencesFit`) as long as no two roles have the same gateway, and the
administrator has no gateway of such a name.
-/

namespace FreeSense.CloudInit

open Python Xml Element
open List hiding get

variable {lib : Library}

/-- A family: the field of the interface, the protocol of the gateway, the name it gets, and where it
comes from. -/
structure Family where
  field : Text
  protocol : Text
  name : Text → Text
  value : Resolved → Value

def inet : Family := ⟨lit "gateway", lit "inet", gatewayName, gateway4⟩

def inet6 : Family := ⟨lit "gatewayv6", lit "inet6", gatewayNameV6, gateway6⟩

def families : List Family := [inet, inet6]

/-- The elements `gateway_item`. -/
def gatewaysOf (root : Element) : List Element :=
  (sectionChildren gatewaysTag root).filter (hasTag gatewayItemTag)

/-- **The references fit**: each one names exactly one gateway, which is one of the metadata and
belongs to the interface, and each gateway of the metadata is named by exactly one interface. -/
structure ReferencesFit (root : Element) : Prop where
  named : ∀ f ∈ families, ∀ node ∈ sectionChildren interfacesTag root, ∀ name,
    node.findtext f.field = some name →
      ∃ g, (gatewaysOf root).filter (fun g => g.findtext nameTag = some name) = [g] ∧
        g.findtext (lit "descr") = some gatewayDescr ∧
        g.findtext (lit "interface") = some node.tag ∧ g.findtext (lit "ipprotocol") = some f.protocol
  referenced : ∀ g ∈ gatewaysOf root, g.findtext (lit "descr") = some gatewayDescr →
    ∃ f ∈ families, g.findtext (lit "ipprotocol") = some f.protocol ∧
      ∃ name node, g.findtext nameTag = some name ∧ (sectionChildren interfacesTag root).filter
        (fun node => node.findtext f.field = some name) = [node]

/-- No gateway of the administrator has a name that a gateway of the metadata may get. -/
def NoForeign (root : Element) : Prop :=
  ∀ g ∈ gatewaysOf root, g.findtext (lit "descr") ≠ some gatewayDescr →
    ∀ f ∈ families, ∀ role, isRole role = true → g.findtext nameTag ≠ some (f.name role)

/-! ## Names -/

lemma toLower_toUpper_of_digit {c : Char} (h : '0' ≤ c ∧ c ≤ '9') : c.toUpper.toLower = c := by
  have hdigits : ∀ n < 58, 48 ≤ n → (Char.ofNat n).toUpper.toLower = Char.ofNat n := by decide
  have hlo : 48 ≤ c.toNat := h.1
  have hhi : c.toNat ≤ 57 := h.2
  have hc := hdigits c.toNat (by omega) hlo
  rwa [Char.ofNat_toNat] at hc

lemma map_toLower_toUpper {role : Text} (h : isRole role = true) :
    (role.map Char.toUpper).map Char.toLower = role := by
  rcases of_decide_eq_true h with rfl | rfl | ⟨hopt, -, hdigits⟩
  · decide
  · decide
  · rw [← take_append_drop 3 role, hopt, map_append, map_append, map_map,
      map_map]
    refine congrArg₂ (· ++ ·) (by decide) ((map_congr_left fun c hc => ?_).trans (map_id _))
    exact toLower_toUpper_of_digit (of_decide_eq_true (all_eq_true.mp hdigits c hc))

variable {r s : Text} {f : Family} {a : Text × Resolved} {assigned : List (Text × Resolved)}
  {detected : List Detected} {g : Element} {files files' : Files} {c : Call}

lemma gatewayName_injective (hr : isRole r = true) (hs : isRole s = true)
    (h : gatewayName r = gatewayName s) : r = s := by
  rw [← map_toLower_toUpper hr, ← map_toLower_toUpper hs, append_cancel_right h]

lemma gatewayName_ne_gatewayNameV6 (r s : Text) : gatewayName r ≠ gatewayNameV6 s := by
  intro h
  have hlast := congrArg List.getLast? h
  rw [gatewayName, gatewayNameV6, getLast?_append, getLast?_append] at hlast
  have hchars : 'W' = '6' := Option.some.inj hlast
  exact absurd hchars (by decide)

lemma name_injective {f' : Family} (hf : f ∈ families) (hf' : f' ∈ families) (hr : isRole r = true)
    (hs : isRole s = true) (h : f.name r = f'.name s) : f = f' ∧ r = s := by
  simp only [families, mem_cons, not_mem_nil, or_false] at hf hf'
  rcases hf with rfl | rfl
  · rcases hf' with rfl | rfl
    · exact ⟨rfl, gatewayName_injective hr hs h⟩
    · exact absurd h (gatewayName_ne_gatewayNameV6 r s)
  · rcases hf' with rfl | rfl
    · exact absurd h.symm (gatewayName_ne_gatewayNameV6 s r)
    · exact ⟨rfl, gatewayName_injective hr hs (append_cancel_right h)⟩

/-! ## The families -/

/-- Each interface has a role of its own. -/
structure Distinct (assignments : List (Text × Resolved)) : Prop where
  roles : (assignments.map Prod.fst).Nodup
  form : ∀ a ∈ assignments, isRole a.1 = true

def familyItem (lib : Library) (a : Text × Resolved) (f : Family) : List Element :=
  gatewayItem lib a.1 (f.name a.1) f.protocol (f.value a.2)

lemma gatewayItems_eq (assignments : List (Text × Resolved)) :
    gatewayItems lib assignments = assignments.flatMap fun a => families.flatMap (familyItem lib a) := by
  refine congrArg (fun g => assignments.flatMap g) (funext fun a => ?_)
  rw [families, flatMap_cons, flatMap_singleton]
  rfl

lemma findtext_family (hf : f ∈ families) (a : Text × Resolved) :
    (interfaceNode lib a).findtext f.field
      = if (f.value a.2).truthy then some (f.name a.1) else none := by
  obtain ⟨hfour, hsix⟩ := findtext_gateway lib a
  simp only [families, mem_cons, not_mem_nil, or_false] at hf
  rcases hf with rfl | rfl
  · exact hfour
  · exact hsix

def familyNames (lib : Library) (a : Text × Resolved) (f : Family) : List (Option Text) :=
  (familyItem lib a f).map (findtext nameTag)

lemma mem_familyNames {x : Option Text} (h : x ∈ familyNames lib a f) : x = some (f.name a.1) := by
  obtain ⟨c, hc, rfl⟩ := mem_map.mp h
  exact (findtext_gatewayItem hc).2.2.2.1

lemma nodup_familyNames (a : Text × Resolved) (f : Family) : (familyNames lib a f).Nodup := by
  rw [familyNames, familyItem, gatewayItem]
  split_ifs
  · exact nodup_singleton _
  · exact nodup_nil

lemma names_gatewayItems {assignments : List (Text × Resolved)} (h : Distinct assignments) :
    ((gatewayItems lib assignments).map (findtext nameTag)).Nodup := by
  have hnames : (gatewayItems lib assignments).map (findtext nameTag)
      = assignments.flatMap fun a => families.flatMap (familyNames lib a) := by
    simp only [gatewayItems_eq, map_flatMap]
    rfl
  have hfamilies : families.Pairwise fun f f' => f.field ≠ f'.field := by decide
  rw [hnames, nodup_flatMap]
  constructor
  · intro a ha
    refine nodup_flatMap.mpr ⟨fun f _ => nodup_familyNames a f, ?_⟩
    refine hfamilies.imp_of_mem fun hf hf' hne x hx hx' => hne ?_
    have hsame := (mem_familyNames hx).symm.trans (mem_familyNames hx')
    rw [(name_injective hf hf' (h.form a ha) (h.form a ha) (Option.some.inj hsame)).1]
  · refine (pairwise_map.mp h.roles).imp_of_mem fun {a b} ha hb hne x hx hx' => hne ?_
    obtain ⟨f, hf, hx⟩ := mem_flatMap.mp hx
    obtain ⟨f', hf', hx'⟩ := mem_flatMap.mp hx'
    have hsame := (mem_familyNames hx).symm.trans (mem_familyNames hx')
    exact (name_injective hf hf' (h.form a ha) (h.form b hb) (Option.some.inj hsame)).2

lemma mem_gatewayItems_family {assignments : List (Text × Resolved)} {c : Element} :
    c ∈ gatewayItems lib assignments ↔ ∃ a ∈ assignments, ∃ f ∈ families, c ∈ familyItem lib a f := by
  simp only [gatewayItems_eq, mem_flatMap]

/-! ## The assigned roles -/

lemma distinct_soleWan (h : Distinct assigned) : Distinct (soleWan assigned) := by
  match assigned, h with
  | [], h => exact h
  | [_], _ =>
    have hwan : isRole (lit "wan") = true := by decide
    exact ⟨nodup_singleton _, forall_mem_singleton.mpr hwan⟩
  | _ :: _ :: _, h => exact h

lemma gateway_soleWan (h : ∀ a ∈ assigned, ∃ first, a.2.raw = [(lit "dhcp4", .bool first)]) :
    ∀ a ∈ soleWan assigned, (gateway4 a.2).truthy = false ∧ (gateway6 a.2).truthy = false := by
  match assigned, h with
  | [], _ => simp [soleWan]
  | [a], h =>
    obtain ⟨first, hraw⟩ := h a mem_cons_self
    refine forall_mem_singleton.mpr ?_
    simp only [gateway4, gateway6, hraw]
    exact ⟨rfl, rfl⟩
  | a :: b :: l, h =>
    intro c hc
    obtain ⟨first, hraw⟩ := h c hc
    rw [gateway4, gateway6, hraw]
    exact ⟨rfl, rfl⟩

/-- Of the assigned interfaces, those with a gateway have roles of their own. -/
lemma distinct_of_assigned {i : Import} (h : assignedOf lib i detected = .ok assigned) :
    Distinct (soleWan assigned) ∨
      ∀ a ∈ soleWan assigned, (gateway4 a.2).truthy = false ∧ (gateway6 a.2).truthy = false := by
  by_cases hnil : i.network = []
  · rcases items_of_resolveInterfaces h with heq | ⟨-, hnone⟩
    · rw [hnil, map_eq_nil_iff] at heq
      rw [heq]
      exact .inl ⟨nodup_nil, by simp [soleWan]⟩
    · exact .inr (gateway_soleWan fun a ha => (hnone a ha).1)
  · obtain ⟨_, _, mappings, _, _, _, _, _, hmappings, -⟩ := resolveInterfaces_ok h
    have hassigned := assigned_of_devices (fun hn => absurd hn hnil) hmappings h
    exact .inl (distinct_soleWan ⟨hassigned.roles, hassigned.form⟩)

/-! ## One call -/

/-- A gateway with a description that is not the program's is one of the administrator. -/
lemma foreign_of_other {root : Element}
    (hg : g ∈ (gatewaysOf root).filter fun g => !hasDescr gatewayItemTag gatewayDescr g) :
    g ∈ gatewaysOf root ∧ g.findtext (lit "descr") ≠ some gatewayDescr := by
  obtain ⟨hmem, hno⟩ := mem_filter.mp hg
  refine ⟨hmem, fun heq => ?_⟩
  have htag := (mem_filter.mp hmem).2
  simp [hasDescr, htag, heq] at hno

section Written

variable {assignments : List (Text × Resolved)} {root root' : Element}
  (h : Written lib assignments root root')
include h

/-- The gateways are those of the administrator, and those of the call. -/
lemma gatewaysOf_written : gatewaysOf root' = (gatewaysOf root).filter
    (fun g => !hasDescr gatewayItemTag gatewayDescr g) ++ gatewayItems lib assignments := by
  have hitems : (gatewayItems lib assignments).filter (hasTag gatewayItemTag)
      = gatewayItems lib assignments := filter_eq_self.mpr fun c hc =>
    (Bool.and_eq_true_iff.mp (hasDescr_gatewayItems hc)).1
  rw [gatewaysOf, h.gateways, filter_append, hitems, otherGateways, filter_filter, gatewaysOf,
    filter_filter]
  simp only [Bool.and_comm]

lemma noForeign_written (hforeign : NoForeign root) : NoForeign root' := by
  intro g hg hdescr
  rw [gatewaysOf_written h, mem_append] at hg
  rcases hg with hg | hg
  · obtain ⟨hmem, hno⟩ := foreign_of_other hg
    exact hforeign g hmem hno
  · have := (Bool.and_eq_true_iff.mp (hasDescr_gatewayItems hg)).2
    exact absurd (of_decide_eq_true this) hdescr

lemma filter_name (hforeign : NoForeign root) (hdistinct : Distinct assignments)
    (ha : a ∈ assignments) (hf : f ∈ families) (hg : g ∈ familyItem lib a f) :
    (gatewaysOf root').filter (fun g => g.findtext nameTag = some (f.name a.1)) = [g] := by
  have hname : g.findtext nameTag = some (f.name a.1) := (findtext_gatewayItem hg).2.2.2.1
  have hother : ((gatewaysOf root).filter fun g => !hasDescr gatewayItemTag gatewayDescr g).filter
      (fun g => g.findtext nameTag = some (f.name a.1)) = [] := by
    refine filter_eq_nil_iff.mpr fun c hc heq => ?_
    obtain ⟨hmem, hno⟩ := foreign_of_other hc
    exact hforeign c hmem hno f hf a.1 (hdistinct.form a ha) (of_decide_eq_true heq)
  rw [gatewaysOf_written h, filter_append, hother, ← hname]
  exact filter_of_nodup_map (names_gatewayItems hdistinct)
    (mem_gatewayItems_family.mpr ⟨a, ha, f, hf, hg⟩)

lemma filter_reference (hdistinct : Distinct assignments) (ha : a ∈ assignments) (hf : f ∈ families)
    (htruthy : (f.value a.2).truthy = true) :
    (sectionChildren interfacesTag root').filter
      (fun node => node.findtext f.field = some (f.name a.1)) = [interfaceNode lib a] := by
  have hroles : ∀ b ∈ assignments,
      decide ((interfaceNode lib b).findtext f.field = some (f.name a.1)) = decide (b.1 = a.1) := by
    intro b hb
    rw [decide_eq_decide, findtext_family hf]
    constructor
    · intro heq
      split_ifs at heq
      exact (name_injective hf hf (hdistinct.form b hb) (hdistinct.form a ha) (Option.some.inj heq)).2
    · intro heq
      obtain rfl : b = a := inj_on_of_nodup_map hdistinct.roles hb ha heq
      rw [if_pos htruthy]
  have hone : assignments.filter
      (fun b => (interfaceNode lib b).findtext f.field = some (f.name a.1)) = [a] :=
    (filter_congr hroles).trans (filter_of_nodup_map hdistinct.roles ha)
  rw [h.interfaces, filter_map]
  exact congrArg (List.map (interfaceNode lib)) hone

theorem sound_of_distinct (hforeign : NoForeign root) (hdistinct : Distinct assignments) :
    ReferencesFit root' := by
  constructor
  · intro f hf node hnode name hname
    rw [h.interfaces] at hnode
    obtain ⟨a, ha, rfl⟩ := mem_map.mp hnode
    rw [findtext_family hf] at hname
    split_ifs at hname with htruthy
    obtain rfl := Option.some.inj hname
    obtain ⟨g, hg⟩ := exists_gatewayItem lib a.1 (f.name a.1) f.protocol htruthy
    obtain ⟨-, hinterface, -, -, hprotocol⟩ := findtext_gatewayItem hg
    have hitem := mem_gatewayItems_family.mpr ⟨a, ha, f, hf, hg⟩
    refine ⟨g, filter_name h hforeign hdistinct ha hf hg,
      of_decide_eq_true (Bool.and_eq_true_iff.mp (hasDescr_gatewayItems hitem)).2, ?_, hprotocol⟩
    rw [hinterface, interfaceNode_eq]
    rfl
  · intro g hg hdescr
    rw [gatewaysOf_written h, mem_append] at hg
    rcases hg with hg | hg
    · exact absurd hdescr (foreign_of_other hg).2
    · obtain ⟨a, ha, f, hf, hin⟩ := mem_gatewayItems_family.mp hg
      obtain ⟨htruthy, -, -, hname, hprotocol⟩ := findtext_gatewayItem hin
      exact ⟨f, hf, hprotocol, _, _, hname, filter_reference h hdistinct ha hf htruthy⟩

/-- Without gateways there is nothing to refer to. -/
theorem sound_of_none
    (hnone : ∀ a ∈ assignments, (gateway4 a.2).truthy = false ∧ (gateway6 a.2).truthy = false) :
    ReferencesFit root' := by
  have hfalse : ∀ f ∈ families, ∀ a ∈ assignments, (f.value a.2).truthy = false := by
    intro f hf a ha
    simp only [families, mem_cons, not_mem_nil, or_false] at hf
    rcases hf with rfl | rfl
    · exact (hnone a ha).1
    · exact (hnone a ha).2
  constructor
  · intro f hf node hnode name hname
    rw [h.interfaces] at hnode
    obtain ⟨a, ha, rfl⟩ := mem_map.mp hnode
    rw [findtext_family hf, hfalse f hf a ha] at hname
    cases hname
  · intro g hg hdescr
    rw [gatewaysOf_written h, mem_append] at hg
    rcases hg with hg | hg
    · exact absurd hdescr (foreign_of_other hg).2
    · obtain ⟨a, ha, f, hf, hin⟩ := mem_gatewayItems_family.mp hg
      exact absurd (findtext_gatewayItem hin).1 (by simp [hfalse f hf a ha])

end Written

/-! ## Histories -/

/-- There is a configuration, and no gateway in it is in the way. -/
def Clear (files : Files) : Prop := ∃ root, files.config = some root ∧ NoForeign root

def FittingFiles (files : Files) : Prop := ∃ root, files.config = some root ∧ NoForeign root ∧ ReferencesFit root

lemma FittingFiles.clear (h : FittingFiles files) : Clear files :=
  let ⟨root, hroot, hforeign, _⟩ := h
  ⟨root, hroot, hforeign⟩

lemma sound_of_apply {metadata : Dict} (hfiles : Clear files)
    (h : apply lib metadata detected files = .ok (true, files')) : FittingFiles files' := by
  obtain ⟨i, assigned, root, root', -, hassigned, hroot, hroot', hwritten⟩ := written_of_apply h
  obtain ⟨root₀, hroot₀, hforeign⟩ := hfiles
  obtain rfl : root₀ = root := Option.some.inj (hroot₀.symm.trans hroot)
  refine ⟨root', hroot', noForeign_written hwritten hforeign, ?_⟩
  rcases distinct_of_assigned hassigned with hdistinct | hnone
  · exact sound_of_distinct hwritten hforeign hdistinct
  · exact sound_of_none hwritten hnone

lemma called_sound (hc : Called lib files c files') :
    (c.returned = some true → Clear files → FittingFiles files') ∧
      (c.returned ≠ some true → files' = files) := by
  refine ⟨fun htrue hfiles => ?_, hc.files_eq⟩
  simp only [Called, htrue] at hc
  exact sound_of_apply hfiles hc

lemma called_keeps (hc : Called lib files c files') :
    (Clear files → Clear files') ∧ (FittingFiles files → FittingFiles files') := by
  by_cases htrue : c.returned = some true
  · exact ⟨fun hfiles => ((called_sound hc).1 htrue hfiles).clear,
      fun hfiles => (called_sound hc).1 htrue hfiles.clear⟩
  · rw [(called_sound hc).2 htrue]
    exact ⟨id, id⟩

/-- **The references fit** after every history of calls with one that returned `True`, if no gateway
was in the way at its start. -/
theorem gateways_sound {files final : Files} {root : Element} {cs : List Call}
    (hroot : files.config = some root) (hforeign : NoForeign root)
    (r : Run (Called lib) files cs final) (htrue : ∃ c ∈ cs, c.returned = some true) :
    ∃ root', final.config = some root' ∧ ReferencesFit root' := by
  obtain ⟨c, hc, hreturned⟩ := htrue
  obtain ⟨before, after, rfl⟩ := append_of_mem hc
  obtain ⟨found, hbefore, r⟩ := r.append_inv
  have hfound : Clear found :=
    hbefore.invariant (I := Clear) (fun _ _ _ hI hstep => (called_keeps hstep).1 hI)
      ⟨root, hroot, hforeign⟩
  cases r with
  | cons hcall hafter =>
    have hsound := (called_sound hcall).1 hreturned hfound
    obtain ⟨root', hroot', -, hfits⟩ :=
      hafter.invariant (I := FittingFiles) (fun _ _ _ hI hstep => (called_keeps hstep).2 hI) hsound
    exact ⟨root', hroot', hfits⟩

/-! ## Two interfaces with gateways -/

def gatewayImage : Element :=
  .mk (lit "freesense") [] [
    .mk systemTag [] [.mk userTag [] [leaf "name" "admin"]],
    .mk gatewaysTag [] [.mk gatewayItemTag [] [leaf "name" "OFFICE_GW"]]]

def routedMetadata : Dict :=
  [(lit "instance_id", .str (lit "i-1")), (lit "network", .dict [(lit "interfaces", .list [
    .dict [(lit "name", .str (lit "vtnet0")), (lit "gateway4", .str (lit "192.0.2.1")),
      (lit "gateway6", .str (lit "2001:db8::1"))],
    .dict [(lit "name", .str (lit "vtnet1")), (lit "gateway4", .str (lit "198.51.100.1"))]])])]

def routedDetected : List Detected := ["vtnet0", "vtnet1"].map fun n => ⟨lit n, none⟩

def routedFiles : Files :=
  (outcome sampleLibrary routedMetadata routedDetected ⟨some gatewayImage, none, none, none⟩).2

theorem gateways_sound_routed :
    ∃ root', routedFiles.config = some root' ∧ (gatewaysOf root').length = 4 ∧ ReferencesFit root' := by
  have hforeign : NoForeign gatewayImage := by
    have hgateways : gatewaysOf gatewayImage = [.mk gatewayItemTag [] [leaf "name" "OFFICE_GW"]] := rfl
    intro g hg hdescr f hf role hrole hname
    rw [hgateways, mem_singleton] at hg
    have hnames : f.name role = lit "OFFICE_GW" := by
      rw [hg] at hname
      exact (Option.some.inj hname).symm
    -- the name is too short for a role in front
    have hlength : (f.name role).length = 9 := by rw [hnames]; rfl
    have hfour : (gatewayName role).length = role.length + 9 := by
      rw [gatewayName, length_append, length_map]
      rfl
    have hsix : (gatewayNameV6 role).length = role.length + 9 + 2 := by
      rw [gatewayNameV6, length_append, hfour]
      rfl
    have hnil : role = [] := by
      simp only [families, mem_cons, not_mem_nil, or_false] at hf
      rcases hf with rfl | rfl
      · have hsame := hfour.symm.trans hlength
        exact length_eq_zero_iff.mp (by omega)
      · have hsame := hsix.symm.trans hlength
        omega
    rw [hnil] at hrole
    exact absurd hrole (by decide)
  have hcall : Called sampleLibrary ⟨some gatewayImage, none, none, none⟩
      ⟨routedMetadata, routedDetected, some true⟩ routedFiles := apply_eq_true (by decide +kernel)
  obtain ⟨root', hroot', hsound⟩ := gateways_sound rfl hforeign (.cons hcall (.nil _))
    ⟨_, mem_cons_self, rfl⟩
  have hlength : routedFiles.config.map (fun root => (gatewaysOf root).length) = some 4 := by
    decide +kernel
  rw [hroot'] at hlength
  exact ⟨root', hroot', Option.some.inj hlength, hsound⟩

end FreeSense.CloudInit
