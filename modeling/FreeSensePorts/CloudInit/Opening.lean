import FreeSensePorts.CloudInit.Credentials

/-!
# The temporary opening for SSH

A machine with a single interface is reached through its WAN, so provisioning opens port 22 there
until the administrator takes over.  A call removes the rules of the call before, which it finds by
their description, and writes its own (`openings`); every other rule stays.  The gateways of the
metadata are kept apart from the administrator's in the same way.
-/

namespace FreeSense.CloudInit

open Python Xml Element
open List hiding sections

variable {lib : Library}

def filterTag : Text := "filter".toList

def gatewaysTag : Text := "gateways".toList

def ruleTag : Text := "rule".toList

def gatewayItemTag : Text := "gateway_item".toList

/-! ## Rules by their description -/

/-- What is in the section of the rules, or of the gateways. -/
def sectionChildren (name : Text) (root : Element) : List Element :=
  ((root.find name).map children).getD []

def temporaryRules (root : Element) : List Element :=
  (sectionChildren filterTag root).filter (hasDescr ruleTag sshDescr)

def otherRules (root : Element) : List Element :=
  (sectionChildren filterTag root).filter fun c => !hasDescr ruleTag sshDescr c

def otherGateways (root : Element) : List Element :=
  (sectionChildren gatewaysTag root).filter fun c => !hasDescr gatewayItemTag gatewayDescr c

def textElement (tag : String) (text : Text) : Element := .mk tag.toList text []

/-- A rule for port 22 of the WAN address of one family.  `none` is any source. -/
def opening (source : Option Text) (version : ℕ) : Element :=
  .mk ruleTag []
    [textElement "type" (lit "pass"), textElement "interface" (lit "wan"),
      textElement "ipprotocol" (if version = 6 then lit "inet6" else lit "inet"),
      textElement "protocol" (lit "tcp"), textElement "descr" sshDescr,
      .mk (lit "source") []
        [match source with
          | none => textElement "any" []
          | some address => textElement "address" address],
      .mk (lit "destination") []
        [textElement "network" (if version = 6 then lit "wanip6" else lit "wanip"),
          textElement "port" (lit "22")]]

/-- One rule for each network, or one for each family. -/
def openingsFrom (cidrs : List Address) : List Element :=
  match cidrs with
  | [] => [opening none 4, opening none 6]
  | cidrs => cidrs.map fun a => opening (some a.text) a.version

lemma sshRule_empty (source : Option Text) (version : ℕ) :
    sshRule source version (empty (lit "rule")) = opening source version := by
  cases source <;> rfl

lemma hasDescr_opening (source : Option Text) (version : ℕ) :
    hasDescr ruleTag sshDescr (opening source version) = true := rfl

lemma map_sshSources (cidrs : List Address) :
    (sshSources cidrs).map (fun s => opening s.1 s.2) = openingsFrom cidrs := by
  cases cidrs with
  | nil => rfl
  | cons a l => simp [sshSources, openingsFrom]

lemma openingsFrom_ne_nil (cidrs : List Address) : openingsFrom cidrs ≠ [] := by
  cases cidrs <;> simp [openingsFrom]

lemma filter_openingsFrom (cidrs : List Address) :
    (openingsFrom cidrs).filter (hasDescr ruleTag sshDescr) = openingsFrom cidrs := by
  rw [← map_sshSources, filter_map]
  simp [Function.comp_def, hasDescr_opening]

lemma filter_not_openingsFrom (cidrs : List Address) :
    (openingsFrom cidrs).filter (fun c => !hasDescr ruleTag sshDescr c) = [] := by
  rw [← map_sshSources, filter_map]
  simp [Function.comp_def, hasDescr_opening]

/-! ## The section of the rules -/

lemma setFilter_eq (sole : Bool) (keys : List Text) (cidrs : List Address) (e : Element) :
    setFilter sole keys cidrs e = e.withChildren fun l =>
      l.filter (fun c => !hasDescr ruleTag sshDescr c) ++
        if sole = true ∧ keys ≠ [] then openingsFrom cidrs else [] := by
  unfold setFilter
  split_ifs
  · rw [foldl_sub, ← map_sshSources]
    simp only [sshRule_empty]
    rfl
  · simp only [append_nil]
    rfl

lemma children_setFilter (sole : Bool) (keys : List Text) (cidrs : List Address) (e : Element) :
    (setFilter sole keys cidrs e).children
      = e.children.filter (fun c => !hasDescr ruleTag sshDescr c)
        ++ if sole = true ∧ keys ≠ [] then openingsFrom cidrs else [] := by
  rw [setFilter_eq, children_withChildren]

lemma filter_setFilter (sole : Bool) (keys : List Text) (cidrs : List Address) (e : Element) :
    (setFilter sole keys cidrs e).children.filter (hasDescr ruleTag sshDescr)
      = if sole = true ∧ keys ≠ [] then openingsFrom cidrs else [] := by
  rw [children_setFilter, filter_append, filter_filter]
  simp only [Bool.and_not_self, filter_false, nil_append]
  split_ifs
  · exact filter_openingsFrom cidrs
  · rfl

lemma filter_not_setFilter (sole : Bool) (keys : List Text) (cidrs : List Address) (e : Element) :
    (setFilter sole keys cidrs e).children.filter (fun c => !hasDescr ruleTag sshDescr c)
      = e.children.filter fun c => !hasDescr ruleTag sshDescr c := by
  rw [children_setFilter, filter_append, filter_filter]
  simp only [Bool.and_self]
  split_ifs
  · rw [filter_not_openingsFrom, append_nil]
  · exact append_nil _

/-! ## The section of the gateways -/

def gatewayItem (lib : Library) (role name protocol : Text) (value : Value) : List Element :=
  if value.truthy then
    [.mk gatewayItemTag [] [textElement "interface" role,
      textElement "gateway" (lib.unicode.str value), .mk nameTag name [],
      textElement "ipprotocol" protocol, textElement "descr" gatewayDescr]]
  else []

def gatewayItems (lib : Library) (assignments : List (Text × Resolved)) : List Element :=
  assignments.flatMap fun a =>
    gatewayItem lib a.1 (gatewayName a.1) (lit "inet") (gateway4 a.2) ++
      gatewayItem lib a.1 (gatewayNameV6 a.1) (lit "inet6") (gateway6 a.2)

lemma addGateway_eq (role name protocol : Text) (value : Value) (e : Element) :
    addGateway lib role name protocol value e
      = e.withChildren (· ++ gatewayItem lib role name protocol value) := by
  unfold addGateway gatewayItem
  split_ifs
  · rfl
  · exact (withChildren_eq_self (append_nil _)).symm

lemma setGateways_eq (assignments : List (Text × Resolved)) (e : Element) :
    setGateways lib assignments e = e.withChildren fun l =>
      l.filter (fun c => !hasDescr gatewayItemTag gatewayDescr c) ++ gatewayItems lib assignments := by
  have hfold : ∀ (l : List (Text × Resolved)) (g : Element),
      l.foldl (fun g a => addGateway lib a.1 (gatewayNameV6 a.1) (lit "inet6") (gateway6 a.2)
          (addGateway lib a.1 (gatewayName a.1) (lit "inet") (gateway4 a.2) g)) g
        = g.withChildren (· ++ gatewayItems lib l) := by
    intro l
    induction l with
    | nil => exact fun g => (withChildren_eq_self (append_nil _)).symm
    | cons a l ih =>
      intro g
      rw [foldl_cons, ih, addGateway_eq, addGateway_eq, withChildren_withChildren,
        withChildren_withChildren]
      simp [gatewayItems]
  rw [setGateways, hfold]
  rfl

lemma hasDescr_gatewayItems {assignments : List (Text × Resolved)} {c : Element}
    (hc : c ∈ gatewayItems lib assignments) : hasDescr gatewayItemTag gatewayDescr c = true := by
  have hitem : ∀ {role name protocol value}, c ∈ gatewayItem lib role name protocol value →
      hasDescr gatewayItemTag gatewayDescr c = true := by
    intro role name protocol value h
    unfold gatewayItem at h
    split_ifs at h
    · rw [mem_singleton.mp h]
      rfl
    · cases h
  obtain ⟨a, -, h⟩ := mem_flatMap.mp hc
  rcases mem_append.mp h with h | h
  · exact hitem h
  · exact hitem h

lemma filter_not_setGateways (assignments : List (Text × Resolved)) (e : Element) :
    (setGateways lib assignments e).children.filter
        (fun c => !hasDescr gatewayItemTag gatewayDescr c)
      = e.children.filter fun c => !hasDescr gatewayItemTag gatewayDescr c := by
  have hnone : (gatewayItems lib assignments).filter
      (fun c => !hasDescr gatewayItemTag gatewayDescr c) = [] :=
    filter_eq_nil_iff.mpr fun c hc => by simp [hasDescr_gatewayItems hc]
  rw [setGateways_eq, children_withChildren, filter_append, hnone, append_nil,
    filter_filter]
  simp only [Bool.and_self]

/-! ## The configuration -/

lemma children_headD_findall (name : Text) (root : Element) :
    ((root.findall name).headD (empty name)).children = sectionChildren name root := by
  rw [sectionChildren, find_eq_head]
  cases root.findall name <;> rfl

/-- **The two sections** after provisioning. -/
theorem provisionRoot_sections {metadata : Dict} {instanceId : Text} {keys : List Text}
    {cidrs : List Address} {assignments : List (Text × Resolved)} {locks : Bool}
    {root root' : Element}
    (h : provisionRoot lib metadata instanceId keys cidrs assignments locks root = .ok root') :
    root'.findall filterTag
        = setFilter (assignments.length = 1) keys cidrs
            ((root.findall filterTag).headD (empty filterTag)) :: (root.findall filterTag).tail ∧
      root'.findall gatewaysTag
        = setGateways lib assignments ((root.findall gatewaysTag).headD (empty gatewaysTag))
            :: (root.findall gatewaysTag).tail := by
  simp only [provisionRoot, bind_eq_ok, pure_eq_ok] at h
  obtain ⟨system, hsystem, rfl⟩ := h
  have hconst := keepsTag_provisionSystem hsystem
  constructor
  · rw [findall_child_ne (keepsTag_setCloudinit _ _) (by decide), show filterTag = lit "filter" from rfl,
      findall_child (keepsTag_setFilter _ _ _ _),
      findall_child_ne (keepsTag_setGateways _ _) (by decide),
      findall_child_ne (keepsTag_setInterfaces _ _) (by decide),
      findall_child_ne hconst (by decide)]
  · rw [findall_child_ne (keepsTag_setCloudinit _ _) (by decide),
      findall_child_ne (keepsTag_setFilter _ _ _ _) (by decide),
      show gatewaysTag = lit "gateways" from rfl, findall_child (keepsTag_setGateways _ _),
      findall_child_ne (keepsTag_setInterfaces _ _) (by decide),
      findall_child_ne hconst (by decide)]

/-! ## Calls -/

def openings (lib : Library) (metadata : Dict) (detected : List Detected) : List Element :=
  match importOf lib metadata with
  | .error _ => []
  | .ok i =>
    match assignedOf lib i detected with
    | .error _ => []
    | .ok assigned => if assigned.length = 1 ∧ i.keys ≠ [] then openingsFrom i.cidrs else []

lemma length_soleWan (assigned : List (Text × Resolved)) :
    (soleWan assigned).length = assigned.length := by
  match assigned with
  | [] => rfl
  | [_] => rfl
  | _ :: _ :: _ => rfl

/-- The rules that are not temporary, the gateways of the administrator, and the further sections
there may be of either kind. -/
structure KeepsRules (root root' : Element) : Prop where
  rules : otherRules root' = otherRules root
  gateways : otherGateways root' = otherGateways root
  filterSections : (root'.findall filterTag).tail = (root.findall filterTag).tail
  gatewaySections : (root'.findall gatewaysTag).tail = (root.findall gatewaysTag).tail

/-- **A call that returns `True`.** -/
theorem openings_of_apply {metadata : Dict} {detected : List Detected} {files files' : Files}
    (h : apply lib metadata detected files = .ok (true, files')) :
    ∃ i assigned root root', importOf lib metadata = .ok i ∧
      assignedOf lib i detected = .ok assigned ∧ files.config = some root ∧
      files'.config = some root' ∧ KeepsRules root root' ∧
      temporaryRules root'
        = if assigned.length = 1 ∧ i.keys ≠ [] then openingsFrom i.cidrs else [] := by
  obtain ⟨i, hi, ⟨-, hb, -⟩ | ⟨-, -, assigned, root, root', hassigned, hroot, hprov, rfl⟩⟩ :=
    apply_eq_ok.mp h
  · cases hb
  obtain ⟨hfilter, hgateways⟩ := provisionRoot_sections hprov
  refine ⟨i, assigned, root, root', hi, hassigned, hroot, rfl, ⟨?_, ?_, ?_, ?_⟩, ?_⟩
  · rw [otherRules, ← children_headD_findall, hfilter, headD_cons, filter_not_setFilter,
      children_headD_findall, otherRules]
  · rw [otherGateways, ← children_headD_findall, hgateways, headD_cons, filter_not_setGateways,
      children_headD_findall, otherGateways]
  · rw [hfilter, tail_cons]
  · rw [hgateways, tail_cons]
  · rw [temporaryRules, ← children_headD_findall, hfilter, headD_cons, filter_setFilter]
    simp only [length_soleWan, decide_eq_true_eq]

/-- **The opening is what the metadata allows.**  In any history of calls, let `c` be the last one
that returned `True`.  It has left exactly the rules of its own metadata: none unless a single
interface was assigned and there are keys, and then one for each network of the administrator, or
one for each family.  Every other rule and every gateway of the administrator is as `c` found it,
and the calls after `c` have changed nothing. -/
theorem temporary_opening {files final : Files} {before later : List Call} {c : Call}
    (r : Run (Called lib) files (before ++ c :: later) final) (hc : c.returned = some true)
    (hlater : ∀ d ∈ later, d.returned ≠ some true) :
    ∃ i assigned root root' found, Run (Called lib) files before found ∧
      found.config = some root ∧ final.config = some root' ∧
      importOf lib c.metadata = .ok i ∧ assignedOf lib i c.detected = .ok assigned ∧
      (temporaryRules root' ≠ [] ↔ assigned.length = 1 ∧ i.keys ≠ []) ∧
      (assigned.length = 1 ∧ i.keys ≠ [] → temporaryRules root' = openingsFrom i.cidrs) ∧
      temporaryRules root' = openings lib c.metadata c.detected ∧ KeepsRules root root' := by
  obtain ⟨found, hbefore, r⟩ := r.append_inv
  cases r with
  | cons hcall r =>
    obtain rfl := files_eq_of_run r hlater
    simp only [Called, hc] at hcall
    obtain ⟨i, assigned, root, root', hi, hassigned, hroot, hroot', hkeeps, htemp⟩ :=
      openings_of_apply hcall
    refine ⟨i, assigned, root, root', found, hbefore, hroot, hroot', hi, hassigned, ?_, ?_, ?_,
      hkeeps⟩
    · rw [htemp]
      split_ifs with hopen
      · exact ⟨fun _ => hopen, fun _ => openingsFrom_ne_nil _⟩
      · exact ⟨fun hne => absurd rfl hne, fun h => absurd h hopen⟩
    · intro hopen
      rw [htemp, if_pos hopen]
    · rw [htemp, openings, hi]
      show _ = match assignedOf lib i c.detected with
        | .error _ => []
        | .ok assigned => _
      rw [hassigned]

theorem temporary_opening_sample :
    ∃ root', sampleFiles.config = some root' ∧ (temporaryRules root').length = 2 := by
  obtain ⟨i, assigned, root, root', found, -, -, hroot', -, -, -, -, htemp, -⟩ :=
    temporary_opening run_sampleCall rfl (by simp)
  refine ⟨root', hroot', ?_⟩
  rw [htemp]
  decide +kernel

end FreeSense.CloudInit
