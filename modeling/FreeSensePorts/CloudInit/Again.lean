import FreeSensePorts.CloudInit.Opening
import FreeSensePorts.CloudInit.Skips

/-!
# The same call again

A call is repeated at each boot, and the state file says that there is nothing to do.  Without that
file the call is made in full on a configuration that it has written itself, and writes the same one
but for the account, which it locks (`relock`).  So it is the same configuration exactly if the first
call has locked the account too, or has found it locked.
-/

namespace FreeSense.CloudInit

open Python Xml Element
open List hiding getD get sections

variable {lib : Library}

/-! ## Texts from the metadata -/

def hostnameTags : List Text := [lit "hostname", lit "domain"]

def timezoneTags : List Text := [lit "timezone"]

def stripDots (hostname : Text) : Text := (hostname.reverse.dropWhile (· = '.')).reverse

def splitHost (name : Text) : List (Text × Text) :=
  let label := name.takeWhile (· ≠ '.')
  (lit "hostname", label) :: match name.drop label.length with
    | [] => []
    | _ :: domain => [(lit "domain", domain)]

def hostnameTexts (metadata : Dict) : List (Text × Text) :=
  match get metadata "hostname" with
  | .str hostname => if hostname = [] then [] else splitHost (stripDots hostname)
  | _ => []

def timezoneTexts (metadata : Dict) : List (Text × Text) :=
  match get metadata "timezone" with
  | .str timezone => if timezone = [] then [] else [(lit "timezone", timezone)]
  | _ => []

lemma setHostname_eq {metadata : Dict} {s s' : Element} (h : setHostname metadata s = .ok s')
    (e : Element) : setHostname metadata e = .ok (e.setTexts (hostnameTexts metadata)) := by
  cases hmeta : get metadata "hostname" with
  | str hostname =>
    simp only [setHostname, hostnameTexts, hmeta] at h ⊢
    split_ifs at h ⊢
    · rfl
    · cases h
    · rw [splitHost, ← stripDots]
      generalize (stripDots hostname).drop ((stripDots hostname).takeWhile (· ≠ '.')).length = domain
      cases domain <;> rfl
  | _ =>
    simp only [setHostname, hostnameTexts, hmeta] at h ⊢
    split_ifs at h ⊢
    · cases h
    · rfl

lemma setTimezone_eq {metadata : Dict} {s s' : Element} (h : setTimezone metadata s = .ok s')
    (e : Element) : setTimezone metadata e = .ok (e.setTexts (timezoneTexts metadata)) := by
  cases hmeta : get metadata "timezone" with
  | str timezone =>
    simp only [setTimezone, timezoneTexts, hmeta] at h ⊢
    split_ifs at h ⊢
    · rfl
    · cases h
    · rfl
  | _ =>
    simp only [setTimezone, timezoneTexts, hmeta] at h ⊢
    split_ifs at h ⊢
    · cases h
    · rfl

/-! ## The section `system` -/

/-- The section, when everything that can fail has been computed. -/
def systemOf (sole : Bool) (texts : List (Text × Text)) (keys : List Text) (encoded : Option Text)
    (dns : List Text) (locks : Bool) (s : Element) : Element :=
  setDns dns (enableSsh keys (onAdmin
    (fun admin => setKeys encoded (if locks then lock admin else admin))
    ((lockoutOff sole s).setTexts texts)))

def textTags : List Text := hostnameTags ++ timezoneTags

lemma tags_hostTexts (metadata : Dict) :
    ((hostnameTexts metadata ++ timezoneTexts metadata).map Prod.fst).Sublist textTags := by
  have hsplit : ∀ name, ((splitHost name).map Prod.fst).Sublist hostnameTags := by
    intro name
    refine List.Sublist.cons_cons _ ?_
    split
    · exact nil_sublist _
    · exact .refl _
  rw [map_append]
  refine List.Sublist.append ?_ ?_
  · unfold hostnameTexts
    split
    · split_ifs
      · exact nil_sublist _
      · exact hsplit _
    · exact nil_sublist _
  · unfold timezoneTexts
    split
    · split_ifs
      · exact nil_sublist _
      · exact .refl _
    · exact nil_sublist _

lemma setTexts_append (texts texts' : List (Text × Text)) (e : Element) :
    e.setTexts (texts ++ texts') = (e.setTexts texts).setTexts texts' := by
  simp [setTexts, sections]

lemma userTag_notMem {texts : List (Text × Text)} (h : (texts.map Prod.fst).Sublist textTags) :
    userTag ∉ texts.map Prod.fst := by
  have huser : userTag ∉ textTags := by decide
  exact fun hin => huser (h.subset hin)

/-- **The section as a function of what was there.**  It is the same function in every call with this
metadata that finds an account. -/
theorem provisionSystem_eq {metadata : Dict} {keys : List Text}
    {assignments : List (Text × Resolved)} {locks : Bool} {s s' : Element}
    (h : provisionSystem lib metadata keys assignments locks s = .ok s') :
    ∃ texts encoded dns, (texts.map Prod.fst).Sublist textTags ∧
      s' = systemOf (assignments.length = 1) texts keys encoded dns locks s ∧
      ∀ b e, (adminOf e).isSome = true → provisionSystem lib metadata keys assignments b e
        = .ok (systemOf (assignments.length = 1) texts keys encoded dns b e) := by
  unfold provisionSystem at h ⊢
  simp only [bind_eq_ok] at h
  obtain ⟨s₁, hhost, s₂, hzone, h⟩ := h
  have hhost' := setHostname_eq hhost
  have hzone' := setTimezone_eq hzone
  have htags := tags_hostTexts metadata
  obtain rfl : _ = s₁ := Except.ok.inj ((hhost' _).symm.trans hhost)
  obtain rfl : _ = s₂ := Except.ok.inj ((hzone' _).symm.trans hzone)
  rw [← setTexts_append] at h
  by_cases hnone : (adminOf ((lockoutOff (assignments.length = 1) s).setTexts
      (hostnameTexts metadata ++ timezoneTexts metadata))).isNone = true
  · rw [if_pos hnone] at h
    cases h
  · rw [if_neg hnone] at h
    simp only [bind_eq_ok, pure_eq_ok] at h
    obtain ⟨encoded, hencoded, dns, hdns, rfl⟩ := h
    refine ⟨hostnameTexts metadata ++ timezoneTexts metadata, encoded, dns.flatten, htags, rfl, ?_⟩
    intro b e hadmin
    have husers : KeepsUsers e ((lockoutOff (assignments.length = 1) e).setTexts (hostnameTexts metadata ++ timezoneTexts metadata)) :=
      (keepsUsers_lockoutOff _ e).trans
        ⟨tag_setTexts, findall_setTexts_ne (userTag_notMem htags)⟩
    have hsome : ¬ (adminOf ((lockoutOff (assignments.length = 1) e).setTexts
        (hostnameTexts metadata ++ timezoneTexts metadata))).isNone = true := by
      rw [adminOf_congr husers.2]
      simpa [Option.isNone_iff_eq_none, Option.isSome_iff_ne_none] using hadmin
    simp only [bind_eq_ok]
    refine ⟨_, hhost' _, _, hzone' _, ?_⟩
    rw [← setTexts_append, if_neg hsome]
    simp only [bind_eq_ok, pure_eq_ok]
    exact ⟨encoded, hencoded, dns, hdns, rfl⟩

/-! ## What the parts of the section leave to each other -/

section Frames

variable {name : Text} {f : Element → Element}

lemma findall_onAdmin_ne (hf : KeepsTag userTag f) (hne : name ≠ userTag) (s : Element) :
    (onAdmin f s).findall name = s.findall name := by
  simp only [onAdmin, findall, children_withChildren]
  induction s.children with
  | nil => rfl
  | cons c l ih =>
    by_cases hc : (hasTag userTag c && isAdmin c) = true
    · have huser : hasTag userTag c = true := (Bool.and_eq_true_iff.mp hc).1
      rw [onFirst, if_pos hc, filter_cons, filter_cons, hasTag_of_keepsTag hf huser]
      have hother : ¬ hasTag name c = true := by
        simp only [hasTag, decide_eq_true_eq] at huser ⊢
        exact fun h => hne (h.symm.trans huser)
      rw [if_neg hother, if_neg hother]
    · rw [onFirst, if_neg hc, filter_cons, filter_cons, ih]

lemma findall_enableSsh_ne (hne : name ≠ lit "ssh") (keys : List Text) (s : Element) :
    (enableSsh keys s).findall name = s.findall name := by
  unfold enableSsh
  split_ifs
  · rfl
  · refine findall_child_ne ?_ hne s
    exact fun _ h => h

lemma findall_foldl_sub_ne {α : Type} {g : α → Element → Element} {tag : Text}
    (hg : ∀ x, KeepsTag tag (g x)) (hne : name ≠ tag) (l : List α) (s : Element) :
    (l.foldl (fun s x => s.sub tag (g x)) s).findall name = s.findall name := by
  induction l generalizing s with
  | nil => rfl
  | cons x l ih => rw [foldl_cons, ih, findall_sub_ne (hg x) hne]

lemma findall_setDns_ne (hne : name ≠ dnsserverTag) (dns : List Text) (s : Element) :
    (setDns dns s).findall name = s.findall name := by
  rw [setDns, findall_foldl_sub_ne (fun address => keepsTag_withText _ address) hne,
    findall_removeAll_ne hne]

end Frames

lemma keepsTag_lock (name : Text) : KeepsTag name lock := fun _ h => h

lemma keepsTag_account (encoded : Option Text) (locks : Bool) :
    KeepsTag userTag fun admin => setKeys encoded (if locks then lock admin else admin) := by
  intro c hc
  rw [tag_setKeys]
  split_ifs
  · exact hc
  · exact hc

/-! ## The servers of the DNS -/

def dnsServers (dns : List Text) : List Element :=
  (distinct dns).map fun address => withText address (empty dnsserverTag)

lemma setDns_eq (dns : List Text) (s : Element) : setDns dns s
    = s.withChildren fun l => l.filter (fun c => !hasTag dnsserverTag c) ++ dnsServers dns := by
  rw [setDns, foldl_sub]
  rfl

lemma setDns_onAdmin {f : Element → Element} (hf : KeepsTag userTag f) (dns : List Text)
    (s : Element) : setDns dns (onAdmin f (setDns dns s)) = onAdmin f (setDns dns s) := by
  have hback : ∀ c ∈ dnsServers dns,
      hasTag dnsserverTag c = true ∧ (hasTag userTag c && isAdmin c) = false := by
    intro c hc
    obtain ⟨address, -, rfl⟩ := mem_map.mp hc
    exact ⟨rfl, rfl⟩
  set front := s.children.filter fun c => !hasTag dnsserverTag c with hfront
  have hchildren : (onAdmin f (setDns dns s)).children
      = onFirst (fun c => hasTag userTag c && isAdmin c) f front ++ dnsServers dns := by
    rw [onAdmin, children_withChildren, setDns_eq, children_withChildren, onFirst_append fun c hc => (hback c hc).2]
  have hclean : ∀ c ∈ onFirst (fun c => hasTag userTag c && isAdmin c) f front,
      hasTag dnsserverTag c = false := by
    have hnone : (onAdmin f (s.removeAll (hasTag dnsserverTag))).findall dnsserverTag = [] := by
      rw [findall_onAdmin_ne hf (by decide), findall_removeAll]
    intro c hc
    simpa using filter_eq_nil_iff.mp hnone c hc
  rw [setDns_eq dns (onAdmin f (setDns dns s))]
  refine withChildren_eq_self ?_
  rw [hchildren, filter_append_eq_self hclean fun c hc => (hback c hc).1]

/-! ## The section again -/

section System

variable {sole : Bool} {texts : List (Text × Text)} {keys : List Text} {encoded : Option Text}
  {dns : List Text} {locks : Bool} (s : Element)

lemma findall_systemOf {name : Text} (huser : name ≠ userTag) (hssh : name ≠ lit "ssh")
    (hdns : name ≠ dnsserverTag) :
    (systemOf sole texts keys encoded dns locks s).findall name
      = ((lockoutOff sole s).setTexts texts).findall name := by
  rw [systemOf, findall_setDns_ne hdns, findall_enableSsh_ne hssh,
    findall_onAdmin_ne (keepsTag_account encoded locks) huser]

variable (htexts : (texts.map Prod.fst).Sublist textTags)
include htexts

lemma adminOf_systemOf : adminOf (systemOf sole texts keys encoded dns locks s)
    = (adminOf s).map fun admin => setKeys encoded (if locks then lock admin else admin) := by
  have hbefore : KeepsUsers s ((lockoutOff sole s).setTexts texts) :=
    (keepsUsers_lockoutOff sole s).trans
      ⟨tag_setTexts, findall_setTexts_ne (userTag_notMem htexts)⟩
  rw [systemOf, adminOf_congr (keepsUsers_setDns dns _).2, adminOf_congr (keepsUsers_enableSsh keys _).2,
    adminOf_onAdmin (keepsTag_account encoded locks), adminOf_congr hbefore.2]
  intro c
  rw [findtext_name_setKeys]
  split_ifs
  · exact findtext_name_lock c
  · rfl

lemma lockoutOff_systemOf : lockoutOff sole (systemOf sole texts keys encoded dns locks s)
    = systemOf sole texts keys encoded dns locks s := by
  cases sole with
  | false => rfl
  | true =>
    have hwebgui : lit "webgui" ∉ texts.map Prod.fst := by
      have hnot : lit "webgui" ∉ textTags := by decide
      exact fun hin => hnot (htexts.subset hin)
    have hfind : (systemOf true texts keys encoded dns locks s).find (lit "webgui")
        = some (((s.find (lit "webgui")).getD (empty (lit "webgui"))).setText (lit "noantilockout")
          (lit "true")) := by
      rw [find_eq_head, findall_systemOf s (by decide) (by decide) (by decide),
        findall_setTexts_ne hwebgui, ← find_eq_head]
      exact find_child (keepsTag_child _ _ _) s
    exact child_eq_self hfind (setText_eq_self (findtext_setText _))

lemma findtext_systemOf {p : Text × Text} (hp : p ∈ texts) :
    (systemOf sole texts keys encoded dns locks s).findtext p.1 = some p.2 := by
  have hnodup : textTags.Nodup := by decide
  have htags : ∀ name ∈ textTags, name ≠ userTag ∧ name ≠ lit "ssh" ∧ name ≠ dnsserverTag := by
    decide
  obtain ⟨huser, hssh, hdns⟩ := htags p.1 (htexts.subset (mem_map_of_mem hp))
  rw [findtext_eq_of_findall (findall_systemOf s huser hssh hdns)]
  exact findtext_setTexts (htexts.nodup hnodup) hp

lemma setTexts_systemOf : (systemOf sole texts keys encoded dns locks s).setTexts texts
    = systemOf sole texts keys encoded dns locks s :=
  setTexts_eq_self fun _ hp => findtext_systemOf s htexts hp

/-- The account gets its keys a second time, and that is all but the lock. -/
lemma onAdmin_systemOf :
    onAdmin (fun admin => setKeys encoded (lock admin)) (systemOf sole texts keys encoded dns locks s)
      = onAdmin lock (systemOf sole texts keys encoded dns locks s) := by
  refine congrArg (Element.mk _ _) (onFirst_congr fun c hc => ?_)
  rw [← adminOf_eq, adminOf_systemOf s htexts] at hc
  obtain ⟨admin, -, rfl⟩ := Option.map_eq_some_iff.mp hc
  cases encoded with
  | none => rfl
  | some value =>
    refine setText_eq_self ?_
    rw [findtext_authorizedkeys_lock, findtext_authorizedkeys_setKeys]
    rfl

omit htexts in
lemma enableSsh_systemOf {f : Element → Element} (hf : KeepsTag userTag f) :
    enableSsh keys (onAdmin f (systemOf sole texts keys encoded dns locks s))
      = onAdmin f (systemOf sole texts keys encoded dns locks s) := by
  by_cases hkeys : keys = []
  · rw [enableSsh, if_pos hkeys]
  · have hfind : (onAdmin f (systemOf sole texts keys encoded dns locks s)).find (lit "ssh")
        = (enableSsh keys (onAdmin (fun admin => setKeys encoded (if locks then lock admin else admin))
            ((lockoutOff sole s).setTexts texts))).find (lit "ssh") := by
      rw [find_eq_head, findall_onAdmin_ne hf (by decide), systemOf, findall_setDns_ne (by decide),
        find_eq_head]
    have hkeep : KeepsTag (lit "ssh") fun ssh =>
        (ssh.setText (lit "enable") (lit "enabled")).setText (lit "sshdkeyonly") (lit "enabled") :=
      fun _ h => h
    rw [enableSsh, if_neg hkeys, find_child hkeep] at hfind
    rw [enableSsh, if_neg hkeys]
    refine child_eq_self hfind ?_
    set ssh := (((onAdmin (fun admin => setKeys encoded (if locks then lock admin else admin))
      ((lockoutOff sole s).setTexts texts)).find (lit "ssh")).getD (empty (lit "ssh"))).setText
        (lit "enable") (lit "enabled") with hssh
    have henable : (ssh.setText (lit "sshdkeyonly") (lit "enabled")).findtext (lit "enable")
        = some (lit "enabled") := by
      rw [findtext_setText_ne (by decide), hssh]
      exact findtext_setText _
    rw [setText_eq_self henable, setText_eq_self (findtext_setText _)]

/-- **The section, a second time**, with a lock. -/
theorem systemOf_systemOf :
    systemOf sole texts keys encoded dns true (systemOf sole texts keys encoded dns locks s)
      = onAdmin lock (systemOf sole texts keys encoded dns locks s) := by
  conv_lhs => rw [systemOf]
  rw [lockoutOff_systemOf s htexts, setTexts_systemOf s htexts]
  simp only [if_true]
  rw [onAdmin_systemOf s htexts, enableSsh_systemOf s (keepsTag_lock _)]
  exact setDns_onAdmin (keepsTag_lock _) dns _

end System

/-- A locked account stays as it is. -/
lemma lock_eq_self {admin : Element}
    (h : ∀ f, accountCredentials admin f = if f = .password then [lockedText] else []) :
    lock admin = admin := by
  have hnone : ∀ f : Field, f ≠ .password → admin.findall f.tag = [] := by
    intro f hf
    have := h f
    rw [if_neg hf] at this
    exact map_eq_nil_iff.mp this
  have hlocked : admin.findtext passwordTag = some lockedText := by
    have hhead := congrArg List.head? (h .password)
    rw [findtext, find_eq_head, ← head?_map]
    exact hhead
  rw [lock, removeFirst_eq_self (hnone .bcrypt (by decide)),
    removeFirst_eq_self (hnone .sha512 (by decide)), removeFirst_eq_self (hnone .md5 (by decide)),
    setText_eq_self hlocked]

lemma onAdmin_eq_self {f : Element → Element} {s : Element}
    (h : ∀ admin, adminOf s = some admin → f admin = admin) : onAdmin f s = s := by
  refine withChildren_eq_self ?_
  rw [onFirst_congr (g := id), onFirst_id]
  intro c hc
  rw [← adminOf_eq] at hc
  exact h c hc

/-! ## The other sections -/

def interfaceNode (lib : Library) (a : Text × Resolved) : Element :=
  let node := configureInterface lib a.2 (empty a.1)
  let node :=
    if (gateway4 a.2).truthy then node.setText (lit "gateway") (gatewayName a.1) else node
  if (gateway6 a.2).truthy then node.setText (lit "gatewayv6") (gatewayNameV6 a.1) else node

lemma setInterfaces_eq (assignments : List (Text × Resolved)) (e : Element) :
    setInterfaces lib assignments e = e.withChildren fun _ => assignments.map (interfaceNode lib) :=
  foldl_sub Prod.fst _ assignments (e.withChildren fun _ => [])

lemma setInterfaces_again (assignments : List (Text × Resolved)) (e : Element) :
    setInterfaces lib assignments (setInterfaces lib assignments e)
      = setInterfaces lib assignments e := by
  rw [setInterfaces_eq, setInterfaces_eq, withChildren_withChildren]

lemma setGateways_again (assignments : List (Text × Resolved)) (e : Element) :
    setGateways lib assignments (setGateways lib assignments e) = setGateways lib assignments e := by
  rw [setGateways_eq, setGateways_eq, withChildren_withChildren]
  congr 1
  funext l
  rw [filter_append_eq_self _ fun c hc => hasDescr_gatewayItems hc]
  simp

lemma setFilter_again (sole : Bool) (keys : List Text) (cidrs : List Address) (e : Element) :
    setFilter sole keys cidrs (setFilter sole keys cidrs e) = setFilter sole keys cidrs e := by
  have hopenings : ∀ c ∈ (if sole = true ∧ keys ≠ [] then openingsFrom cidrs else []),
      hasDescr ruleTag sshDescr c = true := by
    intro c hc
    split_ifs at hc
    · rw [← filter_openingsFrom] at hc
      exact (mem_filter.mp hc).2
    · cases hc
  rw [setFilter_eq, setFilter_eq, withChildren_withChildren]
  congr 1
  funext l
  rw [filter_append_eq_self _ hopenings]
  simp

lemma setCloudinit_again (instanceId : Text) (e : Element) :
    setCloudinit instanceId (setCloudinit instanceId e) = setCloudinit instanceId e := by
  have hid : (setCloudinit instanceId e).findtext instanceIdTag = some instanceId := by
    rw [setCloudinit, findtext_setText_ne (by decide)]
    exact findtext_setText e
  have hschema : (setCloudinit instanceId e).findtext (lit "schema_version")
      = some (lit "freesense.cloud-metadata/v1") :=
    findtext_setText _
  conv_lhs => rw [setCloudinit]
  rw [setText_eq_self hid, setText_eq_self hschema]

/-! ## The configuration -/

lemma keepsTag_onAdmin {name : Text} (f : Element → Element) : KeepsTag name (onAdmin f) :=
  fun _ h => h

/-- The account is locked, and nothing else happens. -/
def relock (root : Element) : Element := root.child systemTag (onAdmin lock)

/-- The sections beside `system`. -/
def rootSections (lib : Library) (instanceId : Text) (keys : List Text) (cidrs : List Address)
    (assignments : List (Text × Resolved)) : List (Text × (Element → Element)) :=
  [(lit "interfaces", setInterfaces lib assignments), (lit "gateways", setGateways lib assignments),
    (lit "filter", setFilter (assignments.length = 1) keys cidrs),
    (cloudinitTag, setCloudinit instanceId)]

section Root

variable {metadata : Dict} {instanceId : Text} {keys : List Text} {cidrs : List Address}
  {assignments : List (Text × Resolved)} {locks : Bool} {root root' : Element}

lemma tags_rootSections : (rootSections lib instanceId keys cidrs assignments).map Prod.fst
    = [lit "interfaces", lit "gateways", lit "filter", cloudinitTag] := rfl

lemma keepsTag_rootSections :
    ∀ p ∈ rootSections lib instanceId keys cidrs assignments, KeepsTag p.1 p.2 := by
  simp only [rootSections, forall_mem_cons, not_mem_nil, false_imp_iff, implies_true,
    and_true]
  exact ⟨keepsTag_setInterfaces _ _, keepsTag_setGateways _ _, keepsTag_setFilter _ _ _ _,
    keepsTag_setCloudinit _ _⟩

lemma rootSections_again :
    ∀ p ∈ rootSections lib instanceId keys cidrs assignments, ∀ e, p.2 (p.2 e) = p.2 e := by
  simp only [rootSections, forall_mem_cons, not_mem_nil, false_imp_iff, implies_true,
    and_true]
  exact ⟨setInterfaces_again _, setGateways_again _, setFilter_again _ _ _, setCloudinit_again _⟩

/-- **The configuration, a second time**, with a lock. -/
theorem provisionRoot_again
    (h : provisionRoot lib metadata instanceId keys cidrs assignments locks root = .ok root') :
    provisionRoot lib metadata instanceId keys cidrs assignments true root' = .ok (relock root') := by
  unfold provisionRoot at h ⊢
  simp only [bind_eq_ok, pure_eq_ok] at h ⊢
  obtain ⟨system, hsystem, hroot⟩ := h
  set fs := rootSections lib instanceId keys cidrs assignments with hfs
  have hroot' : root' = (root.child systemTag fun _ => system).sections fs := hroot.symm
  have hnotin : systemTag ∉ fs.map Prod.fst := by
    rw [tags_rootSections]
    decide
  have hfind : root'.find systemTag = some system := by
    rw [hroot', find_eq_head, findall_sections_ne keepsTag_rootSections hnotin, ← find_eq_head]
    exact find_child (keepsTag_provisionSystem hsystem) root
  have hsecond : provisionSystem lib metadata keys assignments true system
      = .ok (onAdmin lock system) := by
    obtain ⟨-, admin, _, -, -, hadmin⟩ := provisionSystem_ok hsystem
    obtain ⟨texts, encoded, dns, htexts, hsame, hall⟩ := provisionSystem_eq hsystem
    rw [hall true system (by simp [hadmin]), hsame, systemOf_systemOf _ htexts]
  refine ⟨onAdmin lock system, by rw [hfind]; exact hsecond, ?_⟩
  have hsame : (root'.child systemTag fun _ => onAdmin lock system) = relock root' :=
    child_congr hfind rfl
  -- every other section is found as it was left, and stays so
  have hrest : (relock root').sections fs = relock root' := by
    refine sections_eq_self fun p hp => ?_
    have hne : p.1 ≠ systemTag := fun heq => hnotin (heq ▸ mem_map_of_mem hp)
    obtain ⟨c, hc⟩ := find_sections keepsTag_rootSections
      (by rw [tags_rootSections]; decide) hp (root.child systemTag fun _ => system)
    refine ⟨p.2 c, ?_, rootSections_again p hp c⟩
    rw [relock, find_child_ne (keepsTag_onAdmin lock) hne, hroot']
    exact hc
  exact (congrArg (sections fs) hsame).trans hrest

/-- The account has the mark of a locked one and no hash. -/
def Locked (root : Element) : Prop :=
  ∀ f, credentials root f = if f = .password then [lockedText] else []

/-- **A second lock changes nothing** exactly if there was a first one. -/
lemma relock_eq_self_iff (hfields : ∀ f, (credentials root f).length ≤ 1)
    (h : provisionRoot lib metadata instanceId keys cidrs assignments locks root = .ok root') :
    relock root' = root' ↔ locks = true ∨ Locked root := by
  obtain ⟨-, admin, encoded, -, hadmin, hadmin'⟩ := provisionRoot_ok h
  have hold : ∀ f, credentials root f = accountCredentials admin f := fun f => by
    rw [credentials, hadmin]
    rfl
  have haccount : ∀ f, (accountCredentials admin f).length ≤ 1 := fun f => hold f ▸ hfields f
  set account := setKeys encoded (if locks then lock admin else admin) with hset
  have hnew : ∀ f, accountCredentials account f = if locks then
      (if f = .password then [lockedText] else []) else credentials root f := fun f => by
    rw [accountCredentials_setKeys, hold]
    cases locks with
    | true => exact accountCredentials_lock _ _ haccount
    | false => rfl
  obtain ⟨system, hfind, hsystem⟩ := Option.bind_eq_some_iff.mp hadmin'
  constructor
  · intro hsame
    refine or_iff_not_imp_left.mpr fun hlocks f => ?_
    have hlen : ∀ f, (accountCredentials account f).length ≤ 1 := fun f => by
      rw [hnew, if_neg hlocks]
      exact hfields f
    have hlocked : lock account = account := by
      have hadmin₂ : ((relock root').find systemTag).bind adminOf = some (lock account) := by
        rw [relock, find_child (keepsTag_onAdmin lock), hfind, Option.getD_some, Option.bind_some,
          adminOf_onAdmin (keepsTag_lock _) findtext_name_lock, hsystem]
        rfl
      rw [hsame, hadmin'] at hadmin₂
      exact (Option.some.inj hadmin₂).symm
    rw [← accountCredentials_lock account f hlen, hlocked, hnew, if_neg hlocks]
  · intro hor
    have hpattern : ∀ f, accountCredentials account f = if f = .password then [lockedText] else [] := by
      intro f
      rw [hnew]
      split_ifs with hlocks hf hf
      · rfl
      · rfl
      · rw [hor.resolve_left hlocks f, if_pos hf]
      · rw [hor.resolve_left hlocks f, if_neg hf]
    refine child_eq_self hfind (onAdmin_eq_self fun c hc => ?_)
    obtain rfl : account = c := Option.some.inj (hsystem.symm.trans hc)
    exact lock_eq_self hpattern

end Root

/-! ## The call -/

/-- **The same call again** returns `False` and changes nothing.  When the state file has been lost it
returns `True` and writes the same configuration, but for a lock on the account; that changes nothing
exactly if the first call has locked the account or found it locked. -/
theorem apply_again_iff {metadata : Dict} {detected : List Detected} {files files' : Files}
    {root : Element} (hroot : files.config = some root)
    (hfields : ∀ f, (credentials root f).length ≤ 1)
    (h : apply lib metadata detected files = .ok (true, files')) :
    apply lib metadata detected files' = .ok (false, files') ∧
      ∃ files'' instanceId,
        apply lib metadata detected { files' with state := none } = .ok (true, files'') ∧
        instanceIdOf lib metadata = .ok instanceId ∧
        files''.config = files'.config.map relock ∧
        (files''.config = files'.config ↔ locksAccount files instanceId = true ∨ Locked root) := by
  obtain ⟨i, hi, ⟨-, hb, -⟩ | ⟨-, -, assigned, root₀, root', hassigned, hroot₀, hprov, rfl⟩⟩ :=
    apply_eq_ok.mp h
  · cases hb
  obtain rfl : root = root₀ := Option.some.inj (hroot.symm.trans hroot₀)
  have hself : ¬FirstOfKind i i := by
    rintro ⟨hkeys, hnone | ⟨hnone, hcidrs⟩⟩
    · exact hkeys hnone
    · exact hcidrs hnone
  have hskip : skips lib i (writtenFiles i root' files) = true :=
    (skips_writtenFiles files (provisionRoot_ok hprov).1).mpr ⟨rfl, hself⟩
  refine ⟨apply_eq_ok.mpr ⟨i, hi, Or.inl ⟨hskip, rfl, rfl⟩⟩, ?_⟩
  set lost : Files := { writtenFiles i root' files with state := none }
  have hlocks : locksAccount lost i.instanceId = true := rfl
  have hagain := provisionRoot_again hprov
  refine ⟨writtenFiles i (relock root') lost, i.instanceId,
    apply_eq_ok.mpr ⟨i, hi, Or.inr ⟨rfl, rfl, ?_⟩⟩, (importOf_eq_ok.mp hi).1, rfl, ?_⟩
  · exact ⟨assigned, root', relock root', hassigned, rfl, by exact hagain, rfl⟩
  · rw [← relock_eq_self_iff hfields hprov]
    exact Option.some_inj

/-- The first call of a machine locks the account. -/
theorem apply_again_iff_boot :
    apply sampleLibrary sampleCall.metadata sampleDetected sampleFiles = .ok (false, sampleFiles) ∧
      ∃ files'', apply sampleLibrary sampleCall.metadata sampleDetected
          { sampleFiles with state := none } = .ok (true, files'') ∧
        files''.config = sampleFiles.config := by
  have hfields : ∀ f, (credentials sampleImage f).length ≤ 1 := by
    intro f
    cases f <;> decide +kernel
  obtain ⟨hfalse, files'', instanceId, htrue, -, -, hiff⟩ := apply_again_iff rfl hfields apply_sampleCall
  exact ⟨hfalse, files'', htrue, hiff.mpr (.inl rfl)⟩

/-- A configuration of this instance, without keys so far, in which the administrator has set a
password. -/
def ownPasswordImage : Element :=
  .mk (lit "freesense") [] [
    .mk systemTag [] [.mk userTag [] [leaf "name" "admin", leaf "password" "own"]],
    .mk cloudinitTag [] [leaf "instance_id" "i-1"]]

def ownFiles : Files := ⟨some ownPasswordImage, some (sealedState (lit "i-1") [] []), none, none⟩

/-- **Late keys, and then no state file.**  The call that brings the keys leaves the password alone,
and the one after the state file was lost locks the account. -/
theorem lost_state_locks :
    let files' := (outcome sampleLibrary sampleCall.metadata sampleDetected ownFiles).2
    let files'' := (outcome sampleLibrary sampleCall.metadata sampleDetected
      { files' with state := none }).2
    (∀ f, (credentials ownPasswordImage f).length ≤ 1) ∧
      apply sampleLibrary sampleCall.metadata sampleDetected ownFiles = .ok (true, files') ∧
      apply sampleLibrary sampleCall.metadata sampleDetected { files' with state := none }
        = .ok (true, files'') ∧
      files''.config ≠ files'.config := by
  intro files' files''
  refine ⟨fun f => ?_, ?_, ?_, fun heq => ?_⟩
  · cases f <;> decide +kernel
  · exact apply_eq_true (by decide +kernel)
  · exact apply_eq_true (by decide +kernel)
  · have hown : files'.config.map (credentials · .password) = some [lit "own"] := by decide +kernel
    have hlocked : files''.config.map (credentials · .password) = some [lit "*LOCKED*"] := by
      decide +kernel
    rw [heq] at hlocked
    exact absurd hlocked (by decide)

end FreeSense.CloudInit
