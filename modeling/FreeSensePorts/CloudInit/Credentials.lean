import FreeSensePorts.CloudInit.Calls

/-!
# What provisioning does to the administrator's account

Each section of `system` keeps the accounts (`KeepsUsers`), each section of the configuration keeps
`system`, and what is left is the change that was meant (`provisionRoot_ok`).  `apply_ok` is what
the rest of the development needs of a run that returns.
-/

namespace FreeSense.CloudInit

open Python Xml Element

variable {lib : Library}

variable {metadata : Dict} {s s' : Element}

/-! ## Credentials and what changes them -/

def accountCredentials (admin : Element) (f : Field) : List Text := (admin.findall f.tag).map text

/-- The values of a field in the account of the administrator. -/
def credentials (root : Element) (f : Field) : List Text :=
  (((root.find systemTag).bind adminOf).map fun admin => accountCredentials admin f).getD []

lemma Field.tag_injective : Function.Injective Field.tag := by
  intro f g h
  cases f <;> cases g <;> first | rfl | exact absurd h (by decide)

lemma Field.tag_ne_name (f : Field) : nameTag ≠ f.tag := by
  cases f <;> decide

lemma Field.tag_ne_authorizedkeys (f : Field) : f.tag ≠ authorizedkeysTag := by
  cases f <;> decide

section Account

variable (admin : Element) (f g : Field)

lemma accountCredentials_setText (value : Text) :
    accountCredentials (admin.setText g.tag value) f
      = if f = g then value :: (accountCredentials admin f).tail else accountCredentials admin f := by
  split_ifs with h
  · subst h
    rw [accountCredentials, setText, findall_child (keepsTag_withText _ value)]
    simp [accountCredentials]
  · rw [accountCredentials, findall_setText_ne (fun he => h (Field.tag_injective he))]
    rfl

lemma accountCredentials_removeFirst :
    accountCredentials (admin.removeFirst g.tag) f
      = if f = g then (accountCredentials admin f).tail else accountCredentials admin f := by
  split_ifs with h
  · subst h
    rw [accountCredentials, findall_removeFirst]
    simp [accountCredentials]
  · rw [accountCredentials, findall_removeFirst_ne (fun he => h (Field.tag_injective he))]
    rfl

lemma accountCredentials_removeAll :
    accountCredentials (admin.removeAll (hasTag g.tag)) f
      = if f = g then [] else accountCredentials admin f := by
  split_ifs with h
  · subst h
    rw [accountCredentials, findall_removeAll]
    rfl
  · rw [accountCredentials, findall_removeAll_ne (fun he => h (Field.tag_injective he))]
    rfl

/-- **Locking** leaves nothing of an account that has each field at most once. -/
lemma accountCredentials_lock (h : ∀ f, (accountCredentials admin f).length ≤ 1) :
    accountCredentials (lock admin) f = if f = .password then [lockedText] else [] := by
  have htail : ∀ f, (accountCredentials admin f).tail = [] := fun f =>
    List.length_eq_zero_iff.mp (by rw [List.length_tail]; have := h f; omega)
  rw [lock, show passwordTag = Field.password.tag from rfl, accountCredentials_setText,
    accountCredentials_removeFirst, accountCredentials_removeFirst, accountCredentials_removeFirst]
  cases f <;> simp [htail]

lemma accountCredentials_setKeys (encoded : Option Text) :
    accountCredentials (setKeys encoded admin) f = accountCredentials admin f := by
  cases encoded with
  | none => rfl
  | some value =>
    rw [accountCredentials, setKeys, findall_setText_ne f.tag_ne_authorizedkeys]
    rfl

end Account

/-! ## The account is found again -/

lemma adminOf_eq (system : Element) :
    adminOf system = system.children.find? fun c => hasTag userTag c && isAdmin c := by
  rw [adminOf, findall]
  simp

lemma adminOf_onAdmin {f : Element → Element} (hf : KeepsTag userTag f)
    (hname : ∀ c, (f c).findtext nameTag = c.findtext nameTag) (system : Element) :
    adminOf (onAdmin f system) = (adminOf system).map f := by
  rw [adminOf_eq, onAdmin, children_withChildren, find_onFirst, adminOf_eq]
  intro c hc
  rw [Bool.and_eq_true] at hc ⊢
  rw [hasTag_of_keepsTag hf hc.1, isAdmin, hname]
  exact hc

lemma adminOf_congr (h : s.findall userTag = s'.findall userTag) : adminOf s = adminOf s' := by
  rw [adminOf, h, adminOf]

lemma findtext_removeFirst_ne {name other : Text} (hne : other ≠ name) (e : Element) :
    (e.removeFirst name).findtext other = e.findtext other := by
  rw [findtext, find_eq_head, findall_removeFirst_ne hne, findtext, find_eq_head]

lemma findtext_name_lock (admin : Element) :
    (lock admin).findtext nameTag = admin.findtext nameTag := by
  rw [lock, show passwordTag = Field.password.tag from rfl,
    findtext_setText_ne (Field.tag_ne_name _), findtext_removeFirst_ne (Field.tag_ne_name _),
    findtext_removeFirst_ne (Field.tag_ne_name _), findtext_removeFirst_ne (Field.tag_ne_name _)]

lemma findtext_name_setKeys (encoded : Option Text) (admin : Element) :
    (setKeys encoded admin).findtext nameTag = admin.findtext nameTag := by
  cases encoded with
  | none => rfl
  | some value => exact findtext_setText_ne (by decide) admin

lemma findtext_authorizedkeys_lock (admin : Element) :
    (lock admin).findtext authorizedkeysTag = admin.findtext authorizedkeysTag := by
  rw [lock, show passwordTag = Field.password.tag from rfl,
    findtext_setText_ne (Field.tag_ne_authorizedkeys _).symm,
    findtext_removeFirst_ne (Field.tag_ne_authorizedkeys _).symm,
    findtext_removeFirst_ne (Field.tag_ne_authorizedkeys _).symm,
    findtext_removeFirst_ne (Field.tag_ne_authorizedkeys _).symm]

lemma findtext_authorizedkeys_setKeys (encoded : Option Text) (admin : Element) :
    (setKeys encoded admin).findtext authorizedkeysTag
      = encoded.or (admin.findtext authorizedkeysTag) := by
  cases encoded with
  | none => rfl
  | some value => exact findtext_setText admin

lemma tag_setKeys (encoded : Option Text) (admin : Element) :
    (setKeys encoded admin).tag = admin.tag := by
  cases encoded <;> rfl

/-! ## The section `system` -/

/-- What the sections have in common: the tag stays, and so do the accounts. -/
def KeepsUsers (s s' : Element) : Prop := s'.tag = s.tag ∧ s'.findall userTag = s.findall userTag

lemma KeepsUsers.trans {s s' s'' : Element} (h : KeepsUsers s s') (h' : KeepsUsers s' s'') :
    KeepsUsers s s'' :=
  ⟨h'.1.trans h.1, h'.2.trans h.2⟩

lemma keepsUsers_setText {name value : Text} (hne : userTag ≠ name) (s : Element) :
    KeepsUsers s (s.setText name value) :=
  ⟨rfl, findall_setText_ne hne s⟩

lemma keepsUsers_lockoutOff (sole : Bool) (s : Element) : KeepsUsers s (lockoutOff sole s) := by
  unfold lockoutOff
  split_ifs
  · exact ⟨rfl, findall_child_ne (keepsTag_child _ _ _) (by decide) s⟩
  · exact ⟨rfl, rfl⟩

lemma keepsUsers_setHostname (h : setHostname metadata s = .ok s') : KeepsUsers s s' := by
  unfold setHostname at h
  split at h
  · split_ifs at h
    · cases h
      exact ⟨rfl, rfl⟩
    · cases h
    · simp only [Except.ok.injEq] at h
      subst h
      have hhost : ∀ label, KeepsUsers s (s.setText (lit "hostname") label) := fun _ =>
        keepsUsers_setText (by decide) s
      split
      · exact hhost _
      · exact (hhost _).trans (keepsUsers_setText (by decide) _)
  · split_ifs at h
    · cases h
    · cases h
      exact ⟨rfl, rfl⟩

lemma keepsUsers_setTimezone (h : setTimezone metadata s = .ok s') : KeepsUsers s s' := by
  unfold setTimezone at h
  split at h
  · split_ifs at h
    · cases h
      exact ⟨rfl, rfl⟩
    · cases h
    · cases h
      exact keepsUsers_setText (by decide) s
  · split_ifs at h
    · cases h
    · cases h
      exact ⟨rfl, rfl⟩

lemma keepsUsers_enableSsh (keys : List Text) (s : Element) : KeepsUsers s (enableSsh keys s) := by
  unfold enableSsh
  split_ifs
  · exact ⟨rfl, rfl⟩
  · refine ⟨rfl, findall_child_ne ?_ ?_ s⟩
    · exact fun _ h => h
    · decide

lemma keepsUsers_setDns (dns : List Text) (s : Element) : KeepsUsers s (setDns dns s) := by
  have hfold : ∀ (l : List Text) (s' : Element), KeepsUsers s s' →
      KeepsUsers s (l.foldl (fun e address => e.sub dnsserverTag (withText address)) s') := by
    intro l
    induction l with
    | nil => exact fun _ h => h
    | cons address l ih =>
      intro s' h
      refine ih _ (h.trans ⟨rfl, findall_sub_ne (keepsTag_withText _ address) ?_ s'⟩)
      decide
  exact hfold _ _ ⟨rfl, findall_removeAll_ne (by decide) s⟩

variable {keys : List Text} {assignments : List (Text × Resolved)} {locks : Bool} {root : Element}
  {instanceId : Text}

/-- **The section `system`**, seen from the account. -/
theorem provisionSystem_ok (h : provisionSystem lib metadata keys assignments locks s = .ok s') :
    s'.tag = s.tag ∧ ∃ admin encoded, encodedKeys lib keys = .ok encoded ∧
      adminOf s = some admin ∧ adminOf s' = some (setKeys encoded (if locks then lock admin else admin)) := by
  unfold provisionSystem at h
  simp only [bind_eq_ok] at h
  obtain ⟨s₁, hhost, s₂, hzone, h⟩ := h
  have h₂ : KeepsUsers s s₂ := ((keepsUsers_lockoutOff _ s).trans
    (keepsUsers_setHostname hhost)).trans (keepsUsers_setTimezone hzone)
  cases hadmin : adminOf s₂ with
  | none => simp [hadmin, invalid] at h
  | some admin =>
    simp only [hadmin, Option.isNone_some, Bool.false_eq_true, if_false, bind_eq_ok, pure_eq_ok]
      at h
    obtain ⟨encoded, hencoded, dns, -, rfl⟩ := h
    set f : Element → Element := fun admin =>
      setKeys encoded (if locks then lock admin else admin) with hf
    have hafter : KeepsUsers (onAdmin f s₂) (setDns dns.flatten (enableSsh keys (onAdmin f s₂))) :=
      (keepsUsers_enableSsh keys _).trans (keepsUsers_setDns _ _)
    refine ⟨hafter.1.trans h₂.1, admin, encoded, hencoded, ?_, ?_⟩
    · rw [← hadmin]
      exact adminOf_congr h₂.2.symm
    · rw [adminOf_congr hafter.2, adminOf_onAdmin, hadmin]
      · rfl
      · intro c hc
        rw [tag_setKeys]
        split_ifs <;> exact hc
      · intro c
        rw [findtext_name_setKeys]
        split_ifs
        · exact findtext_name_lock c
        · rfl

/-! ## The configuration -/

lemma keepsTag_setInterfaces (name : Text) (assignments : List (Text × Resolved)) :
    KeepsTag name (setInterfaces lib assignments) := by
  intro e h
  refine (tag_foldl ?_ _ _).trans h
  exact fun _ _ => rfl

lemma keepsTag_setGateways (name : Text) (assignments : List (Text × Resolved)) :
    KeepsTag name (setGateways lib assignments) := by
  intro e h
  refine (tag_foldl (fun e a => ?_) _ _).trans h
  unfold addGateway
  split_ifs <;> rfl

lemma keepsTag_setFilter (name : Text) (sole : Bool) (keys : List Text) (cidrs : List Address) :
    KeepsTag name (setFilter sole keys cidrs) := by
  intro e h
  unfold setFilter
  split_ifs
  · refine (tag_foldl ?_ _ _).trans h
    exact fun _ _ => rfl
  · exact h

lemma keepsTag_setCloudinit (name instanceId : Text) : KeepsTag name (setCloudinit instanceId) :=
  fun _ h => h

lemma keepsTag_provisionSystem {system : Element}
    (h : provisionSystem lib metadata keys assignments locks ((root.find systemTag).getD (empty systemTag)) = .ok system) :
    KeepsTag systemTag fun _ => system := by
  intro _ _
  refine (provisionSystem_ok h).1.trans ?_
  cases hfind : root.find systemTag with
  | none => rfl
  | some s => simpa [hasTag] using List.find?_some hfind

/-- **The configuration** carries the instance afterwards, and the account is the one before, locked
if that was asked for. -/
theorem provisionRoot_ok {cidrs : List Address} {root' : Element}
    (h : provisionRoot lib metadata instanceId keys cidrs assignments locks root = .ok root') :
    root'.findtext₂ cloudinitTag instanceIdTag = some instanceId ∧
      ∃ admin encoded, encodedKeys lib keys = .ok encoded ∧
        (root.find systemTag).bind adminOf = some admin ∧
        (root'.find systemTag).bind adminOf
          = some (setKeys encoded (if locks then lock admin else admin)) := by
  unfold provisionRoot at h
  simp only [bind_eq_ok, pure_eq_ok] at h
  obtain ⟨system, hsystem, rfl⟩ := h
  obtain ⟨-, admin, encoded, hencoded, hadmin, hadmin'⟩ := provisionSystem_ok hsystem
  have hconst := keepsTag_provisionSystem hsystem
  constructor
  · refine findtext₂_child_setText _ _ _ (keepsTag_setCloudinit _ _) fun c => ?_
    rw [setCloudinit, findtext_setText_ne (by decide)]
    exact findtext_setText c
  · refine ⟨admin, encoded, hencoded, ?_, ?_⟩
    · cases hfind : root.find systemTag with
      | none => simp [hfind, adminOf, findall] at hadmin
      | some s => simpa [hfind] using hadmin
    · rw [find_child_ne (keepsTag_setCloudinit _ _) (by decide),
        find_child_ne (keepsTag_setFilter _ _ _ _) (by decide),
        find_child_ne (keepsTag_setGateways _ _) (by decide),
        find_child_ne (keepsTag_setInterfaces _ _) (by decide), find_child hconst]
      exact hadmin'

/-- **A skipped run** has found the instance in both files. -/
lemma of_shouldSkipApply {state : Option Dict} {config : Option Element} {cidrs : List Text}
    (h : shouldSkipApply lib state config instanceId keys cidrs = true) :
    appliedBefore state instanceId = true ∧ configuredInstanceId config = some instanceId := by
  cases state with
  | none => simp [shouldSkipApply] at h
  | some previous =>
    simp only [shouldSkipApply] at h
    split_ifs at h with hstate hconfig
    all_goals exact ⟨by simpa [appliedBefore] using hstate, by simpa using hconfig⟩

/-- **What a run that returns has done.** -/
theorem apply_ok {detected : List Detected} {files files' : Files} {b : Bool}
    (h : apply lib metadata detected files = .ok (b, files')) :
    ∃ instanceId, instanceIdOf lib metadata = .ok instanceId ∧
      ((files' = files ∧ appliedBefore files.state instanceId = true ∧
          configuredInstanceId files.config = some instanceId) ∨
        ∃ root root' keys cidrs assignments, files.config = some root ∧
          files'.config = some root' ∧
          provisionRoot lib metadata instanceId keys cidrs assignments
            (locksAccount files instanceId) root = .ok root') := by
  obtain ⟨i, hi, hdone⟩ := apply_eq_ok.mp h
  refine ⟨i.instanceId, (importOf_eq_ok.mp hi).1, ?_⟩
  rcases hdone with ⟨hskip, -, rfl⟩ | ⟨-, -, assigned, root, root', -, hroot, hprov, rfl⟩
  · exact Or.inl ⟨rfl, of_shouldSkipApply hskip⟩
  · exact Or.inr ⟨root, root', i.keys, i.cidrs, _, hroot, rfl, hprov⟩

end FreeSense.CloudInit
