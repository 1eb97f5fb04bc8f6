import FreeSensePorts.CloudInit.Credentials
import FreeSensePorts.Core.Run

/-!
# The administrator's password over the life of a machine

Provisioning locks the password an image ships with, once for each configuration that does not carry
the instance yet.  The two files that decide about this can be lost or rolled back independently.

The invariant speaks of every configuration there has ever been, as any of them may come back with
its boot environment: one that carries an instance has no credential but those the administrator has
set, and the mark of a locked account (`Inv`, `Inv.step`).
-/

namespace FreeSense.CloudInit

open Python Xml Element
open List hiding removeAll

/-! ## The administrator -/

/-- What setting a password does to one field of the account. -/
inductive Edit
  | keep
  | drop
  | put (value : Text)
  deriving DecidableEq, Repr

def Edit.apply (tag : Text) : Edit → Element → Element
  | .keep => id
  | .drop => removeAll (hasTag tag)
  | .put value => setText tag value

def Edit.result (l : List Text) : Edit → List Text
  | .keep => l
  | .drop => []
  | .put value => value :: l.tail

def editAccount (edits : Field → Edit) (admin : Element) : Element :=
  [Field.password, .bcrypt, .sha512, .md5].foldl
    (fun admin f => (edits f).apply f.tag admin) admin

def setPassword (edits : Field → Edit) (root : Element) : Element :=
  root.withChildren (onFirst (hasTag systemTag) (onAdmin (editAccount edits)))

/-- The values the administrator has set by that. -/
def Edit.values (edits : Field → Edit) : List (Field × Text) :=
  [Field.password, .bcrypt, .sha512, .md5].filterMap fun f =>
    match edits f with
    | .put value => some (f, value)
    | _ => none

lemma Edit.mem_values {edits : Field → Edit} {f : Field} {value : Text}
    (h : edits f = .put value) : (f, value) ∈ Edit.values edits := by
  refine mem_filterMap.mpr ⟨f, ?_, by rw [h]⟩
  cases f <;> simp

lemma accountCredentials_edit (e : Edit) (admin : Element) (f g : Field) :
    accountCredentials (e.apply g.tag admin) f
      = if f = g then e.result (accountCredentials admin f) else accountCredentials admin f := by
  cases e with
  | keep => simp [Edit.apply, Edit.result]
  | drop => exact accountCredentials_removeAll admin f g
  | put value => exact accountCredentials_setText admin f g value

lemma accountCredentials_editAccount (edits : Field → Edit) (admin : Element) (f : Field) :
    accountCredentials (editAccount edits admin) f
      = (edits f).result (accountCredentials admin f) := by
  simp only [editAccount, foldl_cons, foldl_nil, accountCredentials_edit]
  cases f <;> simp

lemma findtext_name_edit (e : Edit) (admin : Element) (f : Field) :
    (e.apply f.tag admin).findtext nameTag = admin.findtext nameTag := by
  cases e with
  | keep => rfl
  | drop =>
    rw [Edit.apply, findtext, find_eq_head, findall_removeAll_ne f.tag_ne_name, findtext,
      find_eq_head]
  | put value => exact findtext_setText_ne f.tag_ne_name admin

lemma tag_edit (e : Edit) (name : Text) (admin : Element) : (e.apply name admin).tag = admin.tag := by
  cases e <;> rfl

lemma adminOf_editAccount (edits : Field → Edit) (system : Element) :
    adminOf (onAdmin (editAccount edits) system) = (adminOf system).map (editAccount edits) := by
  refine adminOf_onAdmin (fun e h => ?_) (fun c => ?_) system
  · exact (tag_foldl (fun e f => tag_edit _ _ e) _ _).trans h
  · simp only [editAccount, foldl_cons, foldl_nil, findtext_name_edit]

/-- **Setting the password** changes the fields that are edited. -/
theorem credentials_setPassword (edits : Field → Edit) (root : Element) (f : Field) :
    credentials (setPassword edits root) f = (edits f).result (credentials root f) ∨
      credentials (setPassword edits root) f = [] := by
  have hfind : (setPassword edits root).find systemTag
      = (root.find systemTag).map (onAdmin (editAccount edits)) := by
    refine find_onFirst ?_ root.children
    exact fun c hc => hc
  rw [credentials, credentials, hfind]
  cases root.find systemTag with
  | none => exact Or.inr rfl
  | some system =>
    simp only [Option.map_some, Option.bind_some, adminOf_editAccount]
    cases adminOf system with
    | none => exact Or.inr rfl
    | some admin => exact Or.inl (accountCredentials_editAccount edits admin f)

lemma configuredInstanceId_setPassword (edits : Field → Edit) (root : Element) :
    configuredInstanceId (some (setPassword edits root)) = configuredInstanceId (some root) := by
  have hcloud : (setPassword edits root).findall cloudinitTag = root.findall cloudinitTag := by
    refine filter_onFirst_ne ?_ ?_ root.children
    · decide
    · exact fun _ h => h
  simp only [configuredInstanceId, Option.bind_some, findtext₂, hcloud]

/-! ## The machine -/

structure Machine where
  files : Files
  /-- Every configuration there has been. -/
  versions : List Element
  /-- Every value the administrator has set. -/
  chosen : List (Field × Text)

inductive Event
  | apply (metadata : Dict) (detected : List Detected)
  | setPassword (edits : Field → Edit)
  | loseState
  /-- A boot environment rollback. -/
  | rollback (config : Element)

def Machine.install (m : Machine) (root : Element) : Machine :=
  { m with files := { m.files with config := some root }, versions := root :: m.versions }

/-- What can happen.  A run of `apply` counts if it returns. -/
def Step (lib : Library) (m : Machine) : Event → Machine → Prop
  | .apply metadata detected, m' => ∃ b files, apply lib metadata detected m.files = .ok (b, files) ∧
      m' = { m with files := files, versions := files.config.toList ++ m.versions }
  | .setPassword edits, m' => ∃ root, m.files.config = some root ∧
      m' = { m.install (setPassword edits root) with chosen := Edit.values edits ++ m.chosen }
  | .loseState, m' => m' = { m with files := { m.files with state := none } }
  | .rollback config, m' => config ∈ m.versions ∧ m' = m.install config

/-- A machine that boots an image for the first time. -/
def Machine.boot (image : Element) (state : Option Dict) (authorizedKeys : Option Text)
    (seed : Option Value) : Machine :=
  ⟨⟨some image, state, authorizedKeys, seed⟩, [image], []⟩

/-! ## The invariant -/

/-- No credential but those the administrator has set, and the mark of a locked account. -/
def OnlyChosen (chosen : List (Field × Text)) (root : Element) : Prop :=
  ∀ f, ∀ v ∈ credentials root f, (f, v) ∈ chosen ∨ f = .password ∧ v = lockedText

/-- A configuration that may come back. -/
structure Sound (chosen : List (Field × Text)) (root : Element) : Prop where
  single : ∀ f, (credentials root f).length ≤ 1
  chosen : configuredInstanceId (some root) ≠ none → OnlyChosen chosen root

structure Inv (m : Machine) : Prop where
  config : ∃ root, m.files.config = some root ∧ root ∈ m.versions
  versions : ∀ root ∈ m.versions, Sound m.chosen root

variable {root : Element} {m : Machine} {lib : Library} {metadata : Dict}

lemma OnlyChosen.mono {chosen chosen' : List (Field × Text)} (h : OnlyChosen chosen root)
    (hle : ∀ x ∈ chosen, x ∈ chosen') : OnlyChosen chosen' root :=
  fun f v hv => (h f v hv).imp_left (hle _)

lemma Inv.install (h : Inv m) {more : List (Field × Text)} (hroot : Sound (more ++ m.chosen) root) :
    Inv { m.install root with chosen := more ++ m.chosen } := by
  refine ⟨⟨root, rfl, mem_cons_self⟩, fun c hc => ?_⟩
  rcases mem_cons.mp hc with rfl | hc
  · exact hroot
  · have hold := h.versions c hc
    exact ⟨hold.single, fun hid => (hold.chosen hid).mono fun x hx => mem_append_right _ hx⟩

/-- **The account after a run that returns**: as before if both files know the instance, locked
otherwise. -/
lemma credentials_provisionRoot {instanceId : Text} {keys : List Text} {cidrs : List Address}
    {assignments : List (Text × Resolved)} {locks : Bool} {root' : Element}
    (hsingle : ∀ f, (credentials root f).length ≤ 1)
    (h : provisionRoot lib metadata instanceId keys cidrs assignments locks root = .ok root')
    (f : Field) :
    credentials root' f
      = if locks then (if f = .password then [lockedText] else []) else credentials root f := by
  obtain ⟨-, admin, encoded, -, hadmin, hadmin'⟩ := provisionRoot_ok h
  have hbefore : ∀ f, credentials root f = accountCredentials admin f := by
    intro f
    rw [credentials, hadmin]
    rfl
  rw [credentials, hadmin', hbefore, Option.map_some, accountCredentials_setKeys]
  cases locks with
  | true =>
    exact accountCredentials_lock admin f fun f => hbefore f ▸ hsingle f
  | false => rfl

/-- **One run of `apply`** from a machine that meets the invariant. -/
theorem Inv.apply (h : Inv m) {detected : List Detected} {b : Bool} {files : Files}
    (hok : apply lib metadata detected m.files = .ok (b, files)) :
    ∃ root root' instanceId, m.files.config = some root ∧ files.config = some root' ∧
      instanceIdOf lib metadata = .ok instanceId ∧ Sound m.chosen root' ∧
      OnlyChosen m.chosen root' ∧
      (appliedBefore m.files.state instanceId = true →
        configuredInstanceId m.files.config = some instanceId →
          ∀ f, credentials root' f = credentials root f) := by
  obtain ⟨root, hroot, hmem⟩ := h.config
  have hsound := h.versions root hmem
  obtain ⟨instanceId, hid, ⟨rfl, -, hconf⟩ | ⟨r, root', keys, cidrs, assignments, hr, hr', hprov⟩⟩ :=
    apply_ok hok
  · refine ⟨root, root, instanceId, hroot, hroot, hid, hsound, hsound.chosen ?_, fun _ _ _ => rfl⟩
    rw [← hroot, hconf]
    simp
  · obtain rfl : r = root := Option.some.inj (hr.symm.trans hroot)
    have hcred := credentials_provisionRoot hsound.single hprov
    have hkept : locksAccount m.files instanceId = false →
        configuredInstanceId (some r) ≠ none := by
      intro hlock
      simp only [locksAccount, Bool.not_eq_false', Bool.and_eq_true, decide_eq_true_eq] at hlock
      rw [← hr, hlock.2]
      simp
    have honly : OnlyChosen m.chosen root' := by
      intro f v hv
      rw [hcred] at hv
      cases hlock : locksAccount m.files instanceId with
      | false =>
        rw [hlock] at hv
        exact hsound.chosen (hkept hlock) f v hv
      | true =>
        split_ifs at hv with hf
        · exact Or.inr ⟨hf, mem_singleton.mp hv⟩
        · exact absurd hv not_mem_nil
    refine ⟨r, root', instanceId, hr, hr', hid, ⟨fun f => ?_, fun _ => honly⟩, honly, ?_⟩
    · rw [hcred]
      split_ifs
      · simp
      · simp
      · exact hsound.single f
    · intro happlied hconf f
      have hlock : locksAccount m.files instanceId = false := by
        simp [locksAccount, happlied, hconf]
      rw [hcred, hlock]
      rfl

/-- **Every step keeps the invariant.** -/
theorem Inv.step {m' : Machine} {e : Event} (h : Inv m) (hstep : Step lib m e m') : Inv m' := by
  cases e with
  | apply metadata detected =>
    obtain ⟨b, files, hok, rfl⟩ := hstep
    obtain ⟨-, root', -, -, hroot', -, hsound, -, -⟩ := h.apply hok
    refine ⟨⟨root', hroot', by simp [hroot']⟩, fun c hc => ?_⟩
    rcases mem_append.mp hc with hc | hc
    · obtain rfl : c = root' := by simpa [hroot'] using hc
      exact hsound
    · exact h.versions c hc
  | setPassword edits =>
    obtain ⟨root, hroot, rfl⟩ := hstep
    obtain ⟨_, hroot', hmem⟩ := h.config
    obtain rfl := Option.some.inj (hroot.symm.trans hroot')
    have hsound := h.versions root hmem
    refine h.install ⟨fun f => ?_, fun hid f v hv => ?_⟩
    · rcases credentials_setPassword edits root f with hc | hc
      · rw [hc]
        have := hsound.single f
        cases edits f <;> simp [Edit.result] <;> omega
      · simp [hc]
    · rw [configuredInstanceId_setPassword] at hid
      have hold := hsound.chosen hid f v
      rcases credentials_setPassword edits root f with hc | hc
      · rw [hc] at hv
        cases hedit : edits f with
        | keep =>
          rw [hedit] at hv
          exact (hold hv).imp_left (mem_append_right _)
        | drop =>
          rw [hedit] at hv
          exact absurd hv not_mem_nil
        | put value =>
          rw [hedit] at hv
          rcases mem_cons.mp hv with rfl | hv
          · exact Or.inl (mem_append_left _ (Edit.mem_values hedit))
          · exact (hold (mem_of_mem_tail hv)).imp_left (mem_append_right _)
      · rw [hc] at hv
        exact absurd hv not_mem_nil
  | loseState =>
    obtain rfl := hstep
    exact ⟨h.config, h.versions⟩
  | rollback config =>
    obtain ⟨hmem, rfl⟩ := hstep
    have hsound : Sound ([] ++ m.chosen) config := h.versions config hmem
    exact h.install hsound

/-- **The password of the image never stays, and that of the administrator does.**  However often a
machine is provisioned, its password is set, its state is lost and its configuration rolled back:
after every run of `apply` that returns, each credential of the account is one the administrator has
set, or the mark of a locked account; so none of the image's own is left unless it was set again.
And a run for the instance that both the state file and the configuration name leaves every
credential as it was. -/
theorem only_chosen_credentials {lib : Library} {image : Element} {state : Option Dict}
    {authorizedKeys : Option Text} {seed : Option Value}
    (hsingle : ∀ f, (credentials image f).length ≤ 1) (hcloud : image.findall cloudinitTag = [])
    {es : List Event} {m : Machine}
    (r : Run (Step lib) (Machine.boot image state authorizedKeys seed) es m)
    {metadata : Dict} {detected : List Detected} {b : Bool} {files : Files}
    (h : apply lib metadata detected m.files = .ok (b, files)) :
    ∃ root root' instanceId, m.files.config = some root ∧ files.config = some root' ∧
      instanceIdOf lib metadata = .ok instanceId ∧
      (∀ f, ∀ v ∈ credentials root' f, (f, v) ∈ m.chosen ∨ f = .password ∧ v = lockedText) ∧
      (appliedBefore m.files.state instanceId = true →
        configuredInstanceId m.files.config = some instanceId →
          ∀ f, credentials root' f = credentials root f) := by
  have hboot : Inv (Machine.boot image state authorizedKeys seed) := by
    refine ⟨⟨image, rfl, mem_singleton_self _⟩, fun c hc => ?_⟩
    obtain rfl := mem_singleton.mp hc
    refine ⟨hsingle, fun hid => absurd ?_ hid⟩
    simp [configuredInstanceId, findtext₂, hcloud]
  have hinv : Inv m := r.invariant (fun _ _ _ hs hstep => hs.step hstep) hboot
  obtain ⟨root, root', instanceId, hroot, hroot', hid, -, honly, hkept⟩ := hinv.apply h
  exact ⟨root, root', instanceId, hroot, hroot', hid, honly, hkept⟩

/-! ## A machine -/

/-- What a run of `apply` leaves, if it returns. -/
def applied (files : Files) : Bool × Files :=
  outcome sampleLibrary sampleMetadata sampleDetected files

/-- The password is set, and the configuration of the image comes back. -/
theorem only_chosen_credentials_sample :
    ∃ root', (applied { (applied bootFiles).2 with config := some sampleImage }).2.config = some root' ∧
      ∀ f, ∀ v ∈ credentials root' f, f = .password ∧ (v = lit "secret" ∨ v = lockedText) := by
  let edits : Field → Edit := fun f => if f = .password then .put (lit "secret") else .keep
  have hfirst : apply sampleLibrary sampleMetadata sampleDetected bootFiles
      = .ok (applied bootFiles) := apply_eq_outcome (by decide +kernel)
  obtain ⟨root, hroot⟩ := Option.isSome_iff_exists.mp
    (show (applied bootFiles).2.config.isSome by decide +kernel)
  have hrun : Run (Step sampleLibrary) (Machine.boot sampleImage none none none)
      [.apply sampleMetadata sampleDetected, .setPassword edits, .rollback sampleImage]
      ⟨{ (applied bootFiles).2 with config := some sampleImage }, sampleImage :: setPassword edits root ::
        ((applied bootFiles).2.config.toList ++ [sampleImage]), Edit.values edits ++ []⟩ :=
    .cons ⟨_, _, hfirst, rfl⟩ (.cons ⟨root, hroot, rfl⟩
      (.cons ⟨mem_cons_of_mem _ (mem_append_right _ (mem_singleton_self _)), rfl⟩ (.nil _)))
  have hagain : apply sampleLibrary sampleMetadata sampleDetected
        { (applied bootFiles).2 with config := some sampleImage }
      = .ok (applied { (applied bootFiles).2 with config := some sampleImage }) :=
    apply_eq_outcome (by decide +kernel)
  have hsingle : ∀ f, (credentials sampleImage f).length ≤ 1 := by
    intro f
    cases f <;> decide +kernel
  have hcloud : (sampleImage.findall cloudinitTag).length = 0 := by decide +kernel
  obtain ⟨-, root', -, -, hroot', -, honly, -⟩ := only_chosen_credentials hsingle
    (length_eq_zero_iff.mp hcloud) hrun hagain
  refine ⟨root', hroot', fun f v hv => ?_⟩
  rcases honly f v hv with hchosen | ⟨rfl, rfl⟩
  · have hvalues : Edit.values edits ++ [] = [(.password, lit "secret")] := by decide +kernel
    rw [hvalues] at hchosen
    cases mem_singleton.mp hchosen
    exact ⟨rfl, Or.inl rfl⟩
  · exact ⟨rfl, Or.inr rfl⟩

end FreeSense.CloudInit
