import FreeSensePorts.CloudInit.Credentials
import FreeSensePorts.CloudInit.Calls

/-!
# The two places of the SSH keys

The keys of an instance go to the account `admin` of `config.xml`, in base64, and to the file
`authorized_keys`.  Each call that does anything writes the file, or removes it when there are no keys;
the account it changes only when there are some.  So from a machine without keys, the two hold the same
(`KeyStoresAgree`) exactly if no call without keys finds some in the account.
-/

namespace FreeSense.CloudInit

open Python Xml Element
open List (append_nil)

def accountKeys (files : Files) : Option Text :=
  ((files.config.bind (find systemTag)).bind adminOf).bind (findtext authorizedkeysTag)

/-- The text in base64 that the account holds. -/
def decodedKeys (field : Text) : Option Text := (Base64.decode field).bind ofUtf8

/-- Both places hold the same keys, or none. -/
def KeyStoresAgree (files : Files) : Prop :=
  match accountKeys files, files.authorizedKeys with
  | some encoded, some lines => decodedKeys encoded = some lines
  | none, none => True
  | _, _ => False

/-- A call that does anything, without keys, finds none in the account. -/
def FindsNoKeys (lib : Library) (files : Files) (c : Call) : Prop :=
  c.returned = some true → importedKeys lib c.metadata = .ok [] → accountKeys files = none

variable {lib : Library}

/-- **The keys after a call** that has done something: those of the call, if it has any. -/
theorem accountKeys_apply {metadata : Dict} {detected : List Detected} {files files' : Files}
    (h : apply lib metadata detected files = .ok (true, files')) :
    ∃ keys encoded, importedKeys lib metadata = .ok keys ∧ encodedKeys lib keys = .ok encoded ∧
      accountKeys files' = encoded.or (accountKeys files) ∧
      files'.authorizedKeys = if keys = [] then none else some (keyLines keys) := by
  obtain ⟨i, hi, ⟨-, hb, -⟩ | ⟨-, -, assigned, root, root', -, hroot, hprov, rfl⟩⟩ := apply_eq_ok.mp h
  · cases hb
  · obtain ⟨-, admin, encoded, hencoded, hadmin, hadmin'⟩ := provisionRoot_ok hprov
    refine ⟨i.keys, encoded, (importOf_eq_ok.mp hi).2.1, hencoded, ?_, rfl⟩
    simp only [accountKeys, writtenFiles, hroot, Option.bind_some, hadmin, hadmin',
      findtext_authorizedkeys_setKeys]
    split_ifs
    · rw [findtext_authorizedkeys_lock]
    · rfl

lemma decodedKeys_encodedKeys {keys : List Text} {field : Text}
    (h : encodedKeys lib keys = .ok (some field)) : decodedKeys field = some (keyLines keys) := by
  rw [encodedKeys] at h
  split_ifs at h
  · cases h
  · obtain rfl := Option.some.inj (Except.ok.inj h)
    rw [decodedKeys, Base64.decode_encode, Option.bind_some, ofUtf8_utf8]

theorem keyStoresAgree_step {files files' : Files} {c : Call} (h : KeyStoresAgree files)
    (hc : Called lib files c files') : KeyStoresAgree files' ↔ FindsNoKeys lib files c := by
  by_cases htrue : c.returned = some true
  · simp only [Called, htrue] at hc
    obtain ⟨keys, encoded, hkeys, hencoded, haccount, hfile⟩ := accountKeys_apply hc
    by_cases hnil : keys = []
    · -- the file is removed, and the account stays
      simp only [encodedKeys, hnil, if_true, Except.ok.injEq] at hencoded hfile
      subst hencoded
      simp only [KeyStoresAgree, FindsNoKeys, haccount, hfile, hkeys, htrue, hnil, Option.none_or,
        forall_const]
      cases accountKeys files <;> simp
    · have hfinds : FindsNoKeys lib files c := by
        simp [FindsNoKeys, hkeys, hnil]
      refine iff_of_true ?_ hfinds
      rw [if_neg hnil] at hfile
      cases encoded with
      | none =>
        rw [encodedKeys] at hencoded
        split_ifs at hencoded
        cases hencoded
      | some field =>
        simp only [KeyStoresAgree, haccount, hfile, Option.some_or]
        exact decodedKeys_encodedKeys hencoded
  · rw [hc.files_eq htrue]
    exact iff_of_true h fun hr => absurd hr htrue

/-- **The two places agree** after every call of a history, from a machine without keys, exactly if
each of its calls that does anything and has no keys finds none in the account. -/
theorem keyStores_agree_iff {files : Files} (haccount : accountKeys files = none)
    (hfile : files.authorizedKeys = none) (cs : List Call) (final : Files) :
    (∀ cs₁ cs₂ u, cs = cs₁ ++ cs₂ → Run (Called lib) files cs₁ u → Run (Called lib) u cs₂ final →
        KeyStoresAgree u) ↔
      ∀ cs₁ c cs₂ u v, cs = cs₁ ++ c :: cs₂ → Run (Called lib) files cs₁ u → Called lib u c v →
        Run (Called lib) v cs₂ final → FindsNoKeys lib u c :=
  Run.forall_iff (I := fun _ => True) (fun _ _ _ _ _ => trivial)
    (fun _ _ _ _ h hc => keyStoresAgree_step h hc) trivial
    (by simp [KeyStoresAgree, haccount, hfile])

/-! ## Two calls -/

/-- A call without keys. -/
def keylessCall : Call := ⟨sampleMetadata, sampleDetected, some true⟩

def keylessFiles : Files := (outcome sampleLibrary sampleMetadata sampleDetected bootFiles).2

/-- The keys of an instance arrive with a second call. -/
theorem keyStores_agree_iff_late :
    let final := (outcome sampleLibrary sampleCall.metadata sampleDetected keylessFiles).2
    Run (Called sampleLibrary) bootFiles [keylessCall, sampleCall] final ∧
      (accountKeys final).isSome = true ∧ KeyStoresAgree final := by
  intro final
  have hfirst : Called sampleLibrary bootFiles keylessCall keylessFiles :=
    apply_eq_true (by decide +kernel)
  have hsecond : Called sampleLibrary keylessFiles sampleCall final :=
    apply_eq_true (by decide +kernel)
  have hrun : Run (Called sampleLibrary) bootFiles [keylessCall, sampleCall] final :=
    .cons hfirst (.cons hsecond (.nil _))
  have haccount : accountKeys bootFiles = none := by decide +kernel
  refine ⟨hrun, by decide +kernel, (keyStores_agree_iff haccount rfl _ final).mpr ?_ _ [] final
    (append_nil _).symm hrun (.nil _)⟩
  intro cs₁ c cs₂ u v hcs r _ _
  rcases cs₁ with _ | ⟨d, _ | ⟨e, cs₁⟩⟩
  · -- the first call finds no keys in the account
    cases r
    exact fun _ _ => haccount
  · -- the second has one
    obtain ⟨-, rfl, -⟩ : keylessCall = d ∧ sampleCall = c ∧ [] = cs₂ := by simpa using hcs
    exact fun _ hkeys => absurd hkeys (by decide +kernel)
  · simp at hcs

/-- **Keys of an earlier instance.**  The first instance has a key, and the second has none: the file
is gone, and the account still has the key. -/
theorem earlier_keys_stay :
    let second : Dict := [(lit "instance_id", .str (lit "i-2"))]
    let files₂ := (outcome sampleLibrary second sampleDetected sampleFiles).2
    accountKeys bootFiles = none ∧ bootFiles.authorizedKeys = none ∧
      apply sampleLibrary sampleCall.metadata sampleDetected bootFiles = .ok (true, sampleFiles) ∧
      apply sampleLibrary second sampleDetected sampleFiles = .ok (true, files₂) ∧
      accountKeys files₂ = accountKeys sampleFiles ∧ (accountKeys files₂).isSome = true ∧
      files₂.authorizedKeys = none ∧ ¬KeyStoresAgree files₂ := by
  intro second files₂
  have hsome : (accountKeys files₂).isSome = true := by decide +kernel
  have hfile : files₂.authorizedKeys = none := by decide +kernel
  refine ⟨by decide +kernel, rfl, apply_sampleCall, apply_eq_true (by decide +kernel),
    by decide +kernel, hsome, hfile, ?_⟩
  obtain ⟨field, hfield⟩ := Option.isSome_iff_exists.mp hsome
  simp [KeyStoresAgree, hfield, hfile]

end FreeSense.CloudInit
