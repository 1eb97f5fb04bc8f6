import FreeSensePorts.CloudInit.Apply
import FreeSensePorts.Core.Check
import FreeSensePorts.Core.Run

/-!
# Calls of `apply`

A call first reads everything it needs out of the metadata (`importOf`), then either finds that there
is nothing to do or rewrites the files (`apply_eq_ok`).  `Called` is what one call does to the files of
a machine on which nothing else writes; an exception leaves them alone (`CloudInit/Writes`).
-/

namespace FreeSense.CloudInit

open Python Xml Element

variable {lib : Library}

variable {metadata : Dict} {detected : List Detected}

/-! ## Checks -/

variable {α : Type} {message : String} {files files' : Files}

@[simp] lemma invalid_ne_ok {a : α} : (invalid message : Except Exception α) ≠ .ok a := by
  simp [invalid]

lemma refuses_eq_ok {β : Type} {c : Prop} [Decidable c] {f : β → Except Exception α}
    {x : Except Exception α} {a : α} :
    (if c then invalid message >>= f else x) = .ok a ↔ ¬c ∧ x = .ok a := by
  split_ifs with hc
  · simp [hc, bind_eq_ok]
  · simp [hc]

/-! ## What a call reads -/

structure Import where
  instanceId : Text
  keys : List Text
  network : List Item
  extension : Dict
  fleet : Value
  cidrs : List Address

def Import.cidrTexts (i : Import) : List Text := i.cidrs.map Address.text

/-- The part of `apply` before the first look at a file. -/
def importOf (lib : Library) (metadata : Dict) : Except Exception Import := do
  let instanceId ← instanceIdOf lib metadata
  let keys ← importedKeys lib metadata
  let network ← normalizeNetwork lib (get metadata "network")
  let extension ← extensionOf metadata
  let fleet ← fleetOf extension
  let cidrs ← cidrsOf lib extension
  return ⟨instanceId, keys, network, extension, fleet, cidrs⟩

lemma importOf_eq_ok {i : Import} : importOf lib metadata = .ok i ↔
      instanceIdOf lib metadata = .ok i.instanceId ∧ importedKeys lib metadata = .ok i.keys ∧
        normalizeNetwork lib (get metadata "network") = .ok i.network ∧
        extensionOf metadata = .ok i.extension ∧ fleetOf i.extension = .ok i.fleet ∧
        cidrsOf lib i.extension = .ok i.cidrs := by
  simp only [importOf, bind_eq_ok, pure_eq_ok]
  constructor
  · rintro ⟨_, hid, _, hkeys, _, hnetwork, _, hextension, _, hfleet, _, hcidrs, rfl⟩
    exact ⟨hid, hkeys, hnetwork, hextension, hfleet, hcidrs⟩
  · rintro ⟨hid, hkeys, hnetwork, hextension, hfleet, hcidrs⟩
    exact ⟨_, hid, _, hkeys, _, hnetwork, _, hextension, _, hfleet, _, hcidrs, rfl⟩

lemma keys_of_importedKeys {keys : List Text} (h : importedKeys lib metadata = .ok keys) :
    validKeys lib (get metadata "ssh_authorized_keys") = .ok keys := by
  simp only [importedKeys, bind_eq_ok] at h
  obtain ⟨keys', hkeys, h⟩ := h
  split at h
  · split_ifs at h
    · cases h
    · rwa [pure_eq_ok.mp h] at hkeys
  · rwa [pure_eq_ok.mp h] at hkeys

def assignedOf (lib : Library) (i : Import) (detected : List Detected) :
    Except Exception (List (Text × Resolved)) :=
  resolveInterfaces lib i.network detected i.extension

def skips (lib : Library) (i : Import) (files : Files) : Bool :=
  shouldSkipApply lib files.state files.config i.instanceId i.keys i.cidrTexts

/-- The files after a call that has changed the configuration to `root`. -/
def writtenFiles (i : Import) (root : Element) (files : Files) : Files where
  config := some root
  state := some (sealedState i.instanceId i.keys i.cidrs)
  authorizedKeys := if i.keys = [] then none else some (keyLines i.keys)
  seed :=
    if !i.fleet.isNone && (root.findtext₂ (lit "fleet") (lit "node_id")).getD [] = [] then
      some i.fleet
    else files.seed

lemma apply_eq (metadata : Dict) (detected : List Detected) (files : Files) :
    apply lib metadata detected files = (do
      let i ← importOf lib metadata
      if skips lib i files then return (false, files)
      let assigned ← assignedOf lib i detected
      match files.config with
      | none => .error .parseError
      | some root =>
        let root' ← provisionRoot lib metadata i.instanceId i.keys i.cidrs (soleWan assigned)
          (locksAccount files i.instanceId) root
        return (true, writtenFiles i root' files)) := by
  simp only [importOf, bind_assoc, pure_bind]
  rfl

/-- **What a call that returns has done.** -/
theorem apply_eq_ok {b : Bool} :
    apply lib metadata detected files = .ok (b, files') ↔
      ∃ i, importOf lib metadata = .ok i ∧
        (skips lib i files = true ∧ b = false ∧ files' = files ∨
          skips lib i files = false ∧ b = true ∧
            ∃ assigned root root', assignedOf lib i detected = .ok assigned ∧
              files.config = some root ∧
              provisionRoot lib metadata i.instanceId i.keys i.cidrs (soleWan assigned)
                (locksAccount files i.instanceId) root = .ok root' ∧
              files' = writtenFiles i root' files) := by
  rw [apply_eq, bind_eq_ok]
  refine exists_congr fun i => and_congr_right fun _ => ?_
  cases hskip : skips lib i files with
  | true =>
    simp only [if_true, pure_eq_ok, Prod.mk.injEq, true_and, Bool.true_eq_false, false_and,
      or_false]
    exact ⟨fun h => ⟨h.1.symm, h.2.symm⟩, fun h => ⟨h.1.symm, h.2.symm⟩⟩
  | false =>
    simp only [Bool.false_eq_true, if_false, false_and, false_or, true_and, bind_eq_ok]
    cases hconfig : files.config with
    | none => simp
    | some root =>
      simp only [bind_eq_ok, pure_eq_ok, Prod.mk.injEq, Option.some.injEq]
      constructor
      · rintro ⟨assigned, hassigned, root', hroot, rfl, rfl⟩
        exact ⟨rfl, assigned, root, root', hassigned, rfl, hroot, rfl⟩
      · rintro ⟨rfl, assigned, root, root', hassigned, rfl, hroot, rfl⟩
        exact ⟨assigned, hassigned, root', hroot, rfl, rfl⟩

/-! ## Histories of calls -/

/-- A call and what came of it, `none` for an exception. -/
structure Call where
  metadata : Dict
  detected : List Detected
  returned : Option Bool

def Called (lib : Library) (files : Files) (c : Call) (files' : Files) : Prop :=
  match c.returned with
  | some b => apply lib c.metadata c.detected files = .ok (b, files')
  | none => (∃ e, apply lib c.metadata c.detected files = .error e) ∧ files' = files

/-- A call that does not return `True` leaves the files alone. -/
lemma Called.files_eq {c : Call} (h : Called lib files c files') (hc : c.returned ≠ some true) :
    files' = files := by
  unfold Called at h
  split at h
  · next b hb =>
      obtain ⟨i, -, ⟨-, -, rfl⟩ | ⟨-, rfl, -⟩⟩ := apply_eq_ok.mp h
      · rfl
      · exact absurd hb hc
  · exact h.2

lemma files_eq_of_run {cs : List Call} (r : Run (Called lib) files cs files')
    (hcs : ∀ c ∈ cs, c.returned ≠ some true) : files' = files := by
  induction r with
  | nil _ => rfl
  | cons hc _ ih =>
    rw [ih fun d hd => hcs d (List.mem_cons_of_mem _ hd),
      hc.files_eq (hcs _ List.mem_cons_self)]

/-! ## A machine -/

/-- Without metadata for the network, nothing of `ipaddress` is called. -/
def sampleLibrary : Library where
  unicode := ascii
  encodable _ := true
  ipInterface _ := none
  ipAddress _ := none
  ipNetwork _ := none
  netmask _ := none

def leaf (tag text : String) : Element := .mk tag.toList text.toList []

def sampleImage : Element :=
  .mk (lit "freesense") [] [.mk systemTag [] [.mk userTag []
    [leaf "name" "admin", leaf "bcrypt-hash" "known-default", leaf "uid" "0"]]]

def sampleMetadata : Dict := [(lit "instance_id", .str (lit "i-1"))]

def keyedMetadata (key : String) : Dict :=
  [(lit "instance_id", .str (lit "i-1")), (lit "ssh_authorized_keys", .list [.str (lit key)])]

def sampleDetected : List Detected := [⟨lit "vtnet0", none⟩]

def bootFiles : Files := ⟨some sampleImage, none, none, none⟩

def outcome (lib : Library) (metadata : Dict) (detected : List Detected) (files : Files) :
    Bool × Files :=
  match apply lib metadata detected files with
  | .ok r => r
  | .error _ => (false, files)

lemma apply_eq_outcome (h : (apply lib metadata detected files).isOk = true) :
    apply lib metadata detected files = .ok (outcome lib metadata detected files) := by
  unfold outcome
  cases hr : apply lib metadata detected files with
  | ok r => rfl
  | error e => simp [hr, Except.isOk, Except.toBool] at h

/-- Only a call that returns has `True` for its outcome. -/
lemma apply_eq_true (h : (outcome lib metadata detected files).1 = true) :
    apply lib metadata detected files = .ok (true, (outcome lib metadata detected files).2) := by
  unfold outcome at h ⊢
  cases hr : apply lib metadata detected files with
  | ok r =>
    rw [hr] at h
    exact congrArg Except.ok (Prod.ext h rfl)
  | error e => simp [hr] at h

lemma apply_eq_false (h : (apply lib metadata detected files).isOk = true)
    (hb : (outcome lib metadata detected files).1 = false) :
    apply lib metadata detected files = .ok (false, files) := by
  have hok := apply_eq_outcome h
  generalize outcome lib metadata detected files = r at hok hb
  rcases r with ⟨b, files'⟩
  obtain ⟨i, -, ⟨-, rfl, rfl⟩ | ⟨-, rfl, -⟩⟩ := apply_eq_ok.mp hok
  · exact hok
  · cases hb

def sampleKey : String := "ssh-ed25519 AAAAC3NzaC1lZDI1NTE5AAAA"

def sampleCall : Call := ⟨keyedMetadata sampleKey, sampleDetected, some true⟩

def sampleFiles : Files :=
  (outcome sampleLibrary sampleCall.metadata sampleCall.detected bootFiles).2

lemma apply_sampleCall :
    apply sampleLibrary sampleCall.metadata sampleDetected bootFiles = .ok (true, sampleFiles) :=
  apply_eq_true (by decide +kernel)

lemma run_sampleCall : Run (Called sampleLibrary) bootFiles ([] ++ [sampleCall]) sampleFiles :=
  .cons apply_sampleCall (.nil _)

end FreeSense.CloudInit
