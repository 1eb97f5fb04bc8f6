import FreeSensePorts.CloudInit.Credentials

/-!
# What a skipped call has looked at

A call returns `False` if the state file says that the instance was applied before.  Of the keys and
the networks of the earlier call it only looks whether there were any, so that it applies again what
it takes for the first of its kind (`FirstOfKind`) and skips the rest (`skips_writtenFiles`).  What is
skipped has nothing new exactly if it is contained in the earlier call.
-/

namespace FreeSense.CloudInit

open Python Xml Element
open List hiding getD

variable {lib : Library} {files found : Files} {cs : List Call} {i j : Import}

/-! ## The decision -/

/-- The call `j` brings the first keys, or with keys the first networks, after the call `i`. -/
def FirstOfKind (i j : Import) : Prop := j.keys ≠ [] ∧ (i.keys = [] ∨ i.cidrs = [] ∧ j.cidrs ≠ [])

/-- **What a call compares** with the files that the call `i` has written. -/
lemma skips_writtenFiles {root : Element} (files : Files)
    (h : root.findtext₂ cloudinitTag instanceIdTag = some i.instanceId) :
    skips lib j (writtenFiles i root files) = true ↔
      i.instanceId = j.instanceId ∧ ¬FirstOfKind i j := by
  set previous := sealedState i.instanceId i.keys i.cidrs with hprevious
  have hid : isText j.instanceId (get previous "instance_id") = decide (i.instanceId = j.instanceId) :=
    rfl
  have hconfig : configuredInstanceId (some root) = some i.instanceId := h
  have hcount : (lib.unicode.intOfValue (getD previous "ssh_key_count" (.int 0))).getD 0
      = i.keys.length := rfl
  have hcidrs : getD previous "management_cidrs" (.list [])
      = .list (i.cidrs.map fun a => .str a.text) := rfl
  simp only [skips, writtenFiles, shouldSkipApply, ← hprevious, hid, hconfig, hcount, hcidrs]
  by_cases hsame : i.instanceId = j.instanceId
  · by_cases hkeys : j.keys = [] <;> by_cases hold : i.keys = [] <;>
      by_cases hcidr : j.cidrs = [] <;> by_cases hnone : i.cidrs = [] <;>
      simp [FirstOfKind, Import.cidrTexts, hsame, hkeys, hold, hcidr, hnone]
  · simp [hsame]

/-- The last call of a history that returned `True`. -/
def lastApplied : List Call → Option Call
  | [] => none
  | c :: cs => (lastApplied cs).or (if c.returned = some true then some c else none)

/-- What a history leaves is what that call has written. -/
lemma files_of_run (r : Run (Called lib) files cs found) :
    match lastApplied cs with
    | none => found = files
    | some c => ∃ i root before, importOf lib c.metadata = .ok i ∧
        root.findtext₂ cloudinitTag instanceIdTag = some i.instanceId ∧
        found = writtenFiles i root before := by
  induction r with
  | nil _ => rfl
  | @cons files mid found c cs hcall r ih =>
    rw [lastApplied]
    cases hlast : lastApplied cs with
    | some d =>
      rw [hlast] at ih
      exact ih
    | none =>
      rw [hlast] at ih
      obtain rfl : found = mid := ih
      split_ifs with hc
      · simp only [Called, hc] at hcall
        obtain ⟨i, hi, ⟨-, hb, -⟩ | ⟨-, -, _, root, root', -, -, hprov, rfl⟩⟩ := apply_eq_ok.mp hcall
        · cases hb
        · exact ⟨i, root', files, hi, (provisionRoot_ok hprov).1, rfl⟩
      · exact hcall.files_eq hc

/-! ## Skipped calls -/

/-- Everything of the call `j` was imported by the call `i`. -/
structure Contained (j i : Import) : Prop where
  keys : ∀ key ∈ j.keys, key ∈ i.keys
  cidrs : j.keys ≠ [] → ∀ cidr ∈ j.cidrTexts, cidr ∈ i.cidrTexts

def otherKey : String := "ssh-ed25519 AAAAC3NzaC1lZDI1NTE5AAAB"

/-- A call with two keys. -/
def pairCall : Call :=
  ⟨[(lit "instance_id", .str (lit "i-1")),
    (lit "ssh_authorized_keys", .list [.str (lit sampleKey), .str (lit otherKey)])],
    sampleDetected, some true⟩

end FreeSense.CloudInit
