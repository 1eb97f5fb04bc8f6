import FreeSensePorts.CloudInit.Credentials

/-!
# The order of the writes

`apply` statement after statement, on files that stay changed when a later statement raises: the
configuration is replaced first, then the keys of `root`, the seed of the Fleet and the state file.
In between the keys are encoded and two values dumped, which can raise; that they do not for metadata
that has come that far makes `applyStatements` the function `apply` (`run_applyStatements`).

Of the file system only these four files are modelled, and no operation on them fails.
-/

namespace FreeSense.CloudInit

open Python Xml Element

variable {lib : Library}

variable {keys : List Text} {cidrs : List Address}

abbrev Statements := EStateM Exception Files

def evaluate {α : Type} (x : Except Exception α) : Statements α :=
  match x with
  | .ok a => pure a
  | .error e => throw e

/-- `ET.parse(config_path).getroot()`. -/
def parseConfig : Statements Element := do
  match (← MonadState.get).config with
  | some root => return root
  | none => throw .parseError

def replaceConfig (root : Element) : Statements Unit :=
  modify fun files => { files with config := some root }

/-- `write_text` of the keys, or `unlink`. -/
def writeKeys (lib : Library) (keys : List Text) : Statements Unit :=
  if keys = [] then modify fun files => { files with authorizedKeys := none }
  else if lib.encodable (keyLines keys) then
    modify fun files => { files with authorizedKeys := some (keyLines keys) }
  else throw .valueError

/-- A machine that has joined keeps what it has. -/
def writeSeed (fleet : Value) (root : Element) : Statements Unit := do
  if !fleet.isNone && (root.findtext₂ (lit "fleet") (lit "node_id")).getD [] = [] then
    let seed ← evaluate (dumps fleet)
    modify fun files => { files with seed := some seed }

def writeState (instanceId : Text) (keys : List Text) (cidrs : List Address) : Statements Unit := do
  let _ ← evaluate (dumps (.dict (sealedState instanceId keys cidrs)))
  modify fun files => { files with state := some (sealedState instanceId keys cidrs) }

def applyStatements (lib : Library) (metadata : Dict) (detected : List Detected) :
    Statements Bool := do
  let i ← evaluate (importOf lib metadata)
  if skips lib i (← MonadState.get) then return false
  let assigned ← evaluate (assignedOf lib i detected)
  let root ← parseConfig
  let locks := locksAccount (← MonadState.get) i.instanceId
  let root ← evaluate (provisionRoot lib metadata i.instanceId i.keys i.cidrs (soleWan assigned)
    locks root)
  replaceConfig root
  writeKeys lib i.keys
  writeSeed i.fleet root
  writeState i.instanceId i.keys i.cidrs
  return true

/-! ## Nothing raises between the writes -/

variable {fleet : Value} {instanceId : Text} {assignments : List (Text × Resolved)} {locks : Bool}
  {root root' : Element} {α β : Type} {files files' : Files}

section Dumped

variable {metadata extension : Dict} (h : (Value.dict metadata).printable = true)
include h

lemma printable_extensionOf (he : extensionOf metadata = .ok extension) :
    printableDict extension = true := by
  have hvalue : (getD metadata "freesense" (.dict [])).printable = true := printable_getD h _ rfl
  unfold extensionOf at he
  split at he
  · cases he
    rfl
  · unfold asDict at he
    split at he
    · next d hd =>
        cases he
        rwa [hd] at hvalue
    · cases he

lemma printable_fleetOf (he : extensionOf metadata = .ok extension)
    (hf : fleetOf extension = .ok fleet) : fleet.printable = true := by
  have hvalue := printable_get (printable_extensionOf h he) "fleet"
  unfold fleetOf at hf
  split at hf
  · cases hf
    rfl
  · next d hd =>
      split_ifs at hf
      · cases hf
        rwa [hd] at hvalue
      · cases hf
  · cases hf

end Dumped

lemma length_validKeys {value : Value} (hvalue : value.printable = true)
    (h : validKeys lib value = .ok keys) : keys.length < 2 ^ 63 := by
  unfold validKeys at h
  split at h
  · cases h
    exact Nat.two_pow_pos 63
  · next values =>
      simp only [Value.printable, Bool.and_eq_true, decide_eq_true_eq] at hvalue
      refine foldlM_invariant (I := fun l keys => keys.length + l.length < 2 ^ 63)
        (fun {v l acc acc'} hacc hv => ?_) values [] keys (by simpa using hvalue.1) h
      simp only [bind_eq_ok, pure_eq_ok] at hv
      obtain ⟨key, -, rfl⟩ := hv
      rw [List.length_cons] at hacc
      split_ifs
      · omega
      · rw [List.length_append, List.length_singleton]
        omega
  · cases h

lemma length_cidrsOf {extension : Dict} (hextension : printableDict extension = true)
    (h : cidrsOf lib extension = .ok cidrs) : cidrs.length < 2 ^ 63 := by
  have hvalue := printable_getD hextension "management_cidrs" (v := .list []) rfl
  unfold cidrsOf at h
  split at h
  · next l hl =>
      rw [hl, Value.printable, Bool.and_eq_true, decide_eq_true_eq] at hvalue
      exact (forall₂_of_mapM h).length_eq ▸ hvalue.1
  · cases h

lemma printable_sealedState (hkeys : keys.length < 2 ^ 63) (hcidrs : cidrs.length < 2 ^ 63) :
    (Value.dict (sealedState instanceId keys cidrs)).printable = true := by
  have hlist : printableList (cidrs.map fun a => .str a.text) = true := by
    rw [printableList_iff]
    intro v hv
    obtain ⟨a, -, rfl⟩ := List.mem_map.mp hv
    rfl
  have hcount : keys.length < 10 ^ maxStrDigits :=
    calc keys.length < 10 ^ 19 := hkeys.trans (by norm_num)
      _ ≤ 10 ^ maxStrDigits := Nat.pow_le_pow_right (by norm_num) (by decide)
  have htwo : 2 < 10 ^ maxStrDigits :=
    calc 2 < 10 ^ 1 := by norm_num
      _ ≤ 10 ^ maxStrDigits := Nat.pow_le_pow_right (by norm_num) (by decide)
  simpa [sealedState, Value.printable, printableDict, printableEntry, hlist, hcount, htwo]
    using hcidrs

lemma encodable_of_provisionRoot {metadata : Dict} (hkeys : keys ≠ [])
    (h : provisionRoot lib metadata instanceId keys cidrs assignments locks root = .ok root') :
    lib.encodable (keyLines keys) = true := by
  obtain ⟨-, -, encoded, hencoded, -, -⟩ := provisionRoot_ok h
  rw [encodedKeys, if_neg hkeys] at hencoded
  split_ifs at hencoded with hencodable
  exact hencodable

/-! ## The statements compute the function -/

lemma run_evaluate_bind (x : Except Exception α) (f : α → Statements β) (files : Files) :
    (evaluate x >>= f).run files = match x with
      | .ok a => (f a).run files
      | .error e => .error e files := by
  cases x <;> rfl

lemma run_bind_ok {x : Statements α} {a : α} (h : x.run files = .ok a files') (f : α → Statements β) :
    (x >>= f).run files = (f a).run files' := by
  simp only [EStateM.run] at h
  simp only [EStateM.run, bind, EStateM.bind, h]

lemma run_bind_error {x : Statements α} {e : Exception} (h : x.run files = .error e files')
    (f : α → Statements β) : (x >>= f).run files = .error e files' := by
  simp only [EStateM.run] at h
  simp only [EStateM.run, bind, EStateM.bind, h]

lemma run_parseConfig (files : Files) : parseConfig.run files =
    match files.config with
    | some root => .ok root files
    | none => .error .parseError files := by
  rcases files with ⟨_ | root, _, _, _⟩
  · rfl
  · rfl

lemma run_writeKeys (h : keys ≠ [] → lib.encodable (keyLines keys) = true) (files : Files) :
    (writeKeys lib keys).run files
      = .ok () { files with authorizedKeys := if keys = [] then none else some (keyLines keys) } := by
  unfold writeKeys
  by_cases hkeys : keys = []
  · rw [if_pos hkeys, if_pos hkeys]
    rfl
  · rw [if_neg hkeys, if_neg hkeys, if_pos (h hkeys)]
    rfl

lemma run_writeSeed (h : fleet.printable = true) (root : Element) (files : Files) :
    (writeSeed fleet root).run files
      = .ok () { files with
          seed := if !fleet.isNone && (root.findtext₂ (lit "fleet") (lit "node_id")).getD [] = []
            then some fleet else files.seed } := by
  unfold writeSeed
  split_ifs
  · rw [dumps, if_pos h]
    rfl
  · rfl

lemma run_writeState (h : (Value.dict (sealedState instanceId keys cidrs)).printable = true)
    (files : Files) :
    (writeState instanceId keys cidrs).run files
      = .ok () { files with state := some (sealedState instanceId keys cidrs) } := by
  rw [writeState, dumps, if_pos h]
  rfl

/-- **The writes of a call** that has computed the configuration. -/
lemma run_writes {metadata : Dict} {i : Import} (hjson : (Value.dict metadata).printable = true)
    (hi : importOf lib metadata = .ok i)
    (hprov : provisionRoot lib metadata i.instanceId i.keys i.cidrs assignments locks root = .ok root')
    (files : Files) :
    (do replaceConfig root'
        writeKeys lib i.keys
        writeSeed i.fleet root'
        writeState i.instanceId i.keys i.cidrs
        return true : Statements Bool).run files = .ok true (writtenFiles i root' files) := by
  obtain ⟨-, hkeys, -, hextension, hfleet, hcidrs⟩ := importOf_eq_ok.mp hi
  have hstate : (Value.dict (sealedState i.instanceId i.keys i.cidrs)).printable = true :=
    printable_sealedState (length_validKeys (printable_get hjson _) (keys_of_importedKeys hkeys))
      (length_cidrsOf (printable_extensionOf hjson hextension) hcidrs)
  have hreplace : (replaceConfig root').run files = .ok () { files with config := some root' } := rfl
  rw [run_bind_ok hreplace, run_bind_ok (run_writeKeys (fun h => encodable_of_provisionRoot h hprov) _),
    run_bind_ok (run_writeSeed (printable_fleetOf hjson hextension hfleet) root' _),
    run_bind_ok (run_writeState hstate _)]
  rfl

/-- The result of the function as one of the program: an exception finds every file as it was. -/
def resultOf (files : Files) : Except Exception (Bool × Files) → EStateM.Result Exception Files Bool
  | .ok (b, files') => .ok b files'
  | .error e => .error e files

lemma run_evaluate_eq {x : Except Exception α} {f : α → Statements Bool}
    {g : α → Except Exception (Bool × Files)}
    (h : ∀ a, x = .ok a → (f a).run files = resultOf files (g a)) :
    (evaluate x >>= f).run files = resultOf files (x >>= g) := by
  cases x with
  | error e => rfl
  | ok a => exact h a rfl

/-- **The program computes `apply`.** -/
theorem run_applyStatements {metadata : Dict} (hjson : (Value.dict metadata).printable = true)
    (detected : List Detected) (files : Files) :
    (applyStatements lib metadata detected).run files
      = resultOf files (apply lib metadata detected files) := by
  rw [apply_eq]
  refine run_evaluate_eq fun i hi => ?_
  show EStateM.run (if skips lib i files = true then pure false else _) files = _
  split_ifs
  · rfl
  · refine run_evaluate_eq fun assigned _ => ?_
    have hparse := run_parseConfig files
    cases hconfig : files.config with
    | none =>
      rw [hconfig] at hparse
      exact run_bind_error hparse _
    | some root =>
      rw [hconfig] at hparse
      rw [run_bind_ok hparse]
      exact run_evaluate_eq fun root' hprov => run_writes hjson hi hprov files

/-- The key has been read and the interface is configured in memory when the time zone is refused. -/
def rejectedMetadata : Dict :=
  keyedMetadata sampleKey ++ [(lit "timezone", .str (lit "../zone"))]

end FreeSense.CloudInit
