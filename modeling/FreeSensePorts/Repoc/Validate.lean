import FreeSensePorts.Core.Check
import FreeSensePorts.Core.Php

/-!
# The validator of `FreeSense-repoc`

The PHP program inside `validate_payload`.  It reads a channel document (`validateDocument`), decides
which channel is selected, compares it with the document retained by an earlier run
(`rejectGenerationRollback`), and prints one row for each channel that is complete and eligible.

`invalid_payload($code)` is the error of an `Except`.  Of the JSON decoder nothing is assumed; what does
not decode is `null`.  The regular expressions, all anchored (`/D`), are predicates on the characters;
the pattern of an ABI is the text in front of its one group and the text behind it.
-/

namespace FreeSense.Repoc

open Php

abbrev Bytes := List UInt8

/-! ## The platform -/

/-- `EXPECTED_ABI` and `EXPECTED_ALTABI`: `head([0-9]+)tail`. -/
structure AbiPattern where
  head : Text
  tail : Text
  deriving DecidableEq, Repr

structure Arch where
  machine : Text
  package : Text
  abi : AbiPattern
  altabi : AbiPattern
  deriving DecidableEq, Repr

def amd64 : Arch :=
  ⟨"amd64".toList, "amd64".toList, ⟨"FreeBSD:".toList, ":amd64".toList⟩,
    ⟨"freebsd:".toList, ":x86:64".toList⟩⟩

def aarch64 : Arch :=
  ⟨"arm64".toList, "aarch64".toList, ⟨"FreeBSD:".toList, ":aarch64".toList⟩,
    ⟨"freebsd:".toList, ":aarch64:64".toList⟩⟩

/-- The `case` over `uname -m` and `uname -p`. -/
def archOf (machine processor : String) : Option Arch :=
  if machine = "amd64" ∧ processor = "amd64" then some amd64
  else if machine = "x86_64" then some amd64
  else if machine = "arm64" ∧ processor = "aarch64" then some aarch64
  else none

/-! ## Texts -/

def isDigits (s : Text) : Bool := s ≠ [] ∧ s.all Char.isDigit

/-- `/^[0-9a-f]{64}$/D`. -/
def isHex64 (s : Text) : Bool :=
  s.length = 64 ∧ s.all fun c => c.isDigit ∨ 'a' ≤ c ∧ c ≤ 'f'

/-- `/^[a-z0-9][a-z0-9.-]*$/D`. -/
def isChannelName : Text → Bool
  | [] => false
  | c :: cs => (c.isDigit ∨ c.isLower) ∧
      cs.all fun c => c.isDigit ∨ c.isLower ∨ c = '.' ∨ c = '-'

/-- `/^[0-9]+[.][0-9]+$/D`. -/
def isTrain (s : Text) : Bool :=
  match s.splitOn '.' with
  | [a, b] => isDigits a ∧ isDigits b
  | _ => false

def safeText (v : Value) : Bool :=
  match v with
  | .str s => s ≠ [] ∧ s.all fun c => c ≠ '|' ∧ c ≠ '\r' ∧ c ≠ '\n' ∧ c ≠ '\x00'
  | _ => false

/-- The group of a match of the pattern. -/
def AbiPattern.group (p : AbiPattern) (s : Text) : Option Text :=
  let digits := (s.drop p.head.length).take (s.length - p.head.length - p.tail.length)
  if s = p.head ++ digits ++ p.tail ∧ isDigits digits then some digits else none

def hex64 (v : Value) (code : ℕ) : Except ℕ Text :=
  match v with
  | .str s => if isHex64 s then .ok s else .error code
  | _ => .error code

/-- `is_int($generation) && $generation > 0`. -/
def isGeneration (v : Value) : Bool :=
  match v with
  | .int n => 0 < n.toInt
  | _ => false

def versionParts (v : Value) : Except ℕ (ℕ × ℕ × ℕ) :=
  match v with
  | .str s =>
    match s.splitOn '.' with
    | [a, b, c] =>
      if isDigits a ∧ isDigits b ∧ isDigits c then
        .ok (intOfDigits a, intOfDigits b, intOfDigits c)
      else .error 29
    | _ => .error 29
  | _ => .error 29

/-- PHP's `<` on lists of three integers. -/
def tupleLt (v w : ℕ × ℕ × ℕ) : Bool :=
  v.1 < w.1 ∨ v.1 = w.1 ∧ (v.2.1 < w.2.1 ∨ v.2.1 = w.2.1 ∧ v.2.2 < w.2.2)

/-! ## Components -/

inductive Schema
  | v1 | v2 | v3 | v4
  deriving DecidableEq, Repr

def Schema.name : Schema → Text
  | .v1 => "freesense.channels/v1".toList
  | .v2 => "freesense.channels/v2".toList
  | .v3 => "freesense.channels/v3".toList
  | .v4 => "freesense.channels/v4".toList

def Schema.ofValue (v : Value) : Option Schema :=
  [Schema.v1, .v2, .v3, .v4].find? fun s => v = .str s.name

def Schema.pinned (s : Schema) : Bool := s = .v2 ∨ s = .v3 ∨ s = .v4

def Schema.versioned (s : Schema) : Bool := s = .v3 ∨ s = .v4

inductive Kind
  | system | packages | mirror
  deriving DecidableEq, Repr

def Kind.name : Kind → Text
  | .system => "system".toList
  | .packages => "packages".toList
  | .mirror => "mirror".toList

def componentUrl (kind : Kind) (train fingerprint packageArch : Text) : Text :=
  match kind with
  | .system => "https://pkg.freesense.org/v1/artifacts/system/".toList ++ fingerprint
      ++ "/".toList ++ packageArch
  | .mirror => "https://pkg.freesense.org/v1/artifacts/mirror/".toList ++ fingerprint
      ++ "/".toList ++ packageArch
  | .packages => "https://pkg.freesense.org/v1/artifacts/packages/".toList ++ train ++ "/".toList
      ++ fingerprint ++ "/".toList ++ packageArch

def fingerprintKey : Text := "fingerprint".toList
def verifiedKey : Text := "verified".toList
def generationKey : Text := "generation".toList
def bindingKey : Text := "system_fingerprint".toList
def pinKey : Text := "freebsd_pin_id".toList
def builtKey : Text := "built_against_system".toList
def urlKey : Text := "url".toList
def osversionKey : Text := "osversion".toList
def trainKey : Text := "package_train".toList
def abiKey : Text := "abi".toList
def altabiKey : Text := "altabi".toList
def versionKey : Text := "version".toList
def channelsKey : Text := "channels".toList
def schemaKey : Text := "schema_version".toList
def nameKey : Text := "name".toList
def descriptionKey : Text := "description".toList
def defaultKey : Text := "default".toList
def archKey : Text := "architecture".toList
def packageArchKey : Text := "package_arch".toList

/-- `validate_component`: the component itself, or `null` where there is none. -/
def validateComponent (component : Value) (kind : Kind) (train : Text) (schema : Schema)
    (packageArch : Text) : Except ℕ Value :=
  if component = .null then .ok .null
  else do
    require (component.isArray = true) 10
    let fingerprint ← hex64 (component.get fingerprintKey) 11
    require ((component.get verifiedKey).isBool = true) 12
    require (isGeneration (component.get generationKey) = true) 13
    require (kind = .packages ∨ component.hasKey bindingKey = false ∨
      component.get bindingKey = .str []) 15
    require (schema.pinned = false ∨ isHex64 (component.get pinKey).text = true) 17
    require (schema.pinned = false ∨ kind ≠ .packages ∨
      isHex64 (component.get builtKey).text = true) 18
    require (component.get urlKey = .str (componentUrl kind train fingerprint packageArch)) 16
    return component

/-! ## Channels -/

structure Row where
  name : Text
  description : Text
  version : Text
  systemUrl : Text
  packagesUrl : Text
  train : Text
  abi : Text
  altabi : Text
  osversion : Text
  default : Text
  mirrorUrl : Text
  deriving DecidableEq, Repr

structure Checked where
  name : Text
  row : Option Row
  complete : Bool
  eligible : Bool
  isDefault : Bool
  deriving DecidableEq, Repr

/-- The version of a channel: written out, and then matching the train, or the train itself. -/
def channelVersion (schema : Schema) (version : Value) (train : Text) : Except ℕ Value :=
  if schema.versioned then do
    let (major, minor, _) ← versionParts version
    require (train = toText major ++ ".".toList ++ toText minor) 29
    return version
  else return .str (train ++ ".0".toList)

/-- `channel_is_eligible`, where the schema asks for it. -/
def channelEligible (schema : Schema) (version : Value) (installed : Text) : Except ℕ Bool :=
  if schema.versioned then do
    let v ← versionParts version
    let i ← versionParts (.str installed)
    return !tupleLt v i
  else return true

def osversionOk (osversion : Value) (major : Text) : Bool :=
  match osversion with
  | .null => true
  | .int n =>
    !ltNumber n.toInt (Number.mul (.int (intOfDigits major)) 100000) &&
      ltNumber n.toInt (Number.mul (add (intOfDigits major) 1) 100000)
  | _ => false

/-- The body of the loop of `validate_document`. -/
def validateChannel (arch : Arch) (installed : Text) (schema : Schema) (key : Key)
    (channel : Value) : Except ℕ Checked :=
  match key with
  | .int _ => .error 22
  | .str name => do
    require (isChannelName name = true ∧ channel.isArray = true ∧
      channel.get nameKey = .str name) 22
    let description := channel.get descriptionKey
    let train := (channel.get trainKey).text
    let default := channel.get defaultKey
    require (safeText description = true ∧ isTrain train = true ∧ default.isBool = true) 23
    let version ← channelVersion schema (channel.get versionKey) train
    let declaredArch := channel.get archKey
    let declaredPackageArch := channel.get packageArchKey
    let abi := (channel.get abiKey).text
    let altabi := (channel.get altabiKey).text
    require ((if declaredArch = .null then .str "amd64".toList else declaredArch)
        = .str arch.machine ∧
      (if declaredPackageArch = .null then .str "amd64".toList else declaredPackageArch)
        = .str arch.package ∧
      channel.get abiKey = .str abi ∧ channel.get altabiKey = .str altabi ∧
      (arch.abi.group abi).isSome = true ∧ arch.abi.group abi = arch.altabi.group altabi) 24
    let major := (arch.abi.group abi).getD []
    let system ← validateComponent (channel.get Kind.system.name) .system train schema arch.package
    let packages ←
      validateComponent (channel.get Kind.packages.name) .packages train schema arch.package
    let mirror ← validateComponent (channel.get Kind.mirror.name) .mirror train schema arch.package
    let osversion := system.get osversionKey
    require (osversionOk osversion major = true) 30
    require (packages = .null ∨ system ≠ .null) 25
    require (packages = .null ∨ isHex64 (packages.get bindingKey).text = true ∧
      packages.get bindingKey = system.get fingerprintKey) 26
    require (packages = .null ∨ schema.pinned = false ∨
      packages.get pinKey = system.get pinKey) 28
    require (mirror = .null ∨ system ≠ .null ∧ mirror.get pinKey = system.get pinKey) 37
    require (mirror = .null ∨ mirror.get verifiedKey = .bool true) 38
    let complete : Bool := system ≠ .null ∧ packages ≠ .null ∧
      system.get verifiedKey = .bool true ∧ packages.get verifiedKey = .bool true
    let eligible ← channelEligible schema version installed
    let row : Row :=
      { name := name
        description := description.text
        version := version.text
        systemUrl := (system.get urlKey).text
        packagesUrl := (packages.get urlKey).text
        train := train
        abi := abi
        altabi := altabi
        osversion := if osversion = .null then [] else toText osversion.toInt
        default := if default = .bool true then "yes".toList else "no".toList
        mirrorUrl := (mirror.get urlKey).text }
    return ⟨name, if complete ∧ eligible then some row else none, complete, eligible,
      default = .bool true⟩

/-! ## Documents -/

structure Document where
  doc : Value
  schema : Schema
  checked : List Checked

/-- `$complete[$name]`; a later channel hides an earlier one. -/
def Document.complete (d : Document) (name : Text) : Option Bool :=
  (d.checked.reverse.find? fun c => c.name = name).map Checked.complete

def Document.eligible (d : Document) (name : Text) : Option Bool :=
  (d.checked.reverse.find? fun c => c.name = name).map Checked.eligible

def Document.rows (d : Document) : List Row := d.checked.filterMap Checked.row

def Document.defaultName (d : Document) : Text :=
  ((d.checked.filter Checked.isDefault).getLast?.map Checked.name).getD []

def Document.channel (d : Document) (name : Text) : Value := (d.doc.get channelsKey).get name

section Validator

variable (decode : Bytes → Value) (arch : Arch)

def validateDocument (installed : Text) (raw : Bytes) : Except ℕ Document := do
  require (raw ≠ []) 20
  let doc := decode raw
  match Schema.ofValue (doc.get schemaKey) with
  | none => .error 21
  | some schema =>
    let channels := doc.get channelsKey
    require (doc.isArray = true ∧ channels.isArray = true ∧ channels.entries ≠ []) 21
    let checked ← channels.entries.mapM fun (key, channel) =>
      validateChannel arch installed schema key channel
    require ((checked.filter Checked.isDefault).length = 1) 27
    return ⟨doc, schema, checked⟩

/-! ## Comparison with the retained document -/

/-- `$new[key] ?? ""` against `$old[key] ?? ""`. -/
def changed (key : Text) (new old : Value) : Bool := (new.get key).orEmpty ≠ (old.get key).orEmpty

/-- The body of the loop of `reject_generation_rollback`.  Both components have been validated, so
their generations are integers. -/
def rejectComponent (schema : Schema) (new old : Value) : Except ℕ Unit := do
  require (¬(new.get generationKey).toInt < (old.get generationKey).toInt) 31
  require (new.get generationKey = old.get generationKey →
    new.get fingerprintKey = old.get fingerprintKey) 32
  let bindingChanged := schema = .v1 ∧ changed bindingKey new old = true
  let pinChanged := schema.pinned = true ∧
    (changed pinKey new old = true ∨ changed builtKey new old = true)
  require (new.get fingerprintKey = old.get fingerprintKey →
    new.get generationKey = old.get generationKey ∧ new.get urlKey = old.get urlKey ∧
      ¬bindingChanged ∧ ¬pinChanged) 34

/-- One turn of that loop: a component that either side does not have is skipped. -/
def rejectKind (schema : Schema) (new old : Value) (kind : Kind) : Except ℕ Unit :=
  if old.get kind.name = .null ∨ new.get kind.name = .null then pure ()
  else rejectComponent schema (new.get kind.name) (old.get kind.name)

def rejectGenerationRollback (schema : Schema) (new old : Value) : Except ℕ Unit := do
  rejectKind schema new old .system
  rejectKind schema new old .packages
  rejectKind schema new old .mirror
  let newSystem := new.get Kind.system.name
  let oldSystem := old.get Kind.system.name
  require (newSystem.get fingerprintKey = oldSystem.get fingerprintKey →
    new.get trainKey = old.get trainKey ∧ new.get abiKey = old.get abiKey ∧
      new.get altabiKey = old.get altabiKey ∧
      newSystem.get osversionKey = oldSystem.get osversionKey) 35

/-- The check that no channel's version goes back.  `version_compare` on two validated versions
compares their numbers. -/
def versionsKept (candidate baseline : Document) : Bool :=
  ((candidate.doc.get channelsKey).entries).all fun (key, channel) =>
    match key with
    | .int _ => true
    | .str name =>
      let old := baseline.channel name
      if old = .null then true
      else
        match versionParts (channel.get versionKey), versionParts (old.get versionKey) with
        | .ok v, .ok w => !tupleLt v w
        | _, _ => true

/-- The channel the validator works for: the one that was asked for, or the default where there is
none or it is not eligible. -/
def Document.effective (d : Document) (selected : Text) : Text :=
  let selected := if selected ≠ [] then selected else d.defaultName
  if d.eligible selected = some false then d.defaultName else selected

structure Accepted where
  document : Document
  channel : Text

/-- The comparison of an accepted candidate with the retained document, if there is one. -/
def checkBaseline (installed : Text) (new : Document) (channel : Text) (baseline : Option Bytes) :
    Except ℕ Unit :=
  match baseline with
  | none => pure ()
  | some raw => do
    let old ← validateDocument decode arch installed raw
    require (new.schema.versioned = false ∨ old.schema.versioned = false ∨
      versionsKept new old = true) 36
    if old.complete channel = some true then
      rejectGenerationRollback new.schema (new.channel channel) (old.channel channel)
    else pure ()

/-- `validate_payload`: the candidate, the retained document if there is one, and the channel that
was asked for; `writes` says whether the rows can be written. -/
def validatePayload (installed : Text) (candidate : Bytes) (baseline : Option Bytes)
    (selected : Text) (writes : Bool) : Except ℕ Accepted := do
  let new ← validateDocument decode arch installed candidate
  let channel := new.effective selected
  require (new.complete channel = some true ∧ new.eligible channel = some true) 50
  checkBaseline decode arch installed new channel baseline
  require (writes = true) 40
  return ⟨new, channel⟩

end Validator

end FreeSense.Repoc
