import FreeSensePorts.Repoc.Generations

/-!
# A retained payload stays readable

A run retains a payload that was validated for its own installed version and its own selection, and
later runs read it with others.  The version enters `validate_document` in `channel_is_eligible` only,
whose result is a flag that no other check looks at; the selection does not enter.  So a payload is
validated for every version that can be read (`validateDocument_of_isVersion`), and all that a fallback
can still meet is a channel that is not complete or not eligible.
-/

namespace FreeSense.Repoc

open Php

/-! ## Installed versions -/

/-- Digits, a period, digits, a period and digits. -/
def isVersion (s : Text) : Bool :=
  match s.splitOn '.' with
  | [a, b, c] => isDigits a ∧ isDigits b ∧ isDigits c
  | _ => false

lemma versionParts_of_isVersion {s : Text} (h : isVersion s = true) :
    ∃ v, versionParts (.str s) = .ok v := by
  unfold isVersion at h
  split at h
  · next a b c hs =>
      refine ⟨(intOfDigits a, intOfDigits b, intOfDigits c), ?_⟩
      simp only [versionParts, hs]
      exact if_pos (by simpa using h)
  · cases h

/-! ## The validator for another version -/

section Versions

variable {decode : Bytes → Value} {arch : Arch} {installed installed' : Text}
  (hversion : isVersion installed' = true)
include hversion

lemma channelEligible_of_isVersion {schema : Schema} {version : Value} {eligible : Bool}
    (h : channelEligible schema version installed = .ok eligible) :
    ∃ eligible', channelEligible schema version installed' = .ok eligible' := by
  unfold channelEligible at h ⊢
  split_ifs at h ⊢
  · simp only [bind_eq_ok, pure_eq_ok] at h ⊢
    obtain ⟨v, hv, -⟩ := h
    obtain ⟨w, hw⟩ := versionParts_of_isVersion hversion
    exact ⟨_, v, hv, w, hw, rfl⟩
  · exact ⟨true, rfl⟩

/-- **A channel** that passes its checks passes them for every other version, and is the default or
not as before. -/
lemma validateChannel_of_isVersion {schema : Schema} {key : Key} {channel : Value} {c : Checked}
    (h : validateChannel arch installed schema key channel = .ok c) :
    ∃ c', validateChannel arch installed' schema key channel = .ok c' ∧
      c'.isDefault = c.isDefault := by
  cases key with
  | int n => simp [validateChannel] at h
  | str name =>
    simp only [validateChannel, bind_eq_ok, require_eq_ok, pure_eq_ok, exists_const] at h ⊢
    -- every check but the last is the same
    obtain ⟨hname, htexts, version, hversion, habi, system, hsystem, packages, hpackages, mirror,
      hmirror, hos, hneeds, hbinding, hpin, hmirrorPin, hverified, eligible, heligible, rfl⟩ := h
    obtain ⟨eligible', heligible'⟩ := channelEligible_of_isVersion (by assumption) heligible
    exact ⟨_, ⟨hname, htexts, version, hversion, habi, system, hsystem, packages, hpackages, mirror,
      hmirror, hos, hneeds, hbinding, hpin, hmirrorPin, hverified, eligible', heligible', rfl⟩, rfl⟩

/-- **A document** that was valid for one version is valid for every other. -/
theorem validateDocument_of_isVersion {raw : Bytes} {d : Document}
    (h : validateDocument decode arch installed raw = .ok d) :
    ∃ d', validateDocument decode arch installed' raw = .ok d' := by
  simp only [validateDocument, bind_eq_ok, require_eq_ok, exists_const] at h ⊢
  obtain ⟨hraw, h⟩ := h
  cases hs : Schema.ofValue ((decode raw).get schemaKey) with
  | none => simp [hs] at h
  | some schema =>
    simp only [hs, bind_eq_ok, require_eq_ok, pure_eq_ok, exists_const] at h ⊢
    obtain ⟨hdoc, checked, hmap, hone, -⟩ := h
    obtain ⟨checked', hmap', hdefaults⟩ := exists_mapM_of Checked.isDefault
      (fun e c he => validateChannel_of_isVersion hversion he) hmap
    have hfilter : ∀ l : List Checked, (l.filter Checked.isDefault).length
        = ((l.map Checked.isDefault).filter id).length := by
      intro l
      rw [List.filter_map, List.length_map]
      rfl
    refine ⟨_, hraw, hdoc, checked', hmap', ?_, rfl⟩
    rw [hfilter, hdefaults, ← hfilter, hone]

end Versions

/-! ## Later runs -/

/-- The comparison of a candidate with a baseline that has been validated. -/
def compareBaseline (new : Document) (channel : Text) (old : Document) : Except ℕ Unit := do
  require (new.schema.versioned = false ∨ old.schema.versioned = false ∨
    versionsKept new old = true) 36
  if old.complete channel = some true then
    rejectGenerationRollback new.schema (new.channel channel) (old.channel channel)
  else pure ()

/-- A file that every run on this platform can read, whatever its version. -/
def Readable (p : Platform) (raw : Bytes) : Prop :=
  ∀ installed, isVersion installed = true →
    ∃ d, validateDocument p.jsonDecode p.arch installed raw = .ok d

variable {p : Platform} {raw : Bytes}

lemma Readable.checkBaseline (h : Readable p raw) {installed : Text}
    (hi : isVersion installed = true) : ∃ old, ∀ new channel,
      Repoc.checkBaseline p.jsonDecode p.arch installed new channel (some raw)
        = compareBaseline new channel old := by
  obtain ⟨old, hold⟩ := h installed hi
  refine ⟨old, fun new channel => ?_⟩
  simp only [Repoc.checkBaseline, hold]
  rfl

/-- As the fallback, the file has the rows of the run, or the channel is still pending. -/
lemma Readable.validate (h : Readable p raw) {i : Input} (hi : isVersion i.installed = true)
    (hwrites : i.writes = true) :
    (∃ a, Repoc.validate p i raw none = .ok a) ∨ Repoc.validate p i raw none = .error 50 := by
  obtain ⟨d, hd⟩ := h i.installed hi
  by_cases hpending : d.complete (d.effective i.selected) = some true ∧
      d.eligible (d.effective i.selected) = some true
  · left
    refine ⟨⟨d, d.effective i.selected⟩, ?_⟩
    simp only [Repoc.validate, validatePayload, bind_eq_ok, require_eq_ok, pure_eq_ok, exists_const]
    exact ⟨d, hd, hpending, (), rfl, hwrites, rfl⟩
  · right
    simp only [Repoc.validate, validatePayload, hd]
    change (require _ 50 >>= fun _ => _) = _
    rw [require, if_neg hpending]
    rfl

lemma readable_of_retains {cache : Option Bytes} {i : Input} {r : Retained}
    (h : retains p cache i = some r) : Readable p r.payload := by
  obtain ⟨-, hval, -⟩ := retains_eq_some.mp h
  exact fun _ hi => validateDocument_of_isVersion hi (validatePayload_ok hval).1

lemma readable_of_run {s t : State} {is : List Input} (h : Run (Step p) s is t)
    (hs : ∀ r ∈ s.retained, Readable p r.payload) : ∀ r ∈ t.retained, Readable p r.payload := by
  refine h.invariant (I := fun s => ∀ r ∈ s.retained, Readable p r.payload) ?_ hs
  intro s i t hs hstep
  rcases hstep.cases with rfl | ⟨r, hr, rfl⟩
  · exact hs
  · exact List.forall_mem_cons.2 ⟨readable_of_retains hr, hs⟩

/-- **A retained payload wedges no later run.**  Over any history of runs, from any file there was
before, and for every payload that one of them has retained: a later run with whatever selection and
whatever installed version that can be read gets past the validation of its baseline to the
comparison, and as a fallback the payload is accepted or its channel is pending. -/
theorem retained_never_wedges {before : Option Bytes} {s : State} {is : List Input}
    (h : Run (Step p) ⟨before, []⟩ is s) {r : Retained} (hr : r ∈ s.retained) {i : Input}
    (hi : isVersion i.installed = true) :
    (∃ old, ∀ new channel,
        checkBaseline p.jsonDecode p.arch i.installed new channel (some r.payload)
          = compareBaseline new channel old) ∧
      (i.writes = true → (∃ a, validate p i r.payload none = .ok a) ∨
        validate p i r.payload none = .error 50) := by
  have hreadable : Readable p r.payload := readable_of_run h (by simp) r hr
  exact ⟨hreadable.checkBaseline hi, hreadable.validate hi⟩

def upgradedInput : Input := { sampleInput "beta" 1 1 with installed := "2.10.0".toList }

theorem retained_never_wedges_upgraded :
    let s := after samplePlatform [sampleInput "stable" 1 1] .init
    s.retained ≠ [] ∧ ∀ r ∈ s.retained,
      (∃ old, ∀ new channel, checkBaseline samplePlatform.jsonDecode samplePlatform.arch
          upgradedInput.installed new channel (some r.payload) = compareBaseline new channel old) ∧
        ((∃ a, validate samplePlatform upgradedInput r.payload none = .ok a) ∨
          validate samplePlatform upgradedInput r.payload none = .error 50) := by
  intro s
  have hretained : s.retained.length = 1 := by decide +kernel
  refine ⟨List.ne_nil_of_length_pos (by omega), fun r hr => ?_⟩
  have h := retained_never_wedges (run_after _ _ _) hr
    (show isVersion upgradedInput.installed = true by decide +kernel)
  exact ⟨h.1, h.2 rfl⟩

end FreeSense.Repoc
