import FreeSensePorts.Core.Run
import FreeSensePorts.Repoc.Validate

/-!
# Runs of `FreeSense-repoc`

The shell around the validator: how a run gets at a live payload, when it falls back to the retained
or the baked one, and what it retains.  `repoc` is the decision as a function of the retained file
(`MANIFEST_CACHE`) and of everything else a run reads (`Input`).  The state of a history is the
retained file, with the list of all payloads retained so far, newest first, for the proofs.

The decoders (`json_decode`, `base64_decode`) and the check of the signature are parameters.
-/

namespace FreeSense.Repoc

open Php

structure Platform where
  arch : Arch
  jsonDecode : Bytes → Value
  base64Decode : Value → Option Bytes
  /-- `openssl dgst -sha256 -verify`, payload and signature. -/
  verify : Bytes → Bytes → Bool

structure Input where
  /-- `-l`. -/
  nofetch : Bool
  /-- The envelope, if `curl` has fetched one that is not empty. -/
  envelope : Option Bytes
  /-- `MANIFEST_LOCAL`, if it is readable. -/
  baked : Option Bytes
  selected : Text
  installed : Text
  writes : Bool
  persists : Bool

variable (p : Platform)

def unwrap (envelope : Bytes) : Option (Bytes × Bytes) := do
  let doc := p.jsonDecode envelope
  let schema := doc.get schemaKey
  if schema ≠ .str "freesense.repositories/v3".toList ∧
      schema ≠ .str "freesense.repositories/v4".toList then none
  let payload ← p.base64Decode (doc.get "payload".toList).orEmpty
  let signature ← p.base64Decode (doc.get "signature".toList).orEmpty
  if payload = [] ∨ signature = [] then none
  return (payload, signature)

def livePayload (i : Input) : Option Bytes := do
  if i.nofetch then none
  let (payload, signature) ← i.envelope.bind (unwrap p)
  if p.verify payload signature then some payload else none

def validate (i : Input) (candidate : Bytes) (baseline : Option Bytes) : Except ℕ Accepted :=
  validatePayload p.jsonDecode p.arch i.installed candidate baseline i.selected i.writes

inductive Source
  | live | cache | baked
  deriving DecidableEq, Repr

/-- `load_fallback` with a baked payload only. -/
def loadBaked (i : Input) : Option (Source × Accepted) :=
  match i.baked with
  | none => none
  | some raw =>
    match validate p i raw none with
    | .ok a => some (.baked, a)
    | .error _ => none

/-- `load_fallback`: the retained payload, and the baked one where the selected channel is still
pending. -/
def loadFallback (cache : Option Bytes) (i : Input) : Option (Source × Accepted) :=
  match cache with
  | none => loadBaked p i
  | some raw =>
    match validate p i raw none with
    | .ok a => some (.cache, a)
    | .error code => if code ≠ 50 then none else loadBaked p i

/-- The decision: what is retained afterwards, and the source and the rows of a run that goes on. -/
def repoc (cache : Option Bytes) (i : Input) : Option Bytes × Option (Source × Accepted) :=
  if i.nofetch then (cache, loadBaked p i)
  else
    match livePayload p i with
    | none => (cache, loadFallback p cache i)
    | some raw =>
      match validate p i raw cache with
      | .ok a => if i.persists then (some raw, some (.live, a)) else (cache, none)
      | .error code => if code ≠ 50 then (cache, none) else (cache, loadFallback p cache i)

/-! ## Histories -/

structure Retained where
  payload : Bytes
  accepted : Accepted

structure State where
  cache : Option Bytes
  retained : List Retained

def State.init : State := ⟨none, []⟩

def retains (cache : Option Bytes) (i : Input) : Option Retained :=
  match livePayload p i, (repoc p cache i).2 with
  | some raw, some (.live, a) => some ⟨raw, a⟩
  | _, _ => none

def Step (s : State) (i : Input) (t : State) : Prop :=
  t.cache = (repoc p s.cache i).1 ∧ t.retained = (retains p s.cache i).toList ++ s.retained

variable {p}

variable {i : Input} {a : Accepted} {cache : Option Bytes}

lemma loadBaked_source : loadBaked p i ≠ some (.live, a) := by
  unfold loadBaked
  cases i.baked with
  | none => simp
  | some raw =>
    simp only
    split <;> simp

lemma loadFallback_source : loadFallback p cache i ≠ some (.live, a) := by
  unfold loadFallback
  cases cache with
  | none => exact loadBaked_source
  | some raw =>
    simp only
    split
    · simp
    · split_ifs
      · simp
      · exact loadBaked_source

/-- **What a run retains** is its live payload, which the validator accepted against the file
retained before. -/
theorem retains_eq_some {r : Retained} :
    retains p cache i = some r ↔ livePayload p i = some r.payload ∧
      validate p i r.payload cache = .ok r.accepted ∧ i.persists = true := by
  unfold retains
  cases hlive : livePayload p i with
  | none => simp
  | some raw =>
    have hfetch : i.nofetch = false := by
      by_contra hne
      simp [livePayload, hne] at hlive
    simp only [repoc, hfetch, hlive, Bool.false_eq_true, if_false]
    cases hval : validate p i raw cache with
    | error code =>
      have hright : ¬(some raw = some r.payload ∧
          validate p i r.payload cache = .ok r.accepted ∧ i.persists = true) := by
        rintro ⟨hraw, hok, -⟩
        rw [Option.some.injEq] at hraw
        rw [← hraw, hval] at hok
        exact absurd hok (by simp)
      refine iff_of_false ?_ hright
      simp only
      split_ifs
      · simp
      · cases hf : loadFallback p cache i with
        | none => simp
        | some sa =>
          obtain ⟨source, a⟩ := sa
          cases source with
          | live => exact absurd hf loadFallback_source
          | cache => simp
          | baked => simp
    | ok a =>
      cases hp : i.persists with
      | false => simp
      | true =>
        simp only [if_true, Option.some.injEq, and_true]
        constructor
        · rintro rfl
          exact ⟨rfl, hval⟩
        · rintro ⟨rfl, hok⟩
          rw [hval, Except.ok.injEq] at hok
          rw [hok]

lemma retains_of_live (h : (repoc p cache i).2 = some (.live, a)) :
    ∃ raw, retains p cache i = some ⟨raw, a⟩ := by
  cases hlive : livePayload p i with
  | some raw => exact ⟨raw, by rw [retains, hlive, h]⟩
  | none =>
    simp only [repoc, hlive] at h
    split_ifs at h
    · exact absurd h loadBaked_source
    · exact absurd h loadFallback_source

/-- The retained file changes only when a run retains its payload. -/
theorem repoc_cache (cache : Option Bytes) (i : Input) :
    (repoc p cache i).1 = ((retains p cache i).map Retained.payload).or cache := by
  cases hr : retains p cache i with
  | some r =>
    obtain ⟨hlive, hval, hp⟩ := retains_eq_some.mp hr
    have hfetch : i.nofetch = false := by
      by_contra hne
      simp [livePayload, hne] at hlive
    simp [repoc, hfetch, hlive, hval, hp]
  | none =>
    have hno : ∀ r : Retained, ¬(livePayload p i = some r.payload ∧
        validate p i r.payload cache = .ok r.accepted ∧ i.persists = true) := by
      intro r h
      rw [retains_eq_some.mpr h] at hr
      exact absurd hr (by simp)
    simp only [Option.map_none, Option.none_or]
    unfold repoc
    by_cases hn : i.nofetch = true
    · rw [if_pos hn]
    · rw [if_neg hn]
      cases hlive : livePayload p i with
      | none => rfl
      | some raw =>
        simp only
        cases hval : validate p i raw cache with
        | error code =>
          simp only
          split_ifs <;> rfl
        | ok a =>
          have : i.persists = false := by
            by_contra hp
            exact hno ⟨raw, a⟩ ⟨hlive, hval, by simpa using hp⟩
          simp [this]

/-- **One run**, seen from the retained file. -/
theorem Step.cases {s t : State} (h : Step p s i t) :
    (t = s) ∨ ∃ r, retains p s.cache i = some r ∧
      t = ⟨some r.payload, r :: s.retained⟩ := by
  obtain ⟨hcache, hret⟩ := h
  rw [repoc_cache] at hcache
  cases hr : retains p s.cache i with
  | none =>
    cases t
    simp_all
  | some r =>
    right
    cases t
    simp_all

end FreeSense.Repoc
