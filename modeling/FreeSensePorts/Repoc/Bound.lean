import FreeSensePorts.Repoc.Generations

/-!
# What is materialised is bound and verified

The shell writes repositories from the rows of the validator and from nothing else.  `Bound` is the
contract of one row against the channel it was made from.  The retained file is a payload that was once
fetched with a valid signature and accepted.  The range of `osversion` is checked with PHP's integers,
which turn into doubles on overflow; no wrong number gets through (`osversion_window`).
-/

namespace FreeSense.Repoc

open List Php

/-! ## The range of `osversion` -/

variable {major installed : Text} {v : Value} {arch : Arch} {raw : Bytes} {p : Platform}

/-- **The check is exact**, for every 64-bit number and every major version, however long. -/
theorem osversion_window {n : ℤ} (hn : n ≤ intMax)
    (hlow : ltNumber n (Number.mul (.int (intOfDigits major)) 100000) = false)
    (hhigh : ltNumber n (Number.mul (add (intOfDigits major) 1) 100000) = true) :
    (Text.number 10 major : ℤ) * 100000 ≤ n ∧ n < ((Text.number 10 major : ℤ) + 1) * 100000 := by
  set a := intOfDigits major with ha
  have hmax : intMax = 9223372036854775807 := rfl
  by_cases hfit : a * 100000 ≤ intMax
  · -- the product is an integer, and the number of the digits was not cut
    have hnum : Text.number 10 major = a := by
      have : a = min (Text.number 10 major) intMax := ha
      omega
    rw [Number.mul, if_pos hfit, ltNumber, decide_eq_false_iff_not, not_lt] at hlow
    have hsum : add a 1 = .int (a + 1) := if_pos (by omega)
    rw [hsum, Number.mul] at hhigh
    rw [hnum]
    refine ⟨by exact_mod_cast hlow, ?_⟩
    by_cases hnext : (a + 1) * 100000 ≤ intMax
    · rw [if_pos hnext, ltNumber, decide_eq_true_eq] at hhigh
      exact_mod_cast hhigh
    · omega
  · -- the product is a double above every integer, so no number passes
    rw [Number.mul, if_neg hfit, ltNumber, decide_eq_false_iff_not, not_or] at hlow
    obtain ⟨hpos, hle⟩ := hlow
    have h₁ := toDouble_le n.toNat
    have h₂ := le_toDouble a
    have h₃ := le_toDouble (toDouble a * toDouble 100000)
    have h₄ : toDouble 100000 = 100000 := by decide
    rw [h₄] at h₃ hle
    omega

/-! ## One row -/

/-- The contract of a row: the channel it comes from, and what was checked of it. -/
structure Bound (arch : Arch) (installed : Text) (schema : Schema) (channel : Value) (row : Row) :
    Prop where
  name : channel.get nameKey = .str row.name
  train : channel.get trainKey = .str row.train
  /-- Both repositories are there and verified. -/
  verified : (channel.get Kind.system.name).get verifiedKey = .bool true ∧
    (channel.get Kind.packages.name).get verifiedKey = .bool true
  /-- The URLs are functions of the fingerprints, and the packages are bound to the system. -/
  urls : ∃ system packages, isHex64 system = true ∧ isHex64 packages = true ∧
    (channel.get Kind.system.name).get fingerprintKey = .str system ∧
    (channel.get Kind.packages.name).get fingerprintKey = .str packages ∧
    (channel.get Kind.system.name).get urlKey = .str row.systemUrl ∧
    (channel.get Kind.packages.name).get urlKey = .str row.packagesUrl ∧
    row.systemUrl = componentUrl .system row.train system arch.package ∧
    row.packagesUrl = componentUrl .packages row.train packages arch.package ∧
    (channel.get Kind.packages.name).get bindingKey = .str system
  mirror : (channel.get Kind.mirror.name = .null ∧ row.mirrorUrl = []) ∨
    (channel.get Kind.mirror.name).get verifiedKey = .bool true ∧
      (channel.get Kind.mirror.name).get urlKey = .str row.mirrorUrl ∧
      ∃ mirror, isHex64 mirror = true ∧
        (channel.get Kind.mirror.name).get fingerprintKey = .str mirror ∧
        row.mirrorUrl = componentUrl .mirror row.train mirror arch.package
  pins : schema.pinned = true → ∃ pin, isHex64 pin = true ∧
    (channel.get Kind.system.name).get pinKey = .str pin ∧
    (channel.get Kind.packages.name).get pinKey = .str pin ∧
    (channel.get Kind.mirror.name ≠ .null → (channel.get Kind.mirror.name).get pinKey = .str pin)
  /-- One major version in both ABIs and in `osversion`. -/
  abi : ∃ major, isDigits major = true ∧ channel.get abiKey = .str row.abi ∧
    channel.get altabiKey = .str row.altabi ∧
    row.abi = arch.abi.head ++ major ++ arch.abi.tail ∧
    row.altabi = arch.altabi.head ++ major ++ arch.altabi.tail ∧
    (((channel.get Kind.system.name).get osversionKey = .null ∧ row.osversion = []) ∨
      ∃ n : Int64, (channel.get Kind.system.name).get osversionKey = .int n ∧
        row.osversion = toText n.toInt ∧ (Text.number 10 major : ℤ) * 100000 ≤ n.toInt ∧
        n.toInt < ((Text.number 10 major : ℤ) + 1) * 100000)
  version : schema.versioned = true → ∃ major minor patch current,
    channel.get versionKey = .str row.version ∧
    versionParts (.str row.version) = .ok (major, minor, patch) ∧
    row.train = toText major ++ ".".toList ++ toText minor ∧
    versionParts (.str installed) = .ok current ∧ tupleLt (major, minor, patch) current = false

lemma osversionOk_cases (h : osversionOk v major = true) :
    v = .null ∨ ∃ n : Int64, v = .int n ∧ (Text.number 10 major : ℤ) * 100000 ≤ n.toInt ∧
      n.toInt < ((Text.number 10 major : ℤ) + 1) * 100000 := by
  cases v with
  | null => exact Or.inl rfl
  | int n =>
    refine Or.inr ⟨n, rfl, ?_⟩
    rw [osversionOk, Bool.and_eq_true, Bool.not_eq_true'] at h
    refine osversion_window ?_ h.1 h.2
    have := n.toInt_lt
    simp only [intMax]
    omega
  | _ => simp [osversionOk] at h

lemma versionParts_str {w : ℕ × ℕ × ℕ} (h : versionParts v = .ok w) : v = .str v.text := by
  cases v with
  | str s => rfl
  | _ => simp [versionParts] at h

/-- **A row is bound.** -/
theorem ChannelOk.bound {schema : Schema} {key : Key} {channel : Value} {c : Checked}
    (h : ChannelOk arch installed schema key channel c) {row : Row} (hrow : c.row = some row) :
    key = .str row.name ∧ Bound arch installed schema channel row := by
  obtain ⟨version, hversion, heligible, hc⟩ := h.version
  have hboth : c.complete = true ∧ c.eligible = true := by
    by_contra hnot
    rw [hrow, if_neg hnot] at hc
    exact Option.some_ne_none row hc
  rw [hrow, if_pos hboth, Option.some.injEq] at hc
  obtain ⟨hcomplete, helig⟩ := hboth
  obtain ⟨hsys, hpkg, hsysv, hpkgv⟩ := h.complete.mp hcomplete
  have oksys := h.component .system hsys
  have okpkg := h.component .packages hpkg
  obtain ⟨fs, hfs, hfshex, hfsurl⟩ := oksys.fingerprint
  obtain ⟨fp, hfp, hfphex, hfpurl⟩ := okpkg.fingerprint
  obtain ⟨major, hdigits, habi, haltabi, hos⟩ := h.abi
  subst hc
  refine ⟨h.key, h.name, h.train, ⟨hsysv, hpkgv⟩, ?_, ?_, ?_, ?_, ?_⟩
  · refine ⟨fs, fp, hfshex, hfphex, hfs, hfp, ?_, ?_, ?_, ?_, (h.binding hpkg).trans hfs⟩
    · rw [hfsurl]
      rfl
    · rw [hfpurl]
      rfl
    · simp only [hfsurl, Value.text]
    · simp only [hfpurl, Value.text]
  · by_cases hmir : channel.get Kind.mirror.name = .null
    · refine Or.inl ⟨hmir, ?_⟩
      rw [hmir]
      rfl
    · obtain ⟨fm, hfm, hfmhex, hfmurl⟩ := (h.component .mirror hmir).fingerprint
      refine Or.inr ⟨(h.mirror hmir).2, ?_, fm, hfmhex, hfm, ?_⟩
      · rw [hfmurl]
        rfl
      · simp only [hfmurl, Value.text]
  · intro hpinned
    obtain ⟨hpin, hhex⟩ := oksys.pin hpinned
    exact ⟨_, hhex, hpin, (h.pinned hpkg hpinned).trans hpin,
      fun hmir => (h.mirror hmir).1.trans hpin⟩
  · refine ⟨major, hdigits, ?_, ?_, ?_, ?_, ?_⟩
    · rw [habi]
      rfl
    · rw [haltabi]
      rfl
    · rw [habi]
      rfl
    · rw [haltabi]
      rfl
    · rcases osversionOk_cases hos with hnull | ⟨n, hn, hlow, hhigh⟩
      · exact Or.inl ⟨hnull, by simp [hnull]⟩
      · exact Or.inr ⟨n, hn, by simp [hn, Value.toInt], hlow, hhigh⟩
  · intro hv
    rw [channelVersion, if_pos hv] at hversion
    simp only [bind_eq_ok, require_eq_ok, pure_eq_ok, exists_const] at hversion
    obtain ⟨⟨a, b, d⟩, hparts, htrain, rfl⟩ := hversion
    rw [channelEligible, if_pos hv] at heligible
    simp only [bind_eq_ok, pure_eq_ok] at heligible
    obtain ⟨v, hparts', current, hcurrent, hle⟩ := heligible
    rw [hparts, Except.ok.injEq] at hparts'
    subst hparts'
    have hstr := versionParts_str hparts
    rw [helig] at hle
    refine ⟨a, b, d, current, hstr, ?_, htrain, hcurrent, by simpa using hle⟩
    rw [← hstr]
    exact hparts

lemma DocumentOk.bound {decode : Bytes → Value} {d : Document}
    (h : DocumentOk decode arch installed raw d) {row : Row} (hrow : row ∈ d.rows) :
    ∃ channel, (.str row.name, channel) ∈ (d.doc.get channelsKey).entries ∧
      Bound arch installed d.schema channel row := by
  obtain ⟨c, hc, hcrow⟩ := mem_filterMap.mp hrow
  obtain ⟨n, hn, rfl⟩ := mem_iff_getElem.mp hc
  have hok := List.forall₂_iff_get.mp h.channels
  have hchannel := hok.2 n (by omega) hn
  obtain ⟨hkey, hbound⟩ := hchannel.bound hcrow
  refine ⟨_, ?_, hbound⟩
  rw [← hkey]
  exact get_mem _ _

/-! ## The retained file -/

/-- What it means that a payload was fetched, verified and accepted by the run of this input. -/
def Fetched (p : Platform) (i : Input) (raw : Bytes) : Prop :=
  i.nofetch = false ∧ (∃ signature, i.envelope.bind (unwrap p) = some (raw, signature) ∧
    p.verify raw signature = true) ∧ ∃ cache a, validate p i raw cache = .ok a

lemma fetched_of_retains {cache : Option Bytes} {i : Input} {r : Retained}
    (h : retains p cache i = some r) : Fetched p i r.payload := by
  obtain ⟨hlive, hval, -⟩ := retains_eq_some.mp h
  have hfetch : i.nofetch = false := by
    by_contra hne
    simp [livePayload, hne] at hlive
  refine ⟨hfetch, ?_, cache, r.accepted, hval⟩
  simp only [livePayload, hfetch, Bool.false_eq_true, if_false] at hlive
  cases hu : i.envelope.bind (unwrap p) with
  | none => simp [hu] at hlive
  | some ps =>
    obtain ⟨payload, signature⟩ := ps
    simp only [hu] at hlive
    by_cases hv : p.verify payload signature = true
    · simp [hv] at hlive
      exact ⟨signature, by rw [hlive], hlive ▸ hv⟩
    · simp [hv] at hlive

/-- Over a whole history, what is retained was fetched by one of its runs. -/
theorem fetched_of_run {s t : State} {is : List Input} (h : Run (Step p) s is t)
    (ht : t.cache = some raw) : s.cache = some raw ∨ ∃ i ∈ is, Fetched p i raw := by
  induction h with
  | nil => exact Or.inl ht
  | cons hstep _ ih =>
    rcases ih ht with hcache | ⟨i, hi, hfetched⟩
    · rcases hstep.cases with rfl | ⟨r, hr, rfl⟩
      · exact Or.inl hcache
      · rw [Option.some.injEq] at hcache
        exact Or.inr ⟨_, mem_cons_self, hcache ▸ fetched_of_retains hr⟩
    · exact Or.inr ⟨i, mem_cons_of_mem _ hi, hfetched⟩

/-- **Everything that is materialised is bound and verified.**  On every platform: each row of a
payload the validator accepts comes from a channel of the document under its own name and is bound
to it; and in every history from an empty cache the retained file is a payload that one of the runs
fetched with a valid signature and accepted. -/
theorem materialised_bound (p : Platform) :
    (∀ i candidate baseline a, validate p i candidate baseline = .ok a → ∀ row ∈ a.document.rows,
      ∃ channel, (.str row.name, channel) ∈ ((p.jsonDecode candidate).get channelsKey).entries ∧
        Schema.ofValue ((p.jsonDecode candidate).get schemaKey) = some a.document.schema ∧
        Bound p.arch i.installed a.document.schema channel row) ∧
    ∀ is s raw, Run (Step p) .init is s → s.cache = some raw → ∃ i ∈ is, Fetched p i raw := by
  constructor
  · intro i candidate baseline a h row hrow
    have hok := validateDocument_ok (validatePayload_ok h).1
    obtain ⟨channel, hmem, hbound⟩ := hok.bound hrow
    exact ⟨channel, hok.doc ▸ hmem, hok.doc ▸ hok.schema, hbound⟩
  · intro is s raw h hcache
    exact (fetched_of_run h hcache).resolve_left (by simp [State.init])

theorem materialised_bound_sample :
    ∃ a, validate samplePlatform (sampleInput "stable" 1 1) [1, 1] none = .ok a ∧
      a.document.rows.length = 2 ∧ ∀ row ∈ a.document.rows, ∃ channel,
        Bound amd64 "1.0.0".toList a.document.schema channel row := by
  have hlength : ((validate samplePlatform (sampleInput "stable" 1 1) [1, 1] none).toOption.map
      fun a => a.document.rows.length) = some 2 := by decide +kernel
  cases ha : validate samplePlatform (sampleInput "stable" 1 1) [1, 1] none with
  | error code =>
    rw [ha] at hlength
    cases hlength
  | ok a =>
    rw [ha] at hlength
    refine ⟨a, rfl, Option.some.inj hlength, fun row hrow => ?_⟩
    obtain ⟨channel, -, -, hbound⟩ := (materialised_bound samplePlatform).1 _ _ _ a ha row hrow
    exact ⟨channel, hbound⟩

end FreeSense.Repoc
