import FreeSensePorts.Repoc.Validate
import Mathlib.Data.List.Forall2

/-!
# What an accepted document says

One lemma for each function of the validator, in the terms of what was checked: `ComponentOk`,
`ChannelOk` and `DocumentOk` collect what the chain of exits has let through, and everything later is
derived from them.  `complete_iff` reads the flag of a channel off the document itself, which shows
that it does not depend on the installed version.
-/

namespace FreeSense.Repoc

open List Php

lemma hex64_eq_ok {v : Value} {code : ℕ} {s : Text} :
    hex64 v code = .ok s ↔ v = .str s ∧ isHex64 s = true := by
  unfold hex64
  cases v with
  | str t =>
    simp only
    split_ifs with h
    · simp only [Except.ok.injEq, Value.str.injEq]
      constructor
      · rintro rfl
        exact ⟨rfl, h⟩
      · exact fun hs => hs.1
    · simp only [Value.str.injEq, false_iff, not_and]
      rintro rfl
      exact h
  | _ => simp

lemma str_of_isHex64 {v : Value} (h : isHex64 v.text = true) : v = .str v.text := by
  cases v with
  | str s => rfl
  | _ => simp [Value.text, isHex64] at h

/-! ## Components -/

structure ComponentOk (c : Value) (kind : Kind) (train : Text) (schema : Schema)
    (packageArch : Text) : Prop where
  array : c.isArray = true
  fingerprint : ∃ f, c.get fingerprintKey = .str f ∧ isHex64 f = true ∧
    c.get urlKey = .str (componentUrl kind train f packageArch)
  verified : (c.get verifiedKey).isBool = true
  generation : ∃ n, c.get generationKey = .int n ∧ 0 < n.toInt
  pin : schema.pinned = true → c.get pinKey = .str (c.get pinKey).text ∧
    isHex64 (c.get pinKey).text = true

/-- `validate_component` returns what it was given, checked unless it is `null`. -/
theorem validateComponent_ok {c v : Value} {kind : Kind} {train : Text} {schema : Schema}
    {packageArch : Text} (h : validateComponent c kind train schema packageArch = .ok v) :
    v = c ∧ (c ≠ .null → ComponentOk c kind train schema packageArch) := by
  unfold validateComponent at h
  split_ifs at h with hnull
  · simp only [Except.ok.injEq] at h
    exact ⟨h.symm.trans hnull.symm, fun hne => absurd hnull hne⟩
  · simp only [bind_eq_ok, require_eq_ok, pure_eq_ok, hex64_eq_ok, exists_const] at h
    obtain ⟨harr, f, ⟨hf, hhex⟩, hver, hgen, -, hpin, -, hurl, rfl⟩ := h
    refine ⟨rfl, fun _ => ⟨harr, ⟨f, hf, hhex, hurl⟩, hver, ?_, ?_⟩⟩
    · cases hg : c.get generationKey with
      | int n => exact ⟨n, rfl, by simpa [hg, isGeneration] using hgen⟩
      | _ => simp [hg, isGeneration] at hgen
    · intro hp
      rcases hpin with hpin | hpin
      · rw [hpin] at hp
        exact Bool.noConfusion hp
      · exact ⟨str_of_isHex64 hpin, hpin⟩

/-! ## Channels -/

def Complete (channel : Value) : Prop :=
  channel.get Kind.system.name ≠ .null ∧ channel.get Kind.packages.name ≠ .null ∧
    (channel.get Kind.system.name).get verifiedKey = .bool true ∧
    (channel.get Kind.packages.name).get verifiedKey = .bool true

structure ChannelOk (arch : Arch) (installed : Text) (schema : Schema) (key : Key) (channel : Value)
    (c : Checked) : Prop where
  key : key = .str c.name
  name : channel.get nameKey = .str c.name
  train : channel.get trainKey = .str (channel.get trainKey).text
  abi : ∃ major, isDigits major = true ∧
    channel.get abiKey = .str (arch.abi.head ++ major ++ arch.abi.tail) ∧
    channel.get altabiKey = .str (arch.altabi.head ++ major ++ arch.altabi.tail) ∧
    osversionOk ((channel.get Kind.system.name).get osversionKey) major = true
  component : ∀ kind : Kind, channel.get kind.name ≠ .null →
    ComponentOk (channel.get kind.name) kind (channel.get trainKey).text schema arch.package
  binding : channel.get Kind.packages.name ≠ .null →
    (channel.get Kind.packages.name).get bindingKey
      = (channel.get Kind.system.name).get fingerprintKey
  pinned : channel.get Kind.packages.name ≠ .null → schema.pinned = true →
    (channel.get Kind.packages.name).get pinKey = (channel.get Kind.system.name).get pinKey
  mirror : channel.get Kind.mirror.name ≠ .null →
    (channel.get Kind.mirror.name).get pinKey = (channel.get Kind.system.name).get pinKey ∧
      (channel.get Kind.mirror.name).get verifiedKey = .bool true
  complete : c.complete = true ↔ Complete channel
  version : ∃ version, channelVersion schema (channel.get versionKey) (channel.get trainKey).text
      = .ok version ∧ channelEligible schema version installed = .ok c.eligible ∧
    c.row = if c.complete = true ∧ c.eligible = true then some
      { name := c.name
        description := (channel.get descriptionKey).text
        version := version.text
        systemUrl := ((channel.get Kind.system.name).get urlKey).text
        packagesUrl := ((channel.get Kind.packages.name).get urlKey).text
        train := (channel.get trainKey).text
        abi := (channel.get abiKey).text
        altabi := (channel.get altabiKey).text
        osversion := if (channel.get Kind.system.name).get osversionKey = .null then []
          else toText ((channel.get Kind.system.name).get osversionKey).toInt
        default := if channel.get defaultKey = .bool true then "yes".toList else "no".toList
        mirrorUrl := ((channel.get Kind.mirror.name).get urlKey).text } else none

lemma AbiPattern.group_eq_some {p : AbiPattern} {s digits : Text} (h : p.group s = some digits) :
    s = p.head ++ digits ++ p.tail ∧ isDigits digits = true := by
  unfold AbiPattern.group at h
  simp only at h
  split_ifs at h with hm
  rw [Option.some.injEq] at h
  rw [h] at hm
  exact hm

lemma str_of_isTrain {v : Value} (h : isTrain v.text = true) : v = .str v.text := by
  cases v with
  | str s => rfl
  | _ =>
    have hnil : isTrain [] = false := by decide
    exact Bool.noConfusion (hnil.symm.trans h)

theorem validateChannel_ok {arch : Arch} {installed : Text} {schema : Schema} {key : Key}
    {channel : Value} {c : Checked}
    (h : validateChannel arch installed schema key channel = .ok c) :
    ChannelOk arch installed schema key channel c := by
  cases key with
  | int n => simp [validateChannel] at h
  | str name =>
    simp only [validateChannel, bind_eq_ok, require_eq_ok, pure_eq_ok, exists_const] at h
    obtain ⟨⟨-, -, hname⟩, ⟨-, htrain, -⟩, version, hversion, ⟨-, -, habi, haltabi, hsome, hgroup⟩,
      system, hsys, packages, hpkg, mirror, hmir, hos, h25, ⟨h26, h28, h37, h38, eligible, hel, hc⟩⟩
      := h
    obtain ⟨rfl, hsysOk⟩ := validateComponent_ok hsys
    obtain ⟨rfl, hpkgOk⟩ := validateComponent_ok hpkg
    obtain ⟨rfl, hmirOk⟩ := validateComponent_ok hmir
    subst hc
    obtain ⟨major, hmajor⟩ := Option.isSome_iff_exists.mp hsome
    obtain ⟨habi', hdigits⟩ := AbiPattern.group_eq_some hmajor
    obtain ⟨haltabi', -⟩ := AbiPattern.group_eq_some (hgroup.symm.trans hmajor)
    refine ⟨rfl, hname, str_of_isTrain htrain, ⟨major, hdigits, ?_, ?_, ?_⟩, ?_, ?_, ?_, ?_, ?_,
      version, hversion, hel, ?_⟩
    · rw [← habi']
      exact habi
    · rw [← haltabi']
      exact haltabi
    · rw [hmajor] at hos
      exact hos
    · intro kind hne
      cases kind with
      | system => exact hsysOk hne
      | packages => exact hpkgOk hne
      | mirror => exact hmirOk hne
    · intro hne
      exact (h26.resolve_left hne).2
    · intro hne hp
      rcases h28 with h28 | h28 | h28
      · exact absurd h28 hne
      · rw [hp] at h28
        exact Bool.noConfusion h28
      · exact h28
    · intro hne
      exact ⟨(h37.resolve_left hne).2, h38.resolve_left hne⟩
    · simp [Complete]
    · simp

/-! ## Documents -/

structure DocumentOk (decode : Bytes → Value) (arch : Arch) (installed : Text) (raw : Bytes)
    (d : Document) : Prop where
  doc : d.doc = decode raw
  schema : Schema.ofValue (d.doc.get schemaKey) = some d.schema
  channels : List.Forall₂
    (fun e c => ChannelOk arch installed d.schema e.1 e.2 c) (d.doc.get channelsKey).entries d.checked

theorem validateDocument_checked {decode : Bytes → Value} {arch : Arch} {installed : Text}
    {raw : Bytes} {d : Document} (h : validateDocument decode arch installed raw = .ok d) :
    ((decode raw).get channelsKey).entries.mapM
      (fun e => validateChannel arch installed d.schema e.1 e.2) = .ok d.checked ∧
    (d.checked.filter Checked.isDefault).length = 1 ∧ d.doc = decode raw ∧
    Schema.ofValue ((decode raw).get schemaKey) = some d.schema := by
  simp only [validateDocument, bind_eq_ok, require_eq_ok, exists_const] at h
  obtain ⟨-, h⟩ := h
  cases hs : Schema.ofValue ((decode raw).get schemaKey) with
  | none => simp [hs] at h
  | some schema =>
    simp only [hs, bind_eq_ok, require_eq_ok, pure_eq_ok, exists_const] at h
    obtain ⟨-, checked, hmap, hone, rfl⟩ := h
    exact ⟨hmap, hone, rfl, rfl⟩

theorem validateDocument_ok {decode : Bytes → Value} {arch : Arch} {installed : Text} {raw : Bytes}
    {d : Document} (h : validateDocument decode arch installed raw = .ok d) :
    DocumentOk decode arch installed raw d := by
  obtain ⟨hmap, -, hdoc, hschema⟩ := validateDocument_checked h
  rw [← hdoc] at hmap hschema
  exact ⟨hdoc, hschema, (forall₂_of_mapM hmap).imp fun e c he => validateChannel_ok he⟩

lemma forall₂_find {α β : Type} {R : α → β → Prop} {p : α → Bool} {q : β → Bool}
    (hpq : ∀ a b, R a b → p a = q b) : ∀ {l : List α} {l' : List β}, List.Forall₂ R l l' →
    (l.find? p = none ∧ l'.find? q = none) ∨
      ∃ a b, l.find? p = some a ∧ l'.find? q = some b ∧ R a b
  | _, _, .nil => Or.inl ⟨rfl, rfl⟩
  | a :: _, b :: _, .cons hab htl => by
    rw [find?_cons, find?_cons, ← hpq a b hab]
    cases hp : p a with
    | true => exact Or.inr ⟨a, b, rfl, rfl, hab⟩
    | false => exact forall₂_find hpq htl

section Lookup

variable {decode : Bytes → Value} {arch : Arch} {installed : Text} {raw : Bytes} {d : Document}

/-- What the validator knows of a channel is about the channel a lookup finds. -/
lemma DocumentOk.find (h : DocumentOk decode arch installed raw d) (name : Text) :
    (d.channel name = .null ∧ d.complete name = none ∧ d.eligible name = none) ∨
      ∃ c, ChannelOk arch installed d.schema (.str name) (d.channel name) c ∧ c.name = name ∧
        d.complete name = some c.complete ∧ d.eligible name = some c.eligible := by
  have hrev : List.Forall₂ (fun e c => ChannelOk arch installed d.schema e.1 e.2 c)
      (d.doc.get channelsKey).entries.reverse d.checked.reverse :=
    rel_reverse h.channels
  have hget : d.channel name
      = (((d.doc.get channelsKey).entries.reverse.find? fun e => e.1 = .str name).map
          Prod.snd).getD .null := Value.get_eq_find _ _
  rcases forall₂_find (p := fun e : Key × Value => e.1 = .str name)
      (q := fun c : Checked => c.name = name) (fun e c hec => by
        rw [hec.key]
        simp) hrev with ⟨hnone, hnone'⟩ | ⟨e, c, he, hc, hec⟩
  · refine Or.inl ⟨by rw [hget, hnone]; rfl, ?_, ?_⟩
    · rw [Document.complete, hnone', Option.map_none]
    · rw [Document.eligible, hnone', Option.map_none]
  · have hkey : e.1 = .str name := by simpa using find?_some he
    have hname : c.name = name := by simpa using find?_some hc
    refine Or.inr ⟨c, ?_, hname, ?_, ?_⟩
    · rw [hget, he, ← hkey]
      exact hec
    · rw [Document.complete, hc, Option.map_some]
    · rw [Document.eligible, hc, Option.map_some]

/-- **The flag of a channel is a fact about the document.** -/
theorem DocumentOk.complete_iff (h : DocumentOk decode arch installed raw d) (name : Text) :
    d.complete name = some true ↔ Complete (d.channel name) := by
  rcases h.find name with ⟨hnull, hnone, -⟩ | ⟨c, hc, -, hsome, -⟩
  · rw [hnone, hnull]
    refine iff_of_false (by simp) ?_
    rintro ⟨hsys, -⟩
    exact hsys rfl
  · rw [hsome, Option.some.injEq]
    exact hc.complete

end Lookup

end FreeSense.Repoc
