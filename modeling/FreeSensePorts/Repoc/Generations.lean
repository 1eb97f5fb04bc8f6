import FreeSensePorts.Repoc.Documents
import FreeSensePorts.Repoc.Runs

/-!
# Generations over a history of runs

`reject_generation_rollback` compares a candidate with the document retained last, in the channel that
is selected now.  While the effective selection stays the same this is enough: equal generations have
everything between them equal, and their fingerprints and URLs agree.

A run that selects one channel can retain an older generation of another, which is accepted when that
one is selected again.  To exclude this, the retained payloads must keep carrying the components of
channels selected before, at generations that do not fall.
-/

namespace FreeSense.Repoc

open List Php

def component (doc : Value) (channel : Text) (kind : Kind) : Value :=
  ((doc.get channelsKey).get channel).get kind.name

def generationOf (doc : Value) (channel : Text) (kind : Kind) : Option ℤ :=
  if component doc channel kind = .null then none
  else some ((component doc channel kind).get generationKey).toInt

variable {kind : Kind} {g g' : ℤ} {schema : Schema} {u : Unit} {cache : Option Bytes} {i : Input}
  {r : Retained} {s : State}

lemma generationOf_eq_some {doc : Value} {channel : Text} :
    generationOf doc channel kind = some g ↔ component doc channel kind ≠ .null ∧
      ((component doc channel kind).get generationKey).toInt = g := by
  unfold generationOf
  split_ifs with h <;> simp [h]

/-! ## One comparison -/

/-- What `reject_generation_rollback` has let through for one component. -/
structure Kept (new old : Value) : Prop where
  generation : (old.get generationKey).toInt ≤ (new.get generationKey).toInt
  fingerprint : new.get generationKey = old.get generationKey →
    new.get fingerprintKey = old.get fingerprintKey
  identity : new.get fingerprintKey = old.get fingerprintKey →
    new.get generationKey = old.get generationKey ∧ new.get urlKey = old.get urlKey

lemma rejectKind_ok {new old : Value} (h : rejectKind schema new old kind = .ok u)
    (hnew : new.get kind.name ≠ .null) (hold : old.get kind.name ≠ .null) :
    Kept (new.get kind.name) (old.get kind.name) := by
  rw [rejectKind, if_neg (by simp [hnew, hold])] at h
  simp only [rejectComponent, bind_eq_ok, require_eq_ok, exists_const] at h
  obtain ⟨hlt, hfp, hid⟩ := h
  exact ⟨not_lt.mp hlt, hfp, fun he => ⟨(hid he).1, (hid he).2.1⟩⟩

theorem rejectGenerationRollback_ok {new old : Value}
    (h : rejectGenerationRollback schema new old = .ok u) :
    (∀ kind : Kind, new.get kind.name ≠ .null → old.get kind.name ≠ .null →
      Kept (new.get kind.name) (old.get kind.name)) ∧
    ((new.get Kind.system.name).get fingerprintKey
        = (old.get Kind.system.name).get fingerprintKey →
      new.get trainKey = old.get trainKey ∧ new.get abiKey = old.get abiKey ∧
        new.get altabiKey = old.get altabiKey ∧
        (new.get Kind.system.name).get osversionKey
          = (old.get Kind.system.name).get osversionKey) := by
  simp only [rejectGenerationRollback, bind_eq_ok, require_eq_ok] at h
  obtain ⟨_, hsys, _, hpkg, _, hmir, hkept⟩ := h
  refine ⟨?_, hkept⟩
  intro kind hnew hold
  cases kind with
  | system => exact rejectKind_ok hsys hnew hold
  | packages => exact rejectKind_ok hpkg hnew hold
  | mirror => exact rejectKind_ok hmir hnew hold

/-- What an accepted payload has passed. -/
theorem validatePayload_ok {decode : Bytes → Value} {arch : Arch} {installed selected : Text}
    {candidate : Bytes} {baseline : Option Bytes} {writes : Bool} {a : Accepted}
    (h : validatePayload decode arch installed candidate baseline selected writes = .ok a) :
    validateDocument decode arch installed candidate = .ok a.document ∧
      a.channel = a.document.effective selected ∧
      a.document.complete a.channel = some true ∧ a.document.eligible a.channel = some true ∧
      ∀ raw, baseline = some raw → ∃ old, validateDocument decode arch installed raw = .ok old ∧
        (old.complete a.channel = some true →
          rejectGenerationRollback a.document.schema (a.document.channel a.channel)
            (old.channel a.channel) = .ok ()) := by
  simp only [validatePayload, bind_eq_ok, require_eq_ok, pure_eq_ok, exists_const] at h
  obtain ⟨new, hnew, ⟨hcomplete, heligible⟩, _, hbase, -, rfl⟩ := h
  refine ⟨hnew, rfl, hcomplete, heligible, ?_⟩
  rintro raw rfl
  simp only [checkBaseline, bind_eq_ok, require_eq_ok, exists_const] at hbase
  obtain ⟨old, hold, -, hreject⟩ := hbase
  refine ⟨old, hold, fun hc => ?_⟩
  rw [if_pos hc] at hreject
  exact hreject

variable {p : Platform}

lemma Retained.ok (h : retains p cache i = some r) :
    DocumentOk p.jsonDecode p.arch i.installed r.payload r.accepted.document ∧
      Complete (r.accepted.document.channel r.accepted.channel) ∧
      ∀ raw, cache = some raw → ∃ old, validateDocument p.jsonDecode p.arch i.installed raw = .ok old ∧
        (old.complete r.accepted.channel = some true →
          rejectGenerationRollback r.accepted.document.schema
            (r.accepted.document.channel r.accepted.channel) (old.channel r.accepted.channel)
              = .ok ()) := by
  obtain ⟨-, hval, -⟩ := retains_eq_some.mp h
  obtain ⟨hdoc, -, hcomplete, -, hbase⟩ := validatePayload_ok hval
  have hok := validateDocument_ok hdoc
  exact ⟨hok, (hok.complete_iff _).mp hcomplete, hbase⟩

/-! ## Several channels -/

/-- The later of two retained payloads is not below the earlier one, if both were retained for the
same channel. -/
def NotBelow (later earlier : Retained) : Prop :=
  later.accepted.channel = earlier.accepted.channel → ∀ kind g g',
    generationOf earlier.accepted.document.doc earlier.accepted.channel kind = some g →
    generationOf later.accepted.document.doc earlier.accepted.channel kind = some g' → g ≤ g'

/-- What a payload has to do to be retained without risk: for each channel selected before, it
carries every component the retained payload carries for it, and its generation is not lower, which
the script itself only sees to for the channel selected now. -/
def Advances (p : Platform) (s : State) (i : Input) : Prop :=
  ∀ r, retains p s.cache i = some r → ∀ raw old, s.cache = some raw →
    validateDocument p.jsonDecode p.arch i.installed raw = .ok old →
    ∀ e ∈ s.retained, ∀ kind g,
      generationOf (p.jsonDecode raw) e.accepted.channel kind = some g →
      ∃ g', generationOf r.accepted.document.doc e.accepted.channel kind = some g' ∧
        (g ≤ g' ∨ e.accepted.channel = r.accepted.channel ∧
          old.complete r.accepted.channel = some true)

/-- The retained file carries every component any earlier payload carried for the channel it was
retained for, at no lower generation. -/
structure Carried (p : Platform) (s : State) : Prop where
  cache : s.cache = s.retained.head?.map Retained.payload
  carried : ∀ e ∈ s.retained, ∀ kind g,
    generationOf e.accepted.document.doc e.accepted.channel kind = some g →
    ∃ raw g', s.cache = some raw ∧
      generationOf (p.jsonDecode raw) e.accepted.channel kind = some g' ∧ g ≤ g'
  pairwise : s.retained.Pairwise NotBelow

lemma generation_le_of_reject {new old : Document} {channel : Text}
    (h : rejectGenerationRollback schema (new.channel channel) (old.channel channel) = .ok ())
    (hg : generationOf old.doc channel kind = some g)
    (hg' : generationOf new.doc channel kind = some g') : g ≤ g' := by
  obtain ⟨hold, rfl⟩ := generationOf_eq_some.mp hg
  obtain ⟨hnew, rfl⟩ := generationOf_eq_some.mp hg'
  exact ((rejectGenerationRollback_ok h).1 kind hnew hold).generation

lemma Carried.step {t : State} (hs : Carried p s) (hadv : Advances p s i) (hstep : Step p s i t) :
    Carried p t := by
  rcases hstep.cases with rfl | ⟨r, hr, rfl⟩
  · exact hs
  obtain ⟨hok, -, hbase⟩ := Retained.ok hr
  -- every earlier component is in the new document, at no lower generation
  have hcarried : ∀ e ∈ s.retained, ∀ kind g,
      generationOf e.accepted.document.doc e.accepted.channel kind = some g →
      ∃ g', generationOf r.accepted.document.doc e.accepted.channel kind = some g' ∧ g ≤ g' := by
    intro e he kind g hg
    obtain ⟨raw, g₁, hcache, hg₁, hle⟩ := hs.carried e he kind g hg
    obtain ⟨old, hold, hreject⟩ := hbase raw hcache
    obtain ⟨g', hg', hcond⟩ := hadv r hr raw old hcache hold e he kind g₁ hg₁
    refine ⟨g', hg', hle.trans ?_⟩
    rcases hcond with hle' | ⟨hchan, hcomplete⟩
    · exact hle'
    · have hdoc := (validateDocument_ok hold).doc
      rw [hchan] at hg₁ hg'
      exact generation_le_of_reject (hreject hcomplete) (hdoc ▸ hg₁) hg'
  refine ⟨rfl, ?_, ?_⟩
  · intro e he kind g hg
    rcases mem_cons.mp he with rfl | he
    · exact ⟨_, g, rfl, hok.doc ▸ hg, le_rfl⟩
    · obtain ⟨g', hg', hle⟩ := hcarried e he kind g hg
      exact ⟨_, g', rfl, hok.doc ▸ hg', hle⟩
  · refine pairwise_cons.mpr ⟨?_, hs.pairwise⟩
    intro e he _ kind g g' hg hg'
    obtain ⟨g₁, hg₁, hle⟩ := hcarried e he kind g hg
    rw [hg', Option.some.injEq] at hg₁
    exact hg₁ ▸ hle

/-- **No channel is rolled back, as long as every retained payload advances.**  Over any history of
such runs from an empty cache, with any selections, a payload retained for a channel is not below an
earlier payload retained for the same channel, in any component both carry. -/
theorem generations_kept_of_run {s : State} {is : List Input}
    (h : Run (fun s i t => Advances p s i ∧ Step p s i t) .init is s) :
    s.retained.Pairwise NotBelow := by
  have hinv : Carried p s := by
    refine h.invariant (I := Carried p) ?_ ⟨rfl, ?_, .nil⟩
    · rintro s i t hs ⟨hadv, hstep⟩
      exact hs.step hadv hstep
    · intro e he
      exact absurd he (by simp [State.init])
  exact hinv.pairwise

/-! ### A history that goes back -/

def obj (l : List (String × Value)) : Value :=
  .arr (.ofList (l.map fun e => (.str e.1.toList, e.2)))

def txt (s : String) : Value := .str s.toList

/-- A verified component of generation `g < 10`; its fingerprint repeats the digit. -/
def sampleComponent (kind : Kind) (g : ℕ) : Value :=
  let fingerprint := List.replicate 64 (Nat.digitChar g)
  obj ([("fingerprint", .str fingerprint), ("verified", .bool true), ("generation", .int (Int64.ofNat g)),
      ("url", .str (componentUrl kind "1.0".toList fingerprint "amd64".toList))]
    ++ if kind = .packages then [("system_fingerprint", .str fingerprint)] else [])

def sampleChannel (name : String) (default : Bool) (g : ℕ) : Value :=
  obj [("name", txt name), ("description", txt name), ("package_train", txt "1.0"),
    ("abi", txt "FreeBSD:15:amd64"), ("altabi", txt "freebsd:15:x86:64"),
    ("default", .bool default), ("system", sampleComponent .system g),
    ("packages", sampleComponent .packages g)]

/-- A document with the channels `stable` and `beta` at the given generations. -/
def sampleDocument (stable beta : ℕ) : Value :=
  obj [("schema_version", txt "freesense.channels/v1"),
    ("channels", obj [("stable", sampleChannel "stable" true stable),
      ("beta", sampleChannel "beta" false beta)])]

/-- A platform on which two bytes are such a document, and three bytes are its envelope. -/
def samplePlatform : Platform where
  arch := amd64
  jsonDecode
    | [a, b] => sampleDocument a.toNat b.toNat
    | [_, a, b] => obj [("schema_version", txt "freesense.repositories/v4"),
        ("payload", .str [Char.ofNat a.toNat, Char.ofNat b.toNat]), ("signature", txt "s")]
    | _ => .null
  base64Decode v := some (v.text.map fun c => UInt8.ofNat c.toNat)
  verify _ _ := true

def sampleInput (selected : String) (stable beta : UInt8) : Input where
  nofetch := false
  envelope := some [0, stable, beta]
  baked := none
  selected := selected.toList
  installed := "1.0.0".toList
  writes := true
  persists := true

def after (p : Platform) (is : List Input) (s : State) : State :=
  is.foldl (fun s i => ⟨(repoc p s.cache i).1, (retains p s.cache i).toList ++ s.retained⟩) s

lemma run_after (p : Platform) : ∀ (is : List Input) (s : State), Run (Step p) s is (after p is s)
  | [], s => .nil s
  | _ :: is, _ => .cons ⟨rfl, rfl⟩ (run_after p is _)

lemma step_after (p : Platform) (is : List Input) (i : Input) (s : State) :
    Step p (after p is s) i (after p (is ++ [i]) s) := by
  rw [after, after, foldl_append]
  exact ⟨rfl, rfl⟩

/-- The channel and the system generation of each retained payload, newest first. -/
def State.generations (s : State) : List (Text × Option ℤ) :=
  s.retained.map fun r =>
    (r.accepted.channel, generationOf r.accepted.document.doc r.accepted.channel .system)

lemma not_pairwise_of_generations {c : Text} {o : Text × Option ℤ}
    (h : s.generations = [(c, some g'), o, (c, some g)]) (hlt : g' < g) :
    ¬s.retained.Pairwise NotBelow := by
  intro hp
  obtain ⟨r₁, l₁, hr, h₁, hl⟩ := map_eq_cons_iff.mp h
  obtain ⟨r₂, l₂, rfl, -, hl⟩ := map_eq_cons_iff.mp hl
  obtain ⟨r₃, l₃, rfl, h₃, -⟩ := map_eq_cons_iff.mp hl
  rw [Prod.mk.injEq] at h₁ h₃
  rw [hr] at hp
  have hchan : r₁.accepted.channel = r₃.accepted.channel := h₁.1.trans h₃.1.symm
  have := (pairwise_cons.mp hp).1 r₃ (by simp) hchan .system g g' h₃.2 (hchan ▸ h₁.2)
  omega

/-- Select `stable` at generation 5, then `beta` from a document in which `stable` is at 1, then
`stable` again at generation 2. -/
def rollbackRuns : List Input :=
  [sampleInput "stable" 5 1, sampleInput "beta" 1 1, sampleInput "stable" 2 1]

/-- **A channel is rolled back.**  All three payloads are retained; the last one takes `stable` from
generation 5 to generation 2. -/
theorem generation_rolled_back :
    Run (Step samplePlatform) .init rollbackRuns (after samplePlatform rollbackRuns .init) ∧
      (after samplePlatform rollbackRuns .init).generations
        = [("stable".toList, some 2), ("beta".toList, some 1), ("stable".toList, some 5)] ∧
      ¬(after samplePlatform rollbackRuns .init).retained.Pairwise NotBelow := by
  have hgen : (after samplePlatform rollbackRuns .init).generations
      = [("stable".toList, some 2), ("beta".toList, some 1), ("stable".toList, some 5)] := by
    decide +kernel
  exact ⟨run_after _ _ _, hgen, not_pairwise_of_generations hgen (by norm_num)⟩

/-- A document carries every component of the retained one, at no lower generation. -/
lemma advances_of_forall
    (h : ∀ r ∈ retains p s.cache i, ∀ raw ∈ s.cache, ∀ e ∈ s.retained, ∀ kind ∈ [Kind.system, .packages, .mirror], ∀ g ∈ generationOf (p.jsonDecode raw) e.accepted.channel kind, ∃ g' ∈ generationOf r.accepted.document.doc e.accepted.channel kind, g ≤ g') :
    Advances p s i := by
  intro r hr raw old hcache _ e he kind g hg
  have hkind : kind ∈ [Kind.system, .packages, .mirror] := by cases kind <;> decide
  obtain ⟨g', hg', hle⟩ := h r hr raw hcache e he kind hkind g hg
  exact ⟨g', hg', Or.inl hle⟩

/-- Select `stable`, then `beta`, then `stable` again, from documents in which nothing falls. -/
def advancingRuns : List Input :=
  [sampleInput "stable" 1 1, sampleInput "beta" 1 2, sampleInput "stable" 2 2]

theorem generations_kept_of_advancing :
    (after samplePlatform advancingRuns .init).generations
        = [("stable".toList, some 2), ("beta".toList, some 2), ("stable".toList, some 1)] ∧
      (after samplePlatform advancingRuns .init).retained.Pairwise NotBelow := by
  have hrun : Run (fun s i t => Advances samplePlatform s i ∧ Step samplePlatform s i t) .init
      advancingRuns (after samplePlatform advancingRuns .init) :=
    .cons ⟨advances_of_forall (by decide +kernel), step_after _ [] _ _⟩
      (.cons ⟨advances_of_forall (by decide +kernel), step_after _ [_] _ _⟩
        (.cons ⟨advances_of_forall (by decide +kernel), step_after _ [_, _] _ _⟩ (.nil _)))
  exact ⟨by decide +kernel, generations_kept_of_run hrun⟩

/-! ## One channel -/

/-- The later component is not below the earlier one, and is the same where it is not above. -/
structure Follows (later earlier : Value) : Prop where
  generation : (earlier.get generationKey).toInt ≤ (later.get generationKey).toInt
  identity : (later.get generationKey).toInt = (earlier.get generationKey).toInt →
    later.get fingerprintKey = earlier.get fingerprintKey ∧ later.get urlKey = earlier.get urlKey

lemma Follows.refl (c : Value) : Follows c c := ⟨le_rfl, fun _ => ⟨rfl, rfl⟩⟩

lemma Follows.trans {a b c : Value} (hab : Follows a b) (hbc : Follows b c) : Follows a c := by
  refine ⟨hbc.generation.trans hab.generation, fun heq => ?_⟩
  have h₁ := hab.generation
  have h₂ := hbc.generation
  obtain ⟨hf, hu⟩ := hab.identity (by omega)
  obtain ⟨hf', hu'⟩ := hbc.identity (by omega)
  exact ⟨hf.trans hf', hu.trans hu'⟩

/-- Validated generations are integers, so the comparison of neighbours is `Follows`. -/
lemma Kept.follows {new old : Value} (h : Kept new old)
    (hnew : ∃ n, new.get generationKey = .int n ∧ 0 < n.toInt)
    (hold : ∃ n, old.get generationKey = .int n ∧ 0 < n.toInt) : Follows new old := by
  refine ⟨h.generation, fun heq => ?_⟩
  obtain ⟨n, hn, -⟩ := hnew
  obtain ⟨m, hm, -⟩ := hold
  have hgen : new.get generationKey = old.get generationKey := by
    rw [hn, hm] at heq ⊢
    exact congrArg Value.int (Int64.toInt_inj.mp heq)
  have hfp := h.fingerprint hgen
  exact ⟨hfp, (h.identity hfp).2⟩

/-- Equal generations are equal identities. -/
def SameIdentity (channel : Text) (later earlier : Retained) : Prop :=
  ∀ kind ∈ [Kind.system, .packages],
    generationOf later.accepted.document.doc channel kind
      = generationOf earlier.accepted.document.doc channel kind →
    (component later.accepted.document.doc channel kind).get fingerprintKey
        = (component earlier.accepted.document.doc channel kind).get fingerprintKey ∧
      (component later.accepted.document.doc channel kind).get urlKey
        = (component earlier.accepted.document.doc channel kind).get urlKey

/-- An unchanged system repository has everything that was built with it unchanged. -/
def SystemKept (channel : Text) (later earlier : Retained) : Prop :=
  (component later.accepted.document.doc channel .system).get fingerprintKey
      = (component earlier.accepted.document.doc channel .system).get fingerprintKey →
    generationOf later.accepted.document.doc channel .system
        = generationOf earlier.accepted.document.doc channel .system ∧
      (later.accepted.document.channel channel).get trainKey
        = (earlier.accepted.document.channel channel).get trainKey ∧
      (later.accepted.document.channel channel).get abiKey
        = (earlier.accepted.document.channel channel).get abiKey ∧
      (later.accepted.document.channel channel).get altabiKey
        = (earlier.accepted.document.channel channel).get altabiKey ∧
      (component later.accepted.document.doc channel .system).get osversionKey
        = (component earlier.accepted.document.doc channel .system).get osversionKey

/-- A retained payload is complete in the channel it was retained for, and its generations are
integers. -/
structure Retained.Sound (p : Platform) (channel : Text) (r : Retained) : Prop where
  doc : r.accepted.document.doc = p.jsonDecode r.payload
  complete : Complete (r.accepted.document.channel channel)
  generation : ∀ kind ∈ [Kind.system, .packages],
    component r.accepted.document.doc channel kind ≠ .null ∧
      ∃ n, (component r.accepted.document.doc channel kind).get generationKey = .int n ∧ 0 < n.toInt

lemma Retained.sound (h : retains p cache i = some r) : r.Sound p r.accepted.channel := by
  obtain ⟨hok, hcomplete, -⟩ := Retained.ok h
  refine ⟨hok.doc, hcomplete, fun kind hkind => ?_⟩
  have hne : component r.accepted.document.doc r.accepted.channel kind ≠ .null := by
    simp only [mem_cons, not_mem_nil, or_false] at hkind
    rcases hkind with rfl | rfl
    · exact hcomplete.1
    · exact hcomplete.2.1
  refine ⟨hne, ?_⟩
  rcases hok.find r.accepted.channel with ⟨hnull, -⟩ | ⟨c, hc, -⟩
  · exact absurd (by rw [component, ← Document.channel, hnull]; rfl) hne
  · exact (hc.component kind hne).generation

/-- The invariant for one channel: every payload is sound, and the newest follows each of them. -/
structure Stable (p : Platform) (channel : Text) (s : State) : Prop where
  cache : s.cache = s.retained.head?.map Retained.payload
  sound : ∀ e ∈ s.retained, e.Sound p channel
  head : ∀ h ∈ s.retained.head?, ∀ e ∈ s.retained, ∀ kind ∈ [Kind.system, .packages],
    Follows (component h.accepted.document.doc channel kind)
      (component e.accepted.document.doc channel kind)
  pairwise : s.retained.Pairwise (SameIdentity channel)
  chain : s.retained.IsChain (SystemKept channel)

lemma Stable.push {channel : Text} (hs : Stable p channel s) (hr : retains p s.cache i = some r)
    (hchan : r.accepted.channel = channel) :
    Stable p channel ⟨some r.payload, r :: s.retained⟩ := by
  subst hchan
  have hsound := Retained.sound hr
  obtain ⟨-, -, hbase⟩ := Retained.ok hr
  -- the new payload follows the newest one, and keeps its system
  have hnext : ∀ h ∈ s.retained.head?,
      (∀ kind ∈ [Kind.system, .packages], Follows
        (component r.accepted.document.doc r.accepted.channel kind)
        (component h.accepted.document.doc r.accepted.channel kind)) ∧
      SystemKept r.accepted.channel r h := by
    intro h hh
    have hmem : h ∈ s.retained := mem_of_mem_head? hh
    obtain ⟨old, hold, hreject⟩ := hbase h.payload (by rw [hs.cache, hh, Option.map_some])
    have hokold := validateDocument_ok hold
    have hdoc : old.doc = h.accepted.document.doc := hokold.doc.trans (hs.sound h hmem).doc.symm
    have hchannel : old.channel r.accepted.channel
        = h.accepted.document.channel r.accepted.channel := by
      rw [Document.channel, hdoc, Document.channel]
    have hcomplete : old.complete r.accepted.channel = some true := by
      rw [hokold.complete_iff, hchannel]
      exact (hs.sound h hmem).complete
    obtain ⟨hkept, hsystem⟩ := rejectGenerationRollback_ok (hreject hcomplete)
    rw [hchannel] at hkept hsystem
    have hkeep : ∀ kind ∈ [Kind.system, .packages],
        Kept (component r.accepted.document.doc r.accepted.channel kind)
          (component h.accepted.document.doc r.accepted.channel kind) := fun kind hkind =>
      hkept kind (hsound.generation kind hkind).1 ((hs.sound h hmem).generation kind hkind).1
    refine ⟨fun kind hkind => (hkeep kind hkind).follows (hsound.generation kind hkind).2
      ((hs.sound h hmem).generation kind hkind).2, ?_⟩
    intro hfp
    obtain ⟨hgen, -⟩ := (hkeep .system (by simp)).identity hfp
    refine ⟨?_, hsystem hfp⟩
    rw [generationOf, generationOf, if_neg (hsound.generation .system (by simp)).1,
      if_neg ((hs.sound h hmem).generation .system (by simp)).1, hgen]
  -- hence it follows every earlier one
  have hfollows : ∀ e ∈ s.retained, ∀ kind ∈ [Kind.system, .packages], Follows
      (component r.accepted.document.doc r.accepted.channel kind)
      (component e.accepted.document.doc r.accepted.channel kind) := by
    intro e he kind hkind
    obtain ⟨h, hh⟩ : ∃ h, s.retained.head? = some h := by
      cases hl : s.retained with
      | nil => simp [hl] at he
      | cons h l => exact ⟨h, rfl⟩
    exact ((hnext h hh).1 kind hkind).trans (hs.head h hh e he kind hkind)
  refine ⟨rfl, ?_, ?_, ?_, ?_⟩
  · intro e he
    rcases mem_cons.mp he with rfl | he
    · exact hsound
    · exact hs.sound e he
  · intro h hh e he kind hkind
    simp only [head?_cons, Option.mem_def, Option.some.injEq] at hh
    subst hh
    rcases mem_cons.mp he with rfl | he
    · exact Follows.refl _
    · exact hfollows e he kind hkind
  · refine pairwise_cons.mpr ⟨?_, hs.pairwise⟩
    intro e he kind hkind hgen
    refine (hfollows e he kind hkind).identity ?_
    rw [generationOf, generationOf, if_neg (hsound.generation kind hkind).1,
      if_neg ((hs.sound e he).generation kind hkind).1, Option.some.injEq] at hgen
    exact hgen
  · cases hl : s.retained with
    | nil => exact .singleton r
    | cons h l =>
      refine .cons_cons ?_ (hl ▸ hs.chain)
      exact (hnext h (by simp [hl])).2

/-- **Identities are stable while the selection is.**  Over any history of runs from an empty cache
whose retained payloads were all retained for one channel: in any two of them equal generations of
the system or the packages mean equal fingerprints and URLs, and in two that follow each other an
unchanged system fingerprint means an unchanged generation, train, ABI, alternative ABI and
`osversion`. -/
theorem identities_stable {s : State} {is : List Input} (h : Run (Step p) .init is s)
    {channel : Text} (hchan : ∀ e ∈ s.retained, e.accepted.channel = channel) :
    s.retained.Pairwise (SameIdentity channel) ∧ s.retained.IsChain (SystemKept channel) := by
  have hinv : (∀ e ∈ s.retained, e.accepted.channel = channel) → Stable p channel s := by
    refine h.invariant
      (I := fun s => (∀ e ∈ s.retained, e.accepted.channel = channel) → Stable p channel s) ?_ ?_
    · intro s i t hs hstep hall
      rcases hstep.cases with rfl | ⟨r, hr, rfl⟩
      · exact hs hall
      · exact (hs fun e he => hall e (mem_cons_of_mem _ he)).push hr
          (hall r mem_cons_self)
    · intro _
      exact ⟨rfl, by simp [State.init], by simp [State.init], .nil, .nil⟩
  exact ⟨(hinv hchan).pairwise, (hinv hchan).chain⟩

/-- Two documents that differ in `beta` alone. -/
def sameRuns : List Input := [sampleInput "stable" 1 1, sampleInput "stable" 1 2]

theorem identities_stable_sameRuns :
    (after samplePlatform sameRuns .init).generations
        = [("stable".toList, some 1), ("stable".toList, some 1)] ∧
      (after samplePlatform sameRuns .init).retained.Pairwise (SameIdentity "stable".toList) ∧
      (after samplePlatform sameRuns .init).retained.IsChain (SystemKept "stable".toList) :=
  ⟨by decide +kernel, identities_stable (run_after _ _ _) (by decide +kernel)⟩

end FreeSense.Repoc
