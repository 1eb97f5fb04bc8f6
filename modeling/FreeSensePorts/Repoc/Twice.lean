import FreeSensePorts.Repoc.Selection

/-!
# Synchronising twice

If the payload that a run has retained comes again, the next run has another baseline, the payload
itself, and perhaps another selection, the marker of the first run.  Neither makes a difference: every
comparison of a document with itself passes, and the channel that was checked is selected again.
-/

namespace FreeSense.Repoc

open List Php Shell

/-! ## A document and itself -/

section Documents

variable {decode : Bytes → Value} {arch : Arch} {installed : Text} {raw : Bytes} {d : Document}

lemma get_of_mem_entries {v c : Value} {name : Text} (hkeys : (v.entries.map Prod.fst).Nodup)
    (h : (.str name, c) ∈ v.entries) : v.get name = c := by
  rw [Value.get_eq_find]
  cases hf : v.entries.reverse.find? fun e => e.1 = .str name with
  | none => exact absurd (find?_eq_none.1 hf _ (mem_reverse.2 h)) (by simp)
  | some e =>
    have hkey : e.1 = .str name := by simpa using find?_some hf
    have hmem := mem_reverse.1 (mem_of_find?_eq_some hf)
    rw [inj_on_of_nodup_map hkeys hmem h hkey]
    rfl

lemma versionsKept_self (hkeys : ((d.doc.get channelsKey).entries.map Prod.fst).Nodup) :
    versionsKept d d = true := by
  rw [versionsKept, all_eq_true]
  rintro ⟨_ | name, channel⟩ hmem
  · rfl
  · have hchannel : d.channel name = channel := get_of_mem_entries hkeys hmem
    simp only [hchannel]
    cases versionParts (channel.get versionKey) with
    | error code => simp
    | ok v => simp [tupleLt]

lemma rejectGenerationRollback_self (schema : Schema) (channel : Value) :
    rejectGenerationRollback schema channel channel = .ok () := by
  have hkind : ∀ kind, rejectKind schema channel channel kind = .ok () := by
    intro kind
    unfold rejectKind
    split_ifs
    · rfl
    · simp [rejectComponent, changed]
  simp [rejectGenerationRollback, hkind]

/-- **No document is a rollback of itself.** -/
lemma checkBaseline_self (h : validateDocument decode arch installed raw = .ok d)
    (hkeys : (((decode raw).get channelsKey).entries.map Prod.fst).Nodup) (channel : Text) :
    checkBaseline decode arch installed d channel (some raw) = .ok () := by
  have hkept : versionsKept d d = true := versionsKept_self ((validateDocument_ok h).doc ▸ hkeys)
  simp only [checkBaseline, bind_eq_ok, require_eq_ok, exists_const]
  refine ⟨d, h, .inr (.inr hkept), ?_⟩
  split_ifs
  · exact rejectGenerationRollback_self _ _
  · rfl

lemma Consistent.effective_self (h : Consistent d) {name : Text} (hc : d.complete name = some true)
    (he : d.eligible name = some true) : d.effective name = name := by
  obtain ⟨c, hmem, rfl, -⟩ := h.exists_row hc he
  simp [Document.effective, (h.ok c hmem).name_ne_nil, he]

end Documents

/-! ## The second run -/

section Twice

variable {p : Platform} {product configured : Text} {i next : Input} {repos : Option Tree}
  {cache : Option Bytes} {raw : Bytes} {a : Accepted}

/-- The retained payload comes again, and the same channel is selected. -/
lemma repoc_again (hkeys : (((p.jsonDecode raw).get channelsKey).entries.map Prod.fst).Nodup)
    (hval : validate p i raw cache = .ok a) (hlive : livePayload p next = some raw)
    (hversion : next.installed = i.installed) (hwrites : next.writes = true)
    (hpersists : next.persists = true)
    (hselected : a.document.effective next.selected = a.channel) :
    repoc p (some raw) next = (some raw, some (.live, a)) := by
  obtain ⟨hdoc, -, hcomplete, heligible, -⟩ := validatePayload_ok hval
  have hfetch : next.nofetch = false := by
    by_contra hne
    simp [livePayload, hne] at hlive
  have hagain : validate p next raw (some raw) = .ok a := by
    simp only [validate, validatePayload, bind_eq_ok, require_eq_ok, pure_eq_ok, exists_const,
      hversion]
    refine ⟨a.document, hdoc, ?_, (), checkBaseline_self hdoc hkeys _, hwrites, ?_⟩
    · rw [hselected]
      exact ⟨hcomplete, heligible⟩
    · rw [hselected]
  simp [repoc, hfetch, hlive, hagain, hpersists]

/-- A run in the directory that was installed for a channel selects this channel, and would install
the same directory. -/
lemma effective_reading (h : Consistent a.document)
    (hc : a.document.complete a.channel = some true) (he : a.document.eligible a.channel = some true)
    {tree : Tree} (ha : a.channel = a.document.effective (selectedChannel product tree configured))
    (next : Input) :
    let installed := complete product a.document.rows (selectedChannel product tree configured)
    let selected := (next.reading product installed configured).selected
    a.document.effective selected = a.channel ∧
      complete product a.document.rows selected = installed := by
  intro installed selected
  have hinstalled : ∀ sel, a.document.effective sel = a.channel →
      complete product a.document.rows sel = (markerWrite product a.channel).apply
        (Staging.ofRows product a.document.rows).tree := by
    intro sel hsel
    rw [← hsel] at hc he ⊢
    exact (marked_eq product h hc he).1
  have hselected : a.document.effective selected = a.channel := by
    by_cases hconf : isConfigured configured = true
    · have hsame : selected = selectedChannel product tree configured := by
        simp only [selected, Input.reading, selectedChannel, if_pos hconf]
      rw [hsame, ha]
    · have hmarker : selected = a.channel := by
        simp only [selected, Input.reading, installed]
        rw [hinstalled _ ha.symm, selectedChannel, if_neg hconf]
        exact (markers_apply product a.channel fun _ hf => not_marker_of_mem hf).2
      rw [hmarker]
      exact h.effective_self hc he
  exact ⟨hselected, (hinstalled _ hselected).trans (hinstalled _ ha.symm).symm⟩

/-- **Synchronising twice is synchronising once.**  Let a run succeed with a live payload, over any
directory or none, any retained file and any configured channel.  The next run with the same payload,
installed version and configured channel succeeds if nothing disturbs it, and a run that succeeds
leaves the directory and the retained file as they are. -/
theorem synchronised_twice
    (hkeys : ∀ raw, (((p.jsonDecode raw).get channelsKey).entries.map Prod.fst).Nodup) {t : Sh}
    (hfirst : Exits p product (i.reading product (repos.getD .empty) configured)
      (.startAt repos cache) 0 t)
    (hsource : (repoc p cache (i.reading product (repos.getD .empty) configured)).2
      = some (.live, a))
    (hlive : livePayload p next = livePayload p i) (hversion : next.installed = i.installed)
    (hwrites : next.writes = true) (hpersists : next.persists = true) :
    ∃ tree, t.dir .repos = some tree ∧
      (exitOf p product (next.reading product tree configured) (.start tree t.cache)).1 = 0 ∧
      ∀ u, Exits p product (next.reading product tree configured) (.start tree t.cache) 0 u →
        u.dir .repos = t.dir .repos ∧ u.cache = t.cache := by
  set first := i.reading product (repos.getD .empty) configured
  obtain ⟨raw, hretains⟩ := retains_of_live hsource
  obtain ⟨hraw, hval, -⟩ := retains_eq_some.1 hretains
  obtain ⟨hdoc, ha, hc, he, -⟩ := validatePayload_ok hval
  have hcons := consistent_of_validate hdoc (hkeys raw)
  obtain ⟨c, hmem, hname, row, hrow, hrowname, -⟩ := hcons.exists_row hc he
  have hne : row.name ≠ [] := by
    rw [hrowname, ← hname]
    exact (hcons.ok c hmem).name_ne_nil
  -- what the first run leaves
  obtain ⟨-, hdir, hcache⟩ := exitOf_of_accepted product repos hsource hrow hne
  rw [exitOf_of_success hfirst] at hdir hcache
  rw [repoc_cache, hretains, Option.map_some] at hcache
  refine ⟨_, hdir, ?_⟩
  -- what the second run decides
  obtain ⟨hselected, hsame⟩ := effective_reading hcons hc he ha next
  set tree := complete product a.document.rows first.selected
  set second := next.reading product tree configured
  have hagain : repoc p t.cache second = (t.cache, some (.live, a)) := by
    rw [hcache]
    exact repoc_again (hkeys raw) hval (hlive.trans hraw) hversion hwrites hpersists hselected
  obtain ⟨hstatus, hdir', hcache'⟩ :=
    exitOf_of_accepted product (some tree) (congrArg Prod.snd hagain) hrow hne
  rw [Sh.startAt_some] at hstatus hdir' hcache'
  refine ⟨hstatus, fun u hu => ?_⟩
  rw [exitOf_of_success hu] at hdir' hcache'
  rw [hdir]
  exact ⟨hdir'.trans (congrArg some hsame), hcache'.trans (congrArg Prod.fst hagain)⟩

end Twice

/-- The first run of a machine: no directory, no retained file, and nothing selected. -/
def freshInput : Input :=
  (sampleInput "" 1 1).reading "FreeSense".toList ((none : Option Tree).getD .empty) []

def freshEnd : ℕ × Sh := exitOf samplePlatform "FreeSense".toList freshInput (.startAt none none)

theorem synchronised_twice_fresh :
    freshEnd.1 = 0 ∧ ∃ tree, freshEnd.2.dir .repos = some tree ∧
      (exitOf samplePlatform "FreeSense".toList (sampleNext tree) (.start tree freshEnd.2.cache)).1
        = 0 ∧
      ∀ u, Exits samplePlatform "FreeSense".toList (sampleNext tree) (.start tree freshEnd.2.cache)
          0 u → u.dir .repos = freshEnd.2.dir .repos ∧ u.cache = freshEnd.2.cache := by
  obtain ⟨hstatus, hlive⟩ : freshEnd.1 = 0 ∧
      (repoc samplePlatform none freshInput).2.map Prod.fst = some .live := by decide +kernel
  obtain ⟨⟨_, a⟩, hsource, rfl⟩ := Option.map_eq_some_iff.1 hlive
  have hfirst : Exits samplePlatform "FreeSense".toList freshInput (.startAt none none) 0
      freshEnd.2 := exits_of_status hstatus
  have hpayload : livePayload samplePlatform (sampleInput "stable" 1 1)
      = livePayload samplePlatform (sampleInput "" 1 1) := rfl
  have hversion : (sampleInput "stable" 1 1).installed = (sampleInput "" 1 1).installed := rfl
  exact ⟨hstatus, synchronised_twice samplePlatform_keys hfirst hsource hpayload hversion rfl rfl⟩

end FreeSense.Repoc
