import FreeSensePorts.BootEnv.Model

/-!
# Pruning a printed list

`be_prune_automatic` works on the lines of `bectl list -H -C creation`, newest first, which may carry
any status and any properties here.  The pool model's `pruneAutomatic` does the same on the lines it
prints.
-/

namespace FreeSense.BootEnv

open List

/-- A line of the list, with the two properties that the loop asks for by name. -/
structure Line where
  name : Text
  status : Text
  origin : Text
  health : Text
deriving DecidableEq

namespace Line

/-- `grep -Eq '[NRT]'`. -/
def flagged (r : Line) : Bool := r.status.any fun c => c = 'N' ∨ c = 'R' ∨ c = 'T'

/-- Created automatically, not in use and not on trial. -/
def old (r : Line) : Bool := r.origin = automatic ∧ r.flagged = false ∧ r.health ≠ pending

end Line

/-- `be_get_prop`; nothing is printed for an environment that is gone. -/
def lineProp (property : Line → Text) (name : Text) (there : List Line) : Text :=
  ((there.find? fun r => r.name = name).map property).getD []

/-- A `bectl destroy -o` that succeeds. -/
def destroyLine (name : Text) (there : List Line) : List Line := there.filter fun r => r.name ≠ name

/-- The loop over the lines; `there` are the environments that still exist. -/
def pruneLines (keep : ℕ) : List Line → ℕ → List Line → List Line
  | [], _, there => there
  | r :: lines, seen, there =>
    if lineProp Line.origin r.name there ≠ automatic then pruneLines keep lines seen there
    else if r.flagged then pruneLines keep lines seen there
    else if lineProp Line.health r.name there = pending then pruneLines keep lines seen there
    else if seen + 1 ≤ keep then pruneLines keep lines (seen + 1) there
    else pruneLines keep lines (seen + 1) (destroyLine r.name there)

/-- `be_prune_automatic` on the environments that the list names. -/
def bePruneAutomatic (keep : ℕ) (lines : List Line) : List Line := pruneLines keep lines 0 lines

variable {keep : ℕ} {lines there : List Line} {r : Line}

theorem lineProp_eq (property : Line → Text) (hnames : (there.map Line.name).Nodup)
    (hr : r ∈ there) : lineProp property r.name there = property r := by
  cases hf : there.find? fun r' => r'.name = r.name with
  | none => exact absurd (find?_eq_none.1 hf r hr) (by simp)
  | some r' =>
    have hname : r'.name = r.name := by simpa using find?_some hf
    have heq := inj_on_of_nodup_map hnames (mem_of_find?_eq_some hf) hr hname
    rw [lineProp, hf, heq, Option.map_some, Option.getD_some]

/-! ## The loop -/

/-- The loop from any place of the list: what is still to be looked at is still there. -/
theorem pruneLines_eq (seen : ℕ) (hthere : (there.map Line.name).Nodup)
    (hlines : ∀ r ∈ lines, r ∈ there) (hnames : (lines.map Line.name).Nodup) :
    pruneLines keep lines seen there =
      there.filter fun r => r ∉ (lines.filter Line.old).drop (keep - seen) := by
  induction lines generalizing seen there with
  | nil => simp [pruneLines]
  | cons r lines ih =>
    have hr := hlines r mem_cons_self
    have hrest : ∀ r' ∈ lines, r' ∈ there := fun r' h => hlines r' (mem_cons_of_mem _ h)
    rw [map_cons, nodup_cons] at hnames
    rw [pruneLines, lineProp_eq _ hthere hr, lineProp_eq _ hthere hr]
    by_cases hold : r.old = true
    · have hparts := hold
      simp only [Line.old, decide_eq_true_eq] at hparts
      obtain ⟨horigin, hflag, hhealth⟩ := hparts
      rw [if_neg (not_not.2 horigin), if_neg (by simp [hflag]), if_neg hhealth,
        filter_cons_of_pos hold]
      by_cases hseen : seen + 1 ≤ keep
      · rw [if_pos hseen, ih _ hthere hrest hnames.2,
          show keep - seen = (keep - (seen + 1)) + 1 by omega, drop_succ_cons]
      · have hrest' : ∀ r' ∈ lines, r' ∈ destroyLine r.name there := by
          intro r' hr'
          have hne : r'.name ≠ r.name := fun hname => hnames.1 (mem_map.2 ⟨r', hr', hname⟩)
          exact mem_filter.2 ⟨hrest r' hr', by simpa using hne⟩
        have hthere' : ((destroyLine r.name there).map Line.name).Nodup :=
          hthere.sublist (filter_sublist.map _)
        rw [if_neg hseen, ih _ hthere' hrest' hnames.2, destroyLine, filter_filter,
          show keep - seen = 0 by omega, show keep - (seen + 1) = 0 by omega]
        refine filter_congr fun r' hr' => ?_
        -- names are distinct, so only `r` itself carries its name
        have hsame : r'.name = r.name ↔ r' = r :=
          ⟨inj_on_of_nodup_map hthere hr' hr, congrArg _⟩
        simp [hsame, Bool.and_comm]
    · rw [filter_cons_of_neg hold]
      have hskip := ih seen hthere hrest hnames.2
      simp only [Line.old, decide_eq_true_eq, not_and, not_not] at hold
      by_cases horigin : r.origin = automatic
      · rw [if_neg (not_not.2 horigin)]
        cases hflag : r.flagged with
        | true => rw [if_pos rfl, hskip]
        | false => rw [if_neg Bool.false_ne_true, if_pos (hold horigin hflag), hskip]
      · rw [if_pos horigin, hskip]

theorem bePruneAutomatic_eq (hnames : (lines.map Line.name).Nodup) :
    bePruneAutomatic keep lines = lines.filter fun r => r ∉ (lines.filter Line.old).drop keep :=
  pruneLines_eq 0 hnames (fun _ h => h) hnames

/-! ## What is gone and what is left -/

/-- After the first `keep` of the old ones. -/
def CondemnedIn (keep : ℕ) (lines : List Line) (r : Line) : Prop :=
  ∃ newer older, lines = newer ++ r :: older ∧ keep ≤ (newer.filter Line.old).length

theorem mem_drop_old (hlines : lines.Nodup) :
    r ∈ (lines.filter Line.old).drop keep ↔ r.old = true ∧ CondemnedIn keep lines r := by
  constructor
  · intro hr
    obtain ⟨hin, hold⟩ := mem_filter.1 (mem_of_mem_drop hr)
    obtain ⟨newer, older, rfl⟩ := append_of_mem hin
    refine ⟨hold, newer, older, rfl, ?_⟩
    by_contra hfew
    rw [filter_append, filter_cons_of_pos hold, drop_append,
      mem_append, show keep - (newer.filter Line.old).length =
        (keep - (newer.filter Line.old).length - 1) + 1 by omega] at hr
    obtain ⟨-, hright, hdisjoint⟩ := nodup_append.1 hlines
    -- the line stands once: neither before itself nor behind
    rcases hr with hr | hr
    · exact hdisjoint r (mem_of_mem_filter (mem_of_mem_drop hr)) r mem_cons_self rfl
    · exact (nodup_cons.1 hright).1 (mem_of_mem_filter (mem_of_mem_drop hr))
  · rintro ⟨hold, newer, older, rfl, hmany⟩
    rw [filter_append, filter_cons_of_pos hold, drop_append,
      Nat.sub_eq_zero_of_le hmany]
    exact mem_append_right _ mem_cons_self

theorem filter_not_mem_drop {α : Type} [DecidableEq α] {l : List α} (k : ℕ) (hl : l.Nodup) :
    (l.filter fun a => a ∉ l.drop k) = l.take k := by
  have hsplit := take_append_drop k l
  obtain ⟨-, -, hdisjoint⟩ := nodup_append.1 (hsplit.symm ▸ hl)
  have hfront : ((l.take k).filter fun a => a ∉ l.drop k) = l.take k :=
    filter_eq_self.2 fun a ha => by simpa using fun h => hdisjoint a ha a h rfl
  have hback : ((l.drop k).filter fun a => a ∉ l.drop k) = [] :=
    filter_eq_nil_iff.2 fun a ha => by simpa using ha
  calc (l.filter fun a => a ∉ l.drop k)
      = ((l.take k ++ l.drop k).filter fun a => a ∉ l.drop k) := by rw [hsplit]
    _ = l.take k := by rw [filter_append, hfront, hback, append_nil]

theorem mem_bePruneAutomatic (hnames : (lines.map Line.name).Nodup) :
    r ∈ bePruneAutomatic keep lines ↔
      r ∈ lines ∧ ¬ (r.old = true ∧ CondemnedIn keep lines r) := by
  rw [bePruneAutomatic_eq hnames, mem_filter, decide_eq_true_eq, mem_drop_old hnames.of_map]

/-- **Pruning is exact**: gone are the old environments after the first `keep` of them; the old ones
left are the newest, and everything else is still there in its place. -/
theorem prune_exact (keep : ℕ) (lines : List Line) (hnames : (lines.map Line.name).Nodup) :
    (∀ r ∈ lines, r ∉ bePruneAutomatic keep lines ↔
      (r.origin = automatic ∧ r.flagged = false ∧ r.health ≠ pending) ∧ CondemnedIn keep lines r) ∧
    (bePruneAutomatic keep lines).filter Line.old = (lines.filter Line.old).take keep ∧
    ((bePruneAutomatic keep lines).filter Line.old).length ≤ keep ∧
    (∀ r ∈ lines, r.origin ≠ automatic ∨ r.flagged = true ∨ r.health = pending →
      r ∈ bePruneAutomatic keep lines) ∧
    (bePruneAutomatic keep lines).Sublist lines := by
  have hleft : (bePruneAutomatic keep lines).filter Line.old =
      (lines.filter Line.old).take keep := by
    rw [bePruneAutomatic_eq hnames, filter_filter]
    simp_rw [Bool.and_comm (Line.old _)]
    rw [← filter_filter, filter_not_mem_drop keep (hnames.of_map.filter _)]
  refine ⟨fun r hr => ?_, hleft, ?_, fun r hr hkept => ?_, ?_⟩
  · rw [mem_bePruneAutomatic hnames]
    simp [hr, Line.old, and_assoc]
  · rw [hleft]
    exact length_take_le _ _
  · refine (mem_bePruneAutomatic hnames).2 ⟨hr, fun hold => ?_⟩
    have hparts := hold.1
    simp only [Line.old, decide_eq_true_eq] at hparts
    rcases hkept with h | h | h
    · exact h hparts.1
    · exact absurd h (by simp [hparts.2.1])
    · exact hparts.2.2 h
  · rw [bePruneAutomatic_eq hnames]
    exact filter_sublist

/-- Four automatic environments, one of them on trial, and a manual one. -/
def sampleLines : List Line :=
  [⟨"e".toList, "T".toList, automatic, pending⟩, ⟨"d".toList, "NR".toList, automatic, healthy⟩,
    ⟨"c".toList, dash, automatic, healthy⟩, ⟨"b".toList, dash, manual, dash⟩,
    ⟨"a".toList, dash, automatic, failed⟩]

theorem prune_exact_sample :
    (bePruneAutomatic 1 sampleLines).filter Line.old = (sampleLines.filter Line.old).take 1 ∧
      (bePruneAutomatic 1 sampleLines).map Line.name =
        ["e".toList, "d".toList, "c".toList, "b".toList] :=
  ⟨(prune_exact 1 sampleLines (by decide)).2.1, by decide⟩

/-! ## The lines that a pool prints -/

/-- The letters of the status column. -/
def Bes.status (s : Bes) (e : Env) : Text :=
  let letters := (if e.id = s.now then "N".toList else []) ++
    (if e.id = s.bootfs then "R".toList else []) ++ (if s.once = some e.name then "T".toList else [])
  if letters = [] then dash else letters

def Bes.line (s : Bes) (e : Env) : Line :=
  ⟨e.name, s.status e, e.props .origin, e.props .health⟩

theorem flagged_line (s : Bes) (e : Env) : (s.line e).flagged = s.flagged e := by
  by_cases hnow : e.id = s.now <;> by_cases hboot : e.id = s.bootfs <;>
    by_cases honce : s.once = some e.name <;>
    simp [Line.flagged, Bes.line, Bes.status, Bes.flagged, dash, hnow, hboot, honce]

theorem old_line (s : Bes) (e : Env) : (s.line e).old = candidate s e := by
  rw [Line.old, flagged_line]
  rfl

/-- The pool model prunes as the loop does on the lines it prints. -/
theorem lines_pruneAutomatic {s : Bes} (keep : ℕ) (hs : s.names.Nodup) :
    (pruneAutomatic (fun _ => true) keep s).envs.map s.line =
      bePruneAutomatic keep (s.envs.map s.line) := by
  have hnames : ((s.envs.map s.line).map Line.name).Nodup := by
    rw [map_map]
    exact hs
  have hfilter : (s.envs.map s.line).filter Line.old = (s.envs.filter (candidate s)).map s.line := by
    rw [filter_map]
    exact congrArg _ (filter_congr fun e _ => old_line s e)
  rw [pruneAutomatic_eq _ keep hs, bePruneAutomatic_eq hnames, hfilter, ← map_drop,
    filter_true, filter_map]
  refine congrArg _ (filter_congr fun e he => ?_)
  have hiff : e.name ∈ (condemned keep s).map Env.name ↔
      s.line e ∈ ((s.envs.filter (candidate s)).drop keep).map s.line := by
    simp only [mem_map, condemned]
    constructor
    · rintro ⟨e', he', hname⟩
      have hin := mem_of_mem_filter (mem_of_mem_drop he')
      exact ⟨e', he', congrArg _ (inj_on_of_nodup_map hs hin he hname)⟩
    · rintro ⟨e', he', hline⟩
      exact ⟨e', he', congrArg Line.name hline⟩
  simp only [Function.comp_apply, hiff]

def samplePool : Bes :=
  ⟨[⟨0, "b".toList, fun _ => automatic, true⟩, ⟨1, "a".toList, fun _ => automatic, false⟩], 0, 0, none⟩

theorem lines_pruneAutomatic_sample :
    (pruneAutomatic (fun _ => true) 0 samplePool).envs.map samplePool.line =
      bePruneAutomatic 0 (samplePool.envs.map samplePool.line) :=
  lines_pruneAutomatic 0 (by decide)

end FreeSense.BootEnv
