import FreeSensePorts.Repoc.Swap

/-!
# The undisturbed run

What a run leaves in which no signal comes and no rename fails, over any directory or none
(`exitOf_of_accepted`).  A run that exits with status 0 is such a run (`exitOf_of_success`), and has
accepted a payload (`accepted_of_success`).
-/

namespace FreeSense.Repoc

open List Php Shell

/-- The state while the staging directory is filled. -/
def Sh.filled (s : Sh) (g : Staging) : Sh :=
  { s with
    dir := Function.update s.dir .new (some g.tree)
    count := g.count
    defaultName := g.defaultName }

section Stage

variable {product : Text} {s : Sh}

lemma run_redirect (hs : s.staged = some .new) (g : Staging) (w : Write) :
    (Script.cmd (redirect w)).run (s.filled g)
      = (.done, s.filled { g with tree := w.apply g.tree }) := by
  simp [Script.run, redirect, Sh.present, Sh.filled, Sh.put, hs]

lemma run_writes (hs : s.staged = some .new) (l : List Write) (g : Staging) :
    (Script.forEach (fun w => .cmd (redirect w)) l).run (s.filled g)
      = (.done, s.filled { g with tree := l.foldl (fun t w => w.apply t) g.tree }) := by
  induction l generalizing g with
  | nil => rfl
  | cons w l ih =>
    rw [Script.forEach, Script.run_seq_done (run_redirect hs g w), ih, foldl_cons]

lemma run_stageRow (hs : s.staged = some .new) (g : Staging) (row : Row) :
    (stageRow product row).run (s.filled g) = (.done, s.filled (g.row product row)) := by
  rw [stageRow, Script.run_test, Staging.row]
  by_cases hname : row.name = []
  · simp [hname, Script.run]
  · rw [if_pos (by simpa using hname), if_neg hname, Script.run_seq_done (run_writes hs _ g)]
    by_cases hdefault : row.default = yes
    · rw [Script.run_seq_done (t := (s.filled
          ⟨(rowWrites product row).foldl (fun t w => w.apply t) g.tree, g.count, row.name⟩))
          (by rw [Script.run_test, if_pos (by simpa using hdefault)]; rfl), if_pos hdefault]
      rfl
    · rw [Script.run_seq_done (by rw [Script.run_test, if_neg (by simpa using hdefault)]; rfl),
        if_neg hdefault]
      rfl

lemma run_rows (hs : s.staged = some .new) (rows : List Row) (g : Staging) :
    (Script.forEach (stageRow product) rows).run (s.filled g)
      = (.done, s.filled (rows.foldl (Staging.row product) g)) := by
  induction rows generalizing g with
  | nil => rfl
  | cons row rows ih =>
    rw [Script.forEach, Script.run_seq_done (run_stageRow hs g row), ih, foldl_cons]

lemma run_stageMarker (hs : s.staged = some .new) (selected : Text) (g : Staging) :
    (stageMarker product selected).run (s.filled g)
      = (.done, s.filled { g with tree := g.marked product selected }) := by
  have hdir : (s.filled g).staged.bind (s.filled g).dir = some g.tree := by
    simp [Sh.filled, hs]
  rw [stageMarker, Script.run_test, hdir, Staging.marked]
  by_cases hsel : selected ≠ [] ∧ g.tree.hasFile (base product selected ++ ".conf".toList) = true
  · rw [if_pos (by rw [decide_eq_true_eq, Option.any_some]; exact hsel), if_pos hsel,
      run_redirect hs]
  · rw [if_neg (by rw [decide_eq_true_eq, Option.any_some]; exact hsel), if_neg hsel,
      Script.run_test]
    by_cases hdefault : g.defaultName ≠ []
    · rw [if_pos (by rw [decide_eq_true_eq]; exact hdefault), if_pos hdefault]
      exact run_redirect hs g _
    · rw [if_neg (by rw [decide_eq_true_eq]; exact hdefault), if_neg hdefault]
      rfl

/-- **Staging**, where there is a row to stage. -/
lemma run_stage (product selected : Text) (hcount : s.count = 0) (hdefault : s.defaultName = [])
    (hrows : 0 < (Staging.ofRows product s.rows).count) :
    (stage product selected).run s
      = (.done, Sh.filled { s with staged := some .new, named := .new :: s.named }
          { Staging.ofRows product s.rows with tree := complete product s.rows selected }) := by
  set s' : Sh := { s with staged := some .new, named := .new :: s.named } with hs'
  have hstart : (Script.seq (.cmd (mktemp .new)) (.cmd assignStaged)).run s
      = (.done, s'.filled ⟨.empty, 0, []⟩) := by
    simp [Script.run, mktemp, assignStaged, act, Sh.put, Sh.filled, hs', hcount, hdefault]
  have hfill : (Script.read fun s => .forEach (stageRow product) s.rows).run
      (s'.filled ⟨.empty, 0, []⟩) = (.done, s'.filled (Staging.ofRows product s.rows)) := run_rows rfl s.rows _
  rw [stage, Script.run_seq_done hstart, Script.run_seq_done hfill,
    Script.run_seq_done (by
      rw [Script.run_test, if_pos (by rw [decide_eq_true_eq]; exact hrows)]
      rfl), run_stageMarker rfl]
  rfl

end Stage

lemma count_pos {product : Text} {rows : List Row} {row : Row} (hrow : row ∈ rows)
    (hname : row.name ≠ []) : 0 < (Staging.ofRows product rows).count := by
  have hmono : ∀ (l : List Row) (g : Staging),
      g.count ≤ (l.foldl (Staging.row product) g).count := by
    intro l
    induction l with
    | nil => exact fun _ => le_rfl
    | cons r l ih =>
      refine fun g => le_trans ?_ (ih _)
      rw [Staging.row]
      split_ifs <;> simp
  obtain ⟨l₁, l₂, rfl⟩ := append_of_mem hrow
  rw [Staging.ofRows, foldl_append, foldl_cons]
  refine lt_of_lt_of_le ?_ (hmono l₂ _)
  rw [Staging.row, if_neg hname]
  exact Nat.succ_pos _

/-- The swap can go on from here: `REPOS_DIR` is out of the way, in the backup if there is one. -/
structure SetAside (tree : Tree) (cache : Option Bytes) (s : Sh) : Prop where
  repos : s.dir .repos = none
  new : s.dir .new = some tree
  staged : s.staged = some .new
  backup : s.backup = none ∨ s.backup = some .old ∧ (s.dir .old).isSome = true
  cache : s.cache = cache

lemma run_setAside {s : Sh} {tree : Tree} (hnew : s.dir .new = some tree)
    (hstaged : s.staged = some .new) (hbackup : s.backup = none) :
    ∃ t, setAside.run s = (.done, t) ∧ SetAside tree s.cache t := by
  rw [setAside, Script.run_test]
  cases hrepos : s.dir .repos with
  | none => exact ⟨s, by simp [Script.run], hrepos, hnew, hstaged, .inl hbackup, rfl⟩
  | some old =>
    -- `rmdir` removes what `mktemp` has made, and the rename finds no destination
    refine ⟨{ s with
        dir := Function.update (Function.update s.dir .old (some old)) .repos none
        backup := some .old
        named := .old :: s.named }, ?_, by simp, by simp [hnew], hstaged, .inr (by simp), rfl⟩
    simp [Script.run, mktemp, assignBackup, act, rmdirBackup, rename, reposDir, Sh.mv?, Sh.mv,
      Sh.rm, Sh.put, Sh.present, hrepos]

/-- **The swap**, over a directory or none. -/
lemma run_swap {s : Sh} {tree : Tree} (hnew : s.dir .new = some tree)
    (hstaged : s.staged = some .new) (hbackup : s.backup = none) :
    ∃ t, swap.run s = (.done, t) ∧ t.dir .repos = some tree ∧ t.cache = s.cache ∧
      t.staged = none ∧ t.backup = none := by
  obtain ⟨u, hu, h⟩ := run_setAside hnew hstaged hbackup
  have hput : putInPlace.run u = (.done, { u with
      dir := Function.update (Function.update u.dir .repos (some tree)) .new none
      staged := none
      swapped := true }) := by
    simp [putInPlace, Script.run, install, clearStaged, act, Sh.mv?, Sh.mv, Sh.put, Sh.present,
      h.staged, h.new, h.repos]
  rw [swap, Script.run_seq_done hu, Script.run_seq_done hput, dropBackup, Script.run_test]
  rcases h.backup with hnone | ⟨hold, hdir⟩
  · rw [if_neg (by simp [Sh.present, hnone])]
    exact ⟨_, rfl, by simp, h.cache, rfl, hnone⟩
  · rw [if_pos (by simpa [Sh.present, hold] using hdir)]
    exact ⟨_, rfl, by simp [act, clearBackup, Sh.rm, Sh.put, hold], by simp [act, clearBackup, Sh.rm,
      Sh.put, hold, h.cache], by simp [act, clearBackup, Sh.rm, Sh.put, hold], rfl⟩

section Runs

variable {p : Platform} {product : Text} {i : Input} {cache : Option Bytes}

/-- **The undisturbed run** of an accepted payload. -/
theorem exitOf_of_accepted (product : Text) (repos : Option Tree) {source : Source} {a : Accepted}
    (h : (repoc p cache i).2 = some (source, a)) {row : Row} (hrow : row ∈ a.document.rows)
    (hname : row.name ≠ []) :
    (exitOf p product i (.startAt repos cache)).1 = 0 ∧
      (exitOf p product i (.startAt repos cache)).2.dir .repos
        = some (complete product a.document.rows i.selected) ∧
      (exitOf p product i (.startAt repos cache)).2.cache = (repoc p cache i).1 := by
  set s₁ : Sh := { Sh.startAt repos cache with work := true, traps := true }
  set s₂ : Sh := { s₁ with rows := a.document.rows, cache := (repoc p cache i).1 }
  have hdecision : (decision p i).run s₁ = (.done, s₂) := by
    have hr : repoc p s₁.cache i = ((repoc p cache i).1, some (source, a)) := Prod.ext rfl h
    simp only [decision, Script.run, hr]
    rfl
  set s₃ : Sh := Sh.filled { s₂ with staged := some .new, named := .new :: s₂.named }
    { Staging.ofRows product s₂.rows with tree := complete product s₂.rows i.selected }
  have hstage : (stage product i.selected).run s₂ = (.done, s₃) :=
    run_stage product i.selected rfl rfl (count_pos hrow hname)
  have hnew : s₃.dir .new = some (complete product s₂.rows i.selected) := by simp [s₃, Sh.filled]
  obtain ⟨t, hswap, hdir, hcache, hstaged, hbackup⟩ := run_swap hnew rfl rfl
  have hrun : (script p product i).run (.startAt repos cache) = (.done, t) := by
    rw [script, Script.run_seq_done (show prologue.run _ = (.done, s₁) from rfl),
      Script.run_seq_done hdecision, Script.run_seq_done hstage, hswap]
  obtain ⟨hdir', hcache', -⟩ := finish_idle hbackup hstaged 0
  rw [exitOf, hrun]
  refine ⟨finish_status 0 t, ?_, ?_⟩
  · rw [Result.code, hdir', hdir]
  · rw [Result.code, hcache', hcache]
    rfl

lemma script_reports : (script p product i).Reports := by
  have hdecision : (decision p i).Reports := by
    intro s
    dsimp only
    split
    · trivial
    · exact ⟨trivial, trivial⟩
  have hwrites : ∀ l, (Script.forEach (fun w => .cmd (redirect w)) l).Reports :=
    Script.reports_forEach fun _ => trivial
  have hrow : ∀ row, (stageRow product row).Reports := fun row =>
    ⟨⟨hwrites _, ⟨trivial, .inl ⟨rfl, fun _ => trivial⟩⟩, trivial⟩,
      .inl ⟨rfl, fun _ => trivial⟩⟩
  have hstage : (stage product i.selected).Reports := by
    refine ⟨⟨trivial, trivial⟩, fun s => Script.reports_forEach hrow _,
      ⟨trivial, .inl ⟨rfl, fun _ => trivial⟩⟩, trivial, .inl ⟨rfl, fun _ => ⟨fun _ => trivial, ?_⟩⟩⟩
    exact .inl ⟨rfl, fun _ => trivial⟩
  -- the script leaves with the status of the rename that has failed
  have hinstall : putInPlace.Reports := by
    refine ⟨trivial, .inr fun n hn b s => ?_⟩
    simp [wp, test, act, clearBackup, hn]
  exact ⟨⟨trivial, trivial⟩, hdecision, hstage,
    ⟨⟨trivial, trivial, trivial, trivial⟩, .inl ⟨rfl, fun _ => trivial⟩⟩, hinstall,
    ⟨trivial, trivial⟩, .inl ⟨rfl, fun _ => trivial⟩⟩

/-- **A run with status 0 is the undisturbed one.** -/
theorem exitOf_of_success {s t : Sh} (h : Exits p product i s 0 t) :
    exitOf p product i s = (0, t) := by
  obtain ⟨r, b, u, hexec, hfinish⟩ := h
  have hcode : Result.code r = 0 := by
    rw [← finish_status (Result.code r) u, hfinish]
  have hrun := hexec.run_eq script_reports fun n hn => by
    rw [hn] at hcode
    exact hcode
  rw [exitOf, hrun, hfinish]

end Runs

end FreeSense.Repoc
