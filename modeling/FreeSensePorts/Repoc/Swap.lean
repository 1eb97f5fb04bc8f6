import FreeSensePorts.Repoc.Generations
import FreeSensePorts.Repoc.Materialise

/-!
# The swap is all or nothing

Whatever one signal or one failed rename does to a run, the directory in use is the old one or the
complete new one when the process has exited, and nothing the variables of the script named is left.

`Recoverable` is the condition under which the trap puts directories and variables right
(`Recoverable.finish`).  `Phase` says which there are at a point of the script, and every phase is
recoverable.
-/

namespace FreeSense.Repoc

open Shell

variable {g : Staging} {s : Sh}

/-! ## What the trap can recover from -/

/-- The directories after the process: the old tree, or the new one if the staged rename happened;
and nothing of what was named. -/
structure Outcome (old : Tree) (new : Option Tree) (t : Sh) : Prop where
  repos : (t.dir .repos = some old ∧ t.swapped = false) ∨
    (new ≠ none ∧ t.dir .repos = new ∧ t.swapped = true)
  gone : ∀ n ∈ t.named, t.dir n = none

structure Recoverable (old : Tree) (new : Option Tree) (s : Sh) : Prop where
  repos : (s.dir .repos = some old ∧ s.swapped = false) ∨
    (s.dir .repos = none ∧ s.backup = some .old ∧ s.dir .old = some old ∧ s.swapped = false) ∨
    (new ≠ none ∧ s.dir .repos = new ∧ s.swapped = true)
  backup : s.backup = none ∨ s.backup = some .old
  staged : s.staged = none ∨ s.staged = some .new
  /-- What was named and is still there is still named. -/
  named : ∀ n ∈ s.named, n ≠ .repos ∧ (s.dir n = none ∨ s.backup = some n ∨ s.staged = some n)
  untrapped : s.traps = false → s.dir .repos = some old ∧ s.swapped = false ∧ s.named = []

@[simp] lemma Sh.put_dir (n : Node) (t : Option Tree) (s : Sh) :
    (s.put n t).dir = Function.update s.dir n t := rfl

@[simp] lemma Sh.put_backup (n : Node) (t : Option Tree) (s : Sh) :
    (s.put n t).backup = s.backup := rfl

@[simp] lemma Sh.put_staged (n : Node) (t : Option Tree) (s : Sh) :
    (s.put n t).staged = s.staged := rfl

/-- The directories after the first half of the trap: the backup comes back if there is no
directory in use, and is removed otherwise. -/
lemma cleanupBackup_dir (hb : s.backup = none ∨ s.backup = some .old) (status : ℕ) :
    let t := (cleanupBackup true status s).2
    t.dir .repos = (s.dir .repos).or (s.backup.bind s.dir) ∧
      t.dir .old = (if s.backup = some .old then none else s.dir .old) ∧ t.dir .new = s.dir .new ∧
      t.staged = s.staged ∧ t.named = s.named ∧ t.swapped = s.swapped := by
  rcases hb with hb | hb
  · simp [cleanupBackup, Sh.present, hb]
  · cases hold : s.dir .old with
    | none => simp [cleanupBackup, Sh.present, hb, hold]
    | some t =>
      cases hrepos : s.dir .repos with
      | none => simp [cleanupBackup, Sh.present, Sh.mv?, Sh.mv, Sh.put, hb, hold, hrepos]
      | some u => simp [cleanupBackup, Sh.present, Sh.rm, Sh.put, hb, hold, hrepos]

lemma cleanup_dir (hb : s.backup = none ∨ s.backup = some .old)
    (hs : s.staged = none ∨ s.staged = some .new) (status : ℕ) : let t := (cleanup true status s).2
    t.dir .repos = (s.dir .repos).or (s.backup.bind s.dir) ∧
      t.dir .old = (if s.backup = some .old then none else s.dir .old) ∧
      t.dir .new = (if s.staged = some .new then none else s.dir .new) ∧
      t.named = s.named ∧ t.swapped = s.swapped := by
  obtain ⟨hrepos, hold, hnew, hstaged, hnamed, hswapped⟩ := cleanupBackup_dir hb status
  rcases hs with hs | hs
  · simp [cleanup, Sh.present, hstaged, hs, hrepos, hold, hnew, hnamed, hswapped]
  · cases hdir : s.dir .new with
    | none => simp [cleanup, Sh.present, hstaged, hs, hrepos, hold, hnew, hnamed, hswapped, hdir]
    | some t =>
      simp [cleanup, Sh.present, Sh.rm, Sh.put, hstaged, hs, hrepos, hold, hnew, hnamed,
        hswapped, hdir]

/-- **The trap recovers.** -/
theorem Recoverable.finish {old : Tree} {new : Option Tree} (h : Recoverable old new s) (status : ℕ) :
    Outcome old new (finish status s).2 := by
  cases htraps : s.traps with
  | false =>
    obtain ⟨hrepos, hswapped, hnamed⟩ := h.untrapped htraps
    simp only [Repoc.finish, htraps, Bool.false_eq_true, if_false]
    exact ⟨Or.inl ⟨hrepos, hswapped⟩, by simp [hnamed]⟩
  | true =>
    obtain ⟨hrepos, hold, hnew, hnamed, hswapped⟩ := cleanup_dir h.backup h.staged status
    simp only [Repoc.finish, htraps, if_true]
    constructor
    · rw [hrepos, hswapped]
      rcases h.repos with ⟨hr, hs⟩ | ⟨hr, hb, ho, hs⟩ | ⟨hne, hr, hs⟩
      · exact Or.inl ⟨by simp [hr], hs⟩
      · exact Or.inl ⟨by simp [hr, hb, ho], hs⟩
      · refine Or.inr ⟨hne, ?_, hs⟩
        obtain ⟨t, ht⟩ := Option.ne_none_iff_exists'.mp hne
        simp [hr, ht]
    · intro n hn
      rw [hnamed] at hn
      obtain ⟨hne, hwhere⟩ := h.named n hn
      cases n with
      | repos => exact absurd rfl hne
      | old =>
        rw [hold]
        split_ifs with hb
        · rfl
        · rcases hwhere with hnone | hb' | hs
          · exact hnone
          · exact absurd hb' hb
          · rcases h.staged with hs' | hs' <;> rw [hs'] at hs <;> simp at hs
      | new =>
        rw [hnew]
        split_ifs with hs
        · rfl
        · rcases hwhere with hnone | hb | hs'
          · exact hnone
          · rcases h.backup with hb' | hb' <;> rw [hb'] at hb <;> simp at hb
          · exact absurd hs' hs

/-! ## The points of the script -/

/-- The directories and variables at a point of the script. -/
structure Phase (repos old new : Option Tree) (staged backup : Option Node) (named : List Node)
    (swapped : Bool) (s : Sh) : Prop where
  traps : s.traps = true
  repos : s.dir .repos = repos
  old : s.dir .old = old
  new : s.dir .new = new
  staged : s.staged = staged
  backup : s.backup = backup
  named : s.named = named
  swapped : s.swapped = swapped

/-- What holds where the script is left: a failure, and a state the trap recovers from. -/
def Left (o : Tree) (target : Option Tree) (n : ℕ) (s : Sh) : Prop :=
  n ≠ 0 ∧ Recoverable o target s

variable {n : ℕ} {Q : Bool → Sh → Prop} {t : Tree}

section Phases

variable {repos old new target : Option Tree} {staged backup : Option Node} {named : List Node}
  {swapped b : Bool} {s : Sh} {o : Tree}

lemma Phase.put_repos (h : Phase repos old new staged backup named swapped s) (t : Option Tree) :
    Phase t old new staged backup named swapped (s.put .repos t) :=
  { h with repos := by simp, old := by simp [h.old], new := by simp [h.new] }

lemma Phase.put_old (h : Phase repos old new staged backup named swapped s) (t : Option Tree) :
    Phase repos t new staged backup named swapped (s.put .old t) :=
  { h with repos := by simp [h.repos], old := by simp, new := by simp [h.new] }

lemma Phase.put_new (h : Phase repos old new staged backup named swapped s) (t : Option Tree) :
    Phase repos old t staged backup named swapped (s.put .new t) :=
  { h with repos := by simp [h.repos], old := by simp [h.old], new := by simp }

/-- A phase is recoverable if the old tree can be found and every name is still held. -/
lemma Phase.recoverable (h : Phase repos old new staged backup named swapped s)
    (hrepos : (repos = some o ∧ swapped = false) ∨
      (repos = none ∧ backup = some .old ∧ old = some o ∧ swapped = false) ∨
      (target ≠ none ∧ repos = target ∧ swapped = true))
    (hbackup : backup = none ∨ backup = some .old) (hstaged : staged = none ∨ staged = some .new)
    (hnamed : ∀ n ∈ named, (n = .old ∧ (old = none ∨ backup = some .old)) ∨
      (n = .new ∧ (new = none ∨ staged = some .new))) : Recoverable o target s := by
  obtain ⟨htraps, rfl, rfl, rfl, rfl, rfl, rfl, rfl⟩ := h
  refine ⟨hrepos, hbackup, hstaged, ?_, by simp [htraps]⟩
  intro n hn
  rcases hnamed n hn with ⟨rfl, hold | hb⟩ | ⟨rfl, hnew | hs⟩
  · exact ⟨by simp, Or.inl hold⟩
  · exact ⟨by simp, Or.inr (Or.inl hb)⟩
  · exact ⟨by simp, Or.inl hnew⟩
  · exact ⟨by simp, Or.inr (Or.inr hs)⟩

lemma Phase.left_of_old (h : Phase (some o) old new staged backup named false s)
    (hbackup : backup = none ∨ backup = some .old) (hstaged : staged = none ∨ staged = some .new)
    (hnamed : ∀ n ∈ named, (n = .old ∧ (old = none ∨ backup = some .old)) ∨ (n = .new ∧ (new = none ∨ staged = some .new)))
    (hn : n ≠ 0) : Left o target n s :=
  ⟨hn, h.recoverable (Or.inl ⟨rfl, rfl⟩) hbackup hstaged hnamed⟩

/-! ### The swap -/

/-- `rmdir` finds the directory of `mktemp` empty. -/
lemma Phase.rmdir_backup
    (h : Phase repos (some .empty) new staged (some .old) named swapped s) :
    rmdirBackup.status s = 0 ∧
      Phase repos none new staged (some .old) named swapped (rmdirBackup.run s) := by
  have hrm : rmdirBackup.run s = s.put .old none := by
    simp [rmdirBackup, Sh.rm, h.backup, h.old]
  rw [hrm]
  exact ⟨by simp [rmdirBackup, h.backup, h.old], h.put_old none⟩

/-- `mv "${REPOS_DIR}" "${BACKUP_REPOS}"`. -/
lemma Phase.rename_repos (h : Phase (some o) none new staged (some .old) named swapped s) :
    (rename reposDir Sh.backup).status s = 0 ∧
      Phase none (some o) new staged (some .old) named swapped
        ((rename reposDir Sh.backup).run s) := by
  constructor
  · simp [rename, Sh.present, reposDir, h.repos, h.backup]
  · simp only [rename, Sh.mv?, reposDir, h.backup, Sh.mv, h.repos, h.old]
    exact (h.put_old _).put_repos _

/-- `mv "${BACKUP_REPOS}" "${REPOS_DIR}"`. -/
lemma Phase.rename_backup (h : Phase none (some o) new staged (some .old) named swapped s) :
    (rename Sh.backup reposDir).status s = 0 ∧
      Phase (some o) none new staged (some .old) named swapped
        ((rename Sh.backup reposDir).run s) := by
  constructor
  · simp [rename, Sh.present, reposDir, h.old, h.backup]
  · simp only [rename, Sh.mv?, reposDir, h.backup, Sh.mv, h.repos, h.old]
    exact (h.put_repos _).put_old _

/-- The directory in use is set aside, or the script is left with it in place. -/
lemma wp_setAside (h : Phase (some o) none new (some .new) none [.new] false s)
    (hQ : ∀ b t, Phase none (some o) new (some .new) (some .old) [.old, .new] false t → Q b t) :
    wp setAside Q (Left o target) b s := by
  have h₁ := h.put_old (some .empty)
  have h₂ : Phase (some o) (some .empty) new (some .new) (some .old) [.old, .new] false
      (assignBackup.run (s.put .old (some .empty))) :=
    { h₁ with backup := rfl, named := by simp [assignBackup, act, h₁.named] }
  obtain ⟨hrm, h₃⟩ := h₂.rmdir_backup
  refine wp_test (fun _ => h.left_of_old (by simp) (by simp) (by simp) one_ne_zero) ?_ ?_
  · intro _
    refine wp_seq (wp_act (fun _ => h.left_of_old (by simp) (by simp) (by simp) one_ne_zero) ?_)
    refine wp_seq (wp_act (fun _ => h₁.left_of_old (by simp) (by simp) (by simp) one_ne_zero) ?_)
    refine wp_seq (wp_cmd hrm (fun _ n hn => h₂.left_of_old (by simp) (by simp) (by simp) hn) ?_)
    exact wp_cmd h₃.rename_repos.1
      (fun _ n hn => h₃.left_of_old (by simp) (by simp) (by simp) hn) (hQ _ _ h₃.rename_repos.2)
  · intro hnone
    simp [h.repos] at hnone

/-- The staged directory is put in place.  If that fails, so does the script, and the backup is in
place again. -/
lemma wp_putInPlace (h : Phase none (some o) (some t) (some .new) (some .old) [.old, .new] false s)
    (hQ : ∀ b u, Phase (some t) (some o) none none (some .old) [.old, .new] true u → Q b u) :
    wp putInPlace Q (Left o (some t)) b s := by
  have hleft : ∀ n ≠ 0, Left o (some t) n s := fun n hn =>
    ⟨hn, h.recoverable (Or.inr (Or.inl ⟨rfl, rfl, rfl, rfl⟩)) (by simp) (by simp) (by simp)⟩
  refine wp_cond ?_ (fun _ => hleft 1 one_ne_zero) ?_ ?_
  · simp [install, Sh.present, h.staged, h.new]
  · -- the new directory is in use, and the variable follows
    have h₁ : Phase (some t) (some o) none (some .new) (some .old) [.old, .new] true
        (install.run s) := by
      simp only [install, Sh.mv?, Sh.mv, Sh.present, h.staged, h.new, h.repos]
      exact { (h.put_repos (some t)).put_new none with swapped := by simp [h.new] }
    refine wp_act (fun _ => ⟨one_ne_zero, h₁.recoverable (by simp) (by simp) (by simp) (by simp)⟩)
      (hQ _ _ { h₁ with staged := rfl })
  · -- nothing else fails any more
    intro _ n hn
    obtain ⟨hok, h₁⟩ := h.rename_backup
    have h₂ : Phase (some o) none (some t) (some .new) none [.old, .new] false
        (clearBackup.run ((rename Sh.backup reposDir).run s)) := { h₁ with backup := rfl }
    refine wp_seq (wp_test (by simp) ?_ ?_)
    · intro _
      refine wp_cond hok (by simp) (wp_act (by simp) ?_) (by simp)
      exact ⟨by simp, h₂.left_of_old (by simp) (by simp) (by simp) hn⟩
    · intro hnone
      simp [Sh.present, h.backup, h.old] at hnone

lemma wp_dropBackup (h : Phase (some t) (some o) none none (some .old) [.old, .new] true s)
    (hQ : ∀ b u, Phase (some t) none none none none [.old, .new] true u → Q b u) :
    wp dropBackup Q (Left o (some t)) b s := by
  have hleft : ∀ {old s}, Phase (some t) old none none (some .old) [.old, .new] true s →
      Left o (some t) 1 s := fun h =>
    ⟨one_ne_zero, h.recoverable (by simp) (by simp) (by simp) (by simp)⟩
  have hrm : s.rm s.backup = s.put .old none := by rw [h.backup]; rfl
  have h₁ := h.put_old none
  refine wp_test (fun _ => hleft h) ?_ ?_
  · intro _
    refine wp_seq (wp_act (fun _ => hleft h) ?_)
    rw [hrm]
    exact wp_act (fun _ => hleft h₁) (hQ _ _ { h₁ with backup := rfl })
  · intro hnone
    simp [Sh.present, h.backup, h.old] at hnone

/-- **The swap.** -/
theorem wp_swap (h : Phase (some o) none (some t) (some .new) none [.new] false s) :
    wp swap (fun _ u => Phase (some t) none none none none [.old, .new] true u)
      (Left o (some t)) b s := by
  refine wp_seq (wp_setAside h fun b u hu => ?_)
  refine wp_seq (wp_putInPlace hu fun b v hv => ?_)
  exact wp_dropBackup hv fun b w hw => hw

/-! ### The staging directory -/

/-- While the staging directory is filled. -/
structure Filling (o : Tree) (g : Staging) (s : Sh) : Prop where
  phase : Phase (some o) none (some g.tree) (some .new) none [.new] false s
  count : s.count = g.count
  defaultName : s.defaultName = g.defaultName

lemma Filling.left (h : Filling o g s) (hn : n ≠ 0) : Left o target n s :=
  h.phase.left_of_old (by simp) (by simp) (by simp) hn

lemma wp_redirect (h : Filling o g s) (w : Write) :
    wp (.cmd (redirect w)) (fun _ t => Filling o { g with tree := w.apply g.tree } t)
      (Left o target) b s := by
  have hrun : (redirect w).run s = s.put .new (some (w.apply g.tree)) := by
    simp [redirect, h.phase.staged, h.phase.new]
  refine wp_cmd ?_ (fun _ n hn => h.left hn) ?_
  · simp [redirect, Sh.present, h.phase.staged, h.phase.new]
  · rw [hrun]
    exact ⟨h.phase.put_new _, h.count, h.defaultName⟩

lemma wp_writes (g : Staging) : ∀ (l : List Write) (t : Tree) (b : Bool) (s : Sh),
    Filling o { g with tree := t } s →
      wp (.forEach (fun w => .cmd (redirect w)) l)
        (fun _ u => Filling o { g with tree := l.foldl (fun t w => w.apply t) t } u)
        (Left o target) b s
  | [], _, _, _, h => ⟨fun _ => h.left one_ne_zero, h⟩
  | w :: l, _, _, _, h => (wp_redirect h w).mono fun b u hu => wp_writes g l _ b u hu

lemma wp_stageRow (product : Text) (row : Row) (h : Filling o g s) :
    wp (stageRow product row) (fun _ t => Filling o (g.row product row) t) (Left o target) b s := by
  refine wp_test (fun _ => h.left one_ne_zero) ?_ ?_
  · intro hname
    have hrow : g.row product row = ⟨(rowWrites product row).foldl (fun t w => w.apply t) g.tree,
        g.count + 1, if row.default = yes then row.name else g.defaultName⟩ :=
      if_neg (by simpa using hname)
    rw [hrow]
    refine wp_seq ((wp_writes g _ g.tree b s h).mono fun b u hu => ?_)
    refine wp_seq (wp_test (fun _ => hu.left one_ne_zero) ?_ ?_)
    · intro hdefault
      refine wp_act (fun _ => hu.left one_ne_zero) ?_
      have hv : Filling o ⟨(rowWrites product row).foldl (fun t w => w.apply t) g.tree, g.count,
          row.name⟩ { u with defaultName := row.name } := ⟨{ hu.phase with }, hu.count, rfl⟩
      refine wp_act (fun _ => hv.left one_ne_zero) ⟨{ hv.phase with }, ?_, ?_⟩
      · simp [hu.count]
      · rw [if_pos (by simpa using hdefault)]
    · intro hdefault
      refine ⟨fun _ => hu.left one_ne_zero, wp_act (fun _ => hu.left one_ne_zero) ?_⟩
      refine ⟨{ hu.phase with }, by simp [hu.count], ?_⟩
      rw [if_neg (by simpa using hdefault)]
      exact hu.defaultName
  · intro hname
    have hrow : g.row product row = g := if_pos (by simpa using hname)
    rw [hrow]
    exact ⟨fun _ => h.left one_ne_zero, h⟩

lemma wp_rows (product : Text) (rows : List Row) (h : Filling o g s) :
    wp (.forEach (stageRow product) rows)
      (fun _ t => Filling o (rows.foldl (Staging.row product) g) t) (Left o target) b s := by
  -- what is still to come leads from where the staging is to where it ends
  refine (wp_forEach (fun l _ t => ∃ g', Filling o g' t ∧
    l.foldl (Staging.row product) g' = rows.foldl (Staging.row product) g) ?_ ?_ rows b s
      ⟨g, h, rfl⟩).mono ?_
  · rintro _ t ⟨g', hg', -⟩ _
    exact hg'.left one_ne_zero
  · rintro row l _ t ⟨g', hg', hrest⟩
    exact (wp_stageRow product row hg').mono fun _ u hu => ⟨_, hu, hrest⟩
  · rintro _ t ⟨g', hg', hend⟩
    rw [← hend]
    exact hg'

lemma wp_stageMarker (product selected : Text) (h : Filling o g s) :
    wp (stageMarker product selected)
      (fun _ t => Phase (some o) none (some (g.marked product selected)) (some .new) none [.new]
        false t) (Left o target) b s := by
  have hdir : s.staged.bind s.dir = some g.tree := by rw [h.phase.staged]; exact h.phase.new
  refine wp_test (fun _ => h.left one_ne_zero) ?_ ?_
  · intro hsel
    have hmarked : g.marked product selected = (markerWrite product selected).apply g.tree :=
      if_pos (by simpa [hdir] using hsel)
    rw [hmarked]
    exact (wp_redirect h _).mono fun _ t ht => ht.phase
  · intro hsel
    have hnot : ¬(selected ≠ [] ∧
        g.tree.hasFile (base product selected ++ ".conf".toList) = true) := by
      simpa [hdir] using hsel
    rw [Staging.marked, if_neg hnot, ← h.defaultName]
    refine wp_test (fun _ => h.left one_ne_zero) ?_ ?_
    · intro hdefault
      rw [if_pos (by simpa using hdefault)]
      exact ⟨fun _ => h.left one_ne_zero, (wp_redirect h _).mono fun _ t ht => ht.phase⟩
    · intro hdefault
      rw [if_neg (by simpa using hdefault)]
      exact ⟨fun _ => h.left one_ne_zero, h.phase⟩

/-- **Staging** ends with the complete tree in the staging directory. -/
theorem wp_stage {rows : List Row} (product selected : Text)
    (h : Phase (some o) none none none none [] false s) (hrows : s.rows = rows)
    (hcount : s.count = 0) (hdefault : s.defaultName = []) :
    wp (stage product selected)
      (fun _ t => Phase (some o) none (some (complete product rows selected)) (some .new) none
        [.new] false t) (Left o target) b s := by
  have h₁ := h.put_new (some .empty)
  have h₂ : Filling o ⟨.empty, 0, []⟩ (assignStaged.run (s.put .new (some .empty))) :=
    ⟨{ h₁ with staged := rfl, named := by simp [assignStaged, act, h₁.named] }, hcount, hdefault⟩
  refine wp_seq (wp_seq (wp_act (fun _ => h.left_of_old (by simp) (by simp) (by simp)
    one_ne_zero) (wp_act (fun _ => h₁.left_of_old (by simp) (by simp) (by simp) one_ne_zero) ?_)))
  refine wp_seq ⟨fun _ => h₂.left one_ne_zero, ?_⟩
  subst hrows
  refine (wp_rows product s.rows h₂).mono fun b u hu => ?_
  refine wp_seq (wp_test (fun _ => hu.left one_ne_zero) ?_ ?_)
  · intro _
    exact ⟨fun _ => hu.left one_ne_zero, wp_stageMarker product selected hu⟩
  · intro _
    exact ⟨fun _ => hu.left one_ne_zero, hu.left one_ne_zero⟩

end Phases

/-! ## The whole run -/

section Runs

variable {p : Platform} {product : Text} {i : Input} {old : Tree} {cache : Option Bytes}

/-- The tree a run is going to install, if it gets that far. -/
def installs (p : Platform) (product : Text) (i : Input) (cache : Option Bytes) : Option Tree :=
  (repoc p cache i).2.map fun x => complete product x.2.document.rows i.selected

/-- Before the traps are set nothing has happened that would need them. -/
lemma left_start {target : Option Tree} (work : Bool) :
    Left old target 1 { Sh.start old cache with work := work } :=
  ⟨one_ne_zero, Or.inl ⟨by simp [Sh.start], rfl⟩, Or.inl rfl, Or.inl rfl, by simp [Sh.start],
    by simp [Sh.start]⟩

/-- **Every point of the script.**  A run that gets to its end has installed the new directory;
wherever else it is left, the trap recovers. -/
theorem wp_script :
    wp (script p product i)
      (fun _ u => installs p product i cache ≠ none ∧
        Phase (installs p product i cache) none none none none [.old, .new] true u)
      (Left old (installs p product i cache)) true (Sh.start old cache) := by
  have h : Phase (some old) none none none none [] false
      { Sh.start old cache with work := true, traps := true } :=
    ⟨rfl, by simp [Sh.start], by simp [Sh.start], by simp [Sh.start], rfl, rfl, rfl, rfl⟩
  have hleft : ∀ {s} {target : Option Tree}, Phase (some old) none none none none [] false s →
      Left old target 1 s := fun h => h.left_of_old (by simp) (by simp) (by simp) one_ne_zero
  refine wp_seq (wp_seq (wp_act (fun _ => left_start false) (wp_act (fun _ => left_start true) ?_)))
  refine wp_seq ⟨fun _ => hleft h, ?_⟩
  simp only [installs, Sh.start]
  rcases repoc p cache i with ⟨cache', _ | ⟨source, a⟩⟩
  · exact ⟨fun _ => hleft h, hleft h⟩
  · refine wp_seq (wp_act (fun _ => hleft h) ?_)
    have h₁ : ∀ c, Phase (some old) none none none none [] false
        { Sh.start old c with work := true, traps := true, rows := a.document.rows } :=
      fun c => { h with }
    refine wp_act (fun _ => hleft (h₁ cache)) ?_
    refine wp_seq ((wp_stage product i.selected (h₁ cache') rfl rfl rfl).mono fun b u hu => ?_)
    exact (wp_swap hu).mono fun _ v hv => ⟨by simp, hv⟩

lemma finish_status (status : ℕ) (s : Sh) : (finish status s).1 = status := by
  simp only [finish, cleanup, cleanupBackup, if_true]
  split_ifs <;> rfl

/-- Without a backup and a staging directory the trap changes nothing of the outside. -/
lemma finish_idle (hb : s.backup = none) (hs : s.staged = none) (status : ℕ) :
    (finish status s).2.dir = s.dir ∧ (finish status s).2.cache = s.cache ∧
      (finish status s).2.swapped = s.swapped := by
  cases htraps : s.traps with
  | false => simp [finish, htraps]
  | true => simp [finish, htraps, cleanup, cleanupBackup, Sh.present, hb, hs]

lemma wp_script_of_refused (repos : Option Tree) (h : (repoc p cache i).2 = none) :
    wp (script p product i) (fun _ _ => False)
      (fun n s => n ≠ 0 ∧ s.dir = (Sh.startAt repos cache).dir ∧ s.cache = cache ∧ s.backup = none ∧
        s.staged = none) true (Sh.startAt repos cache) := by
  refine wp_seq (wp_seq (wp_act ?_ (wp_act ?_ (wp_seq ⟨?_, ?_⟩))))
  · exact fun _ => ⟨one_ne_zero, rfl, rfl, rfl, rfl⟩
  · exact fun _ => ⟨one_ne_zero, rfl, rfl, rfl, rfl⟩
  · exact fun _ => ⟨one_ne_zero, rfl, rfl, rfl, rfl⟩
  · have hr : repoc p (Sh.startAt repos cache).cache i = ((repoc p cache i).1, none) :=
      Prod.ext rfl h
    simp only [hr]
    exact ⟨fun _ => ⟨one_ne_zero, rfl, rfl, rfl, rfl⟩, one_ne_zero, rfl, rfl, rfl, rfl⟩

/-- **Success means accepted.** -/
lemma accepted_of_success {repos : Option Tree} {t : Sh}
    (h : Exits p product i (.startAt repos cache) 0 t) : (repoc p cache i).2 ≠ none := by
  intro hnone
  obtain ⟨r, b, u, hexec, hfinish⟩ := h
  obtain ⟨hdone, hexit⟩ := hexec.sound (wp_script_of_refused repos hnone)
  cases r with
  | done => exact hdone rfl
  | exit n =>
    refine (hexit n rfl).1 ?_
    rw [← finish_status n u]
    exact congrArg Prod.fst hfinish

/-- **The swap is all or nothing.**  However a run goes in which at most one signal comes or one
rename fails: when the process has exited, the directory in use is the old one, or the staged one
with everything in it if and only if that was renamed; no directory that a variable of the script
has named is left; and a run that refuses its payload leaves the directory and the retained file as
they were. -/
theorem swap_all_or_nothing {status : ℕ} {t : Sh}
    (h : Exits p product i (Sh.start old cache) status t) :
    ((t.dir .repos = some old ∧ t.swapped = false) ∨
      ∃ source a, (repoc p cache i).2 = some (source, a) ∧ t.swapped = true ∧
        t.dir .repos = some (complete product a.document.rows i.selected)) ∧
    (∀ n ∈ t.named, t.dir n = none) ∧
    ((repoc p cache i).2 = none → t.dir .repos = some old ∧ t.cache = cache) := by
  obtain ⟨r, b, u, hexec, hfinish⟩ := h
  have ht : (finish (Result.code r) u).2 = t := by rw [hfinish]
  have hu : Recoverable old (installs p product i cache) u := by
    obtain ⟨hdone, hexit⟩ := hexec.sound wp_script
    cases r with
    | done =>
      obtain ⟨hne, hphase⟩ := hdone rfl
      exact hphase.recoverable (Or.inr (Or.inr ⟨hne, rfl, rfl⟩)) (by simp) (by simp) (by simp)
    | exit n => exact (hexit n rfl).2
  obtain ⟨hrepos, hgone⟩ := ht ▸ hu.finish (Result.code r)
  refine ⟨?_, hgone, fun hnone => ?_⟩
  · refine hrepos.imp id ?_
    rintro ⟨hne, hdir, hswapped⟩
    unfold installs at hne hdir
    cases hr : (repoc p cache i).2 with
    | none => simp [hr] at hne
    | some x => exact ⟨x.1, x.2, rfl, hswapped, by simpa [hr] using hdir⟩
  · obtain ⟨hdone, hexit⟩ := hexec.sound (wp_script_of_refused (some old) hnone)
    cases r with
    | done => exact (hdone rfl).elim
    | exit n =>
      obtain ⟨-, hdir, hcache, hb, hs⟩ := hexit n rfl
      obtain ⟨hdir', hcache', -⟩ := finish_idle hb hs n
      rw [← ht]
      exact ⟨by rw [Result.code, hdir', hdir]; simp [Sh.startAt], hcache'.trans hcache⟩

end Runs

/-- What is left of the undisturbed run of a script. -/
def exitOf (p : Platform) (product : Text) (i : Input) (s : Sh) : ℕ × Sh :=
  finish (Result.code ((script p product i).run s).1) ((script p product i).run s).2

lemma exits_exitOf (p : Platform) (product : Text) (i : Input) (s : Sh) :
    Exits p product i s (exitOf p product i s).1 (exitOf p product i s).2 :=
  ⟨_, _, _, Exec.of_run _ _ _, rfl⟩

/-- A signal between the two renames of the swap. -/
def interrupted (p : Platform) (product : Text) (i : Input) (s : Sh) : Sh :=
  (setAside.run ((stage product i.selected).run ((decision p i).run (prologue.run s).2).2).2).2

/-- The directory in use has been set aside when the signal comes, and is back at the end. -/
theorem swap_all_or_nothing_interrupted :
    let old := Tree.file "FreeSense-repo-beta.default".toList [] .empty
    let u := interrupted samplePlatform "FreeSense".toList (sampleInput "stable" 1 1)
      (Sh.start old none)
    u.dir .repos = none ∧ u.named = [.old, .new] ∧ (u.dir .new).isSome = true ∧
      (finish 1 u).2.dir .repos = some old ∧ ∀ n ∈ (finish 1 u).2.named, (finish 1 u).2.dir n = none := by
  intro old u
  have hu : u.dir .repos = none ∧ u.named = [.old, .new] ∧ (u.dir .new).isSome = true ∧
      (finish 1 u).2.swapped = false := by decide +kernel
  have hdone : ∀ {q : Script Sh} {s : Sh}, (q.run s).1 = .done →
      Exec q true s .done true (q.run s).2 := by
    intro q s h
    exact h ▸ Exec.of_run q true s
  have hexits : Exits samplePlatform "FreeSense".toList (sampleInput "stable" 1 1)
      (Sh.start old none) (finish 1 u).1 (finish 1 u).2 :=
    ⟨.exit 1, false, u, .seq (hdone (by decide +kernel)) (.seq (hdone (by decide +kernel))
      (.seq (hdone (by decide +kernel)) (.seq (hdone (by decide +kernel)) (.seqExit .signal)))), Prod.mk.eta.symm⟩
  obtain ⟨hrepos, hgone, -⟩ := swap_all_or_nothing hexits
  rcases hrepos with ⟨hrepos, -⟩ | ⟨_, _, _, hswapped, _⟩
  · exact ⟨hu.1, hu.2.1, hu.2.2.1, hrepos, hgone⟩
  · rw [hu.2.2.2] at hswapped
    exact absurd hswapped (by decide)

end FreeSense.Repoc
