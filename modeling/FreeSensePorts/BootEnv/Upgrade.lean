import FreeSensePorts.Core.Shell
import FreeSensePorts.BootEnv.Model

/-!
# An upgrade into a new boot environment

`be_pkg_upgrade` of `FreeSense-upgrade`, and `_exit`, which undoes it.  The booted environment `A` is
renamed, a clone takes the name `A`, and the packages are upgraded in the clone.  From the rename on
`_exit` destroys the clone and renames the other one back.

`World.ok` says which commands succeed, by the place they are called from, and `World.asks` what is
asked of the machine and of the configuration.  The commands that set properties are not checked, and
neither is `bectl activate -t`, so the upgrade is all or nothing unless one of three of those fails.
-/

namespace FreeSense.BootEnv

open List Shell

/-! ## The world -/

inductive Op
  | rename | create | mount
  | setUpgrading | setVersion | setVerify | setVerifytimeout
  | unsetVital | fetchDrm | fetchPppoe | pkgUpgrade | installDrm | installDrmAgain | upgradeDrm
  | upgradePppoe
  | unsetUpgrading | setVersionAgain | autoremove | clean | console | touch
  | setOrigin | setCreated | setHealth | setRollback | setDeadline | unsetAttempted
  | installBoot | copyLog | ramdisk | unmount | activate | setLastbootonce | copyLogAgain
  deriving DecidableEq, Repr

inductive Ask
  | manualVerification
  /-- `cur_php_pkg` has its vital flag. -/
  | vital
  | amd64
  | drmFile | drmInRepo | drm510 | drm515 | drmLoaded
  | pppoeFile | pppoeInRepo
  /-- A version of `if_pppoe-kmod` between the two dates is installed. -/
  | pppoeOld
  | deferReboot
  deriving DecidableEq, Repr

structure World where
  /-- `BE_PREV_SUFFIX`. -/
  suffix : Text
  /-- `be_retention_auto`. -/
  retention : ℕ
  /-- The calls of `bectl destroy` in `be_prune_automatic`. -/
  destroys : Text → Bool
  /-- `be_space_check`. -/
  space : Bool
  ok : Op → Bool
  asks : Ask → Bool
  version : Text
  versionAfter : Text
  created : Text
  /-- `be_manual_verification_timeout`. -/
  timeout : Text

structure Vars where
  bes : Bes
  /-- `BE_UPGRADE_FAILED`. -/
  failing : Bool

/-- A command on the environments. -/
def call (ok : Bool) (f : Bes → Option Bes) : Cmd Vars where
  run v := if ok then { v with bes := (f v.bes).getD v.bes } else v
  status v := if ok && (f v.bes).isSome then 0 else 1
  fallible := false

/-- A command that does not touch the environments. -/
def other (ok : Bool) : Cmd Vars where
  run v := v
  status _ := if ok then 0 else 1
  fallible := false

/-- `if b; then return 0; fi; c`. -/
def unlessCmd (b : Vars → Bool) (c : Cmd Vars) : Cmd Vars where
  run v := if b v then v else c.run v
  status v := if b v then 0 else c.status v
  fallible := false

/-- A failure is not looked at. -/
def unchecked (c : Cmd Vars) : Script Vars := .cond c .skip fun _ => .skip

/-- `if ! c; then _exit n; fi`, which is also what `_exec` does. -/
def checked (n : ℕ) (c : Cmd Vars) : Script Vars := .cond c .skip fun _ => .exit n

/-! ## `be_pkg_upgrade` -/

section Function

variable (W : World) (A : Text)

/-- `be_mount`. -/
def beMount : Cmd Vars := unlessCmd (fun v => isMounted A v.bes) (call (W.ok .mount) (mount A))

/-- `be_unmount -f`. -/
def beUnmount : Cmd Vars :=
  unlessCmd (fun v => !isMounted A v.bes) (call (W.ok .unmount) (unmount A))

/-- Calls of `be_set_prop` and `be_unset_prop` in a row. -/
def setProps (l : List (Op × Key × Text)) : Script Vars :=
  .forEach (fun x => unchecked (call (W.ok x.1) (setProp A x.2.1 x.2.2))) l

def earlyProps : List (Op × Key × Text) :=
  [(.setUpgrading, .upgrading, yes), (.setVersion, .version, W.version)] ++
    if W.asks .manualVerification then
      [(.setVerify, .verify, yes), (.setVerifytimeout, .verifytimeout, W.timeout)]
    else []

def lateProps : List (Op × Key × Text) :=
  [(.unsetUpgrading, .upgrading, dash), (.setVersionAgain, .version, W.versionAfter)]

def markProps : List (Op × Key × Text) :=
  [(.setOrigin, .origin, automatic), (.setCreated, .created, W.created),
    (.setHealth, .health, pending), (.setRollback, .rollback, A ++ W.suffix),
    (.setDeadline, .verifydeadline, W.timeout), (.unsetAttempted, .rollbackattempted, dash)]

def drmUpgrade : List Op :=
  if W.asks .drmInRepo then
    (if W.asks .drm510 then [.installDrm] else []) ++
      (if W.asks .drm515 then [.installDrmAgain] else []) ++
      if !W.asks .drm510 && !W.asks .drm515 && W.asks .drmLoaded then [.upgradeDrm] else []
  else []

/-- The commands of `pkg` that run under `_exec`. -/
def pkgCommands : List Op :=
  (if W.asks .vital then [.unsetVital] else []) ++
    (if W.asks .amd64 && W.asks .drmFile && W.asks .drmInRepo then [.fetchDrm] else []) ++
    (if W.asks .pppoeFile && W.asks .pppoeInRepo then [.fetchPppoe] else []) ++
    [.pkgUpgrade] ++
    (if W.asks .amd64 then drmUpgrade W else []) ++
    if W.asks .pppoeOld then [.upgradePppoe] else []

def packages : Script Vars :=
  .seq (setProps W A (earlyProps W))
    (.seq (.forEach (fun op => checked 1 (other (W.ok op))) (pkgCommands W))
      (.seq (setProps W A (lateProps W))
        (.forEach (fun op => unchecked (other (W.ok op))) [.autoremove, .clean])))

def markClone : Script Vars :=
  .seq (checked 1 (other (W.ok .console)))
    (.seq (unchecked (other (W.ok .touch)))
      (.seq (setProps W A (markProps W A))
        (.seq (checked 1 (other (W.ok .installBoot)))
          (.forEach (fun op => unchecked (other (W.ok op))) [.copyLog, .ramdisk]))))

def switchOver : Script Vars :=
  .seq (unchecked (beUnmount W A))
    (.seq (.cond (test fun v => isMounted A v.bes) (.exit 1) fun _ => .skip)
      (.seq (unchecked (call (W.ok .activate) (activateOnce A)))
        (.seq (.cmd (act fun v => { v with failing := false }))
          (.seq (unchecked (call (W.ok .setLastbootonce) (setProp (A ++ W.suffix) .lastbootonce A)))
            (.seq (unchecked (other (W.ok .copyLogAgain)))
              (.cond (test fun _ => W.asks .deferReboot) (.exit 0) fun _ => .exit 0))))))

/-- What is done once the clone is mounted. -/
def inClone : Script Vars := .seq (packages W A) (.seq (markClone W A) (switchOver W A))

def makeClone (rest : Script Vars) : Script Vars :=
  .seq (checked 1 (call (W.ok .create) (create A))) (.seq (checked 1 (beMount W A)) rest)

/-- From the check of the space on. -/
def script : Script Vars :=
  .seq (checked 3 (other W.space))
    (.seq (checked 1 (call (W.ok .rename) (rename A (A ++ W.suffix))))
      (.seq (.cmd (act fun v => { v with failing := true })) (makeClone W A (inClone W A))))

/-- The part of `_exit` behind the flag. -/
def recover (s : Bes) : Bes :=
  let s := if isMounted A s then (unmount A s).getD s else s
  let s := (destroy A s).getD s
  (BootEnv.rename (A ++ W.suffix) A s).getD s

/-- `_exit`, with the status. -/
def exitWith (n : ℕ) (v : Vars) : ℕ × Bes :=
  (n, if v.failing then recover W A v.bes else v.bes)

end Function

def prunedFor (W : World) (s : Bes) : Bes := pruneAutomatic W.destroys (W.retention - 1) s

/-- `be_pkg_upgrade`: the status with which the process exits, and the environments then. -/
def upgrade (W : World) (s : Bes) : ℕ × Bes :=
  match (script W s.activeName).run ⟨prunedFor W s, false⟩ with
  | (.exit n, v) => exitWith W s.activeName n v
  | (.done, v) => exitWith W s.activeName 0 v

/-! ## Running a script -/

section Run

variable {α : Type} (v : Vars)

theorem run_unchecked (c : Cmd Vars) : (unchecked c).run v = (.done, c.run v) := by
  rw [unchecked, Script.run]
  split_ifs <;> rfl

theorem run_checked (n : ℕ) (c : Cmd Vars) :
    (checked n c).run v = (if c.status v = 0 then .done else .exit n, c.run v) := by
  rw [checked, Script.run]
  split_ifs <;> rfl

theorem run_forEach_unchecked (c : α → Cmd Vars) (l : List α) :
    (Script.forEach (fun x => unchecked (c x)) l).run v =
      (.done, l.foldl (fun v x => (c x).run v) v) := by
  induction l generalizing v with
  | nil => rfl
  | cons x l ih => rw [Script.forEach, Script.run_seq_done (run_unchecked v (c x)), ih, foldl_cons]

/-- Checked commands in a row all succeed, or the script is left. -/
theorem run_forEach_checked (ok : α → Bool) (l : List α) :
    (Script.forEach (fun x => checked 1 (other (ok x))) l).run v =
      (if l.all ok then .done else .exit 1, v) := by
  induction l with
  | nil => rfl
  | cons x l ih =>
    rw [Script.forEach, all_cons]
    cases hx : ok x with
    | true =>
      rw [Script.run_seq_done (t := v) (run_checked v 1 (other true)), ih, Bool.true_and]
    | false => rfl

end Run

/-! ## The clone -/

section Clone

variable {W : World} {s : Bes} {A P : Text} {c : Env}

/-- The environments while the clone `c` is there. -/
def withClone (A P : Text) (s : Bes) (c : Env) : Bes :=
  { s with envs := c :: (s.update A fun e => { e with name := P }).envs }

/-- The name `A` is in use and `P` is not. -/
structure Names (A P : Text) (s : Bes) : Prop where
  wf : Wf s
  mem : A ∈ s.names
  notMem : P ∉ s.names

theorem Names.ne (h : Names A P s) : P ≠ A := fun hPA => h.notMem (hPA ▸ h.mem)

theorem Names.renamed_ne (h : Names A P s) {e : Env}
    (he : e ∈ (s.update A fun e => { e with name := P }).envs) : e.name ≠ A := by
  obtain ⟨e₀, -, rfl⟩ := mem_map.1 he
  split_ifs with hA
  · exact h.ne
  · exact hA

/-- What is done to the environment `A` is done to the clone. -/
theorem update_withClone (h : Names A P s) (hc : c.name = A) (f : Env → Env) :
    (withClone A P s c).update A f = withClone A P s (f c) := by
  have hrest : (s.update A fun e => { e with name := P }).envs.map
      (fun e => if e.name = A then f e else e) = (s.update A fun e => { e with name := P }).envs :=
    (map_congr_left fun e he => if_neg (h.renamed_ne he)).trans (map_id _)
  rw [Bes.update, withClone, withClone]
  rw [map_cons, if_pos hc, hrest]

theorem mem_names_withClone (hc : c.name = A) : A ∈ (withClone A P s c).names :=
  mem_map.2 ⟨c, mem_cons_self, hc⟩

theorem find?_withClone (hc : c.name = A) : (withClone A P s c).find? A = some c := by
  rw [Bes.find?, withClone, find?_cons_of_pos (by simpa using hc)]

theorem setProp_withClone (h : Names A P s) (hc : c.name = A) (key : Key) (value : Text) :
    setProp A key value (withClone A P s c) =
      some (withClone A P s { c with props := Function.update c.props key value }) := by
  rw [setProp, if_pos (mem_names_withClone hc), update_withClone h hc]

theorem isMounted_withClone (hc : c.name = A) : isMounted A (withClone A P s c) = c.mounted := by
  rw [isMounted, find?_withClone hc]
  rfl

theorem mount_withClone (h : Names A P s) (hc : c.name = A) :
    mount A (withClone A P s c) = some (withClone A P s { c with mounted := true }) := by
  rw [mount, if_pos (mem_names_withClone hc), update_withClone h hc]

theorem unmount_withClone (h : Names A P s) (hc : c.name = A) :
    unmount A (withClone A P s c) = some (withClone A P s { c with mounted := false }) := by
  rw [unmount, if_pos (mem_names_withClone hc), update_withClone h hc]

theorem rename_eq (h : Names A P s) :
    rename A P s = some (s.update A fun e => { e with name := P }) :=
  if_pos ⟨h.mem, h.notMem⟩

/-- The clone as `bectl create` makes it. -/
def newClone (A : Text) (s : Bes) : Env := ⟨freshId s.envs, A, fun _ => dash, false⟩

theorem notMem_renamed (h : Names A P s) : A ∉ (s.update A fun e => { e with name := P }).names := by
  rintro hmem
  obtain ⟨e, he, hname⟩ := mem_names.1 hmem
  exact h.renamed_ne he hname

theorem freshId_renamed (A P : Text) (s : Bes) :
    freshId (s.update A fun e => { e with name := P }).envs = freshId s.envs := by
  rw [freshId, freshId, ids_update (f := fun e => { e with name := P }) fun _ => rfl]

theorem create_eq (h : Names A P s) :
    create A (s.update A fun e => { e with name := P }) = some (withClone A P s (newClone A s)) := by
  rw [create, if_pos (notMem_renamed h), freshId_renamed]
  rfl

/-- Renaming to a free name and back. -/
theorem update_back (h : Names A P s) :
    ((s.update A fun e => { e with name := P }).update P fun e => { e with name := A }) = s := by
  have hback : (s.envs.map fun e => if e.name = A then { e with name := P } else e).map
      (fun e => if e.name = P then { e with name := A } else e) = s.envs := by
    rw [map_map]
    refine (map_congr_left fun e he => ?_).trans (map_id _)
    show (if (if e.name = A then { e with name := P } else e).name = P then
      { (if e.name = A then { e with name := P } else e) with name := A }
        else if e.name = A then { e with name := P } else e) = e
    by_cases hA : e.name = A
    · rw [if_pos hA, if_pos rfl, ← hA]
    · rw [if_neg hA, if_neg fun hP => h.notMem (mem_names.2 ⟨e, he, hP⟩)]
  rw [Bes.update, Bes.update]
  rw [hback]

theorem rename_back (h : Names A P s) :
    rename P A (s.update A fun e => { e with name := P }) = some s := by
  have hP : P ∈ (s.update A fun e => { e with name := P }).names := by
    obtain ⟨e, he, hname⟩ := mem_names.1 h.mem
    exact mem_names.2 ⟨_, mem_map.2 ⟨e, he, rfl⟩, by rw [if_pos hname]⟩
  rw [rename, if_pos ⟨hP, notMem_renamed h⟩, update_back h]

theorem destroy_withClone (h : Names A P s) (hc : c.name = A) (hid : c.id ≠ s.now) :
    destroy A (withClone A P s c) = some (s.update A fun e => { e with name := P }) := by
  have hrest : ((s.update A fun e => { e with name := P }).envs.filter fun e => e.name ≠ A) =
      (s.update A fun e => { e with name := P }).envs :=
    filter_eq_self.2 fun e he => by simpa using h.renamed_ne he
  rw [destroy, find?_withClone hc]
  show (if c.id = s.now then none else some _) = _
  rw [if_neg hid]
  show some (Bes.mk ((c :: _).filter _) _ _ _) = _
  rw [filter_cons_of_neg (by simp [hc]), hrest]
  rfl

/-- **`_exit` undoes a clone**, whatever has been done to it. -/
theorem recover_withClone (h : Names A (A ++ W.suffix) s) (hc : c.name = A) (hid : c.id ≠ s.now) :
    recover W A (withClone A (A ++ W.suffix) s c) = s := by
  rw [recover, isMounted_withClone hc]
  have hunmounted : (if c.mounted = true then
      (unmount A (withClone A (A ++ W.suffix) s c)).getD (withClone A (A ++ W.suffix) s c)
        else withClone A (A ++ W.suffix) s c) =
      withClone A (A ++ W.suffix) s { c with mounted := false } := by
    cases hm : c.mounted with
    | true => rw [if_pos rfl, unmount_withClone h hc, Option.getD_some]
    | false => rw [if_neg Bool.false_ne_true, ← hm]
  have hdestroyed : destroy A (withClone A (A ++ W.suffix) s { c with mounted := false }) =
      some (s.update A fun e => { e with name := A ++ W.suffix }) := destroy_withClone h hc hid
  simp only [hunmounted, hdestroyed, Option.getD_some, rename_back h]

/-- And a rename alone. -/
theorem recover_renamed (h : Names A (A ++ W.suffix) s) :
    recover W A (s.update A fun e => { e with name := A ++ W.suffix }) = s := by
  have hfind : (s.update A fun e => { e with name := A ++ W.suffix }).find? A = none :=
    find?_eq_none.2 fun e he => by simpa using h.renamed_ne he
  have hmount : isMounted A (s.update A fun e => { e with name := A ++ W.suffix }) = false := by
    rw [isMounted, hfind]
    rfl
  simp only [recover, hmount, Bool.false_eq_true, if_false, destroy, hfind, Option.getD_none]
  rw [rename_back h, Option.getD_some]

/-! ## The parts of the function -/

def cloned (W : World) (A : Text) (s : Bes) (c : Env) : Vars :=
  ⟨withClone A (A ++ W.suffix) s c, true⟩

def putProp (W : World) (p : Key → Text) (x : Op × Key × Text) : Key → Text :=
  if W.ok x.1 then Function.update p x.2.1 x.2.2 else p

theorem putProp_apply (p : Key → Text) (x : Op × Key × Text) (key : Key) :
    putProp W p x key = if key = x.2.1 then (if W.ok x.1 then x.2.2 else p key) else p key := by
  rw [putProp]
  split_ifs with hok hkey hkey
  · rw [hkey, Function.update_self]
  · rw [Function.update_of_ne hkey]
  · rfl
  · rfl

def Env.putProps (W : World) (l : List (Op × Key × Text)) (c : Env) : Env :=
  { c with props := l.foldl (putProp W) c.props }

theorem run_call_setProp (h : Names A (A ++ W.suffix) s) (hc : c.name = A) (x : Op × Key × Text) :
    (call (W.ok x.1) (setProp A x.2.1 x.2.2)).run (cloned W A s c) =
      cloned W A s { c with props := putProp W c.props x } := by
  rw [putProp, cloned]
  cases hx : W.ok x.1 with
  | true =>
    show Vars.mk ((setProp A x.2.1 x.2.2 _).getD _) true = _
    rw [setProp_withClone h hc]
    rfl
  | false => rfl

theorem run_setProps (h : Names A (A ++ W.suffix) s) (l : List (Op × Key × Text)) (hc : c.name = A) :
    (setProps W A l).run (cloned W A s c) =
      (.done, cloned W A s (c.putProps W l)) := by
  rw [setProps, run_forEach_unchecked]
  induction l generalizing c with
  | nil => rfl
  | cons x l ih =>
    rw [foldl_cons, run_call_setProp h hc x]
    exact ih hc

theorem foldl_other (ok : Op → Bool) (l : List Op) (v : Vars) :
    l.foldl (fun v op => (other (ok op)).run v) v = v := by
  induction l with
  | nil => rfl
  | cons op l ih => exact ih

/-- A property that is not in the list keeps its value. -/
theorem putProps_of_notMem {key : Key} (l : List (Op × Key × Text)) (c : Env)
    (hkey : ∀ x ∈ l, x.2.1 ≠ key) : (c.putProps W l).props key = c.props key := by
  show l.foldl (putProp W) c.props key = c.props key
  generalize c.props = p
  induction l generalizing p with
  | nil => rfl
  | cons x l ih =>
    rw [foldl_cons, ih (fun y hy => hkey y (mem_cons_of_mem _ hy)), putProp_apply,
      if_neg (hkey x mem_cons_self).symm]

/-- The clone is still the same one. -/
structure Touched (c c' : Env) : Prop where
  name : c'.name = c.name
  id : c'.id = c.id
  mounted : c'.mounted = c.mounted

theorem run_packages (h : Names A (A ++ W.suffix) s) (hc : c.name = A) :
    ∃ c', Touched c c' ∧ c'.props .health = c.props .health ∧
      c'.props .rollback = c.props .rollback ∧
      (packages W A).run (cloned W A s c) =
        (if (pkgCommands W).all W.ok then .done else .exit 1, cloned W A s c') := by
  have hearly : ∀ key, key = .health ∨ key = .rollback → ∀ x ∈ earlyProps W, x.2.1 ≠ key := by
    rintro key hkey x hx
    simp only [earlyProps, mem_append, mem_cons, not_mem_nil, or_false] at hx
    rcases hx with (rfl | rfl) | hx
    · rcases hkey with rfl | rfl <;> exact nofun
    · rcases hkey with rfl | rfl <;> exact nofun
    · split_ifs at hx
      · simp only [mem_cons, not_mem_nil, or_false] at hx
        rcases hx with rfl | rfl <;> rcases hkey with rfl | rfl <;> exact nofun
      · cases hx
  have hlate : ∀ key, key = .health ∨ key = .rollback → ∀ x ∈ lateProps W, x.2.1 ≠ key := by
    rintro key hkey x hx
    simp only [lateProps, mem_cons, not_mem_nil, or_false] at hx
    rcases hx with rfl | rfl <;> rcases hkey with rfl | rfl <;> exact nofun
  rw [packages, Script.run_seq_done (run_setProps h _ hc)]
  cases hall : (pkgCommands W).all W.ok with
  | false =>
    refine ⟨c.putProps W (earlyProps W), ⟨rfl, rfl, rfl⟩,
      putProps_of_notMem _ _ (hearly _ (.inl rfl)), putProps_of_notMem _ _ (hearly _ (.inr rfl)),
      Script.run_seq_exit ?_⟩
    rw [run_forEach_checked, hall]
    rfl
  | true =>
    refine ⟨(c.putProps W (earlyProps W)).putProps W (lateProps W), ⟨rfl, rfl, rfl⟩,
      (putProps_of_notMem _ _ (hlate _ (.inl rfl))).trans
        (putProps_of_notMem _ _ (hearly _ (.inl rfl))),
      (putProps_of_notMem _ _ (hlate _ (.inr rfl))).trans
        (putProps_of_notMem _ _ (hearly _ (.inr rfl))), ?_⟩
    have hc' : (c.putProps W (earlyProps W)).name = A := hc
    rw [Script.run_seq_done ((run_forEach_checked _ _ _).trans (by rw [hall]; rfl)),
      Script.run_seq_done (run_setProps h _ hc'), run_forEach_unchecked]
    rfl

/-- The two properties, after they have been set with or without success. -/
structure Marked (W : World) (A : Text) (c c' : Env) : Prop where
  health : c'.props .health = if W.ok .setHealth then pending else c.props .health
  rollback : c'.props .rollback = if W.ok .setRollback then A ++ W.suffix else c.props .rollback

theorem marked_putProps (c : Env) : Marked W A c (c.putProps W (markProps W A)) := by
  constructor
  · show (markProps W A).foldl (putProp W) c.props .health = _
    simp only [markProps, foldl_cons, foldl_nil, putProp_apply, reduceCtorEq, if_false,
      if_true]
  · show (markProps W A).foldl (putProp W) c.props .rollback = _
    simp only [markProps, foldl_cons, foldl_nil, putProp_apply, reduceCtorEq, if_false,
      if_true]

theorem run_markClone (h : Names A (A ++ W.suffix) s) (hc : c.name = A) :
    ∃ c', Touched c c' ∧
      ((W.ok .console && W.ok .installBoot) = true → Marked W A c c') ∧
      (markClone W A).run (cloned W A s c) =
        (if W.ok .console && W.ok .installBoot then .done else .exit 1, cloned W A s c') := by
  cases hconsole : W.ok .console with
  | false =>
    refine ⟨c, ⟨rfl, rfl, rfl⟩, nofun, ?_⟩
    exact Script.run_seq_exit ((run_checked _ _ _).trans (by rw [hconsole]; rfl))
  | true =>
    refine ⟨c.putProps W (markProps W A), ⟨rfl, rfl, rfl⟩, fun _ => marked_putProps c, ?_⟩
    rw [markClone, Script.run_seq_done ((run_checked _ _ _).trans (by rw [hconsole]; rfl)),
      Script.run_seq_done (run_unchecked _ _)]
    show (Script.seq _ _).run (cloned W A s c) = _
    rw [Script.run_seq_done (run_setProps h _ hc)]
    cases hboot : W.ok .installBoot with
    | false => exact Script.run_seq_exit (run_checked _ _ _)
    | true =>
      rw [Script.run_seq_done (run_checked _ _ _), run_forEach_unchecked]
      rfl

def finished (W : World) (A : Text) (s : Bes) (c : Env) : Bes :=
  let t := { withClone A (A ++ W.suffix) s c with
    once := if W.ok .activate then some A else s.once }
  if W.ok .setLastbootonce then
    t.update (A ++ W.suffix) fun e => { e with props := Function.update e.props .lastbootonce A }
  else t

theorem mem_names_renamed (h : Names A P s) : P ∈ (withClone A P s c).names := by
  obtain ⟨e, he, hname⟩ := mem_names.1 h.mem
  refine mem_names.2 ⟨{ e with name := P }, mem_cons_of_mem _ (mem_map.2 ⟨e, he, ?_⟩), rfl⟩
  rw [if_pos hname]

/-- The last commands on the environments. -/
theorem run_activate (h : Names A (A ++ W.suffix) s) (hc : c.name = A) :
    (call (W.ok .setLastbootonce) (setProp (A ++ W.suffix) .lastbootonce A)).run
        { (call (W.ok .activate) (activateOnce A)).run
            (cloned W A s { c with mounted := false }) with failing := false } =
      ⟨finished W A s { c with mounted := false }, false⟩ := by
  have hactivate : (call (W.ok .activate) (activateOnce A)).run
      (cloned W A s { c with mounted := false }) =
      ⟨{ withClone A (A ++ W.suffix) s { c with mounted := false } with
        once := if W.ok .activate then some A else s.once }, true⟩ := by
    cases hok : W.ok .activate with
    | false => rfl
    | true =>
      have hmem : A ∈ (withClone A (A ++ W.suffix) s { c with mounted := false }).names :=
        mem_names_withClone (c := { c with mounted := false }) hc
      show Vars.mk ((activateOnce A _).getD _) true = _
      rw [activateOnce]
      simp only [cloned, hmem, if_true, Option.getD_some]
  rw [hactivate, finished]
  cases hok : W.ok .setLastbootonce with
  | false => rfl
  | true =>
    have hmem : A ++ W.suffix ∈ (withClone A (A ++ W.suffix) s { c with mounted := false }).names :=
      mem_names_renamed h
    show Vars.mk ((setProp (A ++ W.suffix) .lastbootonce A _).getD _) false = _
    exact congrArg (fun t => Vars.mk t false) (congrArg (Option.getD · _) (if_pos hmem))

theorem run_switchOver (h : Names A (A ++ W.suffix) s) (hc : c.name = A) (hm : c.mounted = true) :
    (switchOver W A).run (cloned W A s c) =
      if W.ok .unmount then (.exit 0, ⟨finished W A s { c with mounted := false }, false⟩)
      else (.exit 1, cloned W A s c) := by
  have hmounted : isMounted A (cloned W A s c).bes = true := (isMounted_withClone hc).trans hm
  have hunmount : (beUnmount W A).run (cloned W A s c) =
      cloned W A s { c with mounted := c.mounted && !W.ok .unmount } := by
    show (if (!isMounted A (cloned W A s c).bes) = true then _ else _) = _
    rw [hmounted]
    cases W.ok .unmount with
    | true =>
      show Vars.mk ((unmount A (withClone A (A ++ W.suffix) s c)).getD _) true = _
      rw [unmount_withClone h hc, Bool.not_true, Bool.and_false]
      rfl
    | false => rw [Bool.not_false, Bool.and_true]; rfl
  rw [switchOver, Script.run_seq_done (run_unchecked _ _), hunmount]
  cases hok : W.ok .unmount with
  | false =>
    refine (Script.run_seq_exit ?_).trans (if_neg Bool.false_ne_true).symm
    rw [Bool.not_false, Bool.and_true, Script.run_test, if_pos hmounted]
    rfl
  | true =>
    have hgone : isMounted A (cloned W A s { c with mounted := false }).bes = false :=
      isMounted_withClone (c := { c with mounted := false }) hc
    rw [Bool.not_true, Bool.and_false,
      Script.run_seq_done ((Script.run_test _ _ _ _).trans (if_neg (by rw [hgone]; decide))),
      Script.run_seq_done (run_unchecked _ _), Script.run_seq_done rfl,
      Script.run_seq_done (run_unchecked _ _), Script.run_seq_done (run_unchecked _ _),
      Script.run_test, ite_self]
    exact congrArg (Prod.mk (Result.exit 0)) (run_activate h hc)

theorem finished_once (c : Env) :
    (finished W A s c).once = if W.ok .activate then some A else s.once := by
  rw [finished]
  split_ifs <;> rfl

/-- The last property, which is set on the environment that was renamed. -/
def noted (W : World) (A : Text) (e : Env) : Env :=
  if e.name = A ++ W.suffix ∧ W.ok .setLastbootonce = true then
    { e with props := Function.update e.props .lastbootonce A }
  else e

@[simp] theorem noted_name (e : Env) : (noted W A e).name = e.name := by
  rw [noted]
  split_ifs <;> rfl

@[simp] theorem noted_id (e : Env) : (noted W A e).id = e.id := by
  rw [noted]
  split_ifs <;> rfl

theorem noted_props (e : Env) {key : Key} (hkey : key ≠ .lastbootonce) :
    (noted W A e).props key = e.props key := by
  rw [noted]
  split_ifs
  · exact Function.update_of_ne hkey _ _
  · rfl

theorem finished_envs (c : Env) :
    (finished W A s c).envs = (withClone A (A ++ W.suffix) s c).envs.map (noted W A) := by
  rw [finished]
  cases hok : W.ok .setLastbootonce with
  | false =>
    refine ((map_congr_left fun e _ => ?_).trans (map_id _)).symm
    exact if_neg fun h => Bool.false_ne_true (hok.symm.trans h.2)
  | true =>
    refine map_congr_left fun e _ => ?_
    rw [noted]
    simp only [hok, and_true]

/-- Only the clone has the old name. -/
theorem mem_finished (h : Names A (A ++ W.suffix) s) (hc : c.name = A) {e : Env} :
    e ∈ (finished W A s c).envs ∧ e.name = A ↔ e = c := by
  have hnoted : noted W A c = c := if_neg fun hP => h.ne (hP.1.symm.trans hc)
  rw [finished_envs]
  constructor
  · rintro ⟨he, hname⟩
    obtain ⟨e₀, he₀, rfl⟩ := mem_map.1 he
    rw [noted_name] at hname
    rcases mem_cons.1 he₀ with rfl | he₀
    · exact hnoted
    · exact absurd hname (h.renamed_ne he₀)
  · rintro rfl
    exact ⟨mem_map.2 ⟨e, mem_cons_self, hnoted⟩, hc⟩

/-- The environment that is booted has the other name. -/
theorem exists_previous (c : Env) (hA : ∃ e ∈ s.envs, e.name = A ∧ e.id = s.now) :
    ∃ e ∈ (finished W A s c).envs, e.name = A ++ W.suffix ∧ e.id = s.now := by
  obtain ⟨e, he, hname, hid⟩ := hA
  have hrenamed : { e with name := A ++ W.suffix } ∈ (withClone A (A ++ W.suffix) s c).envs :=
    mem_cons_of_mem _ (mem_map.2 ⟨e, he, if_pos hname⟩)
  rw [finished_envs]
  exact ⟨_, mem_map_of_mem hrenamed, noted_name _, (noted_id _).trans hid⟩

theorem mem_names_finished (h : Names A (A ++ W.suffix) s) (hc : c.name = A) {name : Text} :
    name ∈ (finished W A s c).names ↔ name = A ∨ name = A ++ W.suffix ∨ name ∈ s.names := by
  have hnames : (finished W A s c).names =
      A :: s.names.map fun name => if name = A then A ++ W.suffix else name := by
    rw [Bes.names, finished_envs, map_map, ← names_renamed, ← hc]
    exact map_congr_left fun e _ => noted_name e
  rw [hnames, mem_cons, mem_map]
  constructor
  · rintro (rfl | ⟨name, hmem, rfl⟩)
    · exact .inl rfl
    · split_ifs
      · exact .inr (.inl rfl)
      · exact .inr (.inr hmem)
  · rintro (rfl | rfl | hmem)
    · exact .inl rfl
    · exact .inr ⟨A, h.mem, if_pos rfl⟩
    · by_cases hA : name = A
      · exact .inl hA
      · exact .inr ⟨name, hmem, if_neg hA⟩

theorem wf_finished (h : Names A (A ++ W.suffix) s) (hname : c.name = A)
    (hid : c.id = freshId s.envs) : Wf (finished W A s c) := by
  have hfree : c.name ∉ (s.update A fun e => { e with name := A ++ W.suffix }).names := by
    rw [hname]
    exact notMem_renamed h
  have hclone : Wf (withClone A (A ++ W.suffix) s c) :=
    (h.wf.renamed h.notMem).cons hfree (hid.trans (freshId_renamed _ _ _).symm)
  refine hclone.map (noted W A) noted_id noted_name (finished_envs c) ?_
  rw [finished]
  split_ifs
  · exact hclone.active
  · exact hclone.active
  · exact hclone.active
  · exact hclone.active

/-! ## The function in closed form -/

/-- The commands that lead to `_exit` when they fail, as far as they are called. -/
def cloneCommands (W : World) : List Op := pkgCommands W ++ [.console, .installBoot, .unmount]

def checkedCommands (W : World) : List Op := [.rename, .create, .mount] ++ cloneCommands W

/-- A clone at the end of the function. -/
structure Done (W : World) (A : Text) (s : Bes) (c : Env) : Prop where
  name : c.name = A
  id : c.id = freshId s.envs
  health : c.props .health = if W.ok .setHealth then pending else dash
  rollback : c.props .rollback = if W.ok .setRollback then A ++ W.suffix else dash

theorem newClone_id_ne (hs : Wf s) : (newClone A s).id ≠ s.now := by
  obtain ⟨e, he, hid⟩ := hs.active
  have := id_lt_freshId he
  show freshId s.envs ≠ s.now
  omega

/-- Everything after the clone is mounted. -/
theorem run_clone (h : Names A (A ++ W.suffix) s) (hm : c.mounted = true) (hname : c.name = A)
    (hid : c.id = freshId s.envs) (hprops : c.props = fun _ => dash) :
    ((cloneCommands W).all W.ok = true →
      ∃ c', Done W A s c' ∧
        (inClone W A).run (cloned W A s c) =
          (.exit 0, ⟨finished W A s c', false⟩)) ∧
    ((cloneCommands W).all W.ok = false →
      ∃ c', c'.name = A ∧ c'.id = freshId s.envs ∧
        (inClone W A).run (cloned W A s c) =
          (.exit 1, cloned W A s c')) := by
  rw [cloneCommands, inClone]
  obtain ⟨c₁, ht₁, hh₁, hr₁, hrun₁⟩ := run_packages h hname
  obtain ⟨c₂, ht₂, hmark, hrun₂⟩ := run_markClone h (ht₁.name.trans hname)
  have hname₂ : c₂.name = A := ht₂.name.trans (ht₁.name.trans hname)
  have hid₂ : c₂.id = freshId s.envs := ht₂.id.trans (ht₁.id.trans hid)
  have hrun₃ := run_switchOver h hname₂ (ht₂.mounted.trans (ht₁.mounted.trans hm))
  cases hpkg : (pkgCommands W).all W.ok with
  | false =>
    rw [all_append, hpkg]
    refine ⟨nofun, fun _ => ⟨c₁, ht₁.name.trans hname, ht₁.id.trans hid, ?_⟩⟩
    exact Script.run_seq_exit (hrun₁.trans (by rw [hpkg]; rfl))
  | true =>
    rw [Script.run_seq_done (hrun₁.trans (by rw [hpkg, if_pos rfl])), all_append, hpkg,
      Bool.true_and]
    simp only [all_cons, all_nil, Bool.and_true]
    cases hboth : W.ok .console && W.ok .installBoot with
    | false =>
      rw [← Bool.and_assoc, hboth]
      refine ⟨nofun, fun _ => ⟨c₂, hname₂, hid₂, ?_⟩⟩
      exact Script.run_seq_exit (hrun₂.trans (by rw [hboth]; rfl))
    | true =>
      rw [Script.run_seq_done (hrun₂.trans (by rw [hboth, if_pos rfl])), ← Bool.and_assoc,
        hboth, Bool.true_and, hrun₃]
      obtain ⟨hhealth, hrollback⟩ := hmark hboth
      refine ⟨fun hu => ⟨{ c₂ with mounted := false }, ⟨hname₂, hid₂, ?_, ?_⟩, if_pos hu⟩,
        fun hu => ⟨c₂, hname₂, hid₂, if_neg (by simp [hu])⟩⟩
      · rw [hhealth, hh₁, hprops]
      · rw [hrollback, hr₁, hprops]

/-- The clone is made and mounted, or `_exit` undoes what there is of it. -/
theorem run_makeClone (h : Names A (A ++ W.suffix) s) (rest : Script Vars) :
    ((W.ok .create && W.ok .mount) = true →
      (makeClone W A rest).run ⟨s.update A fun e => { e with name := A ++ W.suffix }, true⟩ =
        rest.run (cloned W A s { newClone A s with mounted := true })) ∧
    ((W.ok .create && W.ok .mount) = false → ∃ v : Vars, v.failing = true ∧
      recover W A v.bes = s ∧
      (makeClone W A rest).run ⟨s.update A fun e => { e with name := A ++ W.suffix }, true⟩ =
        (.exit 1, v)) := by
  have hnew : (newClone A s).name = A := rfl
  rw [makeClone]
  cases hcreate : W.ok .create with
  | false =>
    refine ⟨nofun, fun _ => ⟨⟨s.update A fun e => { e with name := A ++ W.suffix }, true⟩, rfl,
      recover_renamed h, Script.run_seq_exit ?_⟩⟩
    exact run_checked _ _ _
  | true =>
    have hrun : (checked 1 (call true (create A))).run
        ⟨s.update A fun e => { e with name := A ++ W.suffix }, true⟩ =
        (.done, cloned W A s (newClone A s)) := by
      rw [run_checked, call]
      simp only [create_eq h, Option.isSome_some, Bool.and_self, if_true, Option.getD_some]
      rfl
    have hfresh : isMounted A (cloned W A s (newClone A s)).bes = false :=
      isMounted_withClone (c := newClone A s) hnew
    rw [Script.run_seq_done hrun]
    cases hmount : W.ok .mount with
    | false =>
      refine ⟨nofun, fun _ => ⟨cloned W A s (newClone A s), rfl,
        recover_withClone h hnew (newClone_id_ne h.wf), Script.run_seq_exit ?_⟩⟩
      rw [run_checked, beMount, unlessCmd]
      simp only [hfresh, hmount, call, Bool.false_and, Bool.false_eq_true, if_false]
      rfl
    | true =>
      have hok : mount A (cloned W A s (newClone A s)).bes =
          some (withClone A (A ++ W.suffix) s { newClone A s with mounted := true }) :=
        mount_withClone h hnew
      refine ⟨fun _ => Script.run_seq_done ?_, nofun⟩
      rw [run_checked, beMount, unlessCmd]
      simp only [hfresh, hmount, call, hok, Option.isSome_some, Bool.and_self, if_true,
        Bool.false_eq_true, if_false, Option.getD_some]
      rfl

/-- From the rename on. -/
theorem run_renamed (h : Names A (A ++ W.suffix) s) :
    ((W.ok .create && W.ok .mount && (cloneCommands W).all W.ok) = true → ∃ c, Done W A s c ∧
      (makeClone W A (inClone W A)).run
        ⟨s.update A fun e => { e with name := A ++ W.suffix }, true⟩ =
          (.exit 0, ⟨finished W A s c, false⟩)) ∧
    ((W.ok .create && W.ok .mount && (cloneCommands W).all W.ok) = false → ∃ v : Vars,
      v.failing = true ∧ recover W A v.bes = s ∧
      (makeClone W A (inClone W A)).run
        ⟨s.update A fun e => { e with name := A ++ W.suffix }, true⟩ = (.exit 1, v)) := by
  obtain ⟨hmade, hnot⟩ := run_makeClone h (inClone W A)
  cases hok : W.ok .create && W.ok .mount with
  | false => exact ⟨nofun, fun _ => hnot hok⟩
  | true =>
    rw [hmade hok]
    obtain ⟨hgood, hbad⟩ :=
      run_clone (c := { newClone A s with mounted := true }) h rfl rfl rfl rfl
    refine ⟨hgood, fun hfail => ?_⟩
    obtain ⟨c', hname, hid, hrun⟩ := hbad hfail
    have hne : c'.id ≠ s.now := hid ▸ newClone_id_ne (A := A) h.wf
    exact ⟨cloned W A s c', rfl, recover_withClone h hname hne, hrun⟩

end Clone

/-! ## All or nothing -/

section Upgrade

variable {W : World} {s : Bes}

/-- Nothing that is checked stands in the way of the upgrade. -/
structure Reaches (W : World) (s : Bes) : Prop where
  space : W.space = true
  free : s.activeName ++ W.suffix ∉ (prunedFor W s).names
  ok : ∀ op ∈ checkedCommands W, W.ok op = true

theorem names_of_free (hs : Wf s) (hfree : s.activeName ++ W.suffix ∉ (prunedFor W s).names) :
    Names s.activeName (s.activeName ++ W.suffix) (prunedFor W s) := by
  obtain ⟨hwf, hactive⟩ := hs.prune W.destroys (W.retention - 1)
  refine ⟨hwf, ?_, hfree⟩
  obtain ⟨e, he, hid⟩ := hwf.active
  exact mem_names.2 ⟨e, he, (activeName_eq hwf he hid).symm.trans hactive⟩

theorem all_cloneCommands (h : ∀ op ∈ checkedCommands W, W.ok op = true) :
    (W.ok .create && W.ok .mount && (cloneCommands W).all W.ok) = true := by
  rw [Bool.and_eq_true, Bool.and_eq_true, all_eq_true]
  exact ⟨⟨h _ (by simp [checkedCommands]), h _ (by simp [checkedCommands])⟩,
    fun op hop => h op (mem_append_right _ hop)⟩

/-- The part of the function behind the rename. -/
theorem run_script_of_rename (hspace : W.space = true) (hrename : W.ok .rename = true)
    (h : Names s.activeName (s.activeName ++ W.suffix) (prunedFor W s)) :
    (script W s.activeName).run ⟨prunedFor W s, false⟩ =
      (makeClone W s.activeName (inClone W s.activeName)).run
        ⟨(prunedFor W s).update s.activeName fun e => { e with name := s.activeName ++ W.suffix },
          true⟩ := by
  have hrun : (checked 1 (call (W.ok .rename) (rename s.activeName (s.activeName ++ W.suffix)))).run
      ⟨prunedFor W s, false⟩ = (.done, ⟨(prunedFor W s).update s.activeName fun e =>
        { e with name := s.activeName ++ W.suffix }, false⟩) := by
    rw [run_checked, call, hrename]
    simp only [rename_eq h, Option.isSome_some, Bool.and_self, if_true, Option.getD_some]
  rw [script, hspace]
  exact (Script.run_seq_done hrun).trans (Script.run_seq_done rfl)

theorem upgrade_of_reaches (hs : Wf s) (h : Reaches W s) : ∃ c,
    Done W s.activeName (prunedFor W s) c ∧
      upgrade W s = (0, finished W s.activeName (prunedFor W s) c) := by
  have hnames := names_of_free hs h.free
  obtain ⟨c, hc, hrun⟩ := (run_renamed hnames).1 (all_cloneCommands h.ok)
  have hscript := (run_script_of_rename h.space (h.ok _ (by simp [checkedCommands])) hnames).trans hrun
  refine ⟨c, hc, ?_⟩
  rw [upgrade, hscript]
  rfl

theorem run_rename_refused {A P : Text} {u : Bes} {failing : Bool}
    (h : ¬ (W.ok .rename = true ∧ P ∉ u.names)) :
    (checked 1 (call (W.ok .rename) (rename A P))).run ⟨u, failing⟩ =
      (.exit 1, ⟨u, failing⟩) := by
  rw [run_checked, call]
  cases hok : W.ok .rename with
  | false => rfl
  | true =>
    have hnone : rename A P u = none := if_neg fun hmem => h ⟨hok, hmem.2⟩
    simp [hnone]

/-- **A refused or failed upgrade is undone.** -/
theorem upgrade_of_not_reaches (hs : Wf s) (h : ¬ Reaches W s) :
    ∃ n, n ≠ 0 ∧ upgrade W s = (n, prunedFor W s) := by
  cases hspace : W.space with
  | false =>
    have hrun : (script W s.activeName).run ⟨prunedFor W s, false⟩ =
        (.exit 3, ⟨prunedFor W s, false⟩) := by
      rw [script, hspace]
      exact Script.run_seq_exit (run_checked _ 3 (other false))
    exact ⟨3, by decide, by rw [upgrade, hrun]; rfl⟩
  | true =>
    by_cases hrename : W.ok .rename = true ∧
        s.activeName ++ W.suffix ∉ (prunedFor W s).names
    · have hnames := names_of_free hs hrename.2
      have hfail : (W.ok .create && W.ok .mount && (cloneCommands W).all W.ok) = false := by
        by_contra hall
        simp only [Bool.not_eq_false, Bool.and_eq_true, all_eq_true] at hall
        refine h ⟨hspace, hrename.2, fun op hop => ?_⟩
        rcases mem_append.1 hop with hop | hop
        · simp only [mem_cons, not_mem_nil, or_false] at hop
          rcases hop with rfl | rfl | rfl
          · exact hrename.1
          · exact hall.1.1
          · exact hall.1.2
        · exact hall.2 op hop
      obtain ⟨v, hv, hrec, hrun⟩ := (run_renamed hnames).2 hfail
      have hscript := (run_script_of_rename hspace hrename.1 hnames).trans hrun
      refine ⟨1, one_ne_zero, ?_⟩
      rw [upgrade, hscript]
      exact congrArg (Prod.mk 1) (by rw [if_pos hv, hrec])
    · have hrun : (script W s.activeName).run ⟨prunedFor W s, false⟩ =
          (.exit 1, ⟨prunedFor W s, false⟩) := by
        rw [script, hspace, Script.run_seq_done (run_checked _ 3 (other true))]
        exact Script.run_seq_exit (run_rename_refused hrename)
      exact ⟨1, one_ne_zero, by rw [upgrade, hrun]; rfl⟩

/-- What a successful upgrade is for: the clone has the name of the booted environment, is marked, and
is the one that is booted next. -/
structure Upgraded (W : World) (s t : Bes) : Prop where
  clone : ∃ e ∈ t.envs, e.name = s.activeName ∧ (∀ e' ∈ (prunedFor W s).envs, e'.id ≠ e.id) ∧
    e.props .health = pending ∧ e.props .rollback = s.activeName ++ W.suffix
  previous : ∃ e ∈ t.envs, e.name = s.activeName ++ W.suffix ∧ e.id = s.now
  next : t.once = some s.activeName

def AllOrNothing (W : World) (s : Bes) : Prop :=
  ((upgrade W s).1 = 0 ∧ Upgraded W s (upgrade W s).2) ∨
    ((upgrade W s).1 ≠ 0 ∧ (upgrade W s).2 = prunedFor W s)

theorem prunedFor_now (hs : Wf s) : (prunedFor W s).now = s.now := by
  rw [prunedFor, pruneAutomatic_eq _ _ hs.names]

theorem prunedFor_once (hs : Wf s) : (prunedFor W s).once = s.once := by
  rw [prunedFor, pruneAutomatic_eq _ _ hs.names]

/-- The success is one where the three unchecked commands succeeded. -/
theorem upgraded_iff {c : Env} (hs : Wf s) (hA : s.activeName ≠ []) (h : Reaches W s)
    (hc : Done W s.activeName (prunedFor W s) c) :
    Upgraded W s (finished W s.activeName (prunedFor W s) c) ↔
      W.ok .setHealth = true ∧ W.ok .setRollback = true ∧
        (W.ok .activate = true ∨ s.once = some s.activeName) := by
  have hnames := names_of_free hs h.free
  have hdash : s.activeName ++ W.suffix ≠ dash := by
    intro hdash
    cases hsuffix : W.suffix with
    | nil => exact hnames.ne (by rw [hsuffix, append_nil])
    | cons x l =>
      have hlen := congrArg List.length hdash
      rw [hsuffix, length_append] at hlen
      have hone : dash.length = 1 := rfl
      have hpos : 0 < s.activeName.length := length_pos_iff.2 hA
      simp only [length_cons] at hlen
      omega
  constructor
  · rintro ⟨⟨e, he, hname, -, hhealth, hrollback⟩, -, hnext⟩
    obtain rfl := (mem_finished hnames hc.name).1 ⟨he, hname⟩
    rw [hc.health] at hhealth
    rw [hc.rollback] at hrollback
    rw [finished_once, prunedFor_once hs] at hnext
    refine ⟨?_, ?_, ?_⟩
    · by_contra hno
      rw [if_neg hno] at hhealth
      exact absurd hhealth (by decide)
    · by_contra hno
      rw [if_neg hno] at hrollback
      exact hdash hrollback.symm
    · by_cases hok : W.ok .activate = true
      · exact .inl hok
      · exact .inr (by rwa [if_neg hok] at hnext)
  · rintro ⟨hhealth, hrollback, hnext⟩
    obtain ⟨hmem, hname⟩ := (mem_finished hnames hc.name).2 rfl
    refine ⟨⟨c, hmem, hname, fun e' he' => ?_, ?_, ?_⟩, ?_, ?_⟩
    · exact hc.id ▸ (id_lt_freshId he').ne
    · rw [hc.health, if_pos hhealth]
    · rw [hc.rollback, if_pos hrollback]
    · obtain ⟨e, he, hid⟩ := hnames.wf.active
      have hactive : e.name = s.activeName :=
        (activeName_eq hnames.wf he hid).symm.trans (hs.prune _ _).2
      obtain ⟨e', he', hP, hid'⟩ := exists_previous (W := W) c ⟨e, he, hactive, hid⟩
      exact ⟨e', he', hP, hid'.trans (prunedFor_now hs)⟩
    · rw [finished_once, prunedFor_once hs]
      by_cases hok : W.ok .activate = true
      · rw [if_pos hok]
      · rw [if_neg hok]
        exact hnext.resolve_left hok

/-- **All or nothing**, whatever commands fail, as long as the three unchecked ones do not fail in an
upgrade that nothing else stops. -/
theorem allOrNothing_iff (W : World) (s : Bes) (hs : Wf s) (hA : s.activeName ≠ []) :
    AllOrNothing W s ↔ (Reaches W s →
      W.ok .setHealth = true ∧ W.ok .setRollback = true ∧
        (W.ok .activate = true ∨ s.once = some s.activeName)) := by
  by_cases h : Reaches W s
  · obtain ⟨c, hc, hrun⟩ := upgrade_of_reaches hs h
    rw [AllOrNothing, hrun, upgraded_iff hs hA h hc]
    simp [h]
  · obtain ⟨n, hn, hrun⟩ := upgrade_of_not_reaches hs h
    rw [AllOrNothing, hrun]
    exact ⟨fun _ hreach => absurd hreach h, fun _ => .inr ⟨hn, rfl⟩⟩

end Upgrade

def onePool : Bes := ⟨[⟨0, "default".toList, fun _ => dash, true⟩], 0, 0, none⟩

theorem onePool_wf : Wf onePool where
  names := nodup_singleton _
  ids := nodup_singleton _
  active := ⟨_, mem_singleton_self _, rfl⟩

/-- An upgrade with two automatic environments kept, in which no kernel module is in use. -/
def worldWith (ok : Op → Bool) : World where
  suffix := "_20260401093000".toList
  retention := 3
  destroys _ := true
  space := true
  ok := ok
  asks _ := false
  version := "1.0".toList
  versionAfter := "1.1".toList
  created := "2026-04-01T09:31:00Z".toList
  timeout := "300".toList

/-- A copy of the log that fails stops nothing. -/
theorem allOrNothing_iff_onePool : Wf onePool ∧ onePool.activeName ≠ [] ∧
    (upgrade (worldWith fun op => op ≠ .copyLog) onePool).1 = 0 ∧
    AllOrNothing (worldWith fun op => op ≠ .copyLog) onePool :=
  ⟨onePool_wf, by decide, by decide +kernel,
    (allOrNothing_iff _ _ onePool_wf (by decide)).2 fun _ => ⟨rfl, rfl, .inl rfl⟩⟩

/-- Where `bectl activate -t` fails the upgrade reports success, and the next boot is still into the
environment that was renamed. -/
theorem success_not_activated :
    (upgrade (worldWith fun op => op ≠ .activate) onePool).1 = 0 ∧
      (upgrade (worldWith fun op => op ≠ .activate) onePool).2.once = none ∧
      ¬ AllOrNothing (worldWith fun op => op ≠ .activate) onePool := by
  have hstatus : (upgrade (worldWith fun op => op ≠ .activate) onePool).1 = 0 := by decide +kernel
  have honce : (upgrade (worldWith fun op => op ≠ .activate) onePool).2.once = none := by
    decide +kernel
  refine ⟨hstatus, honce, ?_⟩
  rintro (⟨-, hup⟩ | ⟨hfail, -⟩)
  · exact absurd (honce.symm.trans hup.next) nofun
  · exact hfail hstatus

end FreeSense.BootEnv
