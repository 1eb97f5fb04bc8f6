import Mathlib.Data.List.Basic
import Mathlib.Data.List.Nodup
import Mathlib.Logic.Function.Basic
import FreeSensePorts.Core.Text

/-!
# Boot environments

What the three tools of `FreeSense-upgrade` share: the boot environments of a pool, and the commands
`bectl` and `zfs` on them.  The identity of an environment survives a rename.  `bootfs` and what is
booted are given by identity, what is chosen for the next boot only by name, as the loader has it.

`bectl` and `zfs` are outside the sources: where a command does not apply it fails and changes nothing.
A clone takes over no user properties, and stands first, for the lists are newest first.
-/

namespace FreeSense.BootEnv

open List

/-! ## Environments -/

/-- The properties `freesense:*`. -/
inductive Key
  | upgrading | version | verify | verifytimeout | origin | created | health | rollback
  | verifydeadline | rollbackattempted | lastbootonce | lastboot | description
  deriving DecidableEq, Repr

/-- What `zfs get` prints for a property without a value. -/
def dash : Text := "-".toList

structure Env where
  id : ℕ
  name : Text
  props : Key → Text
  mounted : Bool

structure Bes where
  /-- Newest first. -/
  envs : List Env
  /-- The booted environment: flag `N`. -/
  now : ℕ
  /-- The environment of the following boots: flag `R`. -/
  bootfs : ℕ
  /-- The environment of the next boot only: flag `T`. -/
  once : Option Text

def automatic : Text := "automatic".toList
def manual : Text := "manual".toList
def pending : Text := "pending".toList
def healthy : Text := "healthy".toList
def failed : Text := "failed".toList
def yes : Text := "yes".toList

namespace Bes

def names (s : Bes) : List Text := s.envs.map Env.name

def find? (s : Bes) (name : Text) : Option Env := s.envs.find? fun e => e.name = name

/-- `be_active_name`. -/
def activeName (s : Bes) : Text := ((s.envs.find? fun e => e.id = s.now).map Env.name).getD []

/-- The status of a listed environment has one of the letters `NRT`. -/
def flagged (s : Bes) (e : Env) : Bool := e.id = s.now ∨ e.id = s.bootfs ∨ s.once = some e.name

/-- `zfs get`; nothing is printed for an unknown environment. -/
def getProp (s : Bes) (name : Text) (key : Key) : Text :=
  ((s.find? name).map fun e => e.props key).getD []

def update (s : Bes) (name : Text) (f : Env → Env) : Bes :=
  { s with envs := s.envs.map fun e => if e.name = name then f e else e }

end Bes

/-! ## Commands -/

def setProp (name : Text) (key : Key) (value : Text) (s : Bes) : Option Bes :=
  if name ∈ s.names then
    some (s.update name fun e => { e with props := Function.update e.props key value })
  else none

/-- `bectl rename`. -/
def rename (old new : Text) (s : Bes) : Option Bes :=
  if old ∈ s.names ∧ new ∉ s.names then some (s.update old fun e => { e with name := new }) else none

def freshId (l : List Env) : ℕ := (l.map Env.id).foldr max 0 + 1

/-- `bectl create -r`. -/
def create (name : Text) (s : Bes) : Option Bes :=
  if name ∉ s.names then
    some { s with envs := ⟨freshId s.envs, name, fun _ => dash, false⟩ :: s.envs }
  else none

/-- `bectl destroy -o`, which refuses the booted environment. -/
def destroy (name : Text) (s : Bes) : Option Bes :=
  match s.find? name with
  | none => none
  | some e =>
    if e.id = s.now then none
    else some { s with envs := s.envs.filter fun e => e.name ≠ name }

def mount (name : Text) (s : Bes) : Option Bes :=
  if name ∈ s.names then some (s.update name fun e => { e with mounted := true }) else none

def unmount (name : Text) (s : Bes) : Option Bes :=
  if name ∈ s.names then some (s.update name fun e => { e with mounted := false }) else none

def isMounted (name : Text) (s : Bes) : Bool := (s.find? name).any Env.mounted

/-- `bectl activate`. -/
def activate (name : Text) (s : Bes) : Option Bes :=
  (s.find? name).map fun e => { s with bootfs := e.id }

/-- `bectl activate -t`. -/
def activateOnce (name : Text) (s : Bes) : Option Bes :=
  if name ∈ s.names then some { s with once := some name } else none

/-! ## `be_prune_automatic` -/

/-- The loop over the list that was printed at `start`; `destroys` says which of the calls of
`bectl destroy` succeed. -/
def pruneLoop (destroys : Text → Bool) (keep : ℕ) (start : Bes) : List Env → ℕ → Bes → Bes
  | [], _, s => s
  | e :: l, seen, s =>
    if s.getProp e.name .origin ≠ automatic then pruneLoop destroys keep start l seen s
    else if start.flagged e then pruneLoop destroys keep start l seen s
    else if s.getProp e.name .health = pending then pruneLoop destroys keep start l seen s
    else if seen + 1 ≤ keep then pruneLoop destroys keep start l (seen + 1) s
    else pruneLoop destroys keep start l (seen + 1)
      (if destroys e.name then (destroy e.name s).getD s else s)

def pruneAutomatic (destroys : Text → Bool) (keep : ℕ) (s : Bes) : Bes :=
  pruneLoop destroys keep s s.envs 0 s

/-! ## Well-formed pools -/

structure Wf (s : Bes) : Prop where
  names : s.names.Nodup
  ids : (s.envs.map Env.id).Nodup
  active : ∃ e ∈ s.envs, e.id = s.now

variable {s t : Bes} {e e' : Env} {name old new : Text}

theorem Wf.eq_of_name (hs : Wf s) (he : e ∈ s.envs) (he' : e' ∈ s.envs) (h : e.name = e'.name) :
    e = e' :=
  inj_on_of_nodup_map hs.names he he' h

theorem Wf.eq_of_id (hs : Wf s) (he : e ∈ s.envs) (he' : e' ∈ s.envs) (h : e.id = e'.id) : e = e' :=
  inj_on_of_nodup_map hs.ids he he' h

theorem find?_eq (hs : s.names.Nodup) (he : e ∈ s.envs) : s.find? e.name = some e := by
  cases hf : s.find? e.name with
  | none => exact absurd (find?_eq_none.1 hf e he) (by simp)
  | some e' =>
    have hname : e'.name = e.name := by simpa using find?_some hf
    rw [inj_on_of_nodup_map hs (mem_of_find?_eq_some hf) he hname]

theorem getProp_eq (hs : s.names.Nodup) (he : e ∈ s.envs) (key : Key) :
    s.getProp e.name key = e.props key := by
  rw [Bes.getProp, find?_eq hs he]
  rfl

theorem activeName_eq (hs : Wf s) (he : e ∈ s.envs) (hid : e.id = s.now) : s.activeName = e.name := by
  have hf : (s.envs.find? fun e => e.id = s.now) = some e := by
    cases hf : s.envs.find? fun e => e.id = s.now with
    | none => exact absurd (find?_eq_none.1 hf e he) (by simpa using hid)
    | some e' =>
      have hid' : e'.id = s.now := by simpa using find?_some hf
      rw [hs.eq_of_id (mem_of_find?_eq_some hf) he (hid'.trans hid.symm)]
  rw [Bes.activeName, hf]
  rfl

theorem mem_names : name ∈ s.names ↔ ∃ e ∈ s.envs, e.name = name := mem_map

theorem id_lt_freshId {l : List Env} (he : e ∈ l) : e.id < freshId l := by
  induction l with
  | nil => cases he
  | cons a l ih =>
    simp only [freshId, map_cons, foldr_cons] at ih ⊢
    rcases mem_cons.1 he with rfl | he
    · omega
    · have := ih he
      omega

section Update

variable {f g : Env → Env}

theorem ids_update (hf : ∀ e, (f e).id = e.id) :
    (s.update name f).envs.map Env.id = s.envs.map Env.id := by
  rw [Bes.update, map_map]
  refine map_congr_left fun e _ => ?_
  show (if e.name = name then f e else e).id = e.id
  split_ifs
  · exact hf e
  · rfl

theorem update_update (hf : ∀ e, (f e).name = e.name) :
    (s.update name f).update name g = s.update name (g ∘ f) := by
  have henvs : (s.envs.map fun e => if e.name = name then f e else e).map
      (fun e => if e.name = name then g e else e) =
      s.envs.map fun e => if e.name = name then (g ∘ f) e else e := by
    rw [map_map]
    refine map_congr_left fun e _ => ?_
    by_cases he : e.name = name
    · simp [he, hf]
    · simp [he]
  exact congrArg (fun l => { s with envs := l }) henvs

theorem update_of_notMem (h : name ∉ s.names) : s.update name f = s := by
  have henvs : (s.envs.map fun e => if e.name = name then f e else e) = s.envs := by
    refine (map_congr_left fun e he => ?_).trans (map_id _)
    exact if_neg fun hname => h (mem_names.2 ⟨e, he, hname⟩)
  rw [Bes.update, henvs]

/-- Setting a property on an environment that is not there does nothing. -/
theorem setProp_getD (name : Text) (key : Key) (value : Text) (s : Bes) :
    (setProp name key value s).getD s =
      s.update name fun e => { e with props := Function.update e.props key value } := by
  rw [setProp]
  split_ifs with h
  · rfl
  · exact (update_of_notMem h).symm

theorem names_renamed : (s.update old fun e => { e with name := new }).names =
    s.names.map fun name => if name = old then new else name := by
  rw [Bes.names, Bes.names, Bes.update, map_map, map_map]
  refine map_congr_left fun e _ => ?_
  show (if e.name = old then { e with name := new } else e).name = _
  split_ifs with h
  · exact (if_pos h).symm
  · exact (if_neg h).symm

theorem Wf.map (hs : Wf s) (f : Env → Env) (hid : ∀ e, (f e).id = e.id)
    (hname : ∀ e, (f e).name = e.name) (henvs : t.envs = s.envs.map f)
    (hnow : ∃ e ∈ s.envs, e.id = t.now) : Wf t := by
  have hnames : t.names = s.names := by
    rw [Bes.names, henvs, map_map]
    exact map_congr_left fun e _ => hname e
  have hids : t.envs.map Env.id = s.envs.map Env.id := by
    rw [henvs, map_map]
    exact map_congr_left fun e _ => hid e
  obtain ⟨e, he, hnow⟩ := hnow
  exact ⟨hnames ▸ hs.names, hids ▸ hs.ids, f e, henvs ▸ mem_map_of_mem he, (hid e).trans hnow⟩

theorem Wf.cons (hs : Wf s) (hname : e.name ∉ s.names) (hid : e.id = freshId s.envs) :
    Wf { s with envs := e :: s.envs } := by
  have hfresh : e.id ∉ s.envs.map Env.id := by
    intro hmem
    obtain ⟨e', he', heq⟩ := mem_map.1 hmem
    exact Nat.ne_of_lt (id_lt_freshId he') (heq.trans hid)
  obtain ⟨a, ha, hnow⟩ := hs.active
  exact ⟨nodup_cons.2 ⟨hname, hs.names⟩, nodup_cons.2 ⟨hfresh, hs.ids⟩, a,
    mem_cons_of_mem _ ha, hnow⟩

theorem Wf.renamed (hs : Wf s) (hnew : new ∉ s.names) :
    Wf (s.update old fun e => { e with name := new }) := by
  refine ⟨?_, ?_, ?_⟩
  · rw [names_renamed]
    refine List.Nodup.map_on (fun a ha b hb hab => ?_) hs.names
    by_cases hao : a = old
    · by_cases hbo : b = old
      · exact hao.trans hbo.symm
      · rw [if_pos hao, if_neg hbo] at hab
        exact absurd (hab ▸ hb) hnew
    · by_cases hbo : b = old
      · rw [if_neg hao, if_pos hbo] at hab
        exact absurd (hab ▸ ha) hnew
      · rwa [if_neg hao, if_neg hbo] at hab
  · rw [ids_update (f := fun e => { e with name := new }) fun _ => rfl]
    exact hs.ids
  · obtain ⟨e, he, hid⟩ := hs.active
    refine ⟨_, mem_map_of_mem he, ?_⟩
    split_ifs
    · exact hid
    · exact hid

end Update

/-! ## What pruning removes -/

/-- An environment that counts for `be_prune_automatic`. -/
def candidate (s : Bes) (e : Env) : Bool :=
  e.props .origin = automatic ∧ s.flagged e = false ∧ e.props .health ≠ pending

/-- All but the newest ones of those. -/
def condemned (keep : ℕ) (s : Bes) : List Env := (s.envs.filter (candidate s)).drop keep

def without (names : List Text) (l : List Env) : List Env := l.filter fun e => e.name ∉ names

theorem mem_without {names : List Text} {l : List Env} :
    e ∈ without names l ↔ e ∈ l ∧ e.name ∉ names := by
  simp [without]

theorem without_cons (names : List Text) (l : List Env) :
    without names (l.filter fun e => e.name ≠ name) = without (name :: names) l := by
  rw [without, without]
  simp [Bool.and_comm]

theorem destroy_eq (hs : s.names.Nodup) (he : e ∈ s.envs) (hid : e.id ≠ s.now) :
    destroy e.name s = some { s with envs := s.envs.filter fun e' => e'.name ≠ e.name } := by
  rw [destroy, find?_eq hs he]
  exact if_neg hid

/-- The loop from any place of the list: what is still to be looked at is still there. -/
theorem pruneLoop_eq (destroys : Text → Bool) (keep : ℕ) (start : Bes) (l : List Env) (seen : ℕ)
    (s : Bes) (hnow : s.now = start.now) (hs : s.names.Nodup) (hl : ∀ e ∈ l, e ∈ s.envs)
    (hnames : (l.map Env.name).Nodup) :
    pruneLoop destroys keep start l seen s = { s with
      envs := without ((((l.filter (candidate start)).drop (keep - seen)).map Env.name).filter
        destroys) s.envs } := by
  induction l generalizing seen s with
  | nil => simp [pruneLoop, without]
  | cons e l ih =>
    have he := hl e mem_cons_self
    have hrest : ∀ e' ∈ l, e' ∈ s.envs := fun e' h => hl e' (mem_cons_of_mem _ h)
    rw [map_cons, nodup_cons] at hnames
    rw [pruneLoop, getProp_eq hs he, getProp_eq hs he]
    by_cases hc : candidate start e = true
    · have hc' := hc
      simp only [candidate, decide_eq_true_eq] at hc'
      obtain ⟨horigin, hflag, hhealth⟩ := hc'
      rw [if_neg (not_not.2 horigin), if_neg (by simp [hflag]), if_neg hhealth,
        filter_cons_of_pos hc]
      by_cases hseen : seen + 1 ≤ keep
      · rw [if_pos hseen, ih _ _ hnow hs hrest hnames.2,
          show keep - seen = (keep - (seen + 1)) + 1 by omega, drop_succ_cons]
      · rw [if_neg hseen, show keep - seen = 0 by omega, drop_zero, map_cons]
        cases hd : destroys e.name with
        | false =>
          rw [if_neg Bool.false_ne_true, ih _ _ hnow hs hrest hnames.2,
            show keep - (seen + 1) = 0 by omega, drop_zero,
            filter_cons_of_neg (by simp [hd])]
        | true =>
          have hid : e.id ≠ s.now := by
            rw [hnow]
            intro hid
            simp [Bes.flagged, hid] at hflag
          have hs' : ((s.envs.filter fun e' => e'.name ≠ e.name).map Env.name).Nodup :=
            hs.sublist (filter_sublist.map _)
          have hrest' : ∀ e' ∈ l, e' ∈ s.envs.filter fun e' => e'.name ≠ e.name := by
            intro e' he'
            have hne : e'.name ≠ e.name := fun hname =>
              hnames.1 (mem_map.2 ⟨e', he', hname⟩)
            exact mem_filter.2 ⟨hrest e' he', by simpa using hne⟩
          rw [if_pos rfl, destroy_eq hs he hid, Option.getD_some,
            filter_cons_of_pos (by simp [hd]),
            ih (seen + 1) { s with envs := s.envs.filter fun e' => e'.name ≠ e.name } hnow hs'
              hrest' hnames.2,
            show keep - (seen + 1) = 0 by omega, drop_zero, without_cons]
    · rw [filter_cons_of_neg hc]
      have hskip := ih seen s hnow hs hrest hnames.2
      simp only [candidate, decide_eq_true_eq, not_and, not_not] at hc
      split_ifs with h₁ h₂ h₃
      · exact hskip
      · exact hskip
      · exact hskip
      · exact absurd (hc (not_not.1 h₁) (by simpa using h₂)) h₃
      · exact absurd (hc (not_not.1 h₁) (by simpa using h₂)) h₃
      · exact absurd (hc (not_not.1 h₁) (by simpa using h₂)) h₃

/-- **Pruning** removes the condemned environments whose destruction succeeds, and nothing else. -/
theorem pruneAutomatic_eq (destroys : Text → Bool) (keep : ℕ) (hs : s.names.Nodup) :
    pruneAutomatic destroys keep s = { s with
      envs := without (((condemned keep s).map Env.name).filter destroys) s.envs } :=
  pruneLoop_eq destroys keep s s.envs 0 s rfl hs (fun _ h => h) hs

theorem mem_condemned {keep : ℕ} (h : e ∈ condemned keep s) : e ∈ s.envs ∧ candidate s e = true :=
  mem_filter.1 (mem_of_mem_drop h)

/-- What is pruned was a candidate, so the booted environment never is. -/
theorem active_not_condemned {keep : ℕ} (hs : Wf s) (he : e ∈ s.envs) (hid : e.id = s.now) :
    e.name ∉ (condemned keep s).map Env.name := by
  intro hmem
  obtain ⟨e', he', hname⟩ := mem_map.1 hmem
  obtain ⟨hin, hc⟩ := mem_condemned he'
  obtain rfl := hs.eq_of_name hin he hname
  simp [candidate, Bes.flagged, hid] at hc

theorem Wf.sublist {l : List Env} (hs : Wf s) (hl : l.Sublist s.envs) (he : ∃ e ∈ l, e.id = s.now) :
    Wf { s with envs := l } :=
  ⟨hs.names.sublist (hl.map _), hs.ids.sublist (hl.map _), he⟩

theorem Wf.prune (hs : Wf s) (destroys : Text → Bool) (keep : ℕ) :
    Wf (pruneAutomatic destroys keep s) ∧
      (pruneAutomatic destroys keep s).activeName = s.activeName := by
  rw [pruneAutomatic_eq destroys keep hs.names]
  obtain ⟨e, he, hid⟩ := hs.active
  have hkept : e ∈ without (((condemned keep s).map Env.name).filter destroys) s.envs :=
    mem_without.2 ⟨he, fun h => active_not_condemned hs he hid (mem_of_mem_filter h)⟩
  have hwf := hs.sublist filter_sublist ⟨e, hkept, hid⟩
  exact ⟨hwf, (activeName_eq hwf hkept hid).trans (activeName_eq hs he hid).symm⟩

end FreeSense.BootEnv
