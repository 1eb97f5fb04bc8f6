import FreeSensePorts.Core.Run
import FreeSensePorts.Dhcpleases.Model

/-!
# The hosts file

`dhcpleases` takes what is below the length `hostssize` of the hosts file for its static part.
`write_status` cuts the file there and adds the leases, `truncate_hosts` cuts it there on `SIGTERM`.  On
`SIGHUP`, and before each cut, the length is lowered to the size of the file; it is never raised.

The model is the process between its file system calls, so that a signal may arrive between any two.
A handler runs before the code it interrupts goes on; the one for `SIGTERM` does not return, and one
`SIGHUP` may interrupt it.  `dprintf` may take several `write`s.  All calls succeed.  The work on other
files is left out.  With `-f` the process never learns the length of the file, prints the leases
instead of adding them, ends after one `write_status`, and has no handlers.

`Good P` is what the owner of a static part `P` expects.  A run is good exactly if `hostssize` is not
below the length of `P` at its start and no `SIGHUP` brings it there (`good_run_iff`).
-/

namespace FreeSense.Dhcpleases

open List

/-! ## Files -/

/-- `ftruncate`. -/
def resize (n : ℕ) (file : Bytes) : Bytes := file.take n ++ List.replicate (n - file.length) 0

/-- `write`, at an offset. -/
def writeAt (offset : ℕ) (data file : Bytes) : Bytes :=
  resize offset file ++ data ++ file.drop (offset + data.length)

@[simp] lemma length_resize (n : ℕ) (file : Bytes) : (resize n file).length = n := by
  simp [resize]
  omega

lemma resize_length_of_prefix {P file : Bytes} (h : P <+: file) : resize P.length file = P := by
  obtain ⟨rest, rfl⟩ := h
  simp [resize]

lemma writeAt_length (data file : Bytes) : writeAt file.length data file = file ++ data := by
  simp [writeAt, resize]

/-! ## The process -/

/-- What the process has done so far of `write_status`, or of `truncate_hosts`.  Between two calls of
`write_status`, `written` are the leases of the last one. -/
inductive Pc
  | idle (written : Option (List Lease))
  | opened (leases : List Lease)
  | statted (leases : List Lease) (tmpsize : ℕ)
  | truncated (leases : List Lease)
  /-- `done` bytes have been written, and the next goes to `offset`. -/
  | writing (leases : List Lease) (offset done : ℕ)
  | term
  | termOpened
  | termStatted (tmpsize : ℕ)
  | termTruncated
  | exited
  deriving DecidableEq, Repr

/-- The handler of `SIGTERM` runs. -/
def Pc.terminating : Pc → Bool
  | .term | .termOpened | .termStatted _ | .termTruncated | .exited => true
  | _ => false

/-- `hostssize` is an `int` that is never negative. -/
structure State where
  foreground : Bool
  file : Bytes
  hostssize : ℕ
  pc : Pc
  small : hostssize < 2 ^ 31
  deriving DecidableEq, Repr

/-- `fsize`, whose result is an `int`. -/
def fsize (file : Bytes) : ℤ := Text.toInt file.length

lemma fsize_eq {file : Bytes} (h : file.length < 2 ^ 31) : fsize file = file.length := by
  simp only [fsize, Text.toInt]
  exact Int.bmod_eq_of_le (by omega) (by omega)

lemma fsize_lt_int (file : Bytes) : fsize file < 2 ^ 31 := by
  have hint : Int.bmod file.length (2 ^ 32) < 2 ^ 31 := Int.bmod_lt (by decide)
  simp only [fsize, Text.toInt]
  omega

lemma fsize_lt {file : Bytes} (h : 2 ^ 31 ≤ file.length) : fsize file < file.length := by
  have := fsize_lt_int file
  omega

-- unfolded in a comparison, it would be evaluated in unary
attribute [irreducible] fsize

/-- What `handle_signal` does on `SIGHUP`, for a hosts file of this size. -/
def State.lower (s : State) (size : ℤ) : State :=
  if h : 0 < size ∧ size < s.hostssize then
    { s with hostssize := size.toNat, small := by have := s.small; omega }
  else s

/-- The handler of `SIGHUP`. -/
def State.hup (s : State) : State := s.lower (fsize s.file)

/-- The comparison with the size that `fstat` gave, and `ftruncate`. -/
def State.shrink (s : State) (tmpsize : ℕ) (pc : Pc) : State :=
  let hostssize := if tmpsize < s.hostssize then tmpsize else s.hostssize
  ⟨s.foreground, resize hostssize s.file, hostssize, pc, by
    have := s.small
    simp only [hostssize]
    split_ifs <;> omega⟩

inductive Event
  | load (leases : List Lease)
  | call
  | write (n : ℕ)
  | sighup
  | sigterm
  deriving DecidableEq, Repr

def State.goto (s : State) (pc : Pc) : State := { s with pc := pc }

/-- What `write_status` has still to write. -/
def State.rest (s : State) (leases : List Lease) (done : ℕ) : Bytes :=
  (if s.foreground then header else writeStatus leases).drop done

/-- The next file system call but a `write`. -/
def call (s : State) : Option State :=
  match s.pc with
  | .opened leases => some (s.goto (.statted leases s.file.length))
  | .statted leases tmpsize => some (s.shrink tmpsize (.truncated leases))
  | .truncated leases => some (s.goto (.writing leases s.file.length 0))
  | .writing leases _ done =>
    if s.rest leases done = [] then some (s.goto (.idle (some leases))) else none
  | .term => some (s.goto .termOpened)
  | .termOpened => some (s.goto (.termStatted s.file.length))
  | .termStatted tmpsize => some (s.shrink tmpsize .termTruncated)
  | .termTruncated => some (s.goto .exited)
  | .idle (some _) => if s.foreground then some (s.goto .exited) else none
  | _ => none

def step (s : State) : Event → Option State
  | .load leases =>
    match s.pc with
    | .idle written =>
      if s.foreground ∧ written ≠ none then none else some (s.goto (.opened leases))
    | _ => none
  | .call => call s
  | .write n =>
    match s.pc with
    | .writing leases offset done =>
      if 0 < n ∧ n ≤ (s.rest leases done).length then
        some { s with file := writeAt offset ((s.rest leases done).take n) s.file,
                      pc := .writing leases (offset + n) (done + n) }
      else none
    | _ => none
  | .sighup =>
    if s.pc = .exited then none else some (if s.foreground then s.goto .exited else s.hup)
  | .sigterm =>
    if s.pc.terminating then none
    else some (s.goto (if s.foreground then .exited else .term))

def Step (s : State) (e : Event) (t : State) : Prop := step s e = some t

/-- `main`, up to the handlers.  As a daemon it exits if the size of the file is negative as an
`int`; with `-f` it does not look. -/
def start (foreground : Bool) (P : Bytes) : Option State :=
  if foreground then some ⟨true, P, 0, .idle none, by decide⟩
  else if h : fsize P < 0 then none
  else some ⟨false, P, (fsize P).toNat, .idle none, by
    have := fsize_lt_int P
    omega⟩

/-! ## The static part -/

/-- What the owner of the static part `P` expects of a state. -/
structure Expected (P : Bytes) (s : State) : Prop where
  static : P <+: s.file
  written : ∀ leases, s.pc = .idle (some leases) → s.file = P ++ writeStatus leases
  exited : s.pc = .exited → s.file = P

/-- The state is as expected, and so is what it leads to without a `SIGHUP`: a `SIGTERM` may come at
any moment. -/
def Good (P : Bytes) (s : State) : Prop :=
  ∀ es t, .sighup ∉ es → Run Step s es t → Expected P t

/-- A `SIGHUP` would take the file for shorter than `P`, and there is still a cut to come. -/
def Misread (P : Bytes) (s : State) : Prop :=
  s.pc ≠ .termTruncated ∧ 0 < fsize s.file ∧ fsize s.file < P.length

instance (P : Bytes) (s : State) : Decidable (Misread P s) := inferInstanceAs (Decidable (_ ∧ _ ∧ _))

/-- A cut at `hostssize`, or at the size of the file, leaves `P`. -/
structure Sized (P : Bytes) (s : State) : Prop where
  daemon : s.foreground = false
  static : P <+: s.file
  size : P.length ≤ s.hostssize
  /-- There is something behind `P` only if its length is known. -/
  known : s.file = P ∨ s.hostssize = P.length

/-- What the file and the length are at each point. -/
def Inv (P : Bytes) (s : State) : Prop :=
  match s.pc with
  | .idle none | .opened _ | .term | .termOpened => Sized P s
  | .idle (some leases) => Sized P s ∧ s.file = P ++ writeStatus leases
  | .statted _ tmpsize | .termStatted tmpsize => Sized P s ∧ min tmpsize s.hostssize = P.length
  | .truncated _ => Sized P s ∧ s.file = P ∧ s.hostssize = P.length
  | .writing leases offset done => Sized P s ∧ s.hostssize = P.length ∧ offset = s.file.length ∧
      s.file ++ s.rest leases done = P ++ writeStatus leases
  | .termTruncated | .exited => s.file = P

variable {P : Bytes} {s t : State} {e : Event} {es : List Event}

lemma Sized.goto (h : Sized P s) (pc : Pc) : Sized P (s.goto pc) :=
  ⟨h.daemon, h.static, h.size, h.known⟩

lemma Sized.rest (h : Sized P s) (leases : List Lease) (done : ℕ) :
    s.rest leases done = (writeStatus leases).drop done := by
  rw [State.rest, h.daemon, if_neg Bool.false_ne_true]

lemma shrink_hostssize (s : State) (n : ℕ) (pc : Pc) :
    (s.shrink n pc).hostssize = min n s.hostssize := by
  simp only [State.shrink]
  split_ifs <;> omega

lemma shrink_file (s : State) (n : ℕ) (pc : Pc) :
    (s.shrink n pc).file = resize (min n s.hostssize) s.file := by
  rw [← shrink_hostssize s n pc]
  rfl

/-- The size of a file that is as it should be leads to the right cut. -/
lemma Sized.min_length (h : Sized P s) : min s.file.length s.hostssize = P.length := by
  have hle := h.static.length_le
  have hsize := h.size
  rcases h.known with hfile | hknown
  · rw [hfile]
    omega
  · omega

/-- **The cut.** -/
lemma Sized.shrink (h : Sized P s) {n : ℕ} (hmin : min n s.hostssize = P.length) (pc : Pc) :
    Sized P (s.shrink n pc) ∧ (s.shrink n pc).file = P ∧ (s.shrink n pc).hostssize = P.length := by
  have hfile : (s.shrink n pc).file = P := by
    rw [shrink_file, hmin]
    exact resize_length_of_prefix h.static
  have hsize : (s.shrink n pc).hostssize = P.length := by rw [shrink_hostssize, hmin]
  exact ⟨⟨h.daemon, by simp [hfile], by simp [hsize], Or.inl hfile⟩, hfile, hsize⟩

section Lower

variable {size : ℤ}

@[simp] lemma lower_file : (s.lower size).file = s.file := by
  unfold State.lower
  split_ifs <;> rfl

@[simp] lemma lower_pc : (s.lower size).pc = s.pc := by
  unfold State.lower
  split_ifs <;> rfl

@[simp] lemma lower_foreground : (s.lower size).foreground = s.foreground := by
  unfold State.lower
  split_ifs <;> rfl

lemma lower_hostssize : (s.lower size).hostssize =
    if 0 < size ∧ size < s.hostssize then size.toNat else s.hostssize := by
  unfold State.lower
  split_ifs <;> rfl

lemma lower_hostssize_le : (s.lower size).hostssize ≤ s.hostssize := by
  rw [lower_hostssize]
  split_ifs <;> omega

/-- The handler lowers the length to that of `P`, or leaves it, if it does not read less. -/
lemma Sized.lower (h : Sized P s) (hfile : s.file.length < 2 ^ 31 → size = s.file.length)
    (hread : ¬(0 < size ∧ size < P.length)) : Sized P (s.lower size) ∧
      ((s.lower size).hostssize = s.hostssize ∨ (s.lower size).hostssize = P.length) := by
  have hsmall := s.small
  have hsize := h.size
  have hlower : (s.lower size).hostssize = s.hostssize ∨ (s.lower size).hostssize = P.length := by
    rw [lower_hostssize]
    split_ifs with hlow
    · have hP : s.file = P := h.known.resolve_right (by omega)
      rw [hP] at hfile
      exact Or.inr (by omega)
    · exact Or.inl rfl
  refine ⟨⟨by simp [h.daemon], by simp [h.static], by omega, ?_⟩, hlower⟩
  rcases hlower with heq | heq
  · simpa [heq] using h.known
  · exact Or.inr heq

lemma Inv.lower (h : Inv P s) (hfile : s.file.length < 2 ^ 31 → size = s.file.length)
    (hread : s.pc ≠ .termTruncated → ¬(0 < size ∧ size < P.length)) : Inv P (s.lower size) := by
  have hsized (hpc : s.pc ≠ .termTruncated) (hs : Sized P s) := hs.lower hfile (hread hpc)
  have hrest : ∀ leases done, (s.lower size).rest leases done = s.rest leases done := by
    simp [State.rest]
  unfold Inv at h ⊢
  rw [lower_pc]
  cases hpc : s.pc with
  | idle written =>
    cases written with
    | none => exact (hsized (by simp [hpc]) (by simpa [hpc] using h)).1
    | some leases =>
      rw [hpc] at h
      exact ⟨(hsized (by simp [hpc]) h.1).1, by simpa using h.2⟩
  | opened leases => exact (hsized (by simp [hpc]) (by simpa [hpc] using h)).1
  | term => exact (hsized (by simp [hpc]) (by simpa [hpc] using h)).1
  | termOpened => exact (hsized (by simp [hpc]) (by simpa [hpc] using h)).1
  | statted leases n | termStatted n =>
    rw [hpc] at h
    obtain ⟨hs, hmin⟩ := h
    obtain ⟨hs', heq⟩ := hsized (by simp [hpc]) hs
    exact ⟨hs', by rcases heq with heq | heq <;> omega⟩
  | truncated leases =>
    rw [hpc] at h
    obtain ⟨hs, heq⟩ := hsized (by simp [hpc]) h.1
    exact ⟨hs, by simpa using h.2.1, heq.elim (fun heq => heq.trans h.2.2) id⟩
  | writing leases offset done =>
    rw [hpc] at h
    obtain ⟨hs, heq⟩ := hsized (by simp [hpc]) h.1
    exact ⟨hs, heq.elim (fun heq => heq.trans h.2.1) id, by simpa using h.2.2.1,
      by simpa [hrest] using h.2.2.2⟩
  | termTruncated => simpa [hpc] using h
  | exited => simpa [hpc] using h

end Lower

lemma Inv.hup (h : Inv P s) (hread : ¬ Misread P s) : Inv P s.hup := by
  exact Inv.lower h fsize_eq fun hpc hboth => hread ⟨hpc, hboth⟩

lemma Inv.write (h : Inv P s) {leases : List Lease} {offset done n : ℕ}
    (hpc : s.pc = .writing leases offset done) (hn : n ≤ (s.rest leases done).length) :
    Inv P { s with file := writeAt offset ((s.rest leases done).take n) s.file,
                   pc := .writing leases (offset + n) (done + n) } := by
  rw [Inv, hpc] at h
  obtain ⟨hs, hknown, rfl, hfile⟩ := h
  rw [writeAt_length]
  refine ⟨⟨hs.daemon, hs.static.trans (prefix_append _ _), hs.size, Or.inr hknown⟩, hknown, ?_, ?_⟩
  · simp [hn]
  · show s.file ++ (s.rest leases done).take n ++ s.rest leases (done + n) = _
    have hdrop : s.rest leases (done + n) = (s.rest leases done).drop n := by
      rw [State.rest, State.rest, drop_drop]
    rw [hdrop, append_assoc, take_append_drop, hfile]

lemma Inv.call (h : Inv P s) (hstep : call s = some t) : Inv P t := by
  unfold Dhcpleases.call at hstep
  unfold Inv at h
  split at hstep <;> rename_i heq <;> simp only [heq, reduceCtorEq, Option.some.injEq] at h hstep
  · subst hstep
    exact ⟨h.goto _, h.min_length⟩
  · subst hstep
    exact h.1.shrink h.2 _
  · subst hstep
    obtain ⟨hs, hfile, hsize⟩ := h
    refine ⟨hs.goto _, hsize, rfl, ?_⟩
    rw [(hs.goto _).rest]
    exact congrArg (· ++ _) hfile
  · split_ifs at hstep with hdone
    rw [← Option.some.inj hstep]
    obtain ⟨hs, -, -, hfile⟩ := h
    rw [hdone, append_nil] at hfile
    exact ⟨hs.goto _, hfile⟩
  · subst hstep
    exact h.goto _
  · subst hstep
    exact ⟨h.goto _, h.min_length⟩
  · subst hstep
    exact (h.1.shrink h.2 _).2.1
  · subst hstep
    exact h
  · rw [h.1.daemon] at hstep
    cases hstep

/-- **One step** keeps the invariant, unless it is a `SIGHUP` that misreads the file. -/
theorem Inv.step (h : Inv P s) (hstep : Step s e t) (hread : e = .sighup → ¬ Misread P s) :
    Inv P t := by
  have hfile : s.foreground = true → s.file = P := by
    intro hfg
    have hnot : ¬ Sized P s := fun hs => by simp [hs.daemon] at hfg
    unfold Inv at h
    split at h <;> simp_all
  cases e with
  | load leases =>
    simp only [Step, Dhcpleases.step] at hstep
    split at hstep
    case h_1 written hpc =>
      split_ifs at hstep
      rw [← Option.some.inj hstep]
      unfold Inv at h
      cases written with
      | none => exact Sized.goto (by simpa [hpc] using h) _
      | some leases' =>
        rw [hpc] at h
        exact h.1.goto _
    case h_2 => cases hstep
  | call => exact h.call hstep
  | write n =>
    simp only [Step, Dhcpleases.step] at hstep
    split at hstep
    case h_1 leases offset done hpc =>
      split_ifs at hstep with hn
      rw [← Option.some.inj hstep]
      exact h.write hpc hn.2
    case h_2 => cases hstep
  | sighup =>
    simp only [Step, Dhcpleases.step] at hstep
    split_ifs at hstep with hpc hfg
    · rw [← Option.some.inj hstep]
      exact hfile hfg
    · rw [← Option.some.inj hstep]
      exact h.hup (hread rfl)
  | sigterm =>
    simp only [Step, Dhcpleases.step] at hstep
    split_ifs at hstep with hpc hfg
    · rw [← Option.some.inj hstep]
      exact hfile hfg
    · rw [← Option.some.inj hstep]
      unfold Inv at h
      refine Sized.goto ?_ _
      split at h <;> simp_all [Pc.terminating]

theorem Inv.run (h : Inv P s) (r : Run Step s es t) (hread : .sighup ∉ es) : Inv P t := by
  induction r with
  | nil _ => exact h
  | cons hstep _ ih =>
    refine ih (h.step hstep ?_) (not_mem_of_not_mem_cons hread)
    rintro rfl
    exact absurd mem_cons_self hread

lemma Inv.expected (h : Inv P s) : Expected P s := by
  unfold Inv at h
  refine ⟨?_, fun leases hpc => ?_, fun hpc => ?_⟩
  · split at h
    all_goals first | exact h.static | exact h.1.static | simp [h]
  · rw [hpc] at h
    exact h.2
  · rwa [hpc] at h

theorem Inv.good (h : Inv P s) : Good P s := fun _ _ hread r => (h.run r hread).expected

/-! ## When it is kept -/

lemma Good.step (h : Good P s) (hstep : Step s e t) (he : e ≠ .sighup) : Good P t := fun es u hes r =>
  h (e :: es) u (by simp [Ne.symm he, hes]) (.cons hstep r)

/-- The size that the last cut goes by. -/
def State.seen (s : State) : ℕ :=
  match s.pc with
  | .termStatted n => n
  | _ => s.file.length

/-- A daemon that has not cut the file for the last time can do so, and is gone then. -/
lemma exists_exit (hdaemon : s.foreground = false) (hcut : s.pc ≠ .termTruncated)
    (hgone : s.pc ≠ .exited) :
    ∃ es t, .sighup ∉ es ∧ Run Step s es t ∧ t.pc = .exited ∧
      t.file = resize (min s.seen s.hostssize) s.file := by
  have hstatted : ∀ (s : State) (n : ℕ), s.pc = .termStatted n →
      Run Step s [.call, .call] ((s.shrink n .termTruncated).goto .exited) := by
    intro s n hpc
    have hcut : Step s .call (s.shrink n .termTruncated) := by
      simp [Step, Dhcpleases.step, call, hpc]
    exact (Run.nil s).snoc hcut |>.snoc rfl
  have hopened : ∀ s : State, s.pc = .termOpened →
      Run Step s [.call, .call, .call] ((s.shrink s.file.length .termTruncated).goto .exited) := by
    intro s hpc
    have hfstat : Step s .call (s.goto (.termStatted s.file.length)) := by
      simp [Step, Dhcpleases.step, call, hpc]
    exact .cons hfstat (hstatted _ _ rfl)
  have hterm : ∀ s : State, s.pc = .term →
      Run Step s [.call, .call, .call, .call]
        ((s.shrink s.file.length .termTruncated).goto .exited) := by
    intro s hpc
    have hopen : Step s .call (s.goto .termOpened) := by
      simp [Step, Dhcpleases.step, call, hpc]
    exact .cons hopen (hopened _ rfl)
  have hrun : ∃ es, .sighup ∉ es ∧
      Run Step s es ((s.shrink s.seen .termTruncated).goto .exited) := by
    unfold State.seen
    cases hpc : s.pc with
    | termStatted n => exact ⟨_, by simp, hstatted s n hpc⟩
    | termOpened => exact ⟨_, by simp, hopened s hpc⟩
    | term => exact ⟨_, by simp, hterm s hpc⟩
    | termTruncated => exact absurd hpc hcut
    | exited => exact absurd hpc hgone
    | idle _ | opened _ | statted _ _ | truncated _ | writing _ _ _ =>
      refine ⟨.sigterm :: _, ?_, .cons ?_ (hterm (s.goto .term) rfl)⟩
      · simp
      · simp [Step, Dhcpleases.step, hpc, Pc.terminating, hdaemon]
  obtain ⟨es, hread, r⟩ := hrun
  exact ⟨es, _, hread, r, rfl, shrink_file s _ .termTruncated⟩

lemma not_good_of_short (hdaemon : s.foreground = false) (hcut : s.pc ≠ .termTruncated)
    (hgone : s.pc ≠ .exited) (hshort : min s.seen s.hostssize < P.length) : ¬ Good P s := by
  intro hgood
  obtain ⟨es, t, hread, r, hpc, hfile⟩ := exists_exit hdaemon hcut hgone
  have hlen := congrArg List.length hfile
  rw [(hgood es t hread r).exited hpc, length_resize] at hlen
  omega

/-- A state of the invariant in which the file may still be misread has a length. -/
lemma Inv.sized (h : Inv P s) (hcut : s.pc ≠ .termTruncated) (hgone : s.pc ≠ .exited) :
    Sized P s := by
  unfold Inv at h
  split at h <;> simp_all

lemma sighup_eq (hs : s.foreground = false) (hstep : Step s .sighup t) :
    s.pc ≠ .exited ∧ t = s.hup := by
  simp only [Step, step, hs, Bool.false_eq_true, if_false, Option.ite_none_left_eq_some] at hstep
  exact ⟨hstep.1, (Option.some.inj hstep.2).symm⟩

/-- A process of the invariant that gets a `SIGHUP` and misreads the file is a daemon. -/
lemma Inv.sized_of_misread (h : Inv P s) (hm : Misread P s) (hstep : Step s .sighup t) :
    Sized P s := by
  refine h.sized hm.1 ?_
  intro hpc
  simp [Step, Dhcpleases.step, hpc] at hstep

/-- A `SIGHUP` that misreads the file gives the static part up. -/
lemma not_good_hup (h : Inv P s) (hm : Misread P s) (hstep : Step s .sighup t) : ¬ Good P t := by
  have hs := h.sized_of_misread hm hstep
  obtain ⟨hgone, rfl⟩ := sighup_eq hs.daemon hstep
  obtain ⟨hcut, hpos, hlt⟩ := hm
  have hsize := hs.size
  rw [State.hup]
  refine not_good_of_short (by simp [hs.daemon]) (by simp [hcut]) (by simp [hgone])
    ((min_le_right _ _).trans_lt ?_)
  rw [lower_hostssize, if_pos ⟨hpos, by omega⟩]
  omega

lemma inv_step_iff (h : Inv P s) (hstep : Step s e t) :
    Inv P t ↔ (e = .sighup → ¬ Misread P s) := by
  refine ⟨?_, h.step hstep⟩
  rintro ht rfl hm
  exact not_good_hup h hm hstep ht.good

/-- **The states of a run** are all good exactly if none of its `SIGHUP`s misreads the file. -/
theorem good_run_iff (h : Inv P s) :
    (∀ es₁ es₂ u, es = es₁ ++ es₂ → Run Step s es₁ u → Run Step u es₂ t → Good P u) ↔
      ∀ es₁ e es₂ u v, es = es₁ ++ e :: es₂ → Run Step s es₁ u → Step u e v → Run Step v es₂ t →
        e = .sighup → ¬ Misread P u := by
  rw [← Run.forall_iff (I := fun _ => True) (P := Inv P) (fun _ _ _ _ _ => trivial)
    (fun _ _ _ _ hu hstep => inv_step_iff hu hstep) trivial h]
  constructor
  · rintro hgood es₁ es₂ u rfl r₁ r₂
    -- the step where the invariant is lost leads to a state that is not good
    by_contra hnot
    obtain ⟨fs₁, e, fs₂, x, x', rfl, rx, hstep, rx', hx, hx'⟩ :=
      r₁.exists_entry (P := fun u => ¬ Inv P u) (not_not.mpr h) hnot
    rw [not_not] at hx
    rw [inv_step_iff hx hstep] at hx'
    push Not at hx'
    obtain ⟨rfl, hm⟩ := hx'
    refine not_good_hup hx hm hstep (hgood (fs₁ ++ [.sighup]) (fs₂ ++ es₂) x' ?_ (rx.snoc hstep)
      (rx'.append r₂))
    simp
  · exact fun hinv es₁ es₂ u hes r₁ r₂ => (hinv es₁ es₂ u hes r₁ r₂).good

lemma start_eq (hstart : start false P = some s) :
    s.foreground = false ∧ s.pc = .idle none ∧ s.file = P ∧ s.hostssize = fsize P := by
  unfold start at hstart
  rw [if_neg Bool.false_ne_true] at hstart
  split_ifs at hstart with hneg
  obtain rfl := Option.some.inj hstart
  refine ⟨rfl, rfl, rfl, ?_⟩
  simp only
  omega

/-- **With `-f` the static part is lost**: the first cut is at zero, and the header stays. -/
lemma not_good_foreground (hstart : start true P = some s) : ¬ Good P s := by
  intro hgood
  obtain rfl := (Option.some.inj hstart).symm
  cases P with
  | nil =>
    have hrun : [Event.load [], .call, .call, .call, .write 36, .sigterm].foldlM step
        ⟨true, [], 0, .idle none, by decide⟩
          = some ⟨true, header, 0, .exited, by decide⟩ := by decide +kernel
    exact absurd ((hgood _ _ (by decide) (.of_foldlM hrun)).exited rfl) (by decide +kernel)
  | cons b P =>
    have hcut : (⟨true, b :: P, 0, .statted [] (b :: P).length, by decide⟩ : State).shrink
        (b :: P).length (.truncated []) = ⟨true, [], 0, .truncated [], by decide⟩ := by
      simp [State.shrink, resize]
    have hrun : Run Step ⟨true, b :: P, 0, .idle none, by decide⟩ [.load [], .call, .call]
        ⟨true, [], 0, .truncated [], by decide⟩ :=
      .cons rfl (.cons rfl (.cons (congrArg some hcut) (.nil _)))
    have := (hgood _ _ (by decide) hrun).static.length_le
    simp at this

/-- **The static part of the hosts file**: all states of a run are good exactly if the process is a
daemon, the static part has less than `2 ^ 31` bytes and no `SIGHUP` of the run misreads the file. -/
theorem static_part_iff {foreground : Bool} (hstart : start foreground P = some s)
    (r : Run Step s es t) :
    (∀ es₁ es₂ u, es = es₁ ++ es₂ → Run Step s es₁ u → Run Step u es₂ t → Good P u) ↔
      foreground = false ∧ P.length < 2 ^ 31 ∧
        ∀ es₁ e es₂ u v, es = es₁ ++ e :: es₂ → Run Step s es₁ u → Step u e v → Run Step v es₂ t →
          e = .sighup → ¬ Misread P u := by
  cases foreground with
  | true =>
    refine iff_of_false (fun hgood => ?_) (by simp)
    exact not_good_foreground hstart (hgood [] es s rfl (.nil s) r)
  | false =>
    rw [and_iff_right rfl]
    obtain ⟨hdaemon, hpc, hfile, hsize⟩ := start_eq hstart
    by_cases hlt : P.length < 2 ^ 31
    · rw [fsize_eq hlt] at hsize
      have hinv : Inv P s := by
        rw [Inv, hpc]
        exact ⟨hdaemon, by simp [hfile], by omega, Or.inl hfile⟩
      rw [good_run_iff hinv, and_iff_right hlt]
    · -- `hostssize` is too small from the start
      have hshort : fsize P < P.length := fsize_lt (by omega)
      refine iff_of_false (fun hgood => ?_) (fun hand => hlt hand.1)
      refine not_good_of_short (P := P) hdaemon ?_ ?_ (by omega)
        (hgood [] es s rfl (.nil s) r) <;> simp [hpc]

def loopback : Bytes := lit "127.0.0.1\n"

/-- The daemon started on `loopback`. -/
def waiting : State := ⟨false, loopback, 10, .idle none, by decide⟩

/-- A `write_status` with a `SIGHUP` between `ftruncate` and the rest. -/
def interruptedWrite : List Event :=
  [.load [], .call, .call, .sighup, .call, .write 20, .write 16, .call]

theorem static_part_iff_interrupted :
    ∃ t, Run Step waiting interruptedWrite t ∧ t.file = loopback ++ writeStatus [] ∧
      Good loopback t := by
  have hstart : start false loopback = some waiting := by decide +kernel
  have hrun : interruptedWrite.foldlM step waiting
      = some ⟨false, loopback ++ writeStatus [], 10, .idle (some []), by decide⟩ := by decide +kernel
  have hread : interruptedWrite.foldlM
      (fun s e => if e = .sighup → ¬ Misread loopback s then step s e else none) waiting
        = some ⟨false, loopback ++ writeStatus [], 10, .idle (some []), by decide⟩ := by
    decide +kernel
  refine ⟨_, .of_foldlM hrun, rfl, (static_part_iff hstart (.of_foldlM hrun)).mpr ⟨rfl, by decide, ?_⟩
    interruptedWrite [] _ (append_nil _).symm (.of_foldlM hrun) (.nil _)⟩
  exact Run.forall_of_foldlM hread

/-- **A very long hosts file.**  Its size is `1` as an `int`, and so `SIGTERM` leaves one byte of it. -/
theorem long_file_cut :
    let P : Bytes := List.replicate (2 ^ 32 + 1) 0
    ∃ s es t, start false P = some s ∧ .sighup ∉ es ∧ Run Step s es t ∧ t.pc = .exited ∧
      t.file.length = 1 ∧ t.file ≠ P := by
  intro P
  have hlen : P.length = 2 ^ 32 + 1 := length_replicate
  have hone : fsize P = 1 := by
    rw [fsize, hlen]
    decide
  have hstart : ∃ s, start false P = some s := by
    rw [start, dif_neg (by omega)]
    exact ⟨_, rfl⟩
  obtain ⟨s, hs⟩ := hstart
  obtain ⟨hdaemon, hpc, hfile, hsize⟩ := start_eq hs
  obtain ⟨es, t, hread, r, htpc, htfile⟩ :=
    exists_exit hdaemon (s := s) (by simp [hpc]) (by simp [hpc])
  have htlen : t.file.length = 1 := by
    have hseen : s.seen = P.length := by rw [State.seen, hpc, hfile]
    rw [htfile, length_resize]
    omega
  refine ⟨s, es, t, hs, hread, r, htpc, htlen, ?_⟩
  intro heq
  rw [heq] at htlen
  omega

/-! ## A regenerated file -/

/-- The hosts file is replaced, and what `write_status` has completed before is no longer in it. -/
def State.replaced (s : State) (H : Bytes) : State :=
  { s with file := H, pc := match s.pc with
    | .idle _ => .idle none
    | pc => pc }

/-- The new file is not longer than `hostssize`, nor than what `fstat` has just said, and no `write`
goes on where the old file ended. -/
def Fits (H : Bytes) (s : State) : Prop :=
  match s.pc with
  | .idle _ | .opened _ | .truncated _ | .term | .termOpened => H.length ≤ s.hostssize
  | .statted _ tmpsize | .termStatted tmpsize => H.length ≤ s.hostssize ∧ H.length ≤ tmpsize
  | .writing _ offset done => H.length ≤ s.hostssize ∧ offset = H.length ∧ done = 0
  | .termTruncated | .exited => True

/-- **A `write` at an offset of the old file** adds the block to the new one only from its start. -/
lemma eq_of_writeAt {H block : Bytes} {offset done : ℕ} (hhead : block.head? = some newline)
    (hrest : block.drop done ≠ []) (h : writeAt offset (block.drop done) H = H ++ block) :
    offset = H.length ∧ done = 0 := by
  have hdone : done < block.length := by
    by_contra hge
    exact hrest (drop_eq_nil_of_le (by omega))
  have hlen := congrArg List.length h
  simp only [writeAt, length_append, length_resize, length_drop] at hlen
  have hoffset : offset = H.length + done := by omega
  have hfile : H ++ (List.replicate done 0 ++ block.drop done) = H ++ block := by
    have hdrop : H.drop (offset + (block.drop done).length) = [] :=
      drop_eq_nil_of_le (by omega)
    rw [← h, writeAt, hdrop, append_nil, resize, take_of_length_le (by omega), hoffset,
      Nat.add_sub_cancel_left, append_assoc]
  have hzero : done = 0 := by
    by_contra hne
    obtain ⟨k, rfl⟩ := Nat.exists_eq_succ_of_ne_zero hne
    rw [← List.append_cancel_left hfile, replicate_succ, cons_append, head?_cons] at hhead
    exact absurd hhead (by decide)
  omega

section Replaced

variable {H : Bytes} {x : State}

lemma lower_replaced {size : ℤ} (hH : H ≠ []) (hsize : H.length < 2 ^ 31 → size = H.length)
    (h : H.length ≤ s.hostssize) : ((s.replaced H).lower size).hostssize = H.length := by
  have hsmall := s.small
  have hpos : 0 < H.length := length_pos_iff.mpr hH
  have hreplaced : (s.replaced H).hostssize = s.hostssize := rfl
  rw [lower_hostssize]
  split_ifs <;> omega

lemma Fits.inv (h : Fits H s) (hxfg : x.foreground = false) (hxfile : x.file = H)
    (hxlen : H.length ≤ s.hostssize → x.hostssize = H.length) (hxpc : x.pc = (s.replaced H).pc)
    (hgone : s.pc ≠ .exited) : Inv H x := by
  have hsized (hle : H.length ≤ s.hostssize) : Sized H x :=
    ⟨hxfg, by simp [hxfile], (hxlen hle).ge, Or.inr (hxlen hle)⟩
  rw [State.replaced] at hxpc
  unfold Fits at h
  unfold Inv
  rw [hxpc]
  cases hpc : s.pc with
  | exited => exact absurd hpc hgone
  | termTruncated => exact hxfile
  | idle written | opened leases | term | termOpened =>
    rw [hpc] at h
    exact hsized h
  | statted leases n | termStatted n =>
    rw [hpc] at h
    exact ⟨hsized h.1, by rw [hxlen h.1]; exact min_eq_right h.2⟩
  | truncated leases =>
    rw [hpc] at h
    exact ⟨hsized h, hxfile, hxlen h⟩
  | writing leases offset done =>
    rw [hpc] at h
    obtain ⟨hle, rfl, rfl⟩ := h
    refine ⟨hsized hle, hxlen hle, (congrArg List.length hxfile).symm, ?_⟩
    rw [hxfile, (hsized hle).rest, drop_zero]

lemma Fits.of_good (hxfg : x.foreground = false) (hxfile : x.file = H)
    (hxle : x.hostssize ≤ s.hostssize) (hxpc : x.pc = (s.replaced H).pc) (hgone : s.pc ≠ .exited)
    (hgood : Good H x) : Fits H s := by
  -- a length below that of `H` is never raised
  have hsize : s.pc ≠ .termTruncated → H.length ≤ min x.seen s.hostssize := by
    by_contra hlt
    refine not_good_of_short hxfg ?_ ?_ (show min x.seen x.hostssize < H.length by omega) hgood <;>
      (rw [hxpc, State.replaced]; cases hpc : s.pc <;> simp_all)
  rw [Fits]
  cases hpc : s.pc with
  | exited | termTruncated => trivial
  | idle written | opened leases | truncated leases | term | termOpened =>
    have := hsize (by simp [hpc])
    omega
  | termStatted n =>
    have hn : x.seen = n := by rw [State.seen, hxpc, State.replaced, hpc]
    have := hsize (by simp [hpc])
    exact ⟨by omega, by omega⟩
  | statted leases n =>
    have := hsize (by simp [hpc])
    have hxn : x.pc = .statted leases n := by rw [hxpc, State.replaced, hpc]
    have hstep : Step x .call (x.shrink n (.truncated leases)) := by simp [Step, step, call, hxn]
    by_contra hlt
    refine not_good_of_short (s := x.shrink n (.truncated leases)) hxfg nofun nofun ?_
      (hgood.step hstep nofun)
    rw [shrink_hostssize]
    omega
  | writing leases offset done =>
    have := hsize (by simp [hpc])
    have hxw : x.pc = .writing leases offset done := by rw [hxpc, State.replaced, hpc]
    have hrest : ∀ k, x.rest leases k = (writeStatus leases).drop k := fun k => by
      rw [State.rest, hxfg, if_neg Bool.false_ne_true]
    have hhead : (writeStatus leases).head? = some newline := rfl
    refine ⟨by omega, ?_⟩
    by_cases hnil : x.rest leases done = []
    · -- the whole block has gone to the old file
      have hstep : Step x .call (x.goto (.idle (some leases))) := by
        simp [Step, step, call, hxw, hnil]
      have hfile : H = H ++ writeStatus leases :=
        hxfile.symm.trans ((hgood.step hstep nofun [] _ not_mem_nil (.nil _)).written leases rfl)
      rw [self_eq_append_right] at hfile
      rw [hfile] at hhead
      cases hhead
    · set n := (x.rest leases done).length with hn
      have hpos : 0 < n := length_pos_iff.mpr hnil
      set y : State := { x with file := writeAt offset (x.rest leases done) x.file,
                                pc := .writing leases (offset + n) (done + n) } with hy
      have hwrite : Step x (.write n) y := by
        simp [Step, step, hxw, hpos, ← hn, hy, take_of_length_le hn.ge]
      have hend : y.rest leases (done + n) = [] := by
        show x.rest leases (done + n) = []
        rw [hrest, length_drop] at hn
        rw [hrest, drop_eq_nil_iff]
        omega
      have hclose : Step y .call (y.goto (.idle (some leases))) := if_pos hend
      have hfile := (((hgood.step hwrite nofun).step hclose nofun) [] _ not_mem_nil
        (.nil _)).written leases rfl
      rw [hrest] at hnil
      exact eq_of_writeAt hhead hnil (by simpa [hy, State.goto, hxfile, hrest] using hfile)

end Replaced

end FreeSense.Dhcpleases
