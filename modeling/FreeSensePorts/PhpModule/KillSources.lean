import Mathlib.Data.List.Chain
import FreeSensePorts.PhpModule.Kill

/-!
# Which sources are killed

Without a destination the loop asks for every entry but those it takes for repetitions: the first
sixteen bytes of the socket address are those of the entry before.  For IPv4 that is the whole
address.  For IPv6 it ends in the middle of it, so two neighbours of one `/64` count as one.
-/

namespace FreeSense.PhpModule

open List hiding Vector

variable {a b : Inet} {l : List Inet}

namespace Inet

def key (a : Inet) : List UInt8 := (a.sockaddr 0).take 16

/-- Different addresses with the same first half. -/
def Clash : Inet → Inet → Prop
  | v6 a, v6 b => a.toList.take 8 = b.toList.take 8 ∧ a ≠ b
  | _, _ => False

theorem Clash.ne (h : a.Clash b) : a ≠ b := by
  rintro rfl
  cases a with
  | v4 a => exact h
  | v6 a => exact h.2 rfl

theorem key_v4 (a : Vector UInt8 4) :
    (v4 a).key = [16, 2, 0, 0] ++ (a.toList ++ List.replicate 8 0) := by
  rw [key, sockaddr]
  exact take_of_length_le (by simp)

theorem key_v6 (a : Vector UInt8 16) :
    (v6 a).key = [28, 28, 0, 0, 0, 0, 0, 0] ++ a.toList.take 8 := by
  rw [key, sockaddr, append_assoc, take_append, take_append_of_le_length (by simp)]
  rfl

theorem key_eq_iff (a b : Inet) : a.key = b.key ↔ a = b ∨ a.Clash b := by
  cases a with
  | v4 a =>
    cases b with
    | v4 b =>
      rw [key_v4, key_v4, append_cancel_left_eq, append_cancel_right_eq,
        Vector.toList_inj]
      simp [Clash]
    | v6 b => simp [key_v4, key_v6, Clash]
  | v6 a =>
    cases b with
    | v4 b => simp [key_v4, key_v6, Clash]
    | v6 b =>
      rw [key_v6, key_v6]
      by_cases hab : a = b
      · simp [hab]
      · simp [hab, Clash]

theorem key_ne_ones (a : Inet) : a.key ≠ ones := by
  intro h
  have hhead := congrArg List.head? h
  cases a with
  | v4 addr => simp [key, sockaddr, ones] at hhead
  | v6 addr => simp [key, sockaddr, ones] at hhead

end Inet

/-- The source address of a request. -/
def Kill.Asks (k : Kill) : Inet → Prop
  | .v4 a => k.af = afInet ∧ k.srcAddr.take 4 = a.toList
  | .v6 a => k.af = afInet6 ∧ k.srcAddr = a.toList

theorem Kill.Asks.unique {k : Kill} (ha : k.Asks a) (hb : k.Asks b) : a = b := by
  cases a with
  | v4 a =>
    cases b with
    | v4 b => exact congrArg _ (Vector.toList_inj.1 (ha.2.symm.trans hb.2))
    | v6 b => exact absurd (ha.1.symm.trans hb.1) (by decide)
  | v6 a =>
    cases b with
    | v4 b => exact absurd (ha.1.symm.trans hb.1) (by decide)
    | v6 b => exact congrArg _ (Vector.toList_inj.1 (ha.2.symm.trans hb.2))

/-! ## The loop -/

section

variable {μ : Type} {lib : Resolver} {killer : Killer μ} {w : Work μ}

def obeys (μ : Type) : Kernel μ := fun _ _ => true

theorem requestUntil_obeys (marks : List μ) (w : Work μ) :
    requestUntil (obeys μ) killer marks w =
      ({ w with requests := w.requests ++ marks.map fun m => (w.kill, m) }, true) := by
  induction marks generalizing w with
  | nil => simp [requestUntil]
  | cons m marks ih =>
    rw [requestUntil]
    simp only [request, obeys, if_true]
    refine (ih _).trans ?_
    simp

theorem withoutDst_obeys (w : Work μ) :
    withoutDst (obeys μ) killer w =
      ({ w with requests := w.requests ++ killer.marks.map fun m => (w.kill, m) }, .next) := by
  rw [withoutDst, requestUntil_obeys]
  rfl

/-- One entry: it is passed over if its key is the last one, and asked for otherwise. -/
theorem srcStep_inet (lib : Resolver) (a : Inet) (hmarks : killer.marks ≠ []) :
    ∃ w' new, srcStep lib (obeys μ) killer false w (a.info 0) = (w', .next) ∧
      w'.requests = w.requests ++ new ∧ w'.lastSrc = a.key ∧ (∀ r ∈ new, r.1.Asks a) ∧
      (new = [] ↔ a.key = w.lastSrc) := by
  by_cases hlast : a.key = w.lastSrc
  · refine ⟨w, [], ?_, (append_nil _).symm, hlast.symm, by simp, by simp [hlast]⟩
    exact if_pos hlast
  · have hstep : ∃ k : Kill, k.Asks a ∧
        srcStep lib (obeys μ) killer false w (a.info 0) =
          ({ w with
            lastSrc := a.key, kill := k, requests := w.requests ++ killer.marks.map fun m => (k, m) },
          .next) := by
      cases a with
      | v4 addr =>
        refine ⟨{ w.kill with
          af := afInet, srcAddr := setInet ((Inet.v4 addr).sockaddr 0) w.kill.srcAddr },
          ⟨rfl, by simp [setInet, Inet.sockaddr]⟩, ?_⟩
        refine (if_neg hlast).trans ?_
        exact withoutDst_obeys _
      | v6 addr =>
        refine ⟨{ w.kill with
          af := afInet6, srcAddr := inet6Addr ((Inet.v6 addr).sockaddr 0) },
          ⟨rfl, by simp [inet6Addr, Inet.sockaddr]⟩, ?_⟩
        refine (if_neg hlast).trans ?_
        exact withoutDst_obeys _
    obtain ⟨k, hk, hstep⟩ := hstep
    refine ⟨_, _, hstep, rfl, rfl, ?_, by simp [hmarks, hlast]⟩
    intro r hr
    obtain ⟨m, -, rfl⟩ := mem_map.1 hr
    exact hk

/-- The loop over a list of addresses. -/
def askAll (lib : Resolver) (killer : Killer μ) (l : List Inet) (w : Work μ) : Work μ :=
  (srcLoop lib (obeys μ) killer false (l.map (Inet.info 0)) w).1

theorem askAll_cons (a : Inet) (l : List Inet) (hmarks : killer.marks ≠ []) :
    askAll lib killer (a :: l) w = askAll lib killer l (askAll lib killer [a] w) := by
  obtain ⟨w', new, hstep, -⟩ := srcStep_inet (w := w) lib a hmarks
  simp only [askAll, map_cons, map_nil, srcLoop, hstep]

theorem askAll_append (front back : List Inet) (hmarks : killer.marks ≠ []) :
    askAll lib killer (front ++ back) w = askAll lib killer back (askAll lib killer front w) := by
  induction front generalizing w with
  | nil => rfl
  | cons a front ih =>
    rw [cons_append, askAll_cons a (front ++ back) hmarks, ih, ← askAll_cons a front hmarks]

/-- The addresses that the loop asks for. -/
def kept (last : List UInt8) : List Inet → List Inet
  | [] => []
  | a :: l => if a.key = last then kept a.key l else a :: kept a.key l

theorem askAll_inet (lib : Resolver) (l : List Inet) (hmarks : killer.marks ≠ []) :
    ∃ new, (askAll lib killer l w).requests = w.requests ++ new ∧
      (askAll lib killer l w).lastSrc = (l.getLast?.map Inet.key).getD w.lastSrc ∧
      (∀ a, (∃ r ∈ new, r.1.Asks a) ↔ a ∈ kept w.lastSrc l) ∧
      (new = [] ↔ kept w.lastSrc l = []) := by
  induction l generalizing w with
  | nil => exact ⟨[], by simp [askAll, srcLoop], rfl, by simp [kept], by simp [kept]⟩
  | cons b l ih =>
    obtain ⟨w', new, hstep, hreq, hlast, hnew, hempty⟩ := srcStep_inet (w := w) lib b hmarks
    obtain ⟨later, hreq', hlast', hasks, hempty'⟩ := ih (w := w')
    have hrun : askAll lib killer (b :: l) w = askAll lib killer l w' := by
      simp only [askAll, map_cons, srcLoop, hstep]
    rw [hrun, kept]
    refine ⟨new ++ later, by rw [hreq', hreq, append_assoc], ?_, ?_, ?_⟩
    · rw [hlast', getLast?_cons, hlast]
      cases l.getLast? <;> rfl
    · intro a
      rw [hlast] at hasks
      simp only [mem_append, or_and_right, exists_or, hasks]
      split_ifs with hsame
      · simp [hempty.2 hsame]
      · rw [mem_cons]
        refine or_congr_left ⟨fun ⟨r, hr, ha⟩ => ha.unique (hnew r hr), ?_⟩
        rintro rfl
        obtain ⟨r, hr⟩ := exists_mem_of_ne_nil _ fun h => hsame (hempty.1 h)
        exact ⟨r, hr, hnew r hr⟩
    · rw [hlast] at hempty'
      rw [append_eq_nil_iff, hempty, hempty']
      split_ifs with hsame <;> simp [hsame]

theorem mem_of_mem_kept {last : List UInt8} (h : a ∈ kept last l) : a ∈ l := by
  induction l generalizing last with
  | nil => exact absurd h not_mem_nil
  | cons b l ih =>
    rw [kept] at h
    split_ifs at h
    · exact mem_cons_of_mem _ (ih h)
    · rcases mem_cons.1 h with rfl | h
      · exact mem_cons_self
      · exact mem_cons_of_mem _ (ih h)

/-- Where no neighbours clash, what is passed over is the entry before. -/
theorem mem_kept (hl : (b :: l).IsChain fun a b => ¬ a.Clash b) (ha : a ∈ l) :
    a ∈ kept b.key l ∨ a = b := by
  induction l generalizing b with
  | nil => exact absurd ha not_mem_nil
  | cons c l ih =>
    rw [isChain_cons_cons] at hl
    rw [kept]
    split_ifs with hsame
    · obtain rfl : b = c := ((Inet.key_eq_iff b c).1 hsame.symm).resolve_right hl.1
      rcases mem_cons.1 ha with rfl | ha
      · exact .inr rfl
      · exact ih hl.2 ha
    · left
      rcases mem_cons.1 ha with rfl | ha
      · exact mem_cons_self
      · rcases ih hl.2 ha with h | rfl
        · exact mem_cons_of_mem _ h
        · exact mem_cons_self

theorem mem_kept_ones (hl : l.IsChain fun a b => ¬ a.Clash b) : a ∈ kept ones l ↔ a ∈ l := by
  refine ⟨mem_of_mem_kept, fun ha => ?_⟩
  cases l with
  | nil => exact absurd ha not_mem_nil
  | cons b l =>
    rw [kept, if_neg b.key_ne_ones]
    rcases mem_cons.1 ha with rfl | ha
    · exact mem_cons_self
    · rcases mem_kept hl ha with h | rfl
      · exact mem_cons_of_mem _ h
      · exact mem_cons_self

/-- The loop issues nothing for an entry after these. -/
def Skips (lib : Resolver) (killer : Killer μ) (w : Work μ) (front : List Inet) (a : Inet) : Prop :=
  (askAll lib killer (front ++ [a]) w).requests = (askAll lib killer front w).requests

theorem skips_iff (hmarks : killer.marks ≠ []) (hlast : w.lastSrc = ones) (front : List Inet)
    (a : Inet) :
    Skips lib killer w front a ↔ ∃ b, front.getLast? = some b ∧ a.key = b.key := by
  obtain ⟨-, -, hfront, -⟩ := askAll_inet (w := w) lib front hmarks
  obtain ⟨new, hreq, -, -, hempty⟩ := askAll_inet (w := askAll lib killer front w)
    lib [a] hmarks
  rw [Skips, askAll_append _ _ hmarks, hreq, append_right_eq_self, hempty, hfront, hlast]
  cases front.getLast? with
  | none => simp [kept, a.key_ne_ones]
  | some b => by_cases hsame : a.key = b.key <;> simp [kept, hsame]

end

/-! ## `FreeSense_kill_states` without a destination -/

/-- **Every resolved address is reached, and only a repetition is skipped**, exactly where no two
neighbours are different IPv6 addresses with the same first eight bytes. -/
theorem sources_reached_iff (lib : Resolver) (ip1 : Text) (iface proto : Option Text)
    (l : List Inet) (hs : Source lib ip1 (l.map (Inet.info 0))) :
    ((∀ a : Inet, (∃ r ∈ (killStates lib (obeys _) ip1 none iface proto).1.requests, r.1.Asks a) ↔
        a ∈ l) ∧
      ∀ front a back, l = front ++ a :: back →
        Skips lib (statesKiller iface proto) (start lib ip1 [] (ifaceNotice iface)) front a →
        front.getLast? = some a) ↔
      l.IsChain fun a b => ¬ a.Clash b := by
  have hmarks : (statesKiller iface proto).marks ≠ [] := cons_ne_nil _ _
  constructor
  · rintro ⟨-, hskips⟩
    rw [isChain_iff_forall_rel_of_append_cons_cons]
    intro a b front back hl hclash
    have hsame := (Inet.key_eq_iff a b).2 (.inr hclash)
    have hskip := hskips (front ++ [a]) b back (by simpa using hl)
      ((skips_iff hmarks rfl _ _).2 ⟨a, by simp, hsame.symm⟩)
    rw [getLast?_concat, Option.some_inj] at hskip
    exact hclash.ne hskip
  · intro hl
    refine ⟨fun a => ?_, fun front a back heq hskip => ?_⟩
    · obtain ⟨new, hreq, -, hasks, -⟩ :=
        askAll_inet (w := start lib ip1 [] (ifaceNotice iface)) lib l hmarks
      have hrun : (killStates lib (obeys _) ip1 none iface proto).1.requests = new := by
        rw [killStates, killBy_eq (obeys _) _ _ _ hs]
        exact hreq.trans (nil_append _)
      rw [hrun, hasks]
      exact mem_kept_ones hl
    · obtain ⟨b, hlast, hsame⟩ := (skips_iff hmarks rfl _ _).1 hskip
      obtain ⟨front, rfl⟩ := getLast?_eq_some_iff.1 hlast
      rw [append_assoc] at heq
      have hno := isChain_iff_forall_rel_of_append_cons_cons.1 hl heq
      rw [hlast, ((Inet.key_eq_iff b a).1 hsame.symm).resolve_right hno]

def hostWith (a b : Inet) : Resolver where
  getaddrinfo _ _ := .ok (a.info 0, [b.info 0])

theorem source_hostWith (a b : Inet) :
    Source (hostWith a b) "host".toList ([a, b].map (Inet.info 0)) where
  accepted := rfl
  resolved := ⟨_, _, rfl, rfl⟩

/-- `2001:db8::n`. -/
def docAddr (n : UInt8) : Inet := .v6 #v[0x20, 0x01, 0x0d, 0xb8, 0, 0, 0, 0, 0, 0, 0, 0, 0, 0, 0, n]

theorem sources_reached_iff_mixed :
    (∃ r ∈ (killStates (hostWith (docAddr 1) (.v4 #v[192, 0, 2, 1])) (obeys _) "host".toList none
      none none).1.requests, r.1.Asks (docAddr 1)) :=
  (((sources_reached_iff _ "host".toList none none [docAddr 1, .v4 #v[192, 0, 2, 1]]
    (source_hostWith _ _)).2 (by simp [docAddr, Inet.Clash])).1 (docAddr 1)).2 mem_cons_self

/-- The second of two addresses of one network is not asked for. -/
theorem second_source_missed :
    ¬ ∃ r ∈ (killStates (hostWith (docAddr 1) (docAddr 2)) (obeys _) "host".toList none none
      none).1.requests, r.1.Asks (docAddr 2) := by
  rintro ⟨r, hr, -, hasks⟩
  have hall : ((killStates (hostWith (docAddr 1) (docAddr 2)) (obeys _) "host".toList none none
      none).1.requests.map fun r => r.1.srcAddr.getLast?) = [some 1, some 1] := by decide
  have hmem := mem_map_of_mem (f := fun r : Kill × StatesMark => r.1.srcAddr.getLast?) hr
  rw [hasks] at hmem
  exact absurd hmem (by decide)

end FreeSense.PhpModule
