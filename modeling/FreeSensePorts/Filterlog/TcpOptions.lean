import FreeSensePorts.Filterlog.Tcp
import Mathlib.Logic.Relation

/-!
# The walk over TCP options

The loop of `tcp_print` tests the length byte of an option against what remains of the header, but not
whether there is one, and then skips a number of bytes that depends on the type of the option alone.
So it stays inside the header only for options that are laid out as their types demand (`Tidy`), up to
the first end of the list or the first length that is refused.
-/

namespace FreeSense.Filterlog

open List Printer

variable {mem : Memory} {w w' : Walk}

/-! ## One pass -/

def kindAt (mem : Memory) (p : ℕ) : ℕ := (mem p).toNat

def lengthByte (mem : Memory) (p : ℕ) : ℕ := (mem (p + 1)).toNat

/-- The length of an option: its length byte, one if it has none. -/
def lengthAt (mem : Memory) (p : ℕ) : ℕ := if zerolenopt (kindAt mem p) then 1 else lengthByte mem p

lemma zerolenopt_iff {opt : ℕ} : zerolenopt opt = true ↔ opt = tcpoptEol ∨ opt = tcpoptNop := by
  rw [zerolenopt, decide_eq_true_eq]

lemma optionPass_of_zerolenopt (h : zerolenopt (kindAt mem w.cp) = true) :
    (optionPass mem w).value = (optionData (w.cp + 1) (sub32 w.hlen 1) (kindAt mem w.cp) 1).value ∧
      (optionPass mem w).reads = [w.cp] := by
  have hbranch : zerolenopt (byte mem w.cp).value = true := h
  simp only [optionPass, value_bind, reads_bind, if_pos hbranch]
  exact ⟨rfl, rfl⟩

lemma optionPass_of_not_zerolenopt (h : zerolenopt (kindAt mem w.cp) = false) :
    (optionPass mem w).value = (sizedOption w (kindAt mem w.cp) (lengthByte mem w.cp)).value ∧
      (optionPass mem w).reads = [w.cp, w.cp + 1] := by
  have hbranch : ¬zerolenopt (byte mem w.cp).value = true := by
    rw [Bool.not_eq_true]
    exact h
  have hreads : ∀ opt len, (sizedOption w opt len).reads = [] := by
    intro opt len
    unfold sizedOption
    split_ifs <;> rfl
  simp only [optionPass, value_bind, reads_bind, if_neg hbranch, hreads]
  exact ⟨rfl, rfl⟩

section Pass

variable (hpos : w.hlen ≠ 0) (hlt : w.hlen < 2 ^ 32)

include hpos hlt

lemma optionPass_eol (h : kindAt mem w.cp = tcpoptEol) :
    (optionPass mem w).value = .eol ⟨w.cp + 1, w.hlen - 1, some ';'⟩ := by
  have hsub : sub32 (sub32 w.hlen 1) 0 = w.hlen - 1 := by
    rw [sub32_of_le hlt (by omega), sub32_of_le (by omega) (by omega), Nat.sub_zero]
  rw [(optionPass_of_zerolenopt (zerolenopt_iff.mpr (.inl h))).1, h, ← hsub]
  rfl

lemma optionPass_nop (h : kindAt mem w.cp = tcpoptNop) :
    (optionPass mem w).value = .next ⟨w.cp + 1, w.hlen - 1, some ';'⟩ := by
  have hsub : sub32 (sub32 w.hlen 1) 0 = w.hlen - 1 := by
    rw [sub32_of_le hlt (by omega), sub32_of_le (by omega) (by omega), Nat.sub_zero]
  rw [(optionPass_of_zerolenopt (zerolenopt_iff.mpr (.inr h))).1, h, ← hsub]
  rfl

end Pass

lemma optionPass_bad (hkind : zerolenopt (kindAt mem w.cp) = false)
    (h : lengthByte mem w.cp < 2 ∨ w.hlen < lengthByte mem w.cp) : (optionPass mem w).value = .bad := by
  rw [(optionPass_of_not_zerolenopt hkind).1, sizedOption, if_pos h, value_pure]

lemma optionPass_option (hlt : w.hlen < 2 ^ 32) (hkind : zerolenopt (kindAt mem w.cp) = false)
    (hlen : 2 ≤ lengthByte mem w.cp) (hle : lengthByte mem w.cp ≤ w.hlen) :
    (optionPass mem w).value = .next ⟨w.cp + 2 + datalen (kindAt mem w.cp) (lengthByte mem w.cp),
      sub32 (w.hlen - 2) (datalen (kindAt mem w.cp) (lengthByte mem w.cp)), some ';'⟩ := by
  have hne : kindAt mem w.cp ≠ tcpoptEol := by
    intro heq
    rw [zerolenopt_iff.mpr (.inl heq)] at hkind
    cases hkind
  have hsub : sub32 (sub32 w.hlen 1) 1 = w.hlen - 2 := by
    rw [sub32_of_le hlt (by omega), sub32_of_le (by omega) (by omega)]
    omega
  rw [(optionPass_of_not_zerolenopt hkind).1, sizedOption, if_neg (by omega), optionData, value_bind,
    value_pure, if_neg hne, hsub]

/-! ## The whole walk -/

/-- The next pass. -/
def Passes (mem : Memory) (w w' : Walk) : Prop := w.hlen ≠ 0 ∧ (optionPass mem w).value = .next w'

/-- The loop goes over the option and on behind it, or ends there. -/
def Skips (mem : Memory) (w w' : Walk) : Prop :=
  w.hlen ≠ 0 ∧ ((optionPass mem w).value = .next w' ∨ (optionPass mem w).value = .eol w')

/-- Where the walk over the options of a header begins. -/
def firstOption (mem : Memory) (bp : ℕ) : Walk :=
  ⟨bp + tcphdrSize, headerLength mem bp - tcphdrSize, none⟩

def Reaches (mem : Memory) (bp : ℕ) : Walk → Prop :=
  Relation.ReflTransGen (Passes mem) (firstOption mem bp)

/-- **A safe walk**: it reads bytes of the header only, its counter goes down by what is skipped and
never below zero, each option is skipped as a whole, and there are at most forty passes. -/
structure SafeWalk (mem : Memory) (bp : ℕ) : Prop where
  inside : ∀ fuel, ∀ i ∈ (options mem fuel (firstOption mem bp)).reads,
    bp ≤ i ∧ i < bp + headerLength mem bp
  counter : ∀ w w', Reaches mem bp w → Skips mem w w' → w.hlen = w'.hlen + (w'.cp - w.cp)
  advance : ∀ w w', Reaches mem bp w → Skips mem w w' → w'.cp = w.cp + lengthAt mem w.cp
  ends : (options mem 40 (firstOption mem bp)).value = some ()

/-- Options that are laid out as their types demand, in the bytes that remain, up to an end of the list
or a length that is refused. -/
inductive Tidy (mem : Memory) : ℕ → ℕ → Prop
  | done {p rest : ℕ} (hrest : rest = 0) : Tidy mem p rest
  | eol {p rest : ℕ} (hrest : rest ≠ 0) (hkind : kindAt mem p = tcpoptEol) : Tidy mem p rest
  | nop {p rest : ℕ} (hrest : rest ≠ 0) (hkind : kindAt mem p = tcpoptNop)
      (tail : Tidy mem (p + 1) (rest - 1)) : Tidy mem p rest
  | refused {p rest : ℕ} (hrest : 2 ≤ rest) (hkind : zerolenopt (kindAt mem p) = false)
      (hbad : lengthByte mem p < 2 ∨ rest < lengthByte mem p) : Tidy mem p rest
  | option {p rest : ℕ} (hrest : lengthByte mem p ≤ rest) (hkind : zerolenopt (kindAt mem p) = false)
      (hsize : lengthByte mem p = 2 + datalen (kindAt mem p) (lengthByte mem p))
      (tail : Tidy mem (p + lengthByte mem p) (rest - lengthByte mem p)) : Tidy mem p rest

/-- An option is skipped as it should be. -/
structure Covers (mem : Memory) (w w' : Walk) : Prop where
  counter : w.hlen = w'.hlen + (w'.cp - w.cp)
  advance : w'.cp = w.cp + lengthAt mem w.cp
  less : w'.hlen < w.hlen

lemma Tidy.turn (h : Tidy mem w.cp w.hlen) (hpos : w.hlen ≠ 0) (hlt : w.hlen < 2 ^ 32) :
    (optionPass mem w).value = .bad ∨
      (∃ w', (optionPass mem w).value = .eol w' ∧ Covers mem w w') ∨
      ∃ w', (optionPass mem w).value = .next w' ∧ Covers mem w w' ∧ Tidy mem w'.cp w'.hlen := by
  cases h with
  | done hrest => exact absurd hrest hpos
  | eol _ hkind =>
    have hone : lengthAt mem w.cp = 1 := if_pos (zerolenopt_iff.mpr (.inl hkind))
    refine .inr (.inl ⟨_, optionPass_eol hpos hlt hkind, ?_, ?_, ?_⟩) <;> dsimp only <;> omega
  | nop _ hkind tail =>
    have hone : lengthAt mem w.cp = 1 := if_pos (zerolenopt_iff.mpr (.inr hkind))
    refine .inr (.inr ⟨_, optionPass_nop hpos hlt hkind, ⟨?_, ?_, ?_⟩, tail⟩) <;> dsimp only <;> omega
  | refused _ hkind hbad => exact .inl (optionPass_bad hkind hbad)
  | option hrest hkind hsize tail =>
    have hlen : lengthAt mem w.cp = lengthByte mem w.cp := if_neg (by simp [hkind])
    have hsub : sub32 (w.hlen - 2) (datalen (kindAt mem w.cp) (lengthByte mem w.cp))
        = w.hlen - lengthByte mem w.cp := by
      rw [sub32_of_le (by omega) (by omega)]
      omega
    have hcp : w.cp + 2 + datalen (kindAt mem w.cp) (lengthByte mem w.cp)
        = w.cp + lengthByte mem w.cp := by omega
    have hpass := optionPass_option hlt hkind (by omega) hrest
    rw [hsub, hcp] at hpass
    refine .inr (.inr ⟨_, hpass, ⟨?_, ?_, ?_⟩, tail⟩) <;> dsimp only <;> omega

lemma Tidy.covers (h : Tidy mem w.cp w.hlen) (hlt : w.hlen < 2 ^ 32) (hs : Skips mem w w') :
    Covers mem w w' := by
  obtain ⟨hpos, hs⟩ := hs
  rcases h.turn hpos hlt with hbad | ⟨w₁, heol, hcovers⟩ | ⟨w₁, hnext, hcovers, -⟩
  · simp [hbad] at hs
  · simp only [heol, reduceCtorEq, Turn.eol.injEq, false_or] at hs
    exact hs ▸ hcovers
  · simp only [hnext, reduceCtorEq, Turn.next.injEq, or_false] at hs
    exact hs ▸ hcovers

lemma Tidy.passes (h : Tidy mem w.cp w.hlen) (hlt : w.hlen < 2 ^ 32) (hp : Passes mem w w') :
    Tidy mem w'.cp w'.hlen := by
  obtain ⟨hpos, hp⟩ := hp
  rcases h.turn hpos hlt with hbad | ⟨w₁, heol, -⟩ | ⟨w₁, hnext, -, htail⟩
  · simp [hbad] at hp
  · simp [heol] at hp
  · rw [hnext, Turn.next.injEq] at hp
    exact hp ▸ htail

lemma Tidy.reads (h : Tidy mem w.cp w.hlen) (hpos : w.hlen ≠ 0) :
    ∀ i ∈ (optionPass mem w).reads, w.cp ≤ i ∧ i < w.cp + w.hlen := by
  have hone : zerolenopt (kindAt mem w.cp) = true →
      ∀ i ∈ (optionPass mem w).reads, w.cp ≤ i ∧ i < w.cp + w.hlen := by
    intro hkind i hi
    rw [(optionPass_of_zerolenopt hkind).2, mem_singleton] at hi
    omega
  have htwo : zerolenopt (kindAt mem w.cp) = false → 2 ≤ w.hlen →
      ∀ i ∈ (optionPass mem w).reads, w.cp ≤ i ∧ i < w.cp + w.hlen := by
    intro hkind hrest i hi
    rw [(optionPass_of_not_zerolenopt hkind).2, mem_cons, mem_singleton] at hi
    omega
  cases h with
  | done hrest => exact absurd hrest hpos
  | eol _ hkind => exact hone (zerolenopt_iff.mpr (.inl hkind))
  | nop _ hkind _ => exact hone (zerolenopt_iff.mpr (.inr hkind))
  | refused hrest hkind _ => exact htwo hkind hrest
  | option hrest hkind hsize _ => exact htwo hkind (by omega)

/-! ## Runs -/

lemma options_of_zero (h : w.hlen = 0) (fuel : ℕ) : options mem fuel w = pure (some ()) := by
  cases fuel with
  | zero => rw [options, if_pos h]
  | succ fuel => rw [options, if_pos h]

lemma mem_reads_options (hpos : w.hlen ≠ 0) {i : ℕ} (h : i ∈ (optionPass mem w).reads) (fuel : ℕ) :
    i ∈ (options mem (fuel + 1) w).reads := by
  rw [options, if_neg hpos]
  exact mem_append_left _ h

lemma options_next (hpos : w.hlen ≠ 0) (h : (optionPass mem w).value = .next w') (fuel : ℕ) :
    (options mem (fuel + 1) w).value = (options mem fuel w').value ∧
      (options mem (fuel + 1) w).reads = (optionPass mem w).reads ++ (options mem fuel w').reads := by
  rw [options, if_neg hpos, value_bind, reads_bind, h]
  exact ⟨rfl, rfl⟩

lemma options_stop (hpos : w.hlen ≠ 0) (h : ∀ w', (optionPass mem w).value ≠ .next w') (fuel : ℕ) :
    (options mem (fuel + 1) w).value = some () ∧
      (options mem (fuel + 1) w).reads = (optionPass mem w).reads := by
  rw [options, if_neg hpos, value_bind, reads_bind]
  cases hvalue : (optionPass mem w).value with
  | next w' => exact absurd hvalue (h w')
  | eol w' => exact ⟨rfl, append_nil _⟩
  | bad => exact ⟨rfl, append_nil _⟩

/-- A run over tidy options stays inside them, and ends once there is a pass for each byte. -/
lemma Tidy.run (h : Tidy mem w.cp w.hlen) (hlt : w.hlen < 2 ^ 32) (fuel : ℕ) :
    (∀ i ∈ (options mem fuel w).reads, w.cp ≤ i ∧ i < w.cp + w.hlen) ∧
      (w.hlen ≤ fuel → (options mem fuel w).value = some ()) := by
  induction fuel generalizing w with
  | zero =>
    refine ⟨fun i hi => absurd hi not_mem_nil, fun hle => ?_⟩
    rw [options_of_zero (by omega), value_pure]
  | succ fuel ih =>
    by_cases hpos : w.hlen = 0
    · rw [options_of_zero hpos]
      exact ⟨fun i hi => absurd hi not_mem_nil, fun _ => rfl⟩
    by_cases hnext : ∃ w', (optionPass mem w).value = .next w'
    · obtain ⟨w', hw'⟩ := hnext
      have hcovers := h.covers hlt ⟨hpos, .inl hw'⟩
      obtain ⟨hadvance, hcounter, hless⟩ := hcovers
      obtain ⟨hreads, hvalue⟩ := ih (h.passes hlt ⟨hpos, hw'⟩) (by omega)
      rw [(options_next hpos hw' fuel).1, (options_next hpos hw' fuel).2]
      refine ⟨fun i hi => ?_, fun hle => hvalue (by omega)⟩
      rcases mem_append.mp hi with hi | hi
      · exact h.reads hpos i hi
      · have := hreads i hi
        omega
    · have hstop := options_stop hpos (not_exists.mp hnext) fuel
      rw [hstop.1, hstop.2]
      exact ⟨h.reads hpos, fun _ => rfl⟩

/-- Everything a run reads that starts at a state which is reached, the walk reads as well. -/
lemma reads_of_reaches {bp : ℕ} (h : Reaches mem bp w) : ∃ n, ∀ fuel,
    ∀ i ∈ (options mem fuel w).reads, i ∈ (options mem (n + fuel) (firstOption mem bp)).reads := by
  induction h with
  | refl => exact ⟨0, fun fuel i hi => by rwa [Nat.zero_add]⟩
  | @tail w w' _ hpass ih =>
    obtain ⟨n, hn⟩ := ih
    refine ⟨n + 1, fun fuel i hi => ?_⟩
    have hin : i ∈ (options mem (fuel + 1) w).reads := by
      rw [(options_next hpass.1 hpass.2 fuel).2]
      exact mem_append_right _ hi
    have hstart := hn (fuel + 1) i hin
    rwa [Nat.add_assoc, Nat.add_comm 1 fuel]

/-- A walk that is safe is over tidy options, from every state it reaches on. -/
lemma SafeWalk.tidy {bp : ℕ} (h : SafeWalk mem bp) : ∀ (n : ℕ) (w : Walk), w.hlen = n →
    Reaches mem bp w → w.cp + w.hlen = bp + headerLength mem bp → w.hlen < 2 ^ 32 →
    Tidy mem w.cp w.hlen := by
  intro n
  induction n using Nat.strong_induction_on with
  | _ n ih =>
    intro w hn hreach hend hlt
    by_cases hpos : w.hlen = 0
    · exact .done hpos
    by_cases heol : kindAt mem w.cp = tcpoptEol
    · exact .eol hpos heol
    by_cases hnop : kindAt mem w.cp = tcpoptNop
    · refine .nop hpos hnop ?_
      have hpass := optionPass_nop hpos hlt hnop
      refine ih (w.hlen - 1) (by omega) _ rfl (hreach.tail ⟨hpos, hpass⟩) ?_ ?_ <;> dsimp only <;> omega
    have hkind : zerolenopt (kindAt mem w.cp) = false := by
      rw [← Bool.not_eq_true, zerolenopt_iff, not_or]
      exact ⟨heol, hnop⟩
    -- the length byte is read, so it is a byte of the header
    have hrest : 2 ≤ w.hlen := by
      have hin : w.cp + 1 ∈ (optionPass mem w).reads := by
        rw [(optionPass_of_not_zerolenopt hkind).2]
        simp
      obtain ⟨k, hk⟩ := reads_of_reaches hreach
      have := h.inside _ _ (hk 1 _ (mem_reads_options hpos hin 0))
      omega
    by_cases hbad : lengthByte mem w.cp < 2 ∨ w.hlen < lengthByte mem w.cp
    · exact .refused hrest hkind hbad
    have hpass := optionPass_option hlt hkind (by omega) (by omega)
    have hskips : Skips mem w _ := ⟨hpos, .inl hpass⟩
    have hadvance := h.advance w _ hreach hskips
    have hcounter := h.counter w _ hreach hskips
    rw [lengthAt, hkind, if_neg (by simp)] at hadvance
    dsimp only at hadvance hcounter
    have htail := ih (sub32 (w.hlen - 2) (datalen (kindAt mem w.cp) (lengthByte mem w.cp))) (by omega) _
      rfl (hreach.tail ⟨hpos, hpass⟩) (by dsimp only; omega) (by dsimp only; omega)
    rw [hadvance] at htail
    refine .option (by omega) hkind (by omega) ?_
    rwa [show w.hlen - lengthByte mem w.cp
      = sub32 (w.hlen - 2) (datalen (kindAt mem w.cp) (lengthByte mem w.cp)) by omega]

/-- **The option walk of `tcp_print`** is safe exactly if the options are laid out as their types
demand. -/
theorem safeWalk_iff (mem : Memory) (bp : ℕ) (h : tcphdrSize ≤ headerLength mem bp) :
    SafeWalk mem bp ↔ Tidy mem (bp + tcphdrSize) (headerLength mem bp - tcphdrSize) := by
  have hle : headerLength mem bp ≤ 60 := by
    have := (mem (bp + 12)).toNat_lt
    unfold headerLength
    omega
  have hsize : tcphdrSize = 20 := rfl
  constructor
  · intro hsafe
    refine hsafe.tidy _ (firstOption mem bp) rfl .refl ?_ ?_
    · change bp + tcphdrSize + (headerLength mem bp - tcphdrSize) = _
      omega
    · change headerLength mem bp - tcphdrSize < 2 ^ 32
      omega
  · intro htidy
    have hlt : (firstOption mem bp).hlen < 2 ^ 32 := by
      change headerLength mem bp - tcphdrSize < 2 ^ 32
      omega
    have hinv : ∀ w, Reaches mem bp w → Tidy mem w.cp w.hlen ∧ w.hlen < 2 ^ 32 := by
      intro w hreach
      induction hreach with
      | refl => exact ⟨htidy, hlt⟩
      | @tail w w' _ hpass ih =>
        have hless := (ih.1.covers ih.2 ⟨hpass.1, .inl hpass.2⟩).less
        exact ⟨ih.1.passes ih.2 hpass, by omega⟩
    have hrun : ∀ fuel, _ := Tidy.run (w := firstOption mem bp) htidy hlt
    refine ⟨fun fuel i hi => ?_, fun w w' hreach hs => ?_, fun w w' hreach hs => ?_, ?_⟩
    · have hin := (hrun fuel).1 i hi
      change bp + tcphdrSize ≤ i ∧ i < bp + tcphdrSize + (headerLength mem bp - tcphdrSize) at hin
      omega
    · exact ((hinv w hreach).1.covers (hinv w hreach).2 hs).counter
    · exact ((hinv w hreach).1.covers (hinv w hreach).2 hs).advance
    · refine (hrun 40).2 ?_
      change headerLength mem bp - tcphdrSize ≤ 40
      omega

/-! ## Headers with one word of options -/

/-- A header of 24 bytes with these options, and what follows it in the packet. -/
def optionHeader (opts : List UInt8) (after : UInt8) : Memory := fun i =>
  if i = 12 then 0x60 else if i < 20 then 0 else opts.getD (i - 20) after

theorem safeWalk_iff_maxseg : SafeWalk (optionHeader [2, 4, 5, 180] 0) 0 :=
  (safeWalk_iff (optionHeader [2, 4, 5, 180] 0) 0 (by decide)).mpr
    (.option (by decide) (by decide) (by decide) (.done (by decide)))

/-- **The walk leaves the header**: over an option of two bytes whose type has two bytes of data, after
which the counter has wrapped and the walk goes on in the data of the packet, and over a type without
a length byte. -/
theorem option_walk_escapes :
    headerLength (optionHeader [1, 1, 2, 2] 0) 0 = 24 ∧
    (optionPass (optionHeader [1, 1, 2, 2] 0) ⟨22, 2, some ';'⟩).value
      = .next ⟨26, 2 ^ 32 - 2, some ';'⟩ ∧
    (options (optionHeader [1, 1, 2, 2] 0) 40 (firstOption (optionHeader [1, 1, 2, 2] 0) 0)).reads
      = [20, 21, 22, 23, 26] ∧
    (options (optionHeader [1, 1, 2, 2] 1) 40 (firstOption (optionHeader [1, 1, 2, 2] 1) 0)).value
      = none ∧
    (options (optionHeader [1, 1, 1, 3] 0) 40 (firstOption (optionHeader [1, 1, 1, 3] 0) 0)).reads
      = [20, 21, 22, 23, 24] := by
  decide +kernel

end FreeSense.Filterlog
