import Mathlib.Logic.Relation
import FreeSensePorts.Filterlog.Ip6

/-!
# Chains of IPv6 headers

Which headers of a packet the loop of `ip6_print` looks at, said of the packet alone: from the fixed
header on, each extension header names the next one and says how far away it is (`Next`).  The line
has one transport section exactly if the header in that chain that prints ports does not start behind
the end of the packet and, if it is one of SCTP, starts right there.
-/

namespace FreeSense.Filterlog

open List Printer

variable {advance : ℤ} {a : Header}

/-- A header: its number and where it starts. -/
structure Header where
  nh : ℕ
  cp : ℕ
  deriving DecidableEq, Repr

section

variable (sys : Ip6System) (mem : Memory) (ipend : ℕ)

/-- All addresses of a routing header are there. -/
def RoutingFits (cp : ℕ) : Prop :=
  ((mem (cp + 2)).toNat = 0 ∨ (mem (cp + 2)).toNat = 2) ∧ (mem (cp + 1)).toNat % 2 = 0 ∧
    ((mem (cp + 1)).toNat = 0 ∨ cp + ((mem (cp + 1)).toNat + 1) * 8 ≤ ipend)

instance (cp : ℕ) : Decidable (RoutingFits mem ipend cp) :=
  inferInstanceAs (Decidable (_ ∧ _))

/-- How long an extension header is; none for a header behind which nothing is looked at. -/
def extensionSize (h : Header) : Option ℕ :=
  if h.nh = ipprotoHopopts ∨ h.nh = ipprotoDstopts then some (((mem (h.cp + 1)).toNat + 1) * 8)
  else if h.nh = ipprotoFragment then
    if word16 mem (h.cp + 2) &&& sys.offMask = 0 then some ip6FragSize else none
  else if h.nh = ipprotoRouting then
    if RoutingFits mem ipend h.cp then some (((mem (h.cp + 1)).toNat + 1) * 8) else none
  else none

/-- The header behind an extension header that starts in front of the end of the packet. -/
def Next (a b : Header) : Prop :=
  a.cp < ipend ∧ ∃ size, extensionSize sys mem ipend a = some size ∧
    b = ⟨(mem a.cp).toNat, a.cp + size⟩

/-- A header whose ports are printed.  `tcp_print` prints none if the header is too short. -/
def Ports (h : Header) : Prop :=
  h.nh = ipprotoUdp ∨ h.nh = ipprotoSctp ∨ h.nh = ipprotoTcp ∧ tcphdrSize ≤ headerLength mem h.cp

instance (h : Header) : Decidable (Ports mem h) :=
  inferInstanceAs (Decidable (_ ∨ _))

/-- Where a header with ports has to start. -/
def InPlace (h : Header) : Prop :=
  Ports mem h → h.cp ≤ ipend ∧ (h.nh = ipprotoSctp → h.cp = ipend)

/-- Every header of the chain from `a` on is where it has to be. -/
def ChainInPlace (a : Header) : Prop :=
  ∀ b, Relation.ReflTransGen (Next sys mem ipend) a b → InPlace mem ipend b

end

namespace Pass

def header (p : Pass) : Header := ⟨p.nh, p.cp⟩

end Pass

/-- At most one of the passes prints ports, and up to it the remaining length did not wrap. -/
structure OneTransport (mem : Memory) (ps : List Pass) : Prop where
  single : ps.countP (fun p => Ports mem p.header) ≤ 1
  unwrapped : ∀ l p r, ps = l ++ p :: r → Ports mem p.header → ∀ q ∈ l ++ [p], q.wrapped = false

/-- The addresses once, and at most one transport section. -/
structure OneSection (mem : Memory) (bp : ℕ) (ps : List Pass) : Prop where
  addresses : ps.countP (fun p => p.cp = bp + ip6HdrSize) = 1
  transport : OneTransport mem ps

/-! ## Chains -/

section

variable {sys : Ip6System} {mem : Memory} {ipend : ℕ}

lemma chainInPlace_of_next {a b : Header} (hnext : Next sys mem ipend a b) (hports : ¬ Ports mem a) :
    ChainInPlace sys mem ipend a ↔ ChainInPlace sys mem ipend b := by
  constructor
  · intro h c hc
    exact h c (hc.head hnext)
  · intro h c hc
    rcases hc.cases_head with rfl | ⟨b', hb', hrest⟩
    · exact fun hp => absurd hp hports
    · -- there is one next header
      obtain ⟨-, size, hsize, rfl⟩ := hnext
      obtain ⟨-, size', hsize', rfl⟩ := hb'
      obtain rfl : size = size' := Option.some.inj (hsize.symm.trans hsize')
      exact h c hrest

lemma chainInPlace_of_last (hlast : ∀ b, ¬ Next sys mem ipend a b) :
    ChainInPlace sys mem ipend a ↔ InPlace mem ipend a := by
  constructor
  · intro h
    exact h a .refl
  · intro h c hc
    rcases hc.cases_head with rfl | ⟨b, hb, -⟩
    · exact h
    · exact absurd hb (hlast b)

lemma extensionSize_of_ports (h : Ports mem a) : extensionSize sys mem ipend a = none := by
  rcases h with h | h | ⟨h, -⟩ <;> simp [extensionSize, h, ipprotoUdp, ipprotoSctp, ipprotoTcp,
    ipprotoHopopts, ipprotoDstopts, ipprotoFragment, ipprotoRouting]

lemma not_next_of_none (h : extensionSize sys mem ipend a = none) (b : Header) :
    ¬ Next sys mem ipend a b := by
  rintro ⟨-, size, hsize, -⟩
  rw [h] at hsize
  cases hsize

lemma not_next_of_le (h : ipend ≤ a.cp) (b : Header) : ¬ Next sys mem ipend a b :=
  fun hnext => absurd hnext.1 (not_lt.2 h)

end

/-! ## Lists of passes -/

variable {q : Pass} {n cp fuel nh : ℕ} {ps : Option (List Pass)}

section

variable {mem : Memory} {p : Pass} {rest : List Pass}

lemma oneTransport_singleton :
    OneTransport mem [p] ↔ (Ports mem p.header → p.wrapped = false) := by
  constructor
  · intro h hp
    exact h.unwrapped [] p [] rfl hp p (by simp)
  · intro h
    refine ⟨countP_le_length, ?_⟩
    intro l q r heq hq
    obtain ⟨rfl, hl⟩ | ⟨l', rfl, hl⟩ := cons_eq_append_iff.1 heq
    · obtain ⟨rfl, -⟩ := List.cons.inj hl
      simpa using h hq
    · simp at hl

/-- In front of the rest stands a pass without ports and with its length intact. -/
lemma oneTransport_cons (hports : ¬ Ports mem p.header) (hwrapped : p.wrapped = false) :
    OneTransport mem (p :: rest) ↔ OneTransport mem rest := by
  constructor
  · intro h
    refine ⟨by simpa [countP_cons, hports] using h.single, ?_⟩
    intro l q r heq hq x hx
    exact h.unwrapped (p :: l) q r (by rw [heq]; rfl) hq x (mem_cons_of_mem p hx)
  · intro h
    refine ⟨by simpa [countP_cons, hports] using h.single, ?_⟩
    intro l q r heq hq x hx
    obtain ⟨rfl, hl⟩ | ⟨l', rfl, hl⟩ := cons_eq_append_iff.1 heq
    · obtain ⟨rfl, -⟩ := List.cons.inj hl
      exact absurd hq hports
    · rcases mem_cons.1 hx with rfl | hx
      · exact hwrapped
      · exact h.unwrapped l' q r hl hq x hx

lemma not_oneTransport_of_two (hp : Ports mem p.header) (hq : Ports mem q.header) :
    ¬ OneTransport mem (p :: q :: rest) := by
  intro h
  have := h.single
  simp [hp, hq] at this

end

/-! ## One turn of the loop -/

section

variable (sys : Ip6System) (mem : Memory)

lemma value_rt6Addresses (bp : ℕ) (datalen : ℤ) (n i : ℕ) :
    (rt6Addresses sys mem bp datalen n i).value =
      decide (n = 0 ∨ (8 + 16 * (i + n) : ℤ) ≤ datalen) := by
  induction n generalizing i with
  | zero => simp [rt6Addresses]
  | succ n ih =>
    have hsucc : (n + 1 = 0 ∨ (8 + 16 * (i + (n + 1 : ℕ)) : ℤ) ≤ datalen) ↔
        (8 + 16 * (i + (n + 1 : ℕ)) : ℤ) ≤ datalen := or_iff_right (Nat.succ_ne_zero n)
    rw [rt6Addresses]
    by_cases h : datalen < 8 + 16 * (i + 1)
    · rw [if_pos h, value_pure, eq_comm, decide_eq_false_iff_not]
      omega
    · rw [if_neg h, value_bind, value_bind, ih, decide_eq_decide]
      omega

lemma bmod_of_lt (h : n < 2 ^ 31) : Int.bmod n (2 ^ 32) = n := by
  rw [Int.bmod_def]
  omega

lemma value_rt6Type0 (cp len : ℕ) (datalen : ℤ) :
    (rt6Type0 sys mem cp datalen len).value =
      if len % 2 = 0 ∧ (len = 0 ∨ ((len : ℤ) + 1) * 8 ≤ datalen) then ((len : ℤ) + 1) * 8 else -1 := by
  rw [rt6Type0, value_bind, value_bind]
  by_cases hodd : len % 2 = 1
  · rw [if_pos hodd, if_neg (by omega)]
    rfl
  · rw [if_neg hodd, value_bind, value_rt6Addresses]
    by_cases hall : len / 2 = 0 ∨ (8 + 16 * ((0 : ℕ) + (len / 2 : ℕ)) : ℤ) ≤ datalen
    · rw [decide_eq_true hall, if_pos (by omega)]
      rfl
    · rw [decide_eq_false hall, if_neg (by omega)]
      rfl

/-- Behind a complete routing header the loop goes on, and behind no other. -/
lemma value_rt6Print {ipend : ℕ} (hcp : cp < ipend) :
    (rt6Print sys mem cp ((ipend - cp : ℕ) : ℤ)).value =
      if RoutingFits mem ipend cp then (((mem (cp + 1)).toNat : ℤ) + 1) * 8 else -1 := by
  have hswitch : (rt6Print sys mem cp ((ipend - cp : ℕ) : ℤ)).value =
      (rt6Switch sys mem cp ((ipend - cp : ℕ) : ℤ) (mem (cp + 1)).toNat (mem (cp + 2)).toNat).value :=
    rfl
  rw [hswitch, rt6Switch]
  by_cases htype : (mem (cp + 2)).toNat = 0 ∨ (mem (cp + 2)).toNat = 2
  · rw [if_pos htype, value_rt6Type0]
    refine if_congr ?_ rfl rfl
    rw [RoutingFits]
    omega
  · rw [if_neg htype, if_neg fun h => htype h.1]
    rfl

lemma value_frag6Print (cp bp : ℕ) :
    (frag6Print sys mem cp bp).value =
      if word16 mem (cp + 2) &&& sys.offMask = 0 then (ip6FragSize : ℤ) else -1 := by
  have hend : (frag6Print sys mem cp bp).value =
      (frag6End (word16 mem (cp + 2) &&& sys.offMask)).value := rfl
  rw [hend, frag6End]
  by_cases h : word16 mem (cp + 2) &&& sys.offMask = 0
  · rw [if_neg (not_not.2 h), if_pos h]
    rfl
  · rw [if_pos h, if_neg h]
    rfl

lemma value_optsHeader (fuel cp : ℕ) (name : Text) :
    (optsHeader sys mem fuel name cp).value = (((mem (cp + 1)).toNat : ℤ) + 1) * 8 := rfl

/-- What a turn does, by the header it looks at. -/
inductive TurnOf (ipend : ℕ) (advance : ℤ) (p : Pass) : After → Prop
  | leave (hnone : extensionSize sys mem ipend p.header = none) (hsctp : p.nh ≠ ipprotoSctp) :
      TurnOf ipend advance p .leave
  | sctp (h : p.nh = ipprotoSctp) : TurnOf ipend advance p (.loop advance p.nh)
  | extension {advance' : ℤ} (hports : ¬ Ports mem p.header)
      (hsize : p.cp < ipend → extensionSize sys mem ipend p.header =
        if 0 < advance' then some advance'.toNat else none) :
      TurnOf ipend advance p (.loop advance' (mem p.cp).toNat)

/-- A printer that returns the size or `-1`: the loop goes on if there is a size. -/
lemma size_eq_of_return {c : Prop} [Decidable c] (hn : 0 < n)
    (h : advance = if c then (n : ℤ) else -1) :
    (if c then some n else none) = if 0 < advance then some advance.toNat else none := by
  subst h
  by_cases hc : c
  · simp [hc, hn]
  · simp [hc]

lemma turnOf_headerPrint {bp ipend : ℕ} {p : Pass} (hsmall : ipend < bp + 2 ^ 31) (hbp : bp ≤ p.cp)
    (hlen : p.cp < ipend → p.len = ipend - p.cp) :
    TurnOf sys mem ipend advance p (headerPrint sys mem fuel bp advance p).value := by
  have hports : ∀ {n : ℕ}, p.nh = n → n ≠ ipprotoUdp → n ≠ ipprotoSctp → n ≠ ipprotoTcp →
      ¬ Ports mem p.header := by
    rintro n rfl hudp hsctp htcp (h | h | ⟨h, -⟩)
    · exact hudp h
    · exact hsctp h
    · exact htcp h
  -- behind a header that is not in the list of extension headers nothing is looked at
  have hnone : p.nh ≠ ipprotoHopopts → p.nh ≠ ipprotoDstopts → p.nh ≠ ipprotoFragment →
      p.nh ≠ ipprotoRouting → extensionSize sys mem ipend p.header = none := by
    intro h₁ h₂ h₃ h₄
    rw [extensionSize, Pass.header, if_neg (not_or.2 ⟨h₁, h₂⟩), if_neg h₃, if_neg h₄]
  have hopts : ∀ name : Text, p.nh = ipprotoHopopts ∨ p.nh = ipprotoDstopts →
      extensionSize sys mem ipend p.header =
        if 0 < (optsHeader sys mem fuel name p.cp).value
          then some (optsHeader sys mem fuel name p.cp).value.toNat else none := by
    intro name h
    rw [extensionSize, Pass.header, if_pos h, value_optsHeader, if_pos (by omega)]
    congr 1
  unfold headerPrint
  by_cases hhop : p.nh = ipprotoHopopts
  · rw [if_pos hhop]
    exact .extension (hports hhop (by decide) (by decide) (by decide)) fun _ => hopts _ (.inl hhop)
  rw [if_neg hhop]
  by_cases hdst : p.nh = ipprotoDstopts
  · rw [if_pos hdst]
    exact .extension (hports hdst (by decide) (by decide) (by decide)) fun _ => hopts _ (.inr hdst)
  rw [if_neg hdst]
  by_cases hfrag : p.nh = ipprotoFragment
  · rw [if_pos hfrag]
    refine .extension (hports hfrag (by decide) (by decide) (by decide)) fun _ => ?_
    rw [extensionSize, Pass.header, if_neg (not_or.2 ⟨hhop, hdst⟩), if_pos hfrag]
    exact size_eq_of_return (by decide) (value_frag6Print sys mem p.cp bp)
  rw [if_neg hfrag]
  by_cases hmob : p.nh = ipprotoMobilityOld ∨ p.nh = ipprotoMobility
  · rw [if_pos hmob]
    have hrt : p.nh ≠ ipprotoRouting := by
      rcases hmob with h | h <;> rw [h] <;> decide
    have hsctp : p.nh ≠ ipprotoSctp := by
      rcases hmob with h | h <;> rw [h] <;> decide
    exact .leave (hnone hhop hdst hfrag hrt) hsctp
  rw [if_neg hmob]
  by_cases hrt : p.nh = ipprotoRouting
  · rw [if_pos hrt]
    refine .extension (hports hrt (by decide) (by decide) (by decide)) fun hcp => ?_
    rw [extensionSize, Pass.header, if_neg (not_or.2 ⟨hhop, hdst⟩), if_neg hfrag, if_pos hrt]
    have hreturn : (rt6Print sys mem p.cp (Int.bmod p.len (2 ^ 32))).value =
        if RoutingFits mem ipend p.cp then ((((mem (p.cp + 1)).toNat + 1) * 8 : ℕ) : ℤ) else -1 := by
      rw [hlen hcp, bmod_of_lt (by omega), value_rt6Print sys mem hcp]
      rfl
    exact size_eq_of_return (by omega) hreturn
  rw [if_neg hrt]
  by_cases hsctp : p.nh = ipprotoSctp
  · rw [if_neg (by rw [hsctp]; decide), if_neg (by rw [hsctp]; decide), if_pos hsctp]
    exact .sctp hsctp
  -- what is left ends with `return`, whatever it prints
  have hleave : TurnOf sys mem ipend advance p .leave :=
    .leave (hnone hhop hdst hfrag hrt) hsctp
  split_ifs <;> exact hleave

end

/-! ## Whole runs -/

section

variable {sys : Ip6System} {mem : Memory} {fuel₀ bp ipend : ℕ}

lemma value_headersPrint_stop {len : ℕ} (h : ¬ (cp < ipend ∧ 0 < advance)) :
    (headersPrint sys mem fuel₀ bp ipend fuel cp len advance nh).value = some [] := by
  cases fuel with
  | zero => rw [headersPrint, if_neg h]; rfl
  | succ fuel => rw [headersPrint, if_neg h]; rfl

/-- The passes behind a turn. -/
def restOf (sys : Ip6System) (mem : Memory) (fuel₀ bp ipend fuel : ℕ) (p : Pass) :
    After → Option (List Pass)
  | .leave => some []
  | .loop advance nh => (headersPrint sys mem fuel₀ bp ipend fuel p.cp p.len advance nh).value

lemma value_headersPrint_succ {len : ℕ} (h : cp < ipend ∧ 0 < advance) :
    (headersPrint sys mem fuel₀ bp ipend (fuel + 1) cp len advance nh).value =
      (restOf sys mem fuel₀ bp ipend fuel (nextPass cp len advance nh)
        (headerPrint sys mem fuel₀ bp advance (nextPass cp len advance nh)).value).map
          (nextPass cp len advance nh :: ·) := by
  rw [headersPrint, if_pos h]
  simp only [value_bind]
  cases (headerPrint sys mem fuel₀ bp advance (nextPass cp len advance nh)).value <;> rfl

/-- What holds of the passes from a turn on: they end, the offset grows, and they have one transport
section exactly if the chain from the header of the turn on is in place. -/
def RunOf (sys : Ip6System) (mem : Memory) (ipend : ℕ) (p : Pass) (ps : Option (List Pass)) : Prop :=
  ∃ rest, ps = some (p :: rest) ∧ (∀ q ∈ rest, p.cp < q.cp) ∧
    (OneTransport mem (p :: rest) ↔ ChainInPlace sys mem ipend p.header)

lemma runOf_singleton {p : Pass} (hlast : ∀ b, ¬ Next sys mem ipend p.header b)
    (hwrapped : p.wrapped = decide (ipend < p.cp)) (hsctp : p.nh = ipprotoSctp → ipend ≤ p.cp) :
    RunOf sys mem ipend p (some [p]) := by
  refine ⟨[], rfl, by simp, ?_⟩
  rw [oneTransport_singleton, chainInPlace_of_last hlast, hwrapped, decide_eq_false_iff_not, not_lt]
  refine imp_congr_right fun _ => ⟨fun h => ⟨h, fun hs => le_antisymm h (hsctp hs)⟩, fun h => h.1⟩

lemma cp_nextPass (cp len : ℕ) (advance : ℤ) (nh : ℕ) :
    (nextPass cp len advance nh).cp = cp + advance.toNat := rfl

lemma nh_nextPass (cp len : ℕ) (advance : ℤ) (nh : ℕ) : (nextPass cp len advance nh).nh = nh := rfl

lemma len_nextPass {len : ℕ} (hlen : len = ipend - cp) (hsmall : len < 2 ^ 32)
    (h : cp + advance.toNat < ipend) :
    (nextPass cp len advance nh).len = ipend - (cp + advance.toNat) := by
  have hsub : (nextPass cp len advance nh).len = len - advance.toNat :=
    sub32_of_le hsmall (by omega)
  omega

lemma wrapped_nextPass {len : ℕ} (hlen : len = ipend - cp) (hcp : cp < ipend) :
    (nextPass cp len advance nh).wrapped = decide (ipend < cp + advance.toNat) := by
  rw [nextPass, decide_eq_decide]
  omega

lemma runOf_cons {p : Pass} (hnext : Next sys mem ipend p.header q.header)
    (hports : ¬ Ports mem p.header) (hwrapped : p.wrapped = false) (hcp : p.cp < q.cp)
    (h : RunOf sys mem ipend q ps) : RunOf sys mem ipend p (ps.map (p :: ·)) := by
  obtain ⟨rest, rfl, hgrows, hiff⟩ := h
  refine ⟨q :: rest, rfl, ?_, ?_⟩
  · intro r hr
    rcases mem_cons.1 hr with rfl | hr
    · exact hcp
    · exact hcp.trans (hgrows r hr)
  · rw [oneTransport_cons hports hwrapped, hiff, chainInPlace_of_next hnext hports]

lemma runOf_sctp {p : Pass} (hp : p.nh = ipprotoSctp) (hq : q.nh = ipprotoSctp) (hcp : p.cp < q.cp)
    (hend : p.cp < ipend) (h : RunOf sys mem ipend q ps) :
    RunOf sys mem ipend p (ps.map (p :: ·)) := by
  obtain ⟨rest, rfl, hgrows, -⟩ := h
  refine ⟨q :: rest, rfl, ?_, ?_⟩
  · intro r hr
    rcases mem_cons.1 hr with rfl | hr
    · exact hcp
    · exact hcp.trans (hgrows r hr)
  · refine iff_of_false (not_oneTransport_of_two (.inr (.inl hp)) (.inr (.inl hq))) fun hchain => ?_
    have hplace := (hchain p.header .refl (.inr (.inl hp))).2 hp
    exact absurd hplace (ne_of_lt hend)

theorem runOf_headersPrint (hsmall : ipend < bp + 2 ^ 31) (fuel : ℕ) :
    ∀ {cp len : ℕ} {advance : ℤ} {nh : ℕ}, cp < ipend → 0 < advance → bp ≤ cp → len = ipend - cp →
      ipend - cp ≤ fuel →
      RunOf sys mem ipend (nextPass cp len advance nh)
        (headersPrint sys mem fuel₀ bp ipend fuel cp len advance nh).value := by
  induction fuel with
  | zero =>
    omega
  | succ fuel ih =>
    intro cp len advance nh hcp hadvance hbp hlen hfuel
    rw [value_headersPrint_succ ⟨hcp, hadvance⟩]
    have hpcp := cp_nextPass cp len advance nh
    have hplen : (nextPass cp len advance nh).cp < ipend →
        (nextPass cp len advance nh).len = ipend - (nextPass cp len advance nh).cp :=
      len_nextPass hlen (by omega)
    have hwrapped : (nextPass cp len advance nh).wrapped =
        decide (ipend < (nextPass cp len advance nh).cp) := wrapped_nextPass hlen hcp
    generalize nextPass cp len advance nh = p at hpcp hplen hwrapped ⊢
    have hturn : TurnOf sys mem ipend advance p (headerPrint sys mem fuel₀ bp advance p).value :=
      turnOf_headerPrint sys mem hsmall (by omega) hplen
    -- the turns behind this one, where there are any
    have hrest : ∀ (advance' : ℤ) (nh' : ℕ), p.cp < ipend → 0 < advance' →
        RunOf sys mem ipend (nextPass p.cp p.len advance' nh')
          (headersPrint sys mem fuel₀ bp ipend fuel p.cp p.len advance' nh').value :=
      fun advance' nh' h h' => ih h h' (by omega) (hplen h) (by omega)
    generalize (headerPrint sys mem fuel₀ bp advance p).value = after at hturn ⊢
    cases hturn with
    | leave hnone hsctp =>
      exact runOf_singleton (not_next_of_none hnone) hwrapped fun h => absurd h hsctp
    | sctp hsctp =>
      rw [restOf]
      by_cases hend : p.cp < ipend
      · have hagain := (nh_nextPass p.cp p.len advance p.nh).trans hsctp
        have hgrows : p.cp < (nextPass p.cp p.len advance p.nh).cp := by
          rw [cp_nextPass]
          omega
        exact runOf_sctp hsctp hagain hgrows hend (hrest advance p.nh hend hadvance)
      · rw [value_headersPrint_stop fun h => hend h.1]
        exact runOf_singleton (not_next_of_le (not_lt.1 hend)) hwrapped fun _ => not_lt.1 hend
    | @extension advance' hports hsize =>
      rw [restOf]
      by_cases hgo : p.cp < ipend ∧ 0 < advance'
      · have hnext : Next sys mem ipend p.header
            (nextPass p.cp p.len advance' (mem p.cp).toNat).header := by
          refine ⟨hgo.1, advance'.toNat, ?_, rfl⟩
          rw [hsize hgo.1, if_pos hgo.2]
        have hintact : p.wrapped = false := by
          rw [hwrapped, decide_eq_false_iff_not]
          omega
        have hgrows : p.cp < (nextPass p.cp p.len advance' (mem p.cp).toNat).cp := by
          rw [cp_nextPass]
          omega
        exact runOf_cons hnext hports hintact hgrows (hrest advance' _ hgo.1 hgo.2)
      · rw [value_headersPrint_stop hgo]
        refine runOf_singleton ?_ hwrapped fun h => absurd (.inr (.inl h)) hports
        by_cases hend : p.cp < ipend
        · refine not_next_of_none ?_
          rw [hsize hend, if_neg fun h => hgo ⟨hend, h⟩]
        · exact not_next_of_le (not_lt.1 hend)

/-! ## The line -/

def passText (sys : Ip6System) (mem : Memory) (fuel bp : ℕ) (p : Pass) : Text :=
  (addressesPrint sys mem bp p.cp).text ++ (headerPrint sys mem fuel bp 0 p).text

def ip6HeadText (mem : Memory) (bp length : ℕ) : Text :=
  "6,".toList ++ if length < ip6HdrSize then "truncated-ip6=".toList ++ unsigned length ++ ",".toList
    else (ip6HeadPrint mem bp length (word16 mem (bp + 4))).text

lemma text_headerPrint_advance (advance : ℤ) (p : Pass) :
    (headerPrint sys mem fuel bp advance p).text = (headerPrint sys mem fuel bp 0 p).text := by
  by_cases hsctp : p.nh = ipprotoSctp
  · simp only [headerPrint, hsctp, text_bind, text_pure, ipprotoSctp, ipprotoHopopts, ipprotoDstopts,
      ipprotoFragment, ipprotoMobilityOld, ipprotoMobility, ipprotoRouting, ipprotoTcp, ipprotoUdp,
      OfNat.ofNat_ne_zero, Nat.reduceEqDiff, or_self, if_false, if_true]
  · -- the value of `advance` is used at SCTP only
    simp only [headerPrint, if_neg hsctp]

theorem text_headersPrint (fuel : ℕ) :
    ∀ {cp len : ℕ} {advance : ℤ} {nh : ℕ} {ps : List Pass},
      (headersPrint sys mem fuel₀ bp ipend fuel cp len advance nh).value = some ps →
      (headersPrint sys mem fuel₀ bp ipend fuel cp len advance nh).text =
        ps.flatMap (passText sys mem fuel₀ bp) := by
  induction fuel with
  | zero =>
    intro cp len advance nh ps h
    rw [headersPrint] at h ⊢
    by_cases hgo : cp < ipend ∧ 0 < advance
    · rw [if_pos hgo] at h
      cases h
    · rw [if_neg hgo] at h ⊢
      obtain rfl := Option.some.inj h
      rfl
  | succ fuel ih =>
    intro cp len advance nh ps h
    by_cases hgo : cp < ipend ∧ 0 < advance
    · rw [value_headersPrint_succ hgo] at h
      rw [headersPrint, if_pos hgo]
      simp only [text_bind, text_headerPrint_advance advance]
      cases hafter : (headerPrint sys mem fuel₀ bp advance (nextPass cp len advance nh)).value with
      | leave =>
        rw [hafter] at h
        obtain rfl := Option.some.inj h
        rw [flatMap_cons, flatMap_nil, append_nil, passText, text_pure,
          append_nil]
      | loop advance' nh' =>
        rw [hafter] at h
        obtain ⟨rest, hrest, rfl⟩ := Option.map_eq_some_iff.1 h
        rw [flatMap_cons, passText, text_bind, ih hrest, text_pure, append_nil,
          append_assoc]
    · rw [value_headersPrint_stop hgo] at h
      obtain rfl := Option.some.inj h
      rw [headersPrint, if_neg hgo]
      rfl

lemma ip6Print_short (sys : Ip6System) (mem : Memory) (fuel bp : ℕ) {length : ℕ}
    (h : length < ip6HdrSize) :
    (ip6Print sys mem fuel bp length).value = some [] ∧
      (ip6Print sys mem fuel bp length).text = ip6HeadText mem bp length := by
  rw [ip6Print, ip6HeadText, if_pos h, if_pos h]
  exact ⟨rfl, by rw [text_bind, text_emit, text_bind, text_emit, text_pure, append_nil]⟩

lemma ip6Print_long (sys : Ip6System) (mem : Memory) (fuel bp : ℕ) {length : ℕ}
    (h : ¬ length < ip6HdrSize) :
    (ip6Print sys mem fuel bp length).value =
        (headersPrint sys mem fuel bp (bp + (word16 mem (bp + 4) + ip6HdrSize)) fuel bp
          (word16 mem (bp + 4) + ip6HdrSize) ip6HdrSize (mem (bp + 6)).toNat).value ∧
      (ip6Print sys mem fuel bp length).text = ip6HeadText mem bp length ++
        (headersPrint sys mem fuel bp (bp + (word16 mem (bp + 4) + ip6HdrSize)) fuel bp
          (word16 mem (bp + 4) + ip6HdrSize) ip6HdrSize (mem (bp + 6)).toNat).text := by
  rw [ip6Print, ip6HeadText, if_neg h, if_neg h]
  refine ⟨rfl, ?_⟩
  rw [text_bind, text_emit, text_extract16Bits_bind, text_bind, text_byte_bind, append_assoc]

lemma oneSection_cons {p : Pass} {rest : List Pass} (hfirst : p.cp = bp + ip6HdrSize)
    (hgrows : ∀ q ∈ rest, p.cp < q.cp) : OneSection mem bp (p :: rest) ↔ OneTransport mem (p :: rest) := by
  have hrest : rest.countP (fun q => q.cp = bp + ip6HdrSize) = 0 := by
    rw [countP_eq_zero]
    intro q hq
    have := hgrows q hq
    rw [decide_eq_true_eq]
    omega
  have hcount : (p :: rest).countP (fun q => q.cp = bp + ip6HdrSize) = 1 := by
    rw [countP_cons_of_pos (by simpa using hfirst), hrest]
  exact ⟨fun h => h.transport, fun h => ⟨hcount, h⟩⟩

end

/-- The line shows the addresses once and at most one transport section, with the remaining length
intact up to there, exactly if the fixed header is complete and the chain of headers is in place. -/
theorem one_section_iff (sys : Ip6System) (mem : Memory) (fuel bp length : ℕ)
    (hfuel : word16 mem (bp + 4) + ip6HdrSize ≤ fuel) :
    ∃ ps, (ip6Print sys mem fuel bp length).value = some ps ∧
      (ip6Print sys mem fuel bp length).text =
        ip6HeadText mem bp length ++ ps.flatMap (passText sys mem fuel bp) ∧
      (OneSection mem bp ps ↔ ip6HdrSize ≤ length ∧
        ChainInPlace sys mem (bp + (word16 mem (bp + 4) + ip6HdrSize))
          ⟨(mem (bp + 6)).toNat, bp + ip6HdrSize⟩) := by
  by_cases hshort : length < ip6HdrSize
  · obtain ⟨hvalue, htext⟩ := ip6Print_short sys mem fuel bp hshort
    refine ⟨[], hvalue, by rw [htext, flatMap_nil, append_nil], ?_⟩
    refine iff_of_false (fun h => ?_) fun h => absurd h.1 (not_le.2 hshort)
    exact absurd h.addresses (by simp)
  · have hword := word16_lt mem (bp + 4)
    have hsize : ip6HdrSize = 40 := rfl
    obtain ⟨hvalue, htext⟩ := ip6Print_long sys mem fuel bp hshort
    have hrun : RunOf sys mem (bp + (word16 mem (bp + 4) + ip6HdrSize))
        (nextPass bp (word16 mem (bp + 4) + ip6HdrSize) ip6HdrSize (mem (bp + 6)).toNat)
        (headersPrint sys mem fuel bp (bp + (word16 mem (bp + 4) + ip6HdrSize)) fuel bp
          (word16 mem (bp + 4) + ip6HdrSize) ip6HdrSize (mem (bp + 6)).toNat).value :=
      runOf_headersPrint (by omega) fuel (by omega) (by omega) le_rfl (by omega) (by omega)
    obtain ⟨rest, hps, hgrows, hiff⟩ := hrun
    refine ⟨_, hvalue.trans hps, ?_, ?_⟩
    · rw [htext, text_headersPrint fuel hps]
    · rw [oneSection_cons (cp_nextPass _ _ _ _) hgrows, hiff, and_iff_right (not_lt.1 hshort)]
      rfl

/-! ## Samples -/

def sampleSystem : Ip6System := ⟨fun _ => "::".toList, 0xfff8⟩

/-- A packet with a payload of 12 bytes, by the number of the header behind the fixed one. -/
def samplePacket (nxt : UInt8) : Memory := fun i =>
  if i = 0 then 0x60 else if i = 5 then 12 else if i = 6 then nxt else if i = 41 then 5 else
    if i = 43 then 6 else 0

theorem one_section_iff_udp :
    word16 (samplePacket 17) 4 + ip6HdrSize ≤ 52 ∧
      ∃ ps, (ip6Print sampleSystem (samplePacket 17) 52 0 52).value = some ps ∧
        OneSection (samplePacket 17) 0 ps := by
  have hfuel : word16 (samplePacket 17) (0 + 4) + ip6HdrSize ≤ 52 := by decide
  obtain ⟨ps, hvalue, -, hiff⟩ := one_section_iff sampleSystem (samplePacket 17) 52 0 52 hfuel
  refine ⟨hfuel, ps, hvalue, hiff.2 ⟨by decide, ?_⟩⟩
  -- no header follows one of UDP
  have hports : Ports (samplePacket 17) ⟨17, 40⟩ := .inl rfl
  refine (chainInPlace_of_last (not_next_of_none (extensionSize_of_ports hports))).2 fun _ => ?_
  exact ⟨by decide, by decide⟩

/-- A packet that holds nothing but the header of SCTP shows its ports twice.  The second time the
remaining length is below zero. -/
theorem sctp_printed_twice :
    (ip6Print sampleSystem (samplePacket 132) 52 0 52).value =
        some [⟨40, 12, 132, false⟩, ⟨80, 4294967268, 132, true⟩] ∧
      (ip6Print sampleSystem (samplePacket 132) 52 0 52).text =
        "6,0x00,0x00000,0,SCTP,132,12,::,::,5,6,00,0,4294967256".toList ∧
      ¬ OneSection (samplePacket 132) 0
        [⟨40, 12, 132, false⟩, ⟨80, 4294967268, 132, true⟩] := by
  refine ⟨by decide +kernel, by decide +kernel, fun h => ?_⟩
  exact not_oneTransport_of_two (.inr (.inl rfl)) (.inr (.inl rfl)) h.transport

end FreeSense.Filterlog
