import FreeSensePorts.Filterlog.IpFields
import FreeSensePorts.Filterlog.TcpOptions

/-!
# Reading what was captured

`decode_packet` gets `caplen` bytes of a packet.  It tests that there is one, and later that there is a
header of the length in that byte; everything behind the header is tested against lengths on the wire
or in the packet.  `Captured` says which bytes there have to be for it to read no others, and that the
reason of the header has to be an index of `filter_reasons`.

What the printers for IPv6, SCTP, VRRP and ICMP other than echo read is taken out (`otherReads`).
-/

namespace FreeSense.Filterlog

open List Printer

variable {mem : Memory} {n fuel : ℕ}

/-! ## TCP -/

/-- The options up to where the walk over them ends, in the first `n` bytes. -/
inductive OptionsCaptured (mem : Memory) (n : ℕ) : ℕ → ℕ → Prop
  | done {p rest : ℕ} (hrest : rest = 0) : OptionsCaptured mem n p rest
  | eol {p rest : ℕ} (hp : p < n) (hkind : kindAt mem p = tcpoptEol) : OptionsCaptured mem n p rest
  | nop {p rest : ℕ} (hp : p < n) (hkind : kindAt mem p = tcpoptNop)
      (tail : OptionsCaptured mem n (p + 1) (rest - 1)) : OptionsCaptured mem n p rest
  | refused {p rest : ℕ} (hp : p + 1 < n) (hkind : zerolenopt (kindAt mem p) = false)
      (hbad : lengthByte mem p < 2 ∨ rest < lengthByte mem p) : OptionsCaptured mem n p rest
  | option {p rest : ℕ} (hp : p + 1 < n) (hkind : zerolenopt (kindAt mem p) = false)
      (hlen : 2 ≤ lengthByte mem p) (hle : lengthByte mem p ≤ rest)
      (tail : OptionsCaptured mem n (p + 2 + datalen (kindAt mem p) (lengthByte mem p))
        (sub32 (rest - 2) (datalen (kindAt mem p) (lengthByte mem p)))) :
      OptionsCaptured mem n p rest

/-- What a pass needs, and what it leaves to the next one. -/
lemma optionsCaptured_iff {w : Walk} (hpos : w.hlen ≠ 0) (hlt : w.hlen < 2 ^ 32) :
    OptionsCaptured mem n w.cp w.hlen ↔ (∀ i ∈ (optionPass mem w).reads, i < n) ∧
      ∀ w', (optionPass mem w).value = .next w' → OptionsCaptured mem n w'.cp w'.hlen := by
  constructor
  · intro h
    cases h with
    | done hrest => exact absurd hrest hpos
    | eol hp hkind =>
      rw [(optionPass_of_zerolenopt (zerolenopt_iff.mpr (.inl hkind))).2,
        optionPass_eol hpos hlt hkind]
      exact ⟨by simpa, by simp⟩
    | nop hp hkind tail =>
      rw [(optionPass_of_zerolenopt (zerolenopt_iff.mpr (.inr hkind))).2,
        optionPass_nop hpos hlt hkind]
      exact ⟨by simpa, by rintro _ ⟨⟩; exact tail⟩
    | refused hp hkind hbad =>
      rw [(optionPass_of_not_zerolenopt hkind).2, optionPass_bad hkind hbad]
      exact ⟨by simp; omega, by simp⟩
    | option hp hkind hlen hle tail =>
      rw [(optionPass_of_not_zerolenopt hkind).2, optionPass_option hlt hkind hlen hle]
      exact ⟨by simp; omega, by rintro _ ⟨⟩; exact tail⟩
  · rintro ⟨hreads, hnext⟩
    cases hkind : zerolenopt (kindAt mem w.cp) with
    | true =>
      rw [(optionPass_of_zerolenopt hkind).2, forall_mem_singleton] at hreads
      rcases zerolenopt_iff.mp hkind with heol | hnop
      · exact .eol hreads heol
      · exact .nop hreads hnop (hnext _ (optionPass_nop hpos hlt hnop))
    | false =>
      rw [(optionPass_of_not_zerolenopt hkind).2] at hreads
      have hp : w.cp + 1 < n := hreads _ (by simp)
      by_cases hbad : lengthByte mem w.cp < 2 ∨ w.hlen < lengthByte mem w.cp
      · exact .refused hp hkind hbad
      · exact .option hp hkind (by omega) (by omega)
          (hnext _ (optionPass_option hlt hkind (by omega) (by omega)))

/-- A pass goes forward, though its counter may wrap. -/
lemma optionPass_forward {w w' : Walk} (hpos : w.hlen ≠ 0) (hlt : w.hlen < 2 ^ 32)
    (h : (optionPass mem w).value = .next w') : w.cp < w'.cp ∧ w'.hlen < 2 ^ 32 := by
  cases hkind : zerolenopt (kindAt mem w.cp) with
  | true =>
    rcases zerolenopt_iff.mp hkind with heol | hnop
    · rw [optionPass_eol hpos hlt heol] at h
      cases h
    · rw [optionPass_nop hpos hlt hnop] at h
      cases h
      dsimp only
      omega
  | false =>
    by_cases hbad : lengthByte mem w.cp < 2 ∨ w.hlen < lengthByte mem w.cp
    · rw [optionPass_bad hkind hbad] at h
      cases h
    · rw [optionPass_option hlt hkind (by omega) (by omega)] at h
      cases h
      exact ⟨by dsimp only; omega, Nat.mod_lt _ (by decide)⟩

-- The fuel is enough: a walk that goes on has read a byte, so it stands below `n`.
lemma within_options {w : Walk} (hlt : w.hlen < 2 ^ 32) (hfuel : n < fuel + w.cp) (hne : 0 < fuel) :
    Within 0 n (options mem fuel w) ↔ OptionsCaptured mem n w.cp w.hlen := by
  induction fuel generalizing w with
  | zero => exact absurd hne (Nat.lt_irrefl 0)
  | succ fuel ih =>
    by_cases hpos : w.hlen = 0
    · rw [options_of_zero hpos]
      exact iff_of_true (within_pure _) (.done hpos)
    have hcp : w.cp ∈ (optionPass mem w).reads := by simp [optionPass]
    rw [optionsCaptured_iff hpos hlt, within_zero]
    by_cases hnext : ∃ w', (optionPass mem w).value = .next w'
    · obtain ⟨w', hw'⟩ := hnext
      obtain ⟨hforward, hlt'⟩ := optionPass_forward hpos hlt hw'
      rw [(options_next hpos hw' fuel).2, forall_mem_append,
        ← within_zero (x := options mem fuel w')]
      refine and_congr_right fun hpass => ?_
      have := hpass w.cp hcp
      rw [ih hlt' (by omega) (by omega)]
      simp only [hw', Turn.next.injEq, forall_eq']
    · rw [(options_stop hpos (not_exists.mp hnext) fuel).2]
      exact (and_iff_left fun w' hw' => absurd ⟨w', hw'⟩ hnext).symm

/-- What is read of a TCP header and its options. -/
def TcpCaptured (mem : Memory) (n bp length bp2 : ℕ) : Prop :=
  bp + 12 < n ∧ (tcphdrSize ≤ headerLength mem bp → bp2 < n ∧ bp + 19 < n ∧
    (headerLength mem bp ≤ length →
      OptionsCaptured mem n (bp + tcphdrSize) (headerLength mem bp - tcphdrSize)))

lemma within_tcpPrint {bp length bp2 : ℕ} (hfuel : n < fuel) :
    Within 0 n (tcpPrint mem fuel bp length bp2) ↔ TcpCaptured mem n bp length bp2 := by
  have hle : headerLength mem bp ≤ 60 := by
    have := (mem (bp + 12)).toNat_lt
    unfold headerLength
    omega
  have hoptions : Within 0 n (options mem fuel
        ⟨bp + tcphdrSize, headerLength mem bp - tcphdrSize, none⟩) ↔
      OptionsCaptured mem n (bp + tcphdrSize) (headerLength mem bp - tcphdrSize) :=
    within_options (by dsimp only; omega) (by omega) (by omega)
  unfold tcpPrint TcpCaptured
  have hhead : (mem (bp + 12)).toNat / 16 * 4 = headerLength mem bp := rfl
  simp only [within_bind, within_byte, value_byte, hhead]
  refine and_congr (by omega) ?_
  by_cases hshort : headerLength mem bp < tcphdrSize
  · simp only [if_pos hshort, within_bind, within_emit, within_pure, and_self, true_iff]
    exact fun h => absurd hshort (by omega)
  rw [if_neg hshort]
  -- the ports, the numbers, the window, the urgent pointer and the flags
  have hfields : (0 ≤ bp2 ∧ bp2 < n) ∧ (0 ≤ bp ∧ bp + 1 < n) ∧ (0 ≤ bp + 2 ∧ bp + 2 + 1 < n) ∧
      (0 ≤ bp + 4 ∧ bp + 4 + 3 < n) ∧ (0 ≤ bp + 8 ∧ bp + 8 + 3 < n) ∧
      (0 ≤ bp + 14 ∧ bp + 14 + 1 < n) ∧ (0 ≤ bp + 18 ∧ bp + 18 + 1 < n) ∧
      (0 ≤ bp + 13 ∧ bp + 13 < n) ↔ bp2 < n ∧ bp + 19 < n := by omega
  by_cases hlong : length < headerLength mem bp
  · simp only [if_pos hlong, within_bind, within_byte, within_extract16Bits, within_extract32Bits,
      within_emit, within_pure, and_true, true_and, not_le.2 hlong, false_imp_iff,
      not_lt.1 hshort, forall_const]
    exact hfields
  · simp only [if_neg hlong, within_bind, within_byte, within_extract16Bits, within_extract32Bits,
      within_emit, true_and, not_lt.1 hlong, forall_const, not_lt.1 hshort]
    by_cases hmore : tcphdrSize < headerLength mem bp
    · rw [if_pos hmore, hoptions]
      simp only [← and_assoc] at hfields ⊢
      rw [hfields]
    · rw [if_neg hmore]
      have hdone : OptionsCaptured mem n (bp + tcphdrSize) (headerLength mem bp - tcphdrSize) :=
        .done (by omega)
      simp only [within_pure, hdone, and_true]
      exact hfields

/-! ## The protocols over IPv4 -/

def IsEcho (type : ℕ) : Prop := type = icmpEcho ∨ type = icmpEchoreply

instance (type : ℕ) : Decidable (IsEcho type) := inferInstanceAs (Decidable (_ ∨ _))

/-- What the printers for TCP, UDP and echo messages read. -/
def PayloadCaptured (mem : Memory) (n bp cp len nh : ℕ) : Prop :=
  if nh = ipprotoTcp then TcpCaptured mem n cp len bp
  else if nh = ipprotoUdp then cp + 5 < n
  else if nh = ipprotoIcmp then cp < n ∧ (IsEcho (mem cp).toNat → cp + 7 < n)
  else True

/-- What the other printers read. -/
def payloadOthers (mem : Memory) (bp cp len nh : ℕ) : List ℕ :=
  if nh = ipprotoSctp then (sctpPrint mem cp len).reads
  else if nh = ipprotoIcmp ∧ ¬IsEcho (mem cp).toNat then (icmpMessage mem cp (mem cp).toNat).reads
  else if nh = ipprotoVrrp then (vrrpPrint mem bp cp).reads
  else []

lemma own_icmpPrint (bp cp len : ℕ) :
    Own n (payloadOthers mem bp cp len ipprotoIcmp) (PayloadCaptured mem n bp cp len ipprotoIcmp)
      (icmpPrint mem cp len) := by
  have hend : ∀ {others P} {x : Printer Unit}, Own n others P x →
      Own n others P (x >>= fun _ => emit (unsigned len)) := fun hx =>
    (hx.bind_left (iff_of_true (within_emit _) trivial)).congr (and_iff_left trivial)
  obtain ⟨P, hP, hmessage⟩ : ∃ P, (PayloadCaptured mem n bp cp len ipprotoIcmp ↔ cp < n ∧ P) ∧
      Own n (payloadOthers mem bp cp len ipprotoIcmp) P (icmpMessage mem cp (mem cp).toNat) := by
    refine ⟨IsEcho (mem cp).toNat → cp + 7 < n, Iff.rfl, ?_⟩
    by_cases hecho : IsEcho (mem cp).toNat
    · have hseq : ∀ head, Within 0 n (idSeq mem cp head) ↔ cp + 7 < n := by
        simp only [idSeq, within_bind, within_extract16Bits, within_emit, and_true]
        omega
      simp only [payloadOthers, hecho, not_true_eq_false, and_false, if_false, forall_const]
      refine own_of_within ?_
      rcases hecho with h | h
      · rw [h]
        exact hseq _
      · rw [h]
        exact hseq _
    · simp only [payloadOthers, hecho, not_false_eq_true, and_true, false_imp_iff]
      exact own_reads _
  refine (Own.bind (within_byte mem cp) (hend hmessage)).congr (Iff.trans ?_ hP.symm)
  exact and_congr_left fun _ => and_iff_right (Nat.zero_le cp)

lemma own_ipPrintDemux (hfuel : n < fuel) (bp cp len nh : ℕ) :
    Own n (payloadOthers mem bp cp len nh) (PayloadCaptured mem n bp cp len nh)
      (ipPrintDemux mem fuel bp cp len nh) := by
  have hsilent : ∀ {t : Text}, nh ≠ ipprotoTcp → nh ≠ ipprotoUdp → nh ≠ ipprotoIcmp →
      Own n [] (PayloadCaptured mem n bp cp len nh) (emit t) := by
    intro t htcp hudp hicmp
    rw [PayloadCaptured, if_neg htcp, if_neg hudp, if_neg hicmp]
    exact own_of_within (iff_of_true (within_emit _) trivial)
  unfold ipPrintDemux
  split_ifs with htcp hudp hsctp hicmp hipv4 hipv6 hvrrp
  · subst htcp
    refine own_of_within ?_
    rw [within_bind, within_tcpPrint hfuel]
    exact and_iff_left (within_pure ())
  · subst hudp
    refine own_of_within ?_
    simp only [udpPrint, within_bind, within_extract16Bits, within_emit, and_true]
    show _ ↔ cp + 5 < n
    omega
  · subst hsctp
    exact own_reads _
  · subst hicmp
    exact own_icmpPrint bp cp len
  · subst hipv4
    exact hsilent (by decide) (by decide) (by decide)
  · subst hipv6
    exact hsilent (by decide) (by decide) (by decide)
  · subst hvrrp
    exact own_reads _
  · have hothers : payloadOthers mem bp cp len nh = [] := by
      simp [payloadOthers, hsctp, hicmp, hvrrp]
    rw [hothers]
    exact hsilent htcp hudp hicmp

/-! ## IPv4 -/

def FirstFragment (mem : Memory) (bp : ℕ) : Prop := word16 mem (bp + 6) &&& 0x1fff = 0

instance (mem : Memory) (bp : ℕ) : Decidable (FirstFragment mem bp) :=
  inferInstanceAs (Decidable (_ = _))

/-- What is read behind the header, which has `hlen` bytes of the `len` of the packet. -/
def BodyCaptured (mem : Memory) (n bp hlen len : ℕ) : Prop :=
  FirstFragment mem bp → PayloadCaptured mem n bp (bp + hlen) (len - hlen) (mem (bp + 9)).toNat

def bodyOthers (mem : Memory) (bp hlen len : ℕ) : List ℕ :=
  if FirstFragment mem bp then
    payloadOthers mem bp (bp + hlen) (len - hlen) (mem (bp + 9)).toNat
  else []

def ipHlen (mem : Memory) (bp : ℕ) : ℕ := (mem bp).toNat % 16 * 4

/-- The checks of `ip_print` let the packet through. -/
def Addressed (mem : Memory) (bp length : ℕ) : Prop :=
  ipHdrSize ≤ length ∧ ipHdrSize ≤ ipHlen mem bp ∧ ipHlen mem bp ≤ word16 mem (bp + 2)

instance (mem : Memory) (bp length : ℕ) : Decidable (Addressed mem bp length) :=
  inferInstanceAs (Decidable (_ ∧ _))

/-- What is read of an IPv4 packet. -/
def IpCaptured (mem : Memory) (n bp length : ℕ) : Prop :=
  bp + 3 < n ∧ (Addressed mem bp length →
    bp + 19 < n ∧ BodyCaptured mem n bp (ipHlen mem bp) (word16 mem (bp + 2)))

def ipOthers (mem : Memory) (bp length : ℕ) : List ℕ :=
  if Addressed mem bp length then bodyOthers mem bp (ipHlen mem bp) (word16 mem (bp + 2)) else []

lemma within_ipFields (sys : System) (bp off p : ℕ) :
    Within 0 n (ipFields sys mem bp off p) ↔ bp + 19 < n := by
  simp only [ipFields, within_bind, within_byte, within_emit, within_extract16Bits, within_block,
    true_and, and_true]
  omega

lemma own_ipBody (sys : System) (hfuel : n < fuel) (bp hlen len : ℕ) :
    Own n (bodyOthers mem bp hlen len) (bp + 19 < n ∧ BodyCaptured mem n bp hlen len)
      (ipBody sys mem fuel bp hlen len) := by
  have hpayload : Own n (bodyOthers mem bp hlen len) (BodyCaptured mem n bp hlen len)
      (ipPayload mem fuel bp hlen (len - hlen) (word16 mem (bp + 6)) (mem (bp + 9)).toNat) := by
    unfold bodyOthers BodyCaptured ipPayload
    by_cases hfirst : FirstFragment mem bp
    · rw [if_pos hfirst, if_pos (show word16 mem (bp + 6) &&& 0x1fff = 0 from hfirst)]
      exact (own_ipPrintDemux hfuel _ _ _ _).congr ⟨fun h _ => h, fun h => h hfirst⟩
    · rw [if_neg hfirst, if_neg (show ¬word16 mem (bp + 6) &&& 0x1fff = 0 from hfirst)]
      exact own_of_within (iff_of_true (within_pure ()) fun h => absurd h hfirst)
  refine (Own.bind (within_extract16Bits mem (bp + 6)) (Own.bind (within_byte mem (bp + 9))
    (Own.bind (within_ipFields sys bp _ _)
      (hpayload.bind_left (iff_of_true (within_pure true) trivial))))).congr ?_
  constructor
  · rintro ⟨-, -, hfields, hrest, -⟩
    exact ⟨hfields, hrest⟩
  · rintro ⟨hfields, hrest⟩
    exact ⟨by omega, by omega, hfields, hrest, trivial⟩

lemma within_ipPrint_of_not {sys : System} {bp length : ℕ} (h : ¬Addressed mem bp length) :
    Within 0 n (ipPrint sys mem fuel bp length) ↔ bp + 3 < n := by
  have hchecks : bp + 3 < n →
      Within 0 n (ipChecks sys mem fuel bp length (word16 mem (bp + 2))) := by
    intro hn
    unfold ipChecks ipHeaderLength ipLength
    split_ifs with hsnap hshort
    · simp only [within_bind, within_emit, within_pure, and_self]
    · simp only [within_bind, within_emit, within_pure, and_self]
    · rw [within_bind, value_byte, within_byte]
      refine ⟨by omega, ?_⟩
      split_ifs with hhlen
      · simp only [within_bind, within_emit, within_pure, and_self]
      · rw [within_bind, value_extract16Bits, within_extract16Bits]
        have hlen : word16 mem (bp + 2) < (mem bp).toNat % 16 * 4 := by
          by_contra hlen
          exact h ⟨not_lt.1 hshort, not_lt.1 hhlen, not_lt.1 hlen⟩
        rw [if_pos hlen]
        simp only [within_bind, within_emit, within_pure, and_true]
        omega
  simp only [ipPrint, within_bind, within_byte, within_emit, within_extract16Bits,
    value_extract16Bits, true_and]
  constructor
  · omega
  · intro hn
    exact ⟨by omega, by omega, hchecks hn⟩

lemma own_ipChecks {sys : System} {bp length : ℕ} {others : List ℕ} {P : Prop}
    (h : Addressed mem bp length)
    (hbody : Own n others P (ipBody sys mem fuel bp (ipHlen mem bp) (word16 mem (bp + 2)))) :
    Own n others ((0 ≤ bp ∧ bp < n) ∧ (0 ≤ bp + 2 ∧ bp + 2 + 1 < n) ∧ True ∧ P)
      (ipChecks sys mem fuel bp length (word16 mem (bp + 2))) := by
  obtain ⟨hlength, hhlen, hlen⟩ := h
  have hsnap : ¬maximumSnaplen < word16 mem (bp + 2) := by
    have := word16_lt mem (bp + 2)
    rw [maximumSnaplen]
    omega
  have hlengths : Own n others (True ∧ P)
      (ipLength sys mem fuel bp length (ipHlen mem bp) (word16 mem (bp + 2))) := by
    rw [ipLength, if_neg (not_lt.2 hlen)]
    exact Own.bind (iff_of_true (within_emit _) trivial) hbody
  rw [ipChecks, if_neg hsnap, if_neg (not_lt.2 hlength)]
  refine Own.bind (within_byte mem bp) ?_
  rw [value_byte, ← ipHlen, ipHeaderLength, if_neg (not_lt.2 hhlen)]
  exact Own.bind (within_extract16Bits mem (bp + 2)) hlengths

lemma own_ipPrint (sys : System) (hfuel : n < fuel) (bp length : ℕ) :
    Own n (ipOthers mem bp length) (IpCaptured mem n bp length)
      (ipPrint sys mem fuel bp length) := by
  unfold ipOthers IpCaptured
  by_cases h : Addressed mem bp length
  · rw [if_pos h]
    refine (Own.bind (within_byte mem bp) (Own.bind (iff_of_true (within_emit _) trivial)
      (Own.bind (within_extract16Bits mem (bp + 2))
        (own_ipChecks h (own_ipBody sys hfuel bp _ _))))).congr ?_
    constructor
    · rintro ⟨-, -, hn, -, -, -, hbody⟩
      exact ⟨by omega, fun _ => hbody⟩
    · rintro ⟨hn, hbody⟩
      exact ⟨by omega, trivial, by omega, by omega, by omega, trivial, hbody h⟩
  · rw [if_neg h]
    refine own_of_within ((within_ipPrint_of_not h).trans ?_)
    exact (and_iff_left fun hadd => absurd hadd h).symm

/-! ## The log -/

def ipVersion (mem : Memory) (bp : ℕ) : ℕ := (mem bp).toNat / 16

def PacketCaptured (mem : Memory) (n bp length : ℕ) : Prop :=
  bp < n ∧ (4 ≤ length → ipVersion mem bp ≠ 6 → IpCaptured mem n bp length)

def packetOthers (sys : System) (mem : Memory) (fuel bp length : ℕ) : List ℕ :=
  if length < 4 then []
  else if ipVersion mem bp = 6 then (ip6Print sys.ip6 mem fuel bp length).reads
  else ipOthers mem bp length

lemma own_packetPrint (sys : System) (hfuel : n < fuel) (bp length : ℕ) :
    Own n (packetOthers sys mem fuel bp length) (PacketCaptured mem n bp length)
      (packetPrint sys mem fuel bp length) := by
  unfold packetOthers packetPrint
  by_cases hshort : length < 4
  · rw [if_pos hshort, if_pos hshort]
    refine own_of_within ?_
    simp only [within_bind, within_byte, within_emit, within_pure, and_true]
    exact ⟨fun h => ⟨h.2, fun h4 => absurd hshort (by omega)⟩, fun h => ⟨Nat.zero_le _, h.1⟩⟩
  rw [if_neg hshort, if_neg hshort]
  suffices hversion : Own n (if ipVersion mem bp = 6 then
      (ip6Print sys.ip6 mem fuel bp length).reads else ipOthers mem bp length)
      (ipVersion mem bp ≠ 6 → IpCaptured mem n bp length)
      (versionPrint sys mem fuel bp length (ipVersion mem bp)) by
    refine (Own.bind (within_byte mem bp) hversion).congr ?_
    exact and_congr (by omega) ⟨fun h _ => h, fun h => h (by omega)⟩
  unfold versionPrint
  by_cases h6 : ipVersion mem bp = 6
  · rw [if_pos h6, if_neg (by omega), if_pos h6]
    exact ((own_reads _).bind_left (iff_of_true (within_pure false) trivial)).congr
      (iff_of_true ⟨trivial, trivial⟩ fun h => absurd h6 h)
  rw [if_neg h6]
  refine Own.congr (P := IpCaptured mem n bp length) ?_ ⟨fun h _ => h, fun h => h h6⟩
  by_cases h4 : ipVersion mem bp = 4
  · rw [if_pos h4]
    exact own_ipPrint sys hfuel bp length
  · -- another version is printed as IPv4, and then its number
    rw [if_neg h4, if_neg h6]
    refine ((own_ipPrint sys hfuel bp length).bind_left (Q := bp < n) ?_).congr ?_
    · simp only [within_bind, within_byte, within_emit, within_pure, and_true]
      omega
    · exact and_iff_left_of_imp fun h => by have := h.1; omega

/-- The string from `i` on ends in the first `n` bytes. -/
def StringCaptured (mem : Memory) (n i : ℕ) : Prop := ∃ j < n, i ≤ j ∧ mem j = 0

lemma within_cString {i : ℕ} (hfuel : n < fuel + i) (hne : 0 < fuel) :
    Within 0 n (cString mem fuel i) ↔ StringCaptured mem n i := by
  induction fuel generalizing i with
  | zero => exact absurd hne (Nat.lt_irrefl 0)
  | succ fuel ih =>
    rw [cString, within_bind, within_byte, value_byte, stringStep]
    by_cases hzero : mem i = 0
    · rw [if_pos (by rw [hzero]; rfl)]
      constructor
      · rintro ⟨⟨-, hi⟩, -⟩
        exact ⟨i, hi, le_rfl, hzero⟩
      · rintro ⟨j, hj, hij, -⟩
        exact ⟨by omega, within_pure _⟩
    · have hne' : ¬(mem i).toNat = 0 := fun h => hzero (UInt8.toNat_inj.1 h)
      rw [if_neg hne', within_bind]
      have hnext : StringCaptured mem n i ↔ StringCaptured mem n (i + 1) := by
        refine exists_congr fun j => and_congr_right fun _ => and_congr_left fun hj => ?_
        refine ⟨fun hle => ?_, Nat.le_of_succ_le⟩
        rcases Nat.eq_or_lt_of_le hle with rfl | hlt
        · exact absurd hj hzero
        · exact hlt
      rw [hnext]
      constructor
      · rintro ⟨⟨-, hi⟩, hrest, -⟩
        exact (ih (by omega) (by omega)).1 hrest
      · rintro ⟨j, hj, hij, hz⟩
        exact ⟨by omega, (ih (by omega) (by omega)).2 ⟨j, hj, hij, hz⟩, within_pure _⟩

/-- What is read of the header: its last field ends at 67. -/
def HeaderCaptured (mem : Memory) (n : ℕ) : Prop :=
  67 < n ∧ (word32 mem 40 ≠ 2 ^ 32 - 1 → StringCaptured mem n 20) ∧ StringCaptured mem n 4

lemma within_headerFields (hfuel : n < fuel) (reason : ℕ) :
    Within 0 n (headerFields mem fuel reason) ↔ HeaderCaptured mem n := by
  have hsub : Within 0 n (subrulePrint mem fuel (word32 mem 40)) ↔
      (word32 mem 40 ≠ 2 ^ 32 - 1 → StringCaptured mem n 20) := by
    unfold subrulePrint
    by_cases h : word32 mem 40 = 2 ^ 32 - 1
    · rw [if_pos h]
      exact iff_of_true (within_emit _) fun hne => absurd h hne
    · rw [if_neg h, within_bind, within_cString (by omega) (by omega)]
      exact ⟨fun hs _ => hs.1, fun hs => ⟨hs h, within_emit _⟩⟩
  simp only [headerFields, within_bind, within_extract32Bits, value_extract32Bits, within_byte,
    within_emit, hsub, within_cString (show n < fuel + 4 by omega) (show 0 < fuel by omega),
    true_and, and_true]
  constructor
  · rintro ⟨-, -, hanchor, hn, hname, -, -⟩
    exact ⟨by omega, hanchor, hname⟩
  · rintro ⟨hn, hanchor, hname⟩
    exact ⟨by omega, by omega, hanchor, by omega, hname, by omega, by omega⟩

section Decode

variable (sys : System) (filterReasons : ℕ → Bool) (fuel : ℕ) (c : Capture)

/-- There is a header of the log, as far as its length byte says. -/
def Logged : Prop := 1 ≤ c.caplen ∧ minPflogHdrlen ≤ (c.mem 0).toNat

/-- Its fields are printed. -/
def Decoded : Prop :=
  Logged c ∧ filterReasons (c.mem 3).toNat = false ∧ hdrlen c ≤ c.caplen

instance : Decidable (Logged c) := inferInstanceAs (Decidable (_ ∧ _))

instance : Decidable (Decoded filterReasons c) := inferInstanceAs (Decidable (_ ∧ _))

/-- The reads of the printers for other versions and protocols. -/
def otherReads : List ℕ :=
  if Decoded filterReasons c then packetOthers sys c.mem fuel (hdrlen c) (wireLength c) else []

def PrintedCaptured : Prop :=
  HeaderCaptured c.mem c.caplen ∧ PacketCaptured c.mem c.caplen (hdrlen c) (wireLength c)

/-- What has to be captured: the reason, which has to be one of the array, and what is printed. -/
structure Captured : Prop where
  reason : Logged c → 3 < c.caplen ∧ (c.mem 3).toNat < filterReasonsSize
  printed : Decoded filterReasons c → PrintedCaptured c

variable {sys filterReasons fuel c}

lemma own_decodeReason (hlogged : Logged c) (hfuel : c.caplen < fuel) :
    Own c.caplen (otherReads sys filterReasons fuel c) (Decoded filterReasons c → PrintedCaptured c)
      (decodeReason sys filterReasons fuel c (hdrlen c) (c.mem 3).toNat) := by
  have hnone : ¬Decoded filterReasons c → ∀ {α : Type} {x : Printer α}, Within 0 c.caplen x →
      Own c.caplen (otherReads sys filterReasons fuel c)
        (Decoded filterReasons c → PrintedCaptured c) x := by
    intro hnot α x hx
    rw [otherReads, if_neg hnot]
    exact own_of_within (iff_of_true hx fun h => absurd h hnot)
  unfold decodeReason
  by_cases hfilter : filterReasons (c.mem 3).toNat = true
  · rw [if_pos hfilter]
    exact hnone (fun h => absurd h.2.1 (by simp [hfilter])) (within_pure _)
  rw [if_neg hfilter]
  by_cases hlen : c.caplen < hdrlen c
  · refine hnone (fun h => by have := h.2.2; omega) ?_
    rw [decodeFields, if_pos hlen]
    simp only [within_bind, within_emit, within_pure, and_self]
  have hdecoded : Decoded filterReasons c := ⟨hlogged, by simpa using hfilter, not_lt.1 hlen⟩
  rw [otherReads, if_pos hdecoded, decodeFields_eq hlen]
  refine (((Own.bind (within_headerFields hfuel _)
    (own_packetPrint sys hfuel _ _)).bind_left (iff_of_true (within_pure _) trivial)).congr ?_)
  exact ⟨fun h _ => h.1, fun h => ⟨h hdecoded, trivial⟩⟩

lemma index_decodeReason (n reason : ℕ) :
    (decodeReason sys filterReasons fuel c n reason).value.index = some reason := by
  unfold decodeReason
  by_cases h : filterReasons reason = true
  · rw [if_pos h, value_pure]
  · rw [if_neg h, value_bind, value_pure]

/-- Without a header nothing but its length is looked at. -/
lemma within_of_not_logged (h : ¬Logged c) :
    Within 0 c.caplen (decodePacket sys filterReasons fuel c) ∧
      (decodePacket sys filterReasons fuel c).value.index = none := by
  unfold decodePacket
  by_cases hempty : c.caplen < 1
  · simp only [if_pos hempty, within_bind, within_emit, within_pure, value_bind, value_pure,
      and_self]
  · have hlen : (c.mem 0).toNat < minPflogHdrlen := not_le.1 fun hlen => h ⟨not_lt.1 hempty, hlen⟩
    rw [if_neg hempty, within_bind, value_bind, value_byte, decodeLength, if_pos hlen]
    simp only [within_bind, within_byte, within_emit, within_pure, value_bind, value_pure, and_true]
    omega

/-- **What `decode_packet` reads was captured**, and its index is one of the array, exactly for the
captures that are `Captured`. -/
theorem reads_captured_iff (hfuel : c.caplen < fuel) :
    (∀ i ∈ (decodePacket sys filterReasons fuel c).reads.diff
        (otherReads sys filterReasons fuel c), i < c.caplen) ∧
      (∀ k ∈ (decodePacket sys filterReasons fuel c).value.index, k < filterReasonsSize) ↔
    Captured filterReasons c := by
  by_cases h : Logged c
  · have hnext : decodeLength sys filterReasons fuel c (c.mem 0).toNat =
        byte c.mem 3 >>= decodeReason sys filterReasons fuel c (hdrlen c) := if_neg (not_lt.2 h.2)
    have hpacket : decodePacket sys filterReasons fuel c =
        byte c.mem 0 >>= decodeLength sys filterReasons fuel c := if_neg (not_lt.2 h.1)
    have hindex : (decodePacket sys filterReasons fuel c).value.index = some (c.mem 3).toNat := by
      rw [hpacket, value_bind, value_byte, hnext]
      exact index_decodeReason _ _
    have hown : Own c.caplen (otherReads sys filterReasons fuel c) ((0 ≤ 0 ∧ 0 < c.caplen) ∧
        (0 ≤ 3 ∧ 3 < c.caplen) ∧ (Decoded filterReasons c → PrintedCaptured c))
        (decodePacket sys filterReasons fuel c) := by
      rw [hpacket]
      refine Own.bind (within_byte c.mem 0) ?_
      rw [value_byte, hnext]
      exact Own.bind (within_byte c.mem 3) (own_decodeReason h hfuel)
    rw [hindex, hown.forall_mem_diff]
    have := h.1
    constructor
    · rintro ⟨⟨-, ⟨-, h3⟩, hprinted⟩, hreason⟩
      exact ⟨fun _ => ⟨h3, hreason _ rfl⟩, hprinted⟩
    · rintro ⟨hreason, hprinted⟩
      refine ⟨⟨by omega, ⟨Nat.zero_le _, (hreason h).1⟩, hprinted⟩, ?_⟩
      rintro k ⟨⟩
      exact (hreason h).2
  · obtain ⟨hwithin, hindex⟩ : Within 0 c.caplen (decodePacket sys filterReasons fuel c) ∧ _ :=
      within_of_not_logged h
    have hnot : ¬Decoded filterReasons c := fun hd => h hd.1
    rw [hindex, otherReads, if_neg hnot]
    refine iff_of_true ⟨within_zero.1 hwithin, by simp⟩ ?_
    exact ⟨fun hl => absurd hl h, fun hd => absurd hd hnot⟩

theorem datagram_captured :
    (∀ i ∈ (decodePacket bareSystem (fun _ => false) 101 (datagram 28)).reads.diff
        (otherReads bareSystem (fun _ => false) 101 (datagram 28)), i < 100) ∧
      ∀ k ∈ (decodePacket bareSystem (fun _ => false) 101 (datagram 28)).value.index, k < 16 := by
  refine (reads_captured_iff (by decide)).2 ⟨fun _ => by decide, fun _ => ⟨?_, ?_⟩⟩
  · exact ⟨by decide, fun h => absurd (by decide) h, 7, by decide, by decide, by decide⟩
  · refine ⟨by decide, fun _ _ => ⟨by decide, fun _ => ⟨by decide, fun _ => ?_⟩⟩⟩
    show 92 + 5 < 100
    decide

/-- One byte, which says that the header has forty-five.  What follows it in memory is not of the
packet. -/
def shortCapture : Capture where
  mem i := ([45, 0, 0, 200] : List UInt8).getD i 0
  caplen := 1
  len := 1
  caplen_le := le_rfl
  len_lt := by decide

/-- **The reason of a header that was not captured** is read, and is the index. -/
theorem shortCapture_reads :
    (decodePacket bareSystem (fun _ => false) 2 shortCapture).reads = [0, 3] ∧
      otherReads bareSystem (fun _ => false) 2 shortCapture = [] ∧
      (decodePacket bareSystem (fun _ => false) 2 shortCapture).value.index = some 200 := by
  decide

end Decode

end FreeSense.Filterlog
