import FreeSensePorts.Filterlog.Ip6Opts
import FreeSensePorts.Filterlog.Tcp

/-!
# IPv6 packets

`ip6_print` of `print-ip6.c`, with the printers of the extension headers and `mobility_print` of
`print-mobility.c`.  The loop over the headers returns the passes it made: where each looked, for which
header, with which remaining length, and whether the subtraction that gave it went below zero.
-/

namespace FreeSense.Filterlog

open Printer

/-- `sizeof(struct ip6_hdr)`. -/
def ip6HdrSize : ℕ := 40

/-- `sizeof(struct ip6_frag)`. -/
def ip6FragSize : ℕ := 8

/-- `sizeof(struct sctphdr)`. -/
def sctphdrSize : ℕ := 12

/-- What the printer takes from the system: the texts of addresses, and `IP6F_OFF_MASK`, which the
header files of the system choose by the order of bytes. -/
structure Ip6System where
  ntop : Ntop6
  offMask : ℕ

/-! ## Extension headers -/

/-- `hbhopt_print` and `dstopt_print`. -/
def optsHeader (sys : Ip6System) (mem : Memory) (fuel : ℕ) (name : Text) (bp : ℕ) : Printer ℤ := do
  let l ← byte mem (bp + 1)
  emit name
  let _ ← ip6OptPrint sys.ntop mem fuel (bp + 2) ((l + 1) * 8 - 2)
  return (l + 1) * 8

def hbhoptPrint (sys : Ip6System) (mem : Memory) (fuel bp : ℕ) : Printer ℤ :=
  optsHeader sys mem fuel "HBH,".toList bp

def dstoptPrint (sys : Ip6System) (mem : Memory) (fuel bp : ℕ) : Printer ℤ :=
  optsHeader sys mem fuel "DSTOPT,".toList bp

/-- The loop over the addresses of a routing header, `n` of them left.  False at `goto trunc`, where
an address would end behind the `datalen` bytes from `bp` on. -/
def rt6Addresses (sys : Ip6System) (mem : Memory) (bp : ℕ) (datalen : ℤ) : ℕ → ℕ → Printer Bool
  | 0, _ => pure true
  | n + 1, i =>
    if datalen < 8 + 16 * (i + 1) then pure false
    else do
      let addr ← block mem (bp + 8 + 16 * i) 16
      emit (unsigned i ++ ", ".toList ++ sys.ntop addr)
      rt6Addresses sys mem bp datalen n (i + 1)

def rt6Trunc : Printer ℤ := do
  emit "TRUNC,[|srcrt],".toList
  return -1

/-- What is returned behind the addresses. -/
def rt6End (len : ℕ) : Bool → Printer ℤ
  | true => return (len + 1) * 8
  | false => rt6Trunc

/-- The types 0 and 2, with addresses. -/
def rt6Type0 (sys : Ip6System) (mem : Memory) (bp : ℕ) (datalen : ℤ) (len : ℕ) : Printer ℤ := do
  let reserved ← extract32Bits mem (bp + 4)
  emit ("0x".toList ++ hex 0 reserved ++ ",".toList)
  if len % 2 = 1 then rt6Trunc
  else rt6Addresses sys mem bp datalen (len / 2) 0 >>= rt6End len

/-- The `switch` over the type. -/
def rt6Switch (sys : Ip6System) (mem : Memory) (bp : ℕ) (datalen : ℤ) (len type : ℕ) : Printer ℤ :=
  if type = 0 ∨ type = 2 then rt6Type0 sys mem bp datalen len else rt6Trunc

def rt6Print (sys : Ip6System) (mem : Memory) (bp : ℕ) (datalen : ℤ) : Printer ℤ := do
  let len ← byte mem (bp + 1)
  let type ← byte mem (bp + 2)
  let segleft ← byte mem (bp + 3)
  emit (unsigned len ++ ",".toList ++ unsigned type ++ ",".toList ++ unsigned segleft ++ ",".toList)
  rt6Switch sys mem bp datalen len type

/-- It is meaningless to decode a fragment that is not the first one. -/
def frag6End (offset : ℕ) : Printer ℤ :=
  if offset ≠ 0 then pure (-1)
  else do
    emit ",".toList
    return ip6FragSize

/-- The length that is printed is an `unsigned long` shown as a `long`. -/
def frag6Print (sys : Ip6System) (mem : Memory) (bp bp2 : ℕ) : Printer ℤ := do
  let ident ← extract32Bits mem (bp + 4)
  let offlg ← extract16Bits mem (bp + 2)
  let plen ← extract16Bits mem (bp2 + 4)
  let rest : ℤ := ip6HdrSize + plen - (bp - bp2) - ip6FragSize
  emit ("FRAG6, 0x".toList ++ hex 8 ident ++ ":".toList ++ unsigned (offlg &&& sys.offMask) ++
    "|".toList ++ (toString rest).toList ++ ",".toList)
  frag6End (offlg &&& sys.offMask)

/-! ## Mobility -/

/-- Two words as `%08x:%08x,`. -/
def wordPair (mem : Memory) (p : ℕ) : Printer Unit := do
  let high ← extract32Bits mem p
  let low ← extract32Bits mem (p + 4)
  emit (hex 8 high ++ ":".toList ++ hex 8 low ++ ",".toList)

/-- Home and care-of test, and what starts them. -/
def testInitPrint (mem : Memory) (bp : ℕ) (letter name : Text) : Printer Unit := do
  emit (letter ++ "oTI,".toList)
  emit (name ++ ", ".toList)
  wordPair mem (bp + 8)

def testPrint (mem : Memory) (bp : ℕ) (letter name : Text) : Printer Unit := do
  emit (letter ++ "oT,".toList)
  let nonce ← extract16Bits mem (bp + 6)
  emit ("0x".toList ++ hex 0 nonce ++ ", ".toList)
  emit (name ++ ", ".toList)
  wordPair mem (bp + 8)
  wordPair mem (bp + 16)

def bindingUpdatePrint (mem : Memory) (bp : ℕ) : Printer Unit := do
  emit "BINDINGUPDATE,".toList
  let seq ← extract16Bits mem (bp + 6)
  emit (unsigned seq ++ ",".toList)
  let flags ← byte mem (bp + 8)
  emit ((if flags &&& 0xf0 ≠ 0 then " ".toList else []) ++
    (if flags &&& 0x80 ≠ 0 then "A".toList else []) ++
    (if flags &&& 0x40 ≠ 0 then "H".toList else []) ++
    (if flags &&& 0x20 ≠ 0 then "L".toList else []) ++
    (if flags &&& 0x10 ≠ 0 then "K".toList else []))
  let lifetime ← extract16Bits mem (bp + 10)
  emit (unsigned (lifetime * 4) ++ ",".toList)

def bindingAckPrint (mem : Memory) (bp : ℕ) : Printer Unit := do
  emit "BINDINGACK,".toList
  let status ← byte mem (bp + 6)
  emit (unsigned status ++ ",".toList)
  let flags ← byte mem (bp + 7)
  emit (if flags &&& 0x80 ≠ 0 then "K".toList else [])
  let seq ← extract16Bits mem (bp + 8)
  emit (unsigned seq ++ ",".toList)
  let lifetime ← extract16Bits mem (bp + 10)
  emit (unsigned (lifetime * 4) ++ ",".toList)

def bindingErrorPrint (sys : Ip6System) (mem : Memory) (bp : ℕ) : Printer Unit := do
  emit "BINDINGERR,".toList
  let status ← byte mem (bp + 6)
  emit (unsigned status ++ ",".toList)
  let home ← block mem (bp + 8) 16
  emit (sys.ntop home ++ ",".toList)

def mobilityPrint (sys : Ip6System) (mem : Memory) (bp : ℕ) : Printer Unit := do
  let l ← byte mem (bp + 1)
  let type ← byte mem (bp + 2)
  if type = 0 then emit "BRR,".toList
  else if type = 1 then testInitPrint mem bp "H".toList "Home".toList
  else if type = 2 then testInitPrint mem bp "C".toList "Care-of".toList
  else if type = 3 then testPrint mem bp "H".toList "Home".toList
  else if type = 4 then testPrint mem bp "C".toList "Care-of".toList
  else if type = 5 then bindingUpdatePrint mem bp
  else if type = 6 then bindingAckPrint mem bp
  else if type = 7 then bindingErrorPrint sys mem bp
  else emit ("TYPE,".toList ++ unsigned type ++ ",".toList ++ unsigned l)

/-! ## Headers -/

def udpPrint (mem : Memory) (cp : ℕ) : Printer Unit := do
  let sport ← extract16Bits mem cp
  let dport ← extract16Bits mem (cp + 2)
  let ulen ← extract16Bits mem (cp + 4)
  emit (unsigned sport ++ ",".toList ++ unsigned dport ++ ",".toList ++ unsigned ulen)

/-- The length is an `unsigned long`. -/
def sctpPrint (mem : Memory) (cp len : ℕ) : Printer Unit := do
  let sport ← extract16Bits mem cp
  let dport ← extract16Bits mem (cp + 2)
  emit (unsigned sport ++ ",".toList ++ unsigned dport ++ ",".toList ++
    unsigned ((len + 2 ^ 64 - sctphdrSize) % 2 ^ 64))

/-- The variables `cp`, `len` and `nh` in a turn of the loop, behind the subtraction, and whether that
went below zero. -/
structure Pass where
  cp : ℕ
  len : ℕ
  nh : ℕ
  wrapped : Bool
  deriving DecidableEq, Repr

/-- How a turn ends: with new values of `advance` and `nh`, or with `return`. -/
inductive After
  | loop (advance : ℤ) (nh : ℕ)
  | leave
  deriving DecidableEq, Repr

/-- A header that is skipped by what its printer returns. -/
def extensionHeader (mem : Memory) (cp : ℕ) (print : Printer ℤ) : Printer After := do
  let advance ← print
  let nh ← byte mem cp
  return .loop advance nh

/-- A header behind which nothing is printed. -/
def lastHeader {α : Type} (print : Printer α) : Printer After := do
  let _ ← print
  return .leave

/-- The `switch` over the headers.  Behind the ports of SCTP stands a `break`, so that `advance` and
`nh` are those of the turn before. -/
def headerPrint (sys : Ip6System) (mem : Memory) (fuel bp : ℕ) (advance : ℤ) (p : Pass) :
    Printer After :=
  if p.nh = ipprotoHopopts then extensionHeader mem p.cp (hbhoptPrint sys mem fuel p.cp)
  else if p.nh = ipprotoDstopts then extensionHeader mem p.cp (dstoptPrint sys mem fuel p.cp)
  else if p.nh = ipprotoFragment then extensionHeader mem p.cp (frag6Print sys mem p.cp bp)
  else if p.nh = ipprotoMobilityOld ∨ p.nh = ipprotoMobility then lastHeader do
    emit "MOBILITY,".toList
    mobilityPrint sys mem p.cp
    byte mem p.cp
  else if p.nh = ipprotoRouting then
    extensionHeader mem p.cp (rt6Print sys mem p.cp (Int.bmod p.len (2 ^ 32)))
  else if p.nh = ipprotoTcp then lastHeader (tcpPrint mem fuel p.cp p.len bp)
  else if p.nh = ipprotoUdp then lastHeader (udpPrint mem p.cp)
  else if p.nh = ipprotoSctp then do
    sctpPrint mem p.cp p.len
    return .loop advance p.nh
  else if p.nh = ipprotoIpv6 then lastHeader (emit "IPV6-IN-IPV6,".toList)
  else if p.nh = ipprotoIpv4 then lastHeader (emit "IPV4-IN-IPV6,".toList)
  else return .leave

/-- The addresses are printed in the turn that looks behind the fixed header. -/
def addressesPrint (sys : Ip6System) (mem : Memory) (bp cp : ℕ) : Printer Unit :=
  if cp = bp + ip6HdrSize then do
    let src ← block mem (bp + 8) 16
    emit (sys.ntop src ++ ",".toList)
    let dst ← block mem (bp + 24) 16
    emit (sys.ntop dst ++ ",".toList)
  else pure ()

/-- `cp += advance; len -= advance;` -/
def nextPass (cp len : ℕ) (advance : ℤ) (nh : ℕ) : Pass :=
  ⟨cp + advance.toNat, sub32 len advance.toNat, nh, decide (len < advance.toNat)⟩

/-- The loop, with the passes it makes; `none` without enough fuel. -/
def headersPrint (sys : Ip6System) (mem : Memory) (fuel₀ bp ipend : ℕ) :
    ℕ → ℕ → ℕ → ℤ → ℕ → Printer (Option (List Pass))
  | 0, cp, _, advance, _ => return if cp < ipend ∧ 0 < advance then none else some []
  | fuel + 1, cp, len, advance, nh =>
    if cp < ipend ∧ 0 < advance then do
      let p := nextPass cp len advance nh
      addressesPrint sys mem bp p.cp
      match ← headerPrint sys mem fuel₀ bp advance p with
      | .leave => return some [p]
      | .loop advance' nh' =>
        let rest ← headersPrint sys mem fuel₀ bp ipend fuel p.cp p.len advance' nh'
        return rest.map (p :: ·)
    else return some []

/-- What is printed of the fixed header, in front of the addresses. -/
def ip6HeadPrint (mem : Memory) (bp length payloadLen : ℕ) : Printer Unit := do
  emit (if length < payloadLen + ip6HdrSize then
    "error='truncated-ip6 - ".toList ++ unsigned (payloadLen + ip6HdrSize - length) ++
      " bytes missing!',".toList
    else [])
  let flow ← extract32Bits mem bp
  emit ("0x".toList ++ hex 2 ((flow &&& 0x0ff00000) >>> 20) ++ ",".toList)
  emit ("0x".toList ++ hex 5 (flow &&& 0x000fffff) ++ ",".toList)
  let hlim ← byte mem (bp + 7)
  let nxt ← byte mem (bp + 6)
  emit (unsigned hlim ++ ",".toList ++ code2str ipprotoValues "unknown" nxt ++ ",".toList ++
    unsigned nxt ++ ",".toList ++ unsigned payloadLen ++ ",".toList)

def ip6Print (sys : Ip6System) (mem : Memory) (fuel bp length : ℕ) : Printer (Option (List Pass)) := do
  emit "6,".toList
  if length < ip6HdrSize then
    emit ("truncated-ip6=".toList ++ unsigned length ++ ",".toList)
    return some []
  let payloadLen ← extract16Bits mem (bp + 4)
  ip6HeadPrint mem bp length payloadLen
  let len := payloadLen + ip6HdrSize
  let nxt ← byte mem (bp + 6)
  headersPrint sys mem fuel bp (bp + len) fuel bp len ip6HdrSize nxt

end FreeSense.Filterlog
