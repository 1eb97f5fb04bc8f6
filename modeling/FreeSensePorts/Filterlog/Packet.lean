import FreeSensePorts.Filterlog.Ip

/-!
# Packets from the log interface

`decode_packet` of `filterlog.c`: the header that pf puts in front of a packet, and the packet.
`struct pfloghdr` is read where its fields stand.
-/

namespace FreeSense.Filterlog

open Printer

def minPflogHdrlen : ℕ := 45

def pfReasons : List (ℕ × String) :=
  [(0, "match"), (1, "bad-offset"), (2, "fragment"), (3, "short"), (4, "normalize"), (5, "memory"),
    (6, "bad-timestamp"), (7, "congestion"), (8, "ip-option"), (9, "proto-cksum"),
    (10, "state-mismatch"), (11, "state-insert"), (12, "state-limit"), (13, "src-limit"),
    (14, "synproxy"), (15, "map-failed"), (16, "translate")]

def pfActions : List (ℕ × String) :=
  [(0, "pass"), (1, "block"), (2, "scrub"), (4, "nat"), (5, "nat"), (6, "binat"), (7, "binat"),
    (8, "rdr"), (9, "rdr"), (10, "synproxy-drop")]

def pfDirections : List (ℕ × String) := [(0, "in/out"), (1, "in"), (2, "out")]

/-- `nitems(filter_reasons)`. -/
def filterReasonsSize : ℕ := 16

/-- `BPF_WORDALIGN`, to the size of a `long`. -/
def bpfWordalign (x : ℕ) : ℕ := (x + 7) / 8 * 8

/-- What is handed to `decode_packet`: the bytes, how many of them were captured, and how long the
packet was on the wire. -/
structure Capture where
  mem : Memory
  caplen : ℕ
  len : ℕ
  caplen_le : caplen ≤ len
  len_lt : len < 2 ^ 32

/-- What a call did: the index into `filter_reasons` it used, and whether it printed the addresses of
an IPv4 header. -/
structure Outcome where
  index : Option ℕ
  ipv4 : Bool
  deriving DecidableEq, Repr

/-! ## Strings -/

/-- A character, and the rest of the string unless it is the last one. -/
def stringStep (rest : Printer Text) (b : ℕ) : Printer Text :=
  if b = 0 then pure []
  else do
    let t ← rest
    return Char.ofNat b :: t

/-- `%s`: up to the first zero, wherever that is.  Without fuel the string ends. -/
def cString (mem : Memory) : ℕ → ℕ → Printer Text
  | 0, _ => pure []
  | fuel + 1, i => byte mem i >>= stringStep (cString mem fuel (i + 1))

/-! ## The packet -/

def otherVersion (sys : System) (mem : Memory) (fuel bp length : ℕ) : Printer Bool := do
  let ipv4 ← ipPrint sys mem fuel bp length
  let first ← byte mem bp
  emit (unsigned (first / 16))
  return ipv4

/-- The `switch` over the version. -/
def versionPrint (sys : System) (mem : Memory) (fuel bp length version : ℕ) : Printer Bool :=
  if version = 4 then ipPrint sys mem fuel bp length
  else if version = 6 then do
    let _ ← ip6Print sys.ip6 mem fuel bp length
    return false
  else otherVersion sys mem fuel bp length

def packetPrint (sys : System) (mem : Memory) (fuel bp length : ℕ) : Printer Bool :=
  if length < 4 then do
    let first ← byte mem bp
    emit (unsigned (first / 16) ++ ", IP(truncated-ip ".toList ++ unsigned length ++ ") ".toList)
    return false
  else do
    let first ← byte mem bp
    versionPrint sys mem fuel bp length (first / 16)

/-! ## The header of the log -/

/-- The number and the name of the anchor, if the rule is in one. -/
def subrulePrint (mem : Memory) (fuel subrulenr : ℕ) : Printer Unit :=
  if subrulenr = 2 ^ 32 - 1 then emit ",,".toList
  else do
    let ruleset ← cString mem fuel 20
    emit (unsigned subrulenr ++ ",".toList ++ ruleset ++ ",".toList)

def headerFields (mem : Memory) (fuel reason : ℕ) : Printer Unit := do
  let rulenr ← extract32Bits mem 36
  emit (unsigned rulenr ++ ",".toList)
  let subrulenr ← extract32Bits mem 40
  subrulePrint mem fuel subrulenr
  let ridentifier ← extract32Bits mem 64
  let ifname ← cString mem fuel 4
  emit (unsigned ridentifier ++ ",".toList ++ ifname ++ ",".toList)
  emit (code2str pfReasons "unkn(%u)" reason ++ ",".toList)
  let action ← byte mem 2
  emit (code2str pfActions "unkn(%u)" action ++ ",".toList)
  let dir ← byte mem 60
  emit (code2str pfDirections "unkn(%u)" dir ++ ",".toList)

/-- Behind the filter. -/
def decodeFields (sys : System) (fuel : ℕ) (c : Capture) (hdrlen reason : ℕ) : Printer Bool :=
  if c.caplen < hdrlen then do
    emit "[|pflog]".toList
    return false
  else do
    headerFields c.mem fuel reason
    packetPrint sys c.mem fuel hdrlen (sub32 c.len hdrlen)

def decodeReason (sys : System) (filterReasons : ℕ → Bool) (fuel : ℕ) (c : Capture)
    (hdrlen reason : ℕ) : Printer Outcome :=
  if filterReasons reason then pure ⟨some reason, false⟩
  else do
    let ipv4 ← decodeFields sys fuel c hdrlen reason
    return ⟨some reason, ipv4⟩

def decodeLength (sys : System) (filterReasons : ℕ → Bool) (fuel : ℕ) (c : Capture)
    (length : ℕ) : Printer Outcome :=
  if length < minPflogHdrlen then do
    emit "[pflog: invalid header length!]".toList
    return ⟨none, false⟩
  else byte c.mem 3 >>= decodeReason sys filterReasons fuel c (bpfWordalign length)

def decodePacket (sys : System) (filterReasons : ℕ → Bool) (fuel : ℕ) (c : Capture) :
    Printer Outcome :=
  if c.caplen < 1 then do
    emit "[|pflog]".toList
    return ⟨none, false⟩
  else byte c.mem 0 >>= decodeLength sys filterReasons fuel c

end FreeSense.Filterlog
