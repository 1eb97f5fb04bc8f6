import FreeSensePorts.Filterlog.Icmp
import FreeSensePorts.Filterlog.Ip6

/-!
# IPv4 packets

`ip_print` and `ip_print_demux` of `print-ip.c`.  The value of the printer says whether it came to the
addresses.
-/

namespace FreeSense.Filterlog

open Printer

/-- `sizeof (struct ip)`. -/
def ipHdrSize : ℕ := 20

def maximumSnaplen : ℕ := 65535

/-- What the printers take from the system.  `protoName` is `getprotobynumber`. -/
structure System where
  ip6 : Ip6System
  protoName : ℕ → Option Text

def ipFragValues : List (ℕ × String) := [(0x2000, "+"), (0x4000, "DF"), (0x8000, "rsvd")]

/-! ## Behind the header -/

def vrrpPrint (mem : Memory) (bp cp : ℕ) : Printer Unit := do
  let first ← byte mem cp
  let ttl ← byte mem (bp + 8)
  let vhid ← byte mem (cp + 1)
  let advskew ← byte mem (cp + 2)
  let advbase ← byte mem (cp + 5)
  emit ((if first &&& 0x0f = 1 then "advertise".toList else "unkwn".toList) ++ ",".toList ++
    unsigned ttl ++ ",".toList ++ unsigned vhid ++ ",".toList ++
    unsigned ((first &&& 0xf0) >>> 4) ++ ",".toList ++ unsigned advskew ++ ",".toList ++
    unsigned advbase)

def ipPrintDemux (mem : Memory) (fuel bp cp len nh : ℕ) : Printer Unit :=
  if nh = ipprotoTcp then do
    let _ ← tcpPrint mem fuel cp len bp
    return ()
  else if nh = ipprotoUdp then udpPrint mem cp
  else if nh = ipprotoSctp then sctpPrint mem cp len
  else if nh = ipprotoIcmp then icmpPrint mem cp len
  else if nh = ipprotoIpv4 then emit "IPV4-IN-IPV4,".toList
  else if nh = ipprotoIpv6 then emit "IPV6-IN-IPV4,".toList
  else if nh = ipprotoVrrp then vrrpPrint mem bp cp
  else emit ("datalength=".toList ++ signed len ++ " ".toList)

/-! ## The header -/

def ecnText (tos : ℕ) : Text :=
  if tos &&& 0x03 = 1 then "1".toList
  else if tos &&& 0x03 = 2 then "0".toList
  else if tos &&& 0x03 = 3 then "CE".toList
  else []

def protocolText (sys : System) (p : ℕ) : Text :=
  (sys.protoName p).getD (code2str ipprotoValues "unknown" p)

/-- Fragment zero is handed to the next higher level protocol. -/
def ipPayload (mem : Memory) (fuel bp hlen len off p : ℕ) : Printer Unit :=
  if off &&& 0x1fff = 0 then ipPrintDemux mem fuel bp (bp + hlen) len p else pure ()

/-- From the type of service to the addresses. -/
def ipFields (sys : System) (mem : Memory) (bp off p : ℕ) : Printer Unit := do
  let tos ← byte mem (bp + 1)
  emit ("0x".toList ++ hex 0 tos ++ ",".toList)
  emit (ecnText tos)
  let ttl ← byte mem (bp + 8)
  emit (",".toList ++ unsigned ttl ++ ",".toList)
  let id ← extract16Bits mem (bp + 4)
  emit (unsigned id ++ ",".toList ++ unsigned ((off &&& 0x1fff) * 8) ++ ",".toList ++
    code2str ipFragValues "none" (off &&& 0xe000) ++ ",".toList ++ unsigned p ++ ",".toList)
  emit (protocolText sys p ++ ",".toList)
  let ipLen ← extract16Bits mem (bp + 2)
  emit (unsigned ipLen ++ ",".toList)
  let src ← block mem (bp + 12) 4
  emit (inetNtoa src ++ ",".toList)
  let dst ← block mem (bp + 16) 4
  emit (inetNtoa dst ++ ",".toList)

def ipBody (sys : System) (mem : Memory) (fuel bp hlen len : ℕ) : Printer Bool := do
  let off ← extract16Bits mem (bp + 6)
  let p ← byte mem (bp + 9)
  ipFields sys mem bp off p
  ipPayload mem fuel bp hlen (len - hlen) off p
  return true

/-- The checks of the length of the packet, `len` being the one in its header. -/
def ipLength (sys : System) (mem : Memory) (fuel bp length hlen len : ℕ) : Printer Bool := do
  emit (if length < len then
    "error='truncated-ip ".toList ++ unsigned (len - length) ++ " bytes missing!',".toList else [])
  if len < hlen then
    emit ("bad-len=".toList ++ unsigned len ++ ",".toList)
    return false
  ipBody sys mem fuel bp hlen len

def ipHeaderLength (sys : System) (mem : Memory) (fuel bp length hlen : ℕ) : Printer Bool :=
  if hlen < ipHdrSize then do
    emit ("bad-hlen=".toList ++ unsigned hlen ++ "),".toList)
    return false
  else extract16Bits mem (bp + 2) >>= ipLength sys mem fuel bp length hlen

/-- The first checks.  The first one never applies to a number of sixteen bits. -/
def ipChecks (sys : System) (mem : Memory) (fuel bp length ipLen : ℕ) : Printer Bool :=
  if maximumSnaplen < ipLen then do
    emit "[|ip]),".toList
    return false
  else if length < ipHdrSize then do
    emit ("truncated-ip= ".toList ++ unsigned length ++ "),".toList)
    return false
  else do
    let first ← byte mem bp
    ipHeaderLength sys mem fuel bp length (first % 16 * 4)

def ipPrint (sys : System) (mem : Memory) (fuel bp length : ℕ) : Printer Bool := do
  let first ← byte mem bp
  emit (unsigned (first / 16) ++ ",".toList)
  extract16Bits mem (bp + 2) >>= ipChecks sys mem fuel bp length

end FreeSense.Filterlog
