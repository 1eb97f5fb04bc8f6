import FreeSensePorts.Core.Printer

/-!
# TCP headers

`tcp_print` of `print-tcp.c` writes the fields of a TCP header into the log line and walks over its
options.  The header is read where it stands in the packet, at the offset `bp`.

The remaining length is a `u_int`, which the walk decreases without looking whether it is large enough,
so it is kept with its arithmetic.  The loop has no bound in the source, and fuel here.
-/

namespace FreeSense.Filterlog

open Printer

/-- `code2str`: the description of a number, or the text for all others.  The format in the latter is
not expanded. -/
def code2str (trans : List (ℕ × String)) (unknown : String) (action : ℕ) : Text :=
  (((trans.find? fun t => t.1 = action).map Prod.snd).getD unknown).toList

/-! ## Protocols -/

def ipprotoHopopts : ℕ := 0
def ipprotoIcmp : ℕ := 1
def ipprotoIgmp : ℕ := 2
def ipprotoIpv4 : ℕ := 4
def ipprotoTcp : ℕ := 6
def ipprotoEgp : ℕ := 8
def ipprotoPigp : ℕ := 9
def ipprotoUdp : ℕ := 17
def ipprotoDccp : ℕ := 33
def ipprotoIpv6 : ℕ := 41
def ipprotoRouting : ℕ := 43
def ipprotoFragment : ℕ := 44
def ipprotoRsvp : ℕ := 46
def ipprotoGre : ℕ := 47
def ipprotoEsp : ℕ := 50
def ipprotoAh : ℕ := 51
def ipprotoMobile : ℕ := 55
def ipprotoIcmpv6 : ℕ := 58
def ipprotoDstopts : ℕ := 60
def ipprotoMobilityOld : ℕ := 62
def ipprotoEigrp : ℕ := 88
def ipprotoOspf : ℕ := 89
def ipprotoPim : ℕ := 103
def ipprotoIpcomp : ℕ := 108
def ipprotoVrrp : ℕ := 112
def ipprotoCarp : ℕ := 112
def ipprotoPgm : ℕ := 113
def ipprotoSctp : ℕ := 132
def ipprotoMobility : ℕ := 135

/-- The one number that `ipproto.h` leaves to the system. -/
def ipprotoPfsync : ℕ := 240

def ipprotoValues : List (ℕ × String) :=
  [(ipprotoHopopts, "Options"), (ipprotoIcmp, "ICMP"), (ipprotoIgmp, "IGMP"), (ipprotoIpv4, "IPIP"),
    (ipprotoTcp, "TCP"), (ipprotoEgp, "EGP"), (ipprotoPigp, "IGRP"), (ipprotoUdp, "UDP"),
    (ipprotoDccp, "DCCP"), (ipprotoIpv6, "IPv6"), (ipprotoRouting, "Routing"),
    (ipprotoFragment, "Fragment"), (ipprotoRsvp, "RSVP"), (ipprotoGre, "GRE"), (ipprotoEsp, "ESP"),
    (ipprotoAh, "AH"), (ipprotoMobile, "Mobile IP"), (ipprotoIcmpv6, "ICMPv6"),
    (ipprotoMobilityOld, "Mobile IP (old)"), (ipprotoEigrp, "EIGRP"), (ipprotoOspf, "OSPF"),
    (ipprotoPim, "PIM"), (ipprotoIpcomp, "Compressed IP"), (ipprotoVrrp, "VRRP"),
    (ipprotoPgm, "PGM"), (ipprotoSctp, "SCTP"), (ipprotoMobility, "Mobility"),
    (ipprotoCarp, "CARP"), (ipprotoPfsync, "pfsync")]

/-! ## Options -/

def tcpoptEol : ℕ := 0
def tcpoptNop : ℕ := 1
def tcpoptMaxseg : ℕ := 2
def tcpoptWscale : ℕ := 3
def tcpoptSackok : ℕ := 4
def tcpoptSack : ℕ := 5
def tcpoptEcho : ℕ := 6
def tcpoptEchoreply : ℕ := 7
def tcpoptTimestamp : ℕ := 8
def tcpoptCc : ℕ := 11
def tcpoptCcnew : ℕ := 12
def tcpoptCcecho : ℕ := 13
def tcpoptSignature : ℕ := 19
def tcpoptScps : ℕ := 20
def tcpoptUto : ℕ := 28
def tcpoptAuth : ℕ := 29

def tcpSiglen : ℕ := 16

def tcpOptionValues : List (ℕ × String) :=
  [(tcpoptEol, "eol"), (tcpoptNop, "nop"), (tcpoptMaxseg, "mss"), (tcpoptWscale, "wscale"),
    (tcpoptSackok, "sackOK"), (tcpoptSack, "sack"), (tcpoptEcho, "echo"),
    (tcpoptEchoreply, "echoreply"), (tcpoptTimestamp, "TS"), (tcpoptCc, "cc"), (tcpoptCcnew, "ccnew"),
    (tcpoptCcecho, ""), (tcpoptSignature, "md5"), (tcpoptScps, "scps"), (tcpoptUto, "uto"),
    (tcpoptAuth, "enhanced auth")]

/-- `ZEROLENOPT`: the options without a length. -/
def zerolenopt (o : ℕ) : Bool := o = tcpoptEol ∨ o = tcpoptNop

/-- The `switch` over the options: how much data is skipped. -/
def datalen (opt len : ℕ) : ℕ :=
  if opt = tcpoptMaxseg ∨ opt = tcpoptUto then 2
  else if opt = tcpoptWscale then 1
  else if opt = tcpoptCc ∨ opt = tcpoptCcnew ∨ opt = tcpoptCcecho ∨ opt = tcpoptEcho ∨
      opt = tcpoptEchoreply then 4
  else if opt = tcpoptTimestamp then 8
  else if opt = tcpoptSignature then tcpSiglen
  else if opt = tcpoptEol ∨ opt = tcpoptNop ∨ opt = tcpoptSackok then 0
  else sub32 len 2

/-- The variables of the loop.  `ch` is the character between two options, if it is not zero. -/
structure Walk where
  cp : ℕ
  hlen : ℕ
  ch : Option Char
  deriving DecidableEq, Repr

/-- How a pass of the loop ends. -/
inductive Turn
  | next (w : Walk)
  | eol (w : Walk)
  | bad
  deriving DecidableEq, Repr

/-- The second half of a pass: the data behind the type and the length. -/
def optionData (cp hlen opt len : ℕ) : Printer Turn := do
  emit (code2str tcpOptionValues "Unknown Option %u" opt)
  let w : Walk := ⟨cp + datalen opt len, sub32 hlen (datalen opt len), some ';'⟩
  return if opt = tcpoptEol then .eol w else .next w

/-- An option that has a length, which includes the type and the length. -/
def sizedOption (w : Walk) (opt len : ℕ) : Printer Turn :=
  if len < 2 ∨ w.hlen < len then pure .bad
  else optionData (w.cp + 2) (sub32 (sub32 w.hlen 1) 1) opt len

def optionPass (mem : Memory) (w : Walk) : Printer Turn := do
  emit w.ch.toList
  let opt ← byte mem w.cp
  if zerolenopt opt then optionData (w.cp + 1) (sub32 w.hlen 1) opt 1
  else byte mem (w.cp + 1) >>= sizedOption w opt

/-- The loop, `none` without enough fuel. -/
def options (mem : Memory) : ℕ → Walk → Printer (Option Unit)
  | 0, w => return if w.hlen = 0 then some () else none
  | fuel + 1, w =>
    if w.hlen = 0 then return some ()
    else do
      match ← optionPass mem w with
      | .next w' => options mem fuel w'
      | .eol _ => return some ()
      | .bad =>
        emit "[bad opt],".toList
        emit (if w.ch.isSome then ">,".toList else [])
        return some ()

/-! ## The header -/

/-- `sizeof(struct tcphdr)`. -/
def tcphdrSize : ℕ := 20

/-- `(tp->th_off & 0x0f) * 4`.  The field is the upper half of its byte. -/
def headerLength (mem : Memory) (bp : ℕ) : ℕ := (mem (bp + 12)).toNat / 16 * 4

/-- The bits of `th_flags`, in the order in which they are printed. -/
def tcpFlags : List (ℕ × Char) :=
  [(0x01, 'F'), (0x02, 'S'), (0x04, 'R'), (0x08, 'P'), (0x10, 'A'), (0x20, 'U'), (0x40, 'E'),
    (0x80, 'C')]

def hasFlag (flags bit : ℕ) : Bool := flags &&& bit ≠ 0

def flagsText (flags : ℕ) : Text := (tcpFlags.filter fun f => hasFlag flags f.1).map Prod.snd

def sequenceText (flags length seq : ℕ) : Text :=
  if length > 0 ∨ hasFlag flags 0x02 ∨ hasFlag flags 0x01 ∨ hasFlag flags 0x04 then
    if length > 0 then unsigned seq ++ ":".toList ++ unsigned ((seq + length) % 2 ^ 32) ++ ",".toList
    else unsigned seq ++ ",".toList
  else ",".toList

def tcpPrint (mem : Memory) (fuel : ℕ) (bp length bp2 : ℕ) : Printer (Option Unit) := do
  let off ← byte mem (bp + 12)
  let hlen := off / 16 * 4
  if hlen < tcphdrSize then
    emit ("errormsg='tcp ".toList ++ signed (sub32 length hlen) ++ " [bad hdr length ".toList ++
      unsigned hlen ++ " - too short < ".toList ++ unsigned tcphdrSize ++ "]',".toList)
    return some ()
  -- the version of the enclosing header is looked at, and not used
  let _ ← byte mem bp2
  let sport ← extract16Bits mem bp
  let dport ← extract16Bits mem (bp + 2)
  emit (unsigned sport ++ ",".toList ++ unsigned dport ++ ",".toList ++ signed (sub32 length hlen) ++
    ",".toList)
  let seq ← extract32Bits mem (bp + 4)
  let ack ← extract32Bits mem (bp + 8)
  let win ← extract16Bits mem (bp + 14)
  let urp ← extract16Bits mem (bp + 18)
  let flags ← byte mem (bp + 13)
  emit (flagsText flags ++ ",".toList)
  if hlen > length then
    emit ("errormsg='[bad hdr length ".toList ++ unsigned hlen ++ " - too long, > ".toList ++
      unsigned length ++ "]',".toList)
    return some ()
  emit (sequenceText flags (length - hlen) seq)
  emit (if hasFlag flags 0x10 then unsigned ack ++ ",".toList else ",".toList)
  emit (unsigned win ++ ",".toList)
  emit (if hasFlag flags 0x20 then unsigned urp ++ ",".toList else ",".toList)
  if hlen > tcphdrSize then options mem fuel ⟨bp + tcphdrSize, hlen - tcphdrSize, none⟩
  else return some ()

end FreeSense.Filterlog
