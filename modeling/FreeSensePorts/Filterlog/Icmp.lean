import FreeSensePorts.Core.Printer
import FreeSensePorts.Filterlog.Tcp

/-!
# ICMP messages

`icmp_print` of `print-icmp.c`.  Whatever it prints for a message, it ends with the length it was
given, and nothing between the two.
-/

namespace FreeSense.Filterlog

open Printer

/-- `inet_ntoa`. -/
def inetNtoa (addr : List UInt8) : Text :=
  ((addr.map fun b => unsigned b.toNat).intersperse ".".toList).flatten

/-- A format with `%s` in it. -/
def expand : Text → List Text → Text
  | '%' :: 's' :: fmt, arg :: args => arg ++ expand fmt args
  | c :: fmt, args => c :: expand fmt args
  | [], _ => []

def icmpEchoreply : ℕ := 0
def icmpUnreach : ℕ := 3
def icmpUnreachProtocol : ℕ := 2
def icmpUnreachPort : ℕ := 3
def icmpUnreachNeedfrag : ℕ := 4
def icmpRedirect : ℕ := 5
def icmpEcho : ℕ := 8
def icmpRouteradvert : ℕ := 9
def icmpTimxceed : ℕ := 11
def icmpTimxceedIntrans : ℕ := 0
def icmpTimxceedReass : ℕ := 1
def icmpParamprob : ℕ := 12
def icmpTstamp : ℕ := 13
def icmpTstampreply : ℕ := 14
def icmpMaskreply : ℕ := 18

def icmp2str : List (ℕ × String) :=
  [(0, "echo reply"), (4, "source quench"), (8, "echo request"), (10, "router solicitation"),
    (13, "time stamp request"), (14, "time stamp reply"), (15, "information request"),
    (16, "information reply"), (17, "address mask request")]

def unreach2str : List (ℕ × String) :=
  [(0, "net %s unreachable"), (1, "host %s unreachable"),
    (5, "%s unreachable - source route failed"), (6, "net %s unreachable - unknown"),
    (7, "host %s unreachable - unknown"), (8, "%s unreachable - source host isolated"),
    (9, "net %s unreachable - admin prohibited"), (10, "host %s unreachable - admin prohibited"),
    (11, "net %s unreachable - tos prohibited"), (12, "host %s unreachable - tos prohibited"),
    (13, "host %s unreachable - admin prohibited filter"),
    (14, "host %s unreachable - host precedence violation"),
    (15, "host %s unreachable - precedence cutoff")]

def type2str : List (ℕ × String) :=
  [(0, "redirect %s to net %s"), (1, "redirect %s to host %s"), (2, "redirect-tos %s to net %s"),
    (3, "redirect-tos %s to host %s")]

/-- `icmp_tstamp_print`: milliseconds since midnight. -/
def icmpTstampPrint (tstamp : ℕ) : Text :=
  padded 2 (tstamp / 1000 / 60 / 60) ++ ":".toList ++ padded 2 (tstamp / 1000 / 60 % 60) ++
    ":".toList ++ padded 2 (tstamp / 1000 % 60) ++ ".".toList ++ padded 3 (tstamp % 1000)

/-- Identifier and sequence number, the format up to the first `%u` given. -/
def idSeq (mem : Memory) (bp : ℕ) (head : String) : Printer Unit := do
  let id ← extract16Bits mem (bp + 4)
  let seq ← extract16Bits mem (bp + 6)
  emit (head.toList ++ unsigned id ++ ",".toList ++ unsigned seq)

/-- A destination that cannot be reached.  The header of the packet that caused the message stands
behind the first eight bytes. -/
def unreachPrint (mem : Memory) (bp : ℕ) : Printer Unit := do
  let code ← byte mem (bp + 1)
  if code = icmpUnreachProtocol then
    let dst ← block mem (bp + 24) 4
    let proto ← byte mem (bp + 17)
    emit ("unreachproto,".toList ++ inetNtoa dst ++ ",".toList ++ unsigned proto)
  else if code = icmpUnreachPort then
    let first ← byte mem (bp + 8)
    let dport ← extract16Bits mem (bp + 8 + first % 16 * 4 + 2)
    emit "unreachport,".toList
    let proto ← byte mem (bp + 17)
    let dst ← block mem (bp + 24) 4
    emit (inetNtoa dst ++ ",".toList ++
      (if proto = 6 then "TCP".toList else if proto = 17 then "UDP".toList else unsigned proto) ++
      ",".toList ++ unsigned dport)
  else if code = icmpUnreachNeedfrag then
    let mtu ← extract16Bits mem (bp + 6)
    let dst ← block mem (bp + 24) 4
    if mtu ≠ 0 then emit ("needfrag,".toList ++ inetNtoa dst ++ ",".toList ++ unsigned mtu)
    else emit ("needfrag,".toList ++ inetNtoa dst ++ " need to frag".toList)
  else
    emit "unreach,".toList
    let dst ← block mem (bp + 24) 4
    emit (expand (code2str unreach2str "%s unreachable" code) [inetNtoa dst])

/-- Both addresses are written into the one buffer of `inet_ntoa` before they are printed.  With the
arguments evaluated from left to right, the gateway stands in both places. -/
def redirectPrint (mem : Memory) (bp : ℕ) : Printer Unit := do
  emit "redirect,".toList
  let code ← byte mem (bp + 1)
  let _ ← block mem (bp + 24) 4
  let gateway ← block mem (bp + 4) 4
  emit (expand (code2str type2str "redirect-?? %s to net %s," code)
    [inetNtoa gateway, inetNtoa gateway])

def routeradvPrint (mem : Memory) (bp : ℕ) : Printer Unit := do
  emit "routeradv".toList
  let lifetime ← extract16Bits mem (bp + 6)
  emit (if lifetime < 60 then unsigned lifetime ++ ",".toList
    else if lifetime < 60 * 60 then
      unsigned (lifetime / 60) ++ ":".toList ++ padded 2 (lifetime % 60) ++ ",".toList
    else unsigned (lifetime / 3600) ++ ":".toList ++ padded 2 (lifetime % 3600 / 60) ++ ":".toList ++
      padded 2 (lifetime % 60) ++ ",".toList)
  let num ← byte mem (bp + 4)
  emit (unsigned num ++ ",".toList)
  let size ← byte mem (bp + 5)
  emit (if size ≠ 2 then unsigned size ++ ",".toList else [])

def timxceedPrint (mem : Memory) (bp : ℕ) : Printer Unit := do
  emit "timexceed,".toList
  let code ← byte mem (bp + 1)
  emit (if code = icmpTimxceedIntrans then "time exceeded in-transit".toList
    else if code = icmpTimxceedReass then "ip reassembly time exceeded".toList
    else "time exceeded-#".toList ++ unsigned code)

def paramprobPrint (mem : Memory) (bp : ℕ) : Printer Unit := do
  let code ← byte mem (bp + 1)
  if code ≠ 0 then emit ("paramprob, parameter problem - code ".toList ++ unsigned code)
  else
    let pptr ← byte mem (bp + 4)
    emit ("paramprob, parameter problem - octet ".toList ++ unsigned pptr)

def tstampreplyPrint (mem : Memory) (bp : ℕ) : Printer Unit := do
  idSeq mem bp "tstampreply, "
  emit ",".toList
  let otime ← extract32Bits mem (bp + 8)
  emit (icmpTstampPrint otime ++ ",".toList)
  let rtime ← extract32Bits mem (bp + 12)
  emit (icmpTstampPrint rtime ++ ",".toList)
  let ttime ← extract32Bits mem (bp + 16)
  emit (icmpTstampPrint ttime)

/-- The `switch` over the type. -/
def icmpMessage (mem : Memory) (bp type : ℕ) : Printer Unit :=
  if type = icmpEcho then idSeq mem bp "request,"
  else if type = icmpEchoreply then idSeq mem bp "reply,"
  else if type = icmpUnreach then unreachPrint mem bp
  else if type = icmpRedirect then redirectPrint mem bp
  else if type = icmpRouteradvert then routeradvPrint mem bp
  else if type = icmpTimxceed then timxceedPrint mem bp
  else if type = icmpParamprob then paramprobPrint mem bp
  else if type = icmpMaskreply then do
    let mask ← extract32Bits mem (bp + 8)
    emit ("maskreply, address mask is 0x".toList ++ hex 8 mask)
  else if type = icmpTstamp then idSeq mem bp "tstamp,"
  else if type = icmpTstampreply then tstampreplyPrint mem bp
  else emit (code2str icmp2str "type-??" type)

def icmpPrint (mem : Memory) (bp plen : ℕ) : Printer Unit := do
  let type ← byte mem bp
  icmpMessage mem bp type
  emit (unsigned plen)

end FreeSense.Filterlog
