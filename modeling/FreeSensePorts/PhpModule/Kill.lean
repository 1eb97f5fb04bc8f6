import Mathlib.Data.UInt
import FreeSensePorts.PhpModule.States

/-!
# Killing states by address

`FreeSense_kill_states` and `FreeSense_kill_srcstates` resolve a source, walk through its addresses,
and for each of them resolve the destination, if there is one, and ask the kernel to kill what
belongs to the pair.  Both are one loop (`srcLoop`), with the marks of a request as a parameter.

A socket address is its bytes, for duplicates are found by comparing the first sixteen of them.
`pfctl_addrprefix` cuts its argument; the argument after the call is part of the result.
-/

namespace FreeSense.PhpModule

/-! ## The C library -/

/-- `struct addrinfo`. -/
structure AddrInfo where
  family : ℕ
  addr : Option (List UInt8)
deriving DecidableEq

/-- `getaddrinfo`, with or without `AI_NUMERICHOST`: the entries, of which there is at least one, or
the text of the error. -/
structure Resolver where
  getaddrinfo : Bool → Text → Except Text (AddrInfo × List AddrInfo)

/-- `strtonum`. -/
def strtonum (lo hi : ℤ) (s : Text) : Except Text ℤ :=
  let rest := s.dropWhile Text.isSpace
  let digits := (Text.signOf rest).2
  let n := (Text.signOf rest).1 * Text.number 10 digits
  if digits = [] ∨ digits.any (fun c => !c.isDigit) then .error "invalid".toList
  else if n < lo then .error "too small".toList
  else if hi < n then .error "too large".toList
  else .ok n

/-! ## `pfctl_addrprefix` -/

def mask4 (n : ℕ) (mask : List UInt8) : List UInt8 :=
  let word := (0xffffffffff <<< (32 - n)) % 2 ^ 32
  [24, 16, 8, 0].map (fun shift => UInt8.ofNat (word >>> shift)) ++ mask.drop 4

def mask6 (n : ℕ) : List UInt8 :=
  let q := n / 8
  let r := n % 8
  (List.range 16).map fun i =>
    if i < q then 0xff else if i = q ∧ 0 < r then UInt8.ofNat (0xff00 >>> r &&& 0xff) else 0

structure Prefixed where
  ok : Bool
  addr : Text
  mask : List UInt8
  output : Text

def hostPart (addr : Text) : Text := addr.takeWhile (· ≠ '/')

/-- What stands after the first `/`. -/
def lengthPart (addr : Text) : Text := (addr.dropWhile (· ≠ '/')).tail

def addrprefixOf (lib : Resolver) (addr : Text) (mask : List UInt8) : Prefixed :=
  if addr.all (· ≠ '/') then ⟨true, addr, mask, []⟩
  else
    let host := hostPart addr
    match strtonum 0 128 (lengthPart addr) with
    | .error e =>
      ⟨false, host, mask, "prefix is ".toList ++ e ++ ": ".toList ++ lengthPart addr⟩
    | .ok n =>
      match lib.getaddrinfo true host with
      | .error e => ⟨false, host, mask, "getaddrinfo: ".toList ++ e⟩
      | .ok (res, _) =>
        if res.family = afInet ∧ 32 < n then
          ⟨false, host, mask, "prefix too long for AF_INET".toList⟩
        else if res.family = afInet6 ∧ 128 < n then
          ⟨false, host, mask, "prefix too long for AF_INET6".toList⟩
        else if res.family = afInet then ⟨true, host, mask4 n.toNat mask, []⟩
        else if res.family = afInet6 then ⟨true, host, mask6 n.toNat, []⟩
        else ⟨true, host, mask, []⟩

/-! ## Addresses -/

inductive Inet
  | v4 (addr : Vector UInt8 4)
  | v6 (addr : Vector UInt8 16)
  deriving DecidableEq

namespace Inet

def family : Inet → ℕ
  | v4 _ => afInet
  | v6 _ => afInet6

def width : Inet → ℕ
  | v4 _ => 32
  | v6 _ => 128

/-- `struct sockaddr_in` or `struct sockaddr_in6`, without a port and without flow information. -/
def sockaddr (scope : Vector UInt8 4) : Inet → List UInt8
  | v4 addr => [16, 2, 0, 0] ++ addr.toList ++ List.replicate 8 0
  | v6 addr => [28, 28, 0, 0, 0, 0, 0, 0] ++ addr.toList ++ scope.toList

def info (scope : Vector UInt8 4) (a : Inet) : AddrInfo := ⟨a.family, some (a.sockaddr scope)⟩

end Inet

/-! ## The loops -/

/-- What the two request structures have in common; addresses and masks have sixteen bytes. -/
structure Kill where
  af : ℕ
  srcAddr : List UInt8
  srcMask : List UInt8
  dstAddr : List UInt8
  dstMask : List UInt8
deriving DecidableEq

def zeros : List UInt8 := List.replicate 16 0
def ones : List UInt8 := List.replicate 16 0xff

/-- `sin_addr` into an address; the other twelve bytes stay. -/
def setInet (sockaddr addr : List UInt8) : List UInt8 := (sockaddr.drop 4).take 4 ++ addr.drop 4

/-- `sin6_addr`. -/
def inet6Addr (sockaddr : List UInt8) : List UInt8 := (sockaddr.drop 8).take 16

/-- What one function does for a pair: a request for each mark, and a text where one fails. -/
structure Killer (μ : Type) where
  marks : List μ
  failure : Text

/-- The kernel's answer to a request, given those before it. -/
abbrev Kernel (μ : Type) := List (Kill × μ) → Kill × μ → Bool

structure Work (μ : Type) where
  kill : Kill
  ip2 : Text
  lastSrc : List UInt8
  lastDst : List UInt8
  requests : List (Kill × μ)
  output : Text

section

variable {μ : Type} (lib : Resolver) (kernel : Kernel μ) (killer : Killer μ)

def Work.print (w : Work μ) (text : Text) : Work μ := { w with output := w.output ++ text }

def unknownFamily (af : ℕ) : Text := "Unknown address family ".toList ++ unsigned af

def request (w : Work μ) (m : μ) : Work μ × Bool :=
  let done := kernel w.requests (w.kill, m)
  let w := { w with requests := w.requests ++ [(w.kill, m)] }
  (if done then w else w.print killer.failure, done)

/-- With a destination the requests follow each other whatever the answers are. -/
def requestAll (w : Work μ) : Work μ :=
  killer.marks.foldl (fun w m => (request kernel killer w m).1) w

/-- Without one the first that fails ends the function; whether to go on. -/
def requestUntil : List μ → Work μ → Work μ × Bool
  | [], w => (w, true)
  | m :: marks, w =>
    let r := request kernel killer w m
    if r.2 then requestUntil marks r.1 else (r.1, false)

/-- The destination of the requests is set from an entry; nothing for an unknown family. -/
def setDestination (w : Work μ) (bytes : List UInt8) : Option (Work μ) :=
  if w.kill.af = afInet then
    some { w with kill := { w.kill with dstAddr := setInet bytes w.kill.dstAddr } }
  else if w.kill.af = afInet6 then
    some { w with kill := { w.kill with dstAddr := inet6Addr bytes } }
  else none

/-- An entry of the inner loop. -/
def dstStep (w : Work μ) (info : AddrInfo) : Work μ :=
  match info.addr with
  | none => w
  | some bytes =>
    if w.kill.af ≠ info.family then w
    else if bytes.take 16 = w.lastDst then w
    else
      let w := { w with lastDst := bytes.take 16 }
      match setDestination w bytes with
      | none => w.print (unknownFamily w.kill.af)
      | some w => requestAll kernel killer w

def dstLoop (infos : List AddrInfo) (w : Work μ) : Work μ :=
  infos.foldl (dstStep kernel killer) w

/-- How a turn of the outer loop ends. -/
inductive Turn
  | next | leave | null
  deriving DecidableEq

def withDst (w : Work μ) : Work μ × Turn :=
  let w := { w with kill := { w.kill with dstMask := ones }, lastDst := ones }
  let p := addrprefixOf lib w.ip2 w.kill.dstMask
  let w := { w with ip2 := p.addr, kill := { w.kill with dstMask := p.mask } }.print p.output
  if p.ok then
    match lib.getaddrinfo false w.ip2 with
    | .error e => (w.print ("getaddrinfo: ".toList ++ e), .null)
    | .ok (first, rest) => (dstLoop kernel killer (first :: rest) w, .next)
  else (w, .null)

def withoutDst (w : Work μ) : Work μ × Turn :=
  let r := requestUntil kernel killer killer.marks w
  (r.1, if r.2 then .next else .leave)

/-- The source of the requests is set from an entry; nothing for an unknown family. -/
def setSource (w : Work μ) (family : ℕ) (bytes : List UInt8) : Option (Work μ) :=
  if family = afInet then
    some { w with kill := { w.kill with srcAddr := setInet bytes w.kill.srcAddr } }
  else if family = afInet6 then
    some { w with kill := { w.kill with srcAddr := inet6Addr bytes } }
  else none

/-- An entry of the outer loop. -/
def srcStep (dst : Bool) (w : Work μ) (info : AddrInfo) : Work μ × Turn :=
  match info.addr with
  | none => (w, .next)
  | some bytes =>
    if bytes.take 16 = w.lastSrc then (w, .next)
    else
      let w := { w with lastSrc := bytes.take 16, kill := { w.kill with af := info.family } }
      match setSource w info.family bytes with
      | none => (w.print (unknownFamily info.family), .next)
      | some w => if dst then withDst lib kernel killer w else withoutDst kernel killer w

/-- The outer loop; the flag says that the function returns `NULL`. -/
def srcLoop (dst : Bool) : List AddrInfo → Work μ → Work μ × Bool
  | [], w => (w, false)
  | info :: infos, w =>
    let r := srcStep lib kernel killer dst w info
    match r.2 with
    | .next => srcLoop dst infos r.1
    | .leave => (r.1, false)
    | .null => (r.1, true)

/-- Before the loop: the source's mask is known, and nothing else. -/
def start (ip1 ip2 output : Text) : Work μ :=
  let p := addrprefixOf lib ip1 ones
  ⟨⟨0, zeros, p.mask, zeros, zeros⟩, ip2, ones, ones, [], output ++ p.output⟩

/-- A whole call, from the source argument on. -/
def killBy (ip1 ip2 : Text) (dst : Bool) (output : Text) : Work μ × Bool :=
  let p := addrprefixOf lib ip1 ones
  let w := start lib ip1 ip2 output
  if p.ok then
    match lib.getaddrinfo false p.addr with
    | .error e => (w.print ("getaddrinfo: ".toList ++ e), true)
    | .ok (first, rest) => srcLoop lib kernel killer dst (first :: rest) w
  else (w, true)

end

/-! ## The two functions -/

/-- The rest of `struct pfctl_kill`. -/
structure StatesMark where
  ifname : Text
  proto : ℕ
  nat : Bool
deriving DecidableEq

def protoOf (proto : Text) : ℕ :=
  if "tcp".toList <+: proto then ipprotoTcp
  else if "udp".toList <+: proto then ipprotoUdp
  else if "icmpv6".toList <+: proto then ipprotoIcmpv6
  else if "icmp".toList <+: proto then ipprotoIcmp
  else 0

/-- The requests of `FreeSense_kill_states`: before and after translation. -/
def statesKiller (iface proto : Option Text) : Killer StatesMark :=
  let mark := StatesMark.mk ((iface.getD []).take 15) (protoOf (proto.getD []))
  ⟨[mark false, mark true], "Could not kill states\n".toList⟩

/-- A name that does not fit is cut, with a notice. -/
def ifaceNotice (iface : Option Text) : Text :=
  if 16 ≤ (iface.getD []).length then "invalid interface: ".toList ++ iface.getD [] else []

/-- `FreeSense_kill_states`. -/
def killStates (lib : Resolver) (kernel : Kernel StatesMark) (ip1 : Text)
    (ip2 iface proto : Option Text) : Work StatesMark × Bool :=
  killBy lib kernel (statesKiller iface proto) ip1 (ip2.getD []) (ip2.getD [] ≠ [])
    (ifaceNotice iface)

def srcstatesKiller : Killer Unit := ⟨[()], "DIOCKILLSRCNODES".toList⟩

/-- `FreeSense_kill_srcstates`; an empty destination counts as one here.  Its repairs of `psnk_af`
after a request put back what the loop has set, or sets next. -/
def killSrcstates (lib : Resolver) (kernel : Kernel Unit) (ip1 : Text) (ip2 : Option Text) :
    Work Unit × Bool :=
  killBy lib kernel srcstatesKiller ip1 (ip2.getD []) ip2.isSome []

/-! ## The entries of the source -/

/-- A source argument and the entries it resolves to. -/
structure Source (lib : Resolver) (ip1 : Text) (infos : List AddrInfo) : Prop where
  accepted : (addrprefixOf lib ip1 ones).ok = true
  resolved : ∃ first rest,
    lib.getaddrinfo false (addrprefixOf lib ip1 ones).addr = .ok (first, rest) ∧ infos = first :: rest

theorem killBy_eq {μ : Type} {lib : Resolver} {killer : Killer μ} {ip1 : Text}
    {infos : List AddrInfo} (kernel : Kernel μ) (ip2 : Text) (dst : Bool) (output : Text)
    (hs : Source lib ip1 infos) :
    killBy lib kernel killer ip1 ip2 dst output =
      srcLoop lib kernel killer dst infos (start lib ip1 ip2 output) := by
  obtain ⟨first, rest, hres, rfl⟩ := hs.resolved
  simp only [killBy, hs.accepted, if_true, hres]

end FreeSense.PhpModule
