import FreeSensePorts.PhpModule.IfSort
import FreeSensePorts.PhpModule.States

/-!
# The addresses of an interface

`FreeSense_get_ifaddrs` sorts the kernel's list by name, goes to the first node of the interface it
is asked for, and reads on until the name changes.  In the sorted list the nodes of an interface
stand together in the kernel's order, so it has found them all.

The description of the interface itself, which `fill_interface_params` and `fill_interface_tunnel`
add to the result, is left out.
-/

namespace FreeSense.PhpModule

open List hiding Chain
open LinkedList (Next Chain)
open Php (Value)

/-- `struct ifaddrs`, with the bytes of the addresses; the destination has its own family. -/
structure Ifa where
  name : Text
  flags : ℕ
  family : ℕ
  addr : List UInt8
  netmask : List UInt8
  broadaddr : List UInt8
  dstaddr : Option (ℕ × List UInt8)

/-- The flags of an IPv6 address on an interface, if the kernel knows it. -/
abbrev AddrFlags := Text → List UInt8 → Option ℕ

def iffBroadcast : ℕ := 0x2
def iffPointopoint : ℕ := 0x10

/-- `IN6_IFF_*`, and the entries they stand for. -/
def addrFlagNames : List (ℕ × String) :=
  [(0x01, "anycast"), (0x02, "tentative"), (0x04, "duplicated"), (0x08, "detached"),
    (0x10, "deprecated"), (0x40, "autoconf"), (0x80, "temporary"), (0x100, "prefer_source")]

def bitCount (bytes : List UInt8) : ℕ :=
  (bytes.map fun b => (List.range 8).countP fun i => b.toNat.testBit i).sum

/-- `prefix`: the length of a mask, and `0` for one with a gap.  The last bit of the byte where the
mask ends is not looked at. -/
def prefixlen (mask : List UInt8) : ℕ :=
  let full := (mask.takeWhile (· = 0xff)).length
  match mask.drop full with
  | [] => 8 * full
  | b :: rest =>
    let bits := [7, 6, 5, 4, 3, 2, 1].map fun i => b.toNat.testBit i
    let set := (bits.takeWhile id).length
    if (bits.drop set).any id then 0
    else if rest.any (· ≠ 0) then 0
    else 8 * full + set

/-- `IN6_IS_ADDR_LINKLOCAL`. -/
def isLinkLocal (addr : List UInt8) : Bool :=
  addr.getD 0 0 = 0xfe ∧ addr.getD 1 0 &&& 0xc0 = 0x80

/-- `inet_ntop` into an empty buffer. -/
def addrText (lib : Lib) (af : ℕ) (addr : List UInt8) : Value := .str ((lib.ntop af addr).getD [])

/-- The other end, where there is one of the same family. -/
def dstEntry (lib : Lib) (af : ℕ) (ifa : Ifa) : List (String × Value) :=
  if ifa.flags &&& iffPointopoint ≠ 0 then
    match ifa.dstaddr with
    | some (family, addr) => if family = af then [("dstaddr", addrText lib af addr)] else []
    | none => []
  else []

/-- An entry of `addrs`. -/
def entry4 (lib : Lib) (ifa : Ifa) : Value :=
  assoc ([("addr", addrText lib afInet ifa.addr), ("subnetbits", long (bitCount ifa.netmask)),
    ("subnet", addrText lib afInet ifa.netmask)] ++
    (if ifa.flags &&& iffBroadcast ≠ 0 then [("broadcast", addrText lib afInet ifa.broadaddr)]
      else []) ++
    dstEntry lib afInet ifa)

/-- An entry of `addrs6`. -/
def entry6 (lib : Lib) (kernel : AddrFlags) (ifa : Ifa) : Value :=
  assoc ((if isLinkLocal ifa.addr then [("linklocal", long 1)] else []) ++
    [("addr", addrText lib afInet6 ifa.addr)] ++
    (match kernel (ifa.name.take 16) ifa.addr with
      | some flags => (addrFlagNames.filter fun f => flags &&& f.1 ≠ 0).map fun f => (f.2, long 1)
      | none => []) ++
    [("subnetbits", long (prefixlen ifa.netmask))] ++ dstEntry lib afInet6 ifa)

/-! ## The two loops -/

section

variable {α : Type} (lib : Lib) (kernel : AddrFlags) (node : α → Ifa) (next : Next α)
  (ifname : Text)

/-- The first node of the interface. -/
def findLoop : ℕ → Option α → Option (Option α)
  | 0, _ => none
  | _ + 1, none => some none
  | fuel + 1, some a =>
    if ifname.length ≠ (node a).name.length then findLoop fuel (next a)
    else if (node a).name.take ifname.length = ifname.take ifname.length then some (some a)
    else findLoop fuel (next a)

/-- The nodes from there on, until the name changes. -/
def scanLoop : ℕ → Option α → List Value × List Value → Option (List Value × List Value)
  | 0, _, _ => none
  | _ + 1, none, found => some found
  | fuel + 1, some a, found =>
    if strcmp ifname (node a).name ≠ 0 then some found
    else if (node a).family = afInet then
      scanLoop fuel (next a) (found.1 ++ [entry4 lib (node a)], found.2)
    else if (node a).family = afInet6 then
      scanLoop fuel (next a) (found.1, found.2 ++ [entry6 lib kernel (node a)])
    else scanLoop fuel (next a) found

end

/-- `FreeSense_get_ifaddrs`: `addrs` and `addrs6`, or nothing for an unknown interface.  The list of
the kernel starts at `ifdata`. -/
def getIfaddrs {α : Type} [DecidableEq α] (lib : Lib) (kernel : AddrFlags) (node : α → Ifa)
    (fuel : ℕ) (next : Next α) (ifdata : Option α) (ifname : Text) : Option (Option (List Value × List Value)) := do
  let sorted ← sortifaddrs (fun a => (node a).name) fuel next ifdata
  let first ← findLoop node sorted.2 ifname fuel sorted.1
  if first.isNone then some none
  else
    let found ← scanLoop lib kernel node sorted.2 ifname fuel first ([], [])
    some (some found)

/-! ## The loops on a chain -/

variable {α : Type} {lib : Lib} {kernel : AddrFlags} {node : α → Ifa} {next : Next α} {ifname : Text}

theorem strcmp_eq_zero (s t : Text) : strcmp s t = 0 ↔ s = t := by
  rw [strcmp]
  split_ifs with h₁ h₂
  · exact iff_of_false (by decide) h₁.ne
  · exact iff_of_true rfl h₂
  · exact iff_of_false (by decide) h₂

variable {fuel : ℕ} {p : Option α} {l : List α}

theorem findLoop_chain (h : Chain next p l) (hfuel : l.length < fuel) :
    findLoop node next ifname fuel p =
      some (l.dropWhile fun a => (node a).name ≠ ifname).head? := by
  induction fuel generalizing p l with
  | zero => omega
  | succ fuel ih =>
    cases l with
    | nil =>
      obtain rfl := h
      rfl
    | cons a l =>
      obtain ⟨rfl, h⟩ := h
      have hnext := ih h (by simpa using hfuel)
      by_cases hname : (node a).name = ifname
      · rw [dropWhile_cons_of_neg (by simpa using hname), findLoop, hname]
        simp
      · rw [dropWhile_cons_of_pos (by simpa using hname), findLoop, hnext]
        split_ifs with hlen heq
        · rfl
        · rw [take_length, not_not.1 hlen, take_length] at heq
          exact absurd heq hname
        · rfl

def entries (lib : Lib) (kernel : AddrFlags) (node : α → Ifa) (l : List α) :
    List Value × List Value :=
  ((l.filter fun a => (node a).family = afInet).map fun a => entry4 lib (node a),
    (l.filter fun a => (node a).family = afInet6).map fun a => entry6 lib kernel (node a))

theorem scanLoop_chain (lib : Lib) (kernel : AddrFlags) (node : α → Ifa) (ifname : Text)
    (found : List Value × List Value) (h : Chain next p l) (hfuel : l.length < fuel) :
    scanLoop lib kernel node next ifname fuel p found =
      some (found.1 ++ (entries lib kernel node (l.takeWhile fun a => (node a).name = ifname)).1,
        found.2 ++ (entries lib kernel node (l.takeWhile fun a => (node a).name = ifname)).2) := by
  induction fuel generalizing p l found with
  | zero => omega
  | succ fuel ih =>
    cases l with
    | nil =>
      obtain rfl := h
      simp [scanLoop, entries]
    | cons a l =>
      obtain ⟨rfl, h⟩ := h
      have hnext (found : List Value × List Value) := ih found h (by simpa using hfuel)
      by_cases hname : (node a).name = ifname
      · rw [takeWhile_cons_of_pos (by simpa using hname), scanLoop,
          if_neg (by simp [strcmp_eq_zero, hname])]
        split_ifs with h₄ h₆
        · rw [hnext]
          simp [entries, h₄, afInet, afInet6]
        · rw [hnext]
          simp [entries, h₆, afInet, afInet6]
        · rw [hnext]
          simp [entries, h₄, h₆]
      · rw [takeWhile_cons_of_neg (by simpa using hname), scanLoop,
          if_pos (by simpa [strcmp_eq_zero] using Ne.symm hname)]
        simp [entries]

theorem entries_filter (l : List α) (ifname : Text) :
    entries lib kernel node (l.filter fun a => (node a).name = ifname) =
      ((l.filter fun a => (node a).name = ifname ∧ (node a).family = afInet).map fun a =>
          entry4 lib (node a),
        (l.filter fun a => (node a).name = ifname ∧ (node a).family = afInet6).map fun a =>
          entry6 lib kernel (node a)) := by
  simp only [entries, filter_filter, Bool.decide_and, Bool.and_comm]

variable [DecidableEq α]

/-- The nodes that are found are those of the interface, in the order of the kernel. -/
theorem getIfaddrs_eq (h : Chain next p l) (hfuel : l.length + 1 < fuel)
    (hname : ifname ∈ l.map fun a => (node a).name) :
    getIfaddrs lib kernel node fuel next p ifname =
      some (some (entries lib kernel node (l.filter fun a => (node a).name = ifname))) := by
  obtain ⟨s, next', hrun, hchain, hsort, -⟩ := sorts_sortifaddrs (fun a => (node a).name) h hfuel
  have hlen : s.length < fuel := by
    rw [hsort.perm.length_eq]
    omega
  let rest := s.dropWhile fun a => (node a).name ≠ ifname
  have hsuffix : rest <:+ s := dropWhile_suffix _
  have hgroup : (rest.takeWhile fun a => (node a).name = ifname) =
      l.filter fun a => (node a).name = ifname :=
    (group_eq_filter hsort.sorted ifname).trans (hsort.stable ifname)
  have hfirst : rest.head?.isNone = false := by
    cases hrest : rest with
    | cons a rest => rfl
    | nil =>
      obtain ⟨a, ha, hn⟩ := mem_map.1 hname
      rw [hrest] at hgroup
      have hmem : a ∈ l.filter fun a => (node a).name = ifname := mem_filter.2 ⟨ha, by simpa using hn⟩
      rw [← hgroup] at hmem
      exact absurd hmem not_mem_nil
  have hscan := scanLoop_chain lib kernel node ifname ([], [])
    (hchain.of_isSuffix hsuffix) (hsuffix.length_le.trans_lt hlen)
  have hfind : findLoop node next' ifname fuel s.head? = some rest.head? := findLoop_chain hchain hlen
  simp only [getIfaddrs, hrun, hfind, hfirst, hscan, hgroup, Option.bind_eq_bind, Option.bind_some,
    Bool.false_eq_true, if_false, nil_append]

/-- **Every address of an interface is reported**: the sort ends with the sorted chain of the same
nodes, and a call has one entry for each IPv4 and IPv6 node of the name, in the order of the
kernel, and no others. -/
theorem ifaddrs_complete (lib : Lib) (kernel : AddrFlags) (node : α → Ifa) (next : Next α)
    (ifdata : Option α) (l : List α) (h : Chain next ifdata l) (fuel : ℕ)
    (hfuel : l.length + 1 < fuel) :
    (∃ s next', sortifaddrs (fun a => (node a).name) fuel next ifdata = some (s.head?, next') ∧
      Chain next' s.head? s ∧ s.Perm l ∧
      s.Pairwise (fun a b => strcmp (node a).name (node b).name ≤ 0) ∧
      ∀ name, (s.filter fun a => (node a).name = name) = l.filter fun a => (node a).name = name) ∧
    ∀ ifname ∈ l.map fun a => (node a).name,
      getIfaddrs lib kernel node fuel next ifdata ifname = some (some
        ((l.filter fun a => (node a).name = ifname ∧ (node a).family = afInet).map fun a =>
          entry4 lib (node a),
        (l.filter fun a => (node a).name = ifname ∧ (node a).family = afInet6).map fun a =>
          entry6 lib kernel (node a))) := by
  constructor
  · obtain ⟨s, next', hrun, hchain, hsort, -⟩ :=
      sorts_sortifaddrs (fun a => (node a).name) h hfuel
    refine ⟨s, next', hrun, hchain, hsort.perm, hsort.sorted.imp fun hle => ?_, hsort.stable⟩
    have hlt := (cmpifaddrs_lt_one (fun a => (node a).name) _ _).2 hle
    simp only [cmpifaddrs] at hlt
    omega
  · intro ifname hname
    rw [getIfaddrs_eq h hfuel hname, entries_filter]

/-- Two addresses of one interface, with another interface between them. -/
def threeNodes (i : ℕ) : Ifa :=
  { name := if i = 1 then "em0".toList else "em1".toList
    flags := iffBroadcast
    family := afInet
    addr := [192, 0, 2, UInt8.ofNat i]
    netmask := [255, 255, 255, 0]
    broadaddr := [192, 0, 2, 255]
    dstaddr := none }

def threeNext : Next ℕ
  | 0 => some 1
  | 1 => some 2
  | _ => none

theorem ifaddrs_complete_three :
    getIfaddrs ⟨fun _ => none, fun _ _ => none⟩ (fun _ _ => none) threeNodes 5 threeNext (some 0)
      "em1".toList =
        some (some ([threeNodes 0, threeNodes 2].map (entry4 ⟨fun _ => none, fun _ _ => none⟩), [])) :=
  (ifaddrs_complete ⟨fun _ => none, fun _ _ => none⟩ (fun _ _ => none) threeNodes threeNext (some 0)
    [0, 1, 2] ⟨rfl, rfl, rfl, rfl⟩ 5 (by decide)).2 "em1".toList (by decide)

end FreeSense.PhpModule
