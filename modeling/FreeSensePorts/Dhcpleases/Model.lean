import FreeSensePorts.Core.Text
import Mathlib.Data.List.Basic

/-!
# The lease file

`sysutils/dhcpleases/files/dhcpleases.c`: the file that `dhcpd` keeps is read token by token, and
each lease with a name becomes a line of the hosts file and two of the configuration of `unbound`.

A file is the list of its bytes, a buffer with a C string in it the bytes before the first NUL.
`next_token` returns `none` for `0`, at the end of the file only.  The two loops of `load_dhcp` run on
fuel, one unit for each byte left; `Dhcpleases/Names` shows that more makes no difference.

`months[tm_mon - 2]` reads past its table for a month after December; what stands there is the
parameter `beyond`.  `syslog`, and `asprintf` or `malloc` out of memory, are left out.
-/

namespace FreeSense.Dhcpleases

abbrev Bytes := List UInt8

def lit (s : String) : Bytes := s.toList.map Char.toUInt8

/-- The bytes of a buffer up to the terminator. -/
def cstr (buffer : Bytes) : Bytes := buffer.takeWhile (· ≠ 0)

def maxTok : ℕ := 64

def maxDname : ℕ := 1025

def maxLabel : ℕ := 63

def newline : UInt8 := '\n'.toUInt8

def dotChar : UInt8 := '.'.toUInt8

def blank : UInt8 := ' '.toUInt8

def quote : UInt8 := '"'.toUInt8

def hash : UInt8 := '#'.toUInt8

/-! ## Names -/

def isUpper (c : UInt8) : Bool := 'A'.toUInt8 ≤ c && c ≤ 'Z'.toUInt8

def isLower (c : UInt8) : Bool := 'a'.toUInt8 ≤ c && c ≤ 'z'.toUInt8

def isDigit (c : UInt8) : Bool := '0'.toUInt8 ≤ c && c ≤ '9'.toUInt8

def legalChar (c : UInt8) : Bool :=
  isUpper c || isLower c || isDigit c || c = '-'.toUInt8 || c = '/'.toUInt8 || c = '_'.toUInt8 ||
    c = blank

/-- The loop of `canonicalise`: the length of the label so far, and whether a character other than
the blank was seen. -/
def labelsOk : ℕ → Bool → Bytes → Bool
  | _, nowhite, [] => nowhite
  | dotgap, nowhite, c :: s =>
    if c = dotChar then labelsOk 0 nowhite s
    else if !legalChar c || maxLabel < dotgap + 1 then false
    else labelsOk (dotgap + 1) (nowhite || c ≠ blank) s

/-- The name without its last dot, if it is one. -/
def canonicalise (s : Bytes) : Option Bytes :=
  if s = [] ∨ maxDname < s.length then none
  else
    let t := if s.getLast? = some dotChar then s.dropLast else s
    if t = [] then none
    else if labelsOk 0 false t then some t else none

def toLower (c : UInt8) : UInt8 := if isUpper c then c + 32 else c

def hostnameIsequal (a b : Bytes) : Bool := a.map toLower = b.map toLower

def fixHostnameSpaces (hostname : Bytes) : Bytes :=
  hostname.map fun c => if c = blank then '-'.toUInt8 else c

/-! ## Tokens -/

/-- Between tokens.  Quotes protect the blank and the semicolon only. -/
def isSeparator (quotes : Bool) (c : UInt8) : Bool :=
  c = blank && !quotes || c = '\t'.toUInt8 || c = newline || c = ';'.toUInt8 && !quotes

/-- The loop of `next_token`, and what is left of the file.  A comment ends with its line; at the
end of the file it leaves `EOF` behind, which is stored as a byte. -/
def tokenLoop (size : ℕ) (comment quotes : Bool) (token : Bytes) : Bytes → Bytes × Bytes
  | [] => (if comment && token.length < size - 1 then token ++ [0xff] else token, [])
  | c :: rest =>
    if comment && c ≠ newline then tokenLoop size true quotes token rest
    else if c = hash then tokenLoop size true quotes token rest
    else
      let quotes := if c = quote then !quotes else quotes
      if isSeparator quotes c then
        if token = [] then tokenLoop size false quotes token rest else (token, rest)
      else if c ≠ quote ∧ token.length < size - 1 then
        tokenLoop size false quotes (token ++ [c]) rest
      else tokenLoop size false quotes token rest

def nextToken (size : ℕ) (input : Bytes) : Option (Bytes × Bytes) :=
  match tokenLoop size false false [] input with
  | ([], _) => none
  | (token, rest) => some (cstr token, rest)

example : nextToken maxTok (lit "# a\n \"my name\";x") = some (lit "my name", lit "x") := by
  decide +kernel

/-! ## Numbers, times and addresses -/

def isSpace (c : UInt8) : Bool := c = blank || 9 ≤ c && c ≤ 13

def number (ds : Bytes) : ℕ := ds.foldl (fun n c => n * 10 + (c.toNat - '0'.toNat)) 0

/-- `%d`: the value as an `int`, and what comes after it. -/
def scanInt (s : Bytes) : Option (ℤ × Bytes) :=
  let s := s.dropWhile isSpace
  let (sign, t) : ℤ × Bytes := match s with
    | c :: t => if c = '-'.toUInt8 then (-1, t) else if c = '+'.toUInt8 then (1, t) else (1, s)
    | [] => (1, [])
  let ds := t.takeWhile isDigit
  if ds = [] then none
  else
    some (Text.toInt (max (-2 ^ 63) (min (2 ^ 63 - 1) (sign * number ds))), t.drop ds.length)

/-- `sscanf` of three numbers with a separator between them. -/
def scanThree (sep : UInt8) (s : Bytes) : Option (ℤ × ℤ × ℤ) := do
  let (a, s) ← scanInt s
  guard (s.head? = some sep)
  let (b, s) ← scanInt s.tail
  guard (s.head? = some sep)
  let (c, _) ← scanInt s.tail
  return (a, b, c)

structure Tm where
  year : ℤ
  mon : ℤ
  mday : ℤ
  hour : ℤ
  min : ℤ
  sec : ℤ

def months : List ℤ := [31, 59, 90, 120, 151, 181, 212, 243, 273, 304, 334]

/-- The whole sum is an `int`. -/
def convertTime (beyond : ℤ → ℤ) (t : Tm) : ℤ :=
  let month := if t.mon > 1 then (months[(t.mon - 2).toNat]?).getD (beyond (t.mon - 2)) else 0
  let leap := if t.mon > 2 ∧ (t.year - 1972) % 4 = 0 then 1 else 0
  let days := 365 * (t.year - 1970) + (Text.toInt (t.year - 1969)).tdiv 4 + month + leap + t.mday - 1
  Text.toInt (((days * 24 + t.hour) * 60 + t.min) * 60 + t.sec)

example : convertTime (fun _ => 0) ⟨2024, 2, 29, 1, 2, 3⟩ = 1709168523 := by decide

/-- `struct in_addr`. -/
structure InAddr where
  a : UInt8
  b : UInt8
  c : UInt8
  d : UInt8
  deriving DecidableEq, Repr

def octet (s : Bytes) : Option UInt8 :=
  if s ≠ [] ∧ s.all isDigit ∧ (s.head? = some '0'.toUInt8 → s.length = 1) ∧ number s < 256 then
    some (UInt8.ofNat (number s))
  else none

def inetPton (s : Bytes) : Option InAddr :=
  match (s.splitOn dotChar).map octet with
  | [some a, some b, some c, some d] => some ⟨a, b, c, d⟩
  | _ => none

def decimal (b : UInt8) : Bytes := lit (toString b.toNat)

def inetNtoa (addr : InAddr) : Bytes :=
  decimal addr.a ++ [dotChar] ++ decimal addr.b ++ [dotChar] ++ decimal addr.c ++ [dotChar] ++
    decimal addr.d

example : inetPton (lit "192.0.2.10") = some ⟨192, 0, 2, 10⟩ := by decide +kernel
example : inetNtoa ⟨192, 0, 2, 10⟩ = lit "192.0.2.10" := by decide +kernel

/-! ## Leases -/

structure Lease where
  name : Bytes
  fqdn : Bytes
  /-- `0` is never. -/
  expires : ℤ
  addr : InAddr
  deriving DecidableEq, Repr

/-- What is read of one lease: `-1` is a time that was not given. -/
structure Entry where
  hostname : Bytes
  ttd : ℤ
  tts : ℤ

def Entry.setTime (isEnds : Bool) (time : ℤ) (entry : Entry) : Entry :=
  if isEnds then { entry with ttd := time } else { entry with tts := time }

@[simp] lemma Entry.hostname_setTime (isEnds : Bool) (time : ℤ) (entry : Entry) :
    (entry.setTime isEnds time).hostname = entry.hostname := by
  cases isEnds <;> rfl

/-- The name of a client, empty unless it is a good one. -/
def readName (token : Bytes) : Bytes :=
  if token.head? = some '\x7d'.toUInt8 then []
  else match canonicalise token with
    | none => []
    | some name => fixHostnameSpaces name

/-- The weekday, the date and the time, each read only if those before it were there. -/
def readTime (input : Bytes) : Option (Tm) × Bytes :=
  match nextToken maxTok input with
  | none => (none, [])
  | some (_, input) =>
    match nextToken maxTok input with
    | none => (none, [])
    | some (date, input) =>
      match scanThree '/'.toUInt8 date with
      | none => (none, input)
      | some (year, mon, mday) =>
        match nextToken maxTok input with
        | none => (none, [])
        | some (time, input) =>
          match scanThree ':'.toUInt8 time with
          | none => (none, input)
          | some (hour, min, sec) => (some ⟨year, mon, mday, hour, min, sec⟩, input)

variable (beyond : ℤ → ℤ)

/-- One statement of a lease, and whether the lease goes on after it. -/
def leaseStep (entry : Entry) (input : Bytes) : Bool × Entry × Bytes :=
  match nextToken maxTok input with
  | none => (false, entry, [])
  | some (token, input) =>
    if token.head? = some '\x7d'.toUInt8 then (false, entry, input)
    else if token = lit "client-hostname" ∨ token = lit "hostname" then
      match nextToken maxDname input with
      | none => (true, { entry with hostname := [] }, [])
      | some (name, input) => (true, { entry with hostname := readName name }, input)
    else if token = lit "ends" ∨ token = lit "starts" then
      match readTime input with
      | (none, input) => (true, entry, input)
      | (some t, input) =>
        (true, entry.setTime (token = lit "ends") (convertTime beyond t), input)
    else (true, entry, input)

/-- The statements of a lease, up to its closing brace. -/
def leaseLoop : ℕ → Entry → Bytes → Entry × Bytes
  | 0, entry, input => (entry, input)
  | fuel + 1, entry, input =>
    match leaseStep beyond entry input with
    | (false, entry, input) => (entry, input)
    | (true, entry, input) => leaseLoop fuel entry input

/-- A lease after its address. -/
def readLease (input : Bytes) : Entry × Bytes :=
  let entry : Entry := ⟨[], -1, -1⟩
  match nextToken maxTok input with
  | none => (entry, [])
  | some (token, input) =>
    if token.head? = some '\x7b'.toUInt8 then leaseLoop beyond (input.length + 1) entry input
    else (entry, input)

/-- When the lease ends.  One that ends a second before it starts never does. -/
def Entry.expires (entry : Entry) : ℤ :=
  let ttd := if entry.ttd = -1 then 0 else entry.ttd
  if entry.tts ≠ -1 ∧ ttd = entry.tts - 1 then 0 else ttd

/-- The name and the suffix of a host.  A name that already has the suffix is cut. -/
def splitSuffix (domainSuffix hostname : Bytes) : Bytes × Bytes :=
  let label := hostname.takeWhile (· ≠ dotChar)
  match hostname.drop label.length with
  | [] => (hostname, domainSuffix)
  | _ :: rest =>
    if hostnameIsequal rest domainSuffix then (label, rest) else (hostname, domainSuffix)

def Entry.lease (domainSuffix : Bytes) (addr : InAddr) (entry : Entry) : Lease :=
  let (name, suffix) := splitSuffix domainSuffix entry.hostname
  ⟨name, name ++ [dotChar] ++ suffix, entry.expires, addr⟩

/-- A lease takes the place of the one with its name. -/
def replaceLease (lease : Lease) : List Lease → Option (List Lease)
  | [] => none
  | l :: leases =>
    if hostnameIsequal l.name lease.name then some (lease :: leases)
    else (replaceLease lease leases).map (l :: ·)

def addLease (lease : Lease) (leases : List Lease) : List Lease :=
  (replaceLease lease leases).getD (lease :: leases)

variable (domainSuffix : Bytes)

/-- One pass of the loop over the file, and whether there is another. -/
def loadStep (leases : List Lease) (input : Bytes) : Bool × List Lease × Bytes :=
  match nextToken maxTok input with
  | none => (false, leases, [])
  | some (token, input) =>
    if token ≠ lit "lease" then (true, leases, input)
    else match nextToken maxTok input with
      | none => (true, leases, [])
      | some (token, input) =>
        match inetPton token with
        | none => (true, leases, input)
        | some addr =>
          let (entry, input) := readLease beyond input
          if entry.hostname = [] then (true, leases, input)
          else (true, addLease (entry.lease domainSuffix addr) leases, input)

def loadLoop : ℕ → List Lease → Bytes → List Lease
  | 0, leases, _ => leases
  | fuel + 1, leases, input =>
    match loadStep beyond domainSuffix leases input with
    | (false, leases, _) => leases
    | (true, leases, input) => loadLoop fuel leases input

def pruned (now : ℤ) (leases : List Lease) : List Lease :=
  leases.filter fun l => !(l.expires ≠ 0 && l.expires < now)

/-- The leases of a file.  The list is empty before. -/
def loadDhcp (now : ℤ) (input : Bytes) : List Lease :=
  pruned now (loadLoop beyond domainSuffix (input.length + 1) [] input)

/-! ## What is written -/

def header : Bytes := lit "\n# dhcpleases automatically entered\n"

def hostsLine (l : Lease) : Bytes :=
  inetNtoa l.addr ++ lit "\t" ++ l.fqdn ++ lit " " ++ l.name ++
    lit "\t\t# dynamic entry from dhcpd.leases\n"

def unboundLines (l : Lease) : Bytes :=
  lit "local-data: \"" ++ l.fqdn ++ lit " IN A " ++ inetNtoa l.addr ++ lit "\"\n" ++
    (lit "local-data-ptr: \"" ++ inetNtoa l.addr ++ lit " " ++ l.fqdn ++ lit "\"\n")

/-- What `write_status` adds to the hosts file. -/
def writeStatus (leases : List Lease) : Bytes := header ++ leases.flatMap hostsLine

def writeUnboundConf (leases : List Lease) : Bytes := header ++ leases.flatMap unboundLines

end FreeSense.Dhcpleases
