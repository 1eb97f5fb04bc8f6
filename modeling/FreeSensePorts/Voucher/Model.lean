import Mathlib.Data.Nat.Bitwise
import Mathlib.Data.Int.Basic

/-!
# The voucher program

`sysutils/voucher/files/voucher.c`: `-p private_key roll count` prints one code for each ticket of
a roll, `-k public_key voucher…` reads codes back.  A voucher is one 64-bit number

```
| magic | checksum | ticketid | rollid |
```

signed with a tiny RSA key and spelled, least significant digit first, over the configured charset.

`u_int64_t` and `u_int32_t` are natural numbers, reduced (`u64`, `u32`) after every operation that can
overflow; `int` is `Int.bmod · (2 ^ 32)`, so that `(1 << 31) - 1` goes through `INT_MIN` as in the C.
The two OpenSSL operations are fields of `Key`, of which nothing is assumed.  What is in the files is
a parameter (`Files`): a `Cfg` is what `fscanf` has stored, with bit widths that are not negative.  Only the
standard output is modelled.
-/

namespace FreeSense.Voucher

def u64 (n : ℕ) : ℕ := n % 2 ^ 64

def u32 (n : ℕ) : ℕ := n % 2 ^ 32

/-- `1 << bits` as an `int`, converted to an unsigned integer of `w` bits. -/
def bit (w bits : ℕ) : ℕ := (Int.bmod (2 ^ bits) (2 ^ 32) % 2 ^ w).toNat

/-- `(1 << bits) - 1` as an `int`, converted to an unsigned integer of `w` bits. -/
def mask (w bits : ℕ) : ℕ :=
  (Int.bmod (Int.bmod (2 ^ bits) (2 ^ 32) - 1) (2 ^ 32) % 2 ^ w).toNat

/-- `MAX_RSA_KEY_LEN`, in bytes. -/
def maxRsaKeyLen : ℕ := 8

def maxVoucherLen : ℕ := 64

/-- An RSA key pair as the program uses it: `EVP_PKEY_get_bits`, `EVP_PKEY_sign` and
`EVP_PKEY_verify_recover`, both without padding, on buffers of `bits / 8` bytes. -/
structure Key where
  bits : ℕ
  sign : List UInt8 → Option (List UInt8)
  verifyRecover : List UInt8 → Option (List UInt8)

/-- The one line of the configuration file. -/
structure Cfg where
  rollBits : ℕ
  ticketBits : ℕ
  checksumBits : ℕ
  magic : ℕ
  charset : List UInt8

def Cfg.voucherBits (cfg : Cfg) : ℕ := cfg.rollBits + cfg.ticketBits + cfg.checksumBits

/-- What the program writes to its standard output, one constructor for each `printf`. -/
inductive Line
  | keyError
  | keysize (bits : ℕ)
  | badContent (cfgFile : List UInt8)
  | keyTooLarge (bits : ℕ)
  | charsetTooShort (charset : List UInt8)
  | bitsRange
  | bitsTooLarge
  | illegalCharacter (ch : UInt8) (arg : List UInt8)
  | invalidCode (arg : List UInt8)
  | invalidMagic (arg : List UInt8)
  | invalidChecksum (arg : List UInt8)
  | ok (rollid ticketid : ℕ)
  | ticketRange (most : ℕ)
  | rollRange (most : ℕ)
  | tickets (ticketcount rollid : ℕ)
  | rollBits (bits : ℕ)
  | ticketBits (bits : ℕ)
  | checksumBits (bits : ℕ)
  | magic (magic : ℕ) (bits : ℤ)
  | charset (charset : List UInt8)
  | hash
  | failedToSign
  | tooLong
  | voucher (code : List UInt8)
  deriving DecidableEq, Repr

def ascii (s : String) : List UInt8 := s.toUTF8.toList

structure Exit where
  stdout : List Line
  status : ℕ
  deriving DecidableEq, Repr

/-! ## Buffers -/

/-- `ll2buf`: the last byte of the buffer is the lowest one, and the loop walks down from it. -/
def ll2buf : ℕ → ℕ → List UInt8
  | 0, _ => []
  | len + 1, ll => ll2buf len (ll >>> 8) ++ [UInt8.ofNat (ll &&& 0xff)]

/-- `buf2ll`: most significant byte first. -/
def buf2ll : List UInt8 → ℕ
  | [] => 0
  | b :: bs => bs.foldl (fun ll b => u64 (u64 (ll <<< 8) + b.toNat)) b.toNat

/-! ## Sizes -/

def voucherLen (cfg : Cfg) : ℕ := 1 + (cfg.voucherBits >>> 3)

/-- How many bytes the key leaves, at most those of a `clearcode`. -/
def availLen (key : Key) : ℕ := if key.bits / 8 < 8 then key.bits / 8 else 8

def cryptLen (key : Key) : ℕ := key.bits / 8

/-- The bits left for the magic number: all but the fields and the top bit. -/
def magicBits (key : Key) (cfg : Cfg) : ℤ :=
  let bits := (availLen key * 8 : ℤ) - (cfg.voucherBits + 1)
  if bits > 0 then bits else 0

/-- The configured magic number cut down to the bits there are. -/
def effectiveMagic (key : Key) (cfg : Cfg) : ℕ :=
  let bits := (availLen key * 8 : ℤ) - (cfg.voucherBits + 1)
  if bits > 0 then cfg.magic &&& ((1 <<< bits.toNat) - 1) else 0

/-! ## Printing -/

/-- The number a ticket packs to.  The last step clears the top bit of the key's width, so that
the value stays below the modulus. -/
def clearcode (key : Key) (cfg : Cfg) (rollid ticketid : ℕ) : ℕ :=
  let clear := u64 (effectiveMagic key cfg <<< cfg.checksumBits)
  let checksum := u32 (ticketid + rollid) % bit 32 cfg.checksumBits
  let clear := u64 (clear + checksum)
  let clear := u64 (clear <<< cfg.ticketBits)
  let clear := u64 (clear + ticketid)
  let clear := u64 (u64 (clear <<< cfg.rollBits) + rollid)
  clear &&& (0xffffffffffffffff >>> (65 - 8 * cryptLen key))

/-- The digit loop: `while (cryptcode && --num)`.  The characters written and what is left of the
number. -/
def codeLoop (charset : List UInt8) : ℕ → ℕ → List UInt8 × ℕ
  | 0, cryptcode => ([], cryptcode)
  | num + 1, cryptcode =>
    if cryptcode ≠ 0 ∧ num ≠ 0 then
      let rest := codeLoop charset num (cryptcode / charset.length)
      (charset.getD (cryptcode % charset.length) 0 :: rest.1, rest.2)
    else ([], cryptcode)

/-- One turn of the ticket loop: the code, or how the program gives up. -/
def printTicket (key : Key) (cfg : Cfg) (rollid ticketid : ℕ) : Except (Line × ℕ) (List UInt8) :=
  match key.sign (ll2buf (cryptLen key) (clearcode key cfg rollid ticketid)) with
  | none => .error (.failedToSign, 4)
  | some cryptbuf =>
    let (codebuf, cryptcode) := codeLoop cfg.charset (maxVoucherLen + 1) (buf2ll cryptbuf)
    if cryptcode ≠ 0 then .error (.tooLong, 1) else .ok codebuf

/-- `for (ticketid = 1; …)`, over the tickets still to print. -/
def printLoop (key : Key) (cfg : Cfg) (rollid : ℕ) : List ℕ → Exit
  | [] => ⟨[], 0⟩
  | ticketid :: rest =>
    match printTicket key cfg rollid ticketid with
    | .error (line, status) => ⟨[line], status⟩
    | .ok code =>
      let exit := printLoop key cfg rollid rest
      ⟨.voucher code :: exit.stdout, exit.status⟩

/-- The comment lines in front of the codes. -/
def header (key : Key) (cfg : Cfg) (rollid ticketcount : ℕ) : List Line :=
  [.tickets ticketcount rollid, .rollBits cfg.rollBits, .ticketBits cfg.ticketBits,
    .checksumBits cfg.checksumBits, .magic (effectiveMagic key cfg) (magicBits key cfg),
    .charset cfg.charset, .hash]

def print (key : Key) (cfg : Cfg) (rollid ticketcount : ℕ) : Exit :=
  if ticketcount ≥ 1 <<< cfg.ticketBits ∨ ticketcount < 1 then
    ⟨[.ticketRange ((1 <<< cfg.ticketBits) - 1)], 1⟩
  else if rollid ≥ 1 <<< cfg.rollBits then
    ⟨[.rollRange ((1 <<< cfg.rollBits) - 1)], 1⟩
  else
    let exit := printLoop key cfg rollid (List.range' 1 ticketcount)
    ⟨header key cfg rollid ticketcount ++ exit.stdout, exit.status⟩

/-! ## Checking -/

/-- The character loop, from the end of the argument to its start or to a blank.  `strchr` finds
the first position of the character in the charset. -/
def decodeLoop (charset : List UInt8) : List UInt8 → ℕ → Except UInt8 ℕ
  | [], cryptcode => .ok cryptcode
  | ch :: rest, cryptcode =>
    if ch = 32 then .ok cryptcode
    else
      match charset.idxOf? ch with
      | none => .error ch
      | some q => decodeLoop charset rest (u64 (u64 (cryptcode * charset.length) + q))

def checkClear (key : Key) (cfg : Cfg) (arg : List UInt8) (clear : ℕ) : Except Line Line :=
  let rollid := u32 (clear &&& mask 64 cfg.rollBits)
  let ticketid := u32 ((clear >>> cfg.rollBits) &&& mask 64 cfg.ticketBits)
  let checksum := u32 (clear >>> (cfg.ticketBits + cfg.rollBits)) &&& mask 32 cfg.checksumBits
  if effectiveMagic key cfg ≠ clear >>> (cfg.rollBits + cfg.ticketBits + cfg.checksumBits) then
    .error (.invalidMagic arg)
  else if u32 (ticketid + rollid) % 2 ^ cfg.checksumBits ≠ checksum then
    .error (.invalidChecksum arg)
  else .ok (.ok rollid ticketid)

def checkOne (key : Key) (cfg : Cfg) (arg : List UInt8) : Except Line Line :=
  match decodeLoop cfg.charset arg.reverse 0 with
  | .error ch => .error (.illegalCharacter ch arg)
  | .ok cryptcode =>
    match key.verifyRecover (ll2buf (cryptLen key) cryptcode) with
    | none => .error (.invalidCode arg)
    | some clearbuf => checkClear key cfg arg (buf2ll clearbuf)

/-- `while (argc)`. -/
def check (key : Key) (cfg : Cfg) : List (List UInt8) → Exit
  | [] => ⟨[], 0⟩
  | arg :: rest =>
    match checkOne key cfg arg with
    | .error line => ⟨[line], 1⟩
    | .ok line =>
      let exit := check key cfg rest
      ⟨line :: exit.stdout, exit.status⟩

/-! ## The program -/

inductive Action
  | PRINT (rollid ticketcount : ℕ)
  | CHECK (args : List (List UInt8))

/-- `main`, from the key and the configuration on. -/
def process (key : Key) (cfg : Cfg) (action : Action) : Exit :=
  if key.bits / 8 > maxRsaKeyLen then ⟨[.keyTooLarge key.bits], 1⟩
  else if cfg.charset.length < 2 then ⟨[.charsetTooShort cfg.charset], 1⟩
  else if cfg.rollBits > 31 ∨ cfg.ticketBits > 31 ∨ cfg.checksumBits > 31 then ⟨[.bitsRange], 1⟩
  else if voucherLen cfg > availLen key then ⟨[.bitsTooLarge], 1⟩
  else
    match action with
    | .CHECK args => check key cfg args
    | .PRINT rollid ticketcount => print key cfg rollid ticketcount

/-! ## The command line -/

inductive Mode
  | PRINT
  | CHECK
  deriving DecidableEq, Repr

/-- What the options set.  `-k` and `-p` set the action with the name of the key. -/
structure Options where
  key : Option (Mode × List UInt8)
  cfgFile : List UInt8
  reportKeysize : Bool

def Options.initial : Options := ⟨none, ascii "./voucher.cfg", false⟩

/-- An option with an argument. -/
def Options.set (o : Options) (ch : UInt8) (optarg : List UInt8) : Options :=
  if ch = 'k'.toUInt8 then { o with key := some (.CHECK, optarg) }
  else if ch = 'p'.toUInt8 then { o with key := some (.PRINT, optarg) }
  else { o with cfgFile := optarg }

/-- The letters of one argument.  The last of them may need the next argument.  `none` is `usage`,
which is also called for `-d`. -/
def letters (o : Options) : List UInt8 → Option (Options × Option UInt8)
  | [] => some (o, none)
  | ch :: place =>
    if ch = 's'.toUInt8 then letters { o with reportKeysize := true } place
    else if ch = 'p'.toUInt8 ∨ ch = 'k'.toUInt8 ∨ ch = 'c'.toUInt8 then
      some (if place = [] then (o, some ch) else (o.set ch place, none))
    else none

def dash : UInt8 := '-'.toUInt8

/-- The loop over `getopt`, and the arguments it leaves. -/
def getopt (o : Options) : List (List UInt8) → Option (Options × List (List UInt8))
  | [] => some (o, [])
  | arg :: rest =>
    if arg = [dash, dash] then some (o, rest)
    else if arg.head? ≠ some dash ∨ arg = [dash] then some (o, arg :: rest)
    else
      match letters o arg.tail with
      | none => none
      | some (o, none) => getopt o rest
      | some (o, some ch) =>
        match rest with
        | [] => none
        | optarg :: rest => getopt (o.set ch optarg) rest

def isSpace (ch : UInt8) : Bool := ch = 32 ∨ 9 ≤ ch ∧ ch ≤ 13

def isDigit (ch : UInt8) : Bool := 48 ≤ ch ∧ ch ≤ 57

/-- `atoi`, converted to a `u_int32_t`. -/
def atoi (s : List UInt8) : ℕ :=
  let s := s.dropWhile isSpace
  let digits := if s.head? = some dash ∨ s.head? = some '+'.toUInt8 then s.tail else s
  let n : ℕ := (digits.takeWhile isDigit).foldl (fun n ch => n * 10 + (ch.toNat - 48)) 0
  let value : ℤ := if s.head? = some dash then max (-2 ^ 63) (-n) else min (2 ^ 63 - 1) n
  (value % 2 ^ 32).toNat

/-- The files by their names: what `PEM_read_PrivateKey` or `PEM_read_PUBKEY` and `fscanf` make of them,
if they can be opened. -/
structure Files where
  key : Mode → List UInt8 → Option (Option Key)
  config : List UInt8 → Option (Option Cfg)

def actionOf : Mode → List (List UInt8) → Action
  | .PRINT, args => .PRINT (atoi (args.getD 0 [])) (atoi (args.getD 1 []))
  | .CHECK, args => .CHECK args

/-- `main`, from the arguments behind the name of the program. -/
def main (files : Files) (argv : List (List UInt8)) : Exit :=
  match getopt .initial argv with
  | none => ⟨[], 1⟩
  | some (o, args) =>
    match o.key with
    | none => ⟨[], 1⟩
    | some (mode, keyFile) =>
      if mode = .PRINT ∧ args.length = 2 ∨ mode = .CHECK ∧ args ≠ [] ∨ o.reportKeysize then
        match files.key mode keyFile with
        | none => ⟨[], 1⟩
        | some none => ⟨[.keyError], 1⟩
        | some (some key) =>
          if key.bits / 8 > maxRsaKeyLen then ⟨[.keyTooLarge key.bits], 1⟩
          else if o.reportKeysize then ⟨[.keysize key.bits], 0⟩
          else
            match files.config o.cfgFile with
            | none => ⟨[], 1⟩
            | some none => ⟨[.badContent o.cfgFile], 1⟩
            | some (some cfg) => process key cfg (actionOf mode args)
      else ⟨[], 1⟩

end FreeSense.Voucher
