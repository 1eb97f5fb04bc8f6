import Mathlib.Tactic
import FreeSensePorts.Core.Printer

/-!
# Options of IPv6 headers

`ip6_opt_print` of `print-ip6opts.c` and the printer of the sub-options of some of them.  Both walk
over type, length and data in the same way (`optionWalk`) and differ in what they do with an option.
Offsets are relative to the first option, as in the source; the walk has fuel, which a length as
large as the buffer's suffices for.
-/

namespace FreeSense.Filterlog

open Printer

def ip6optPad1 : ℕ := 0x00
def ip6optPadn : ℕ := 0x01
def ip6optRouterAlert : ℕ := 0x05
def ip6optBindingAck : ℕ := 0x07
def ip6optBindingReq : ℕ := 0x08
def ip6optJumbo : ℕ := 0xc2
def ip6optBindingUpdate : ℕ := 0xc6
def ip6optHomeAddress : ℕ := 0xc9

def ip6optMinlen : ℕ := 2
def ip6optRtalertLen : ℕ := 4
def ip6optJumboLen : ℕ := 6
def ip6optHomeaddrMinlen : ℕ := 18
def ip6optBuMinlen : ℕ := 10
def ip6optBaMinlen : ℕ := 13
def ip6optBrMinlen : ℕ := 2

def ip6soptUi : ℕ := 0x2
def ip6soptUiMinlen : ℕ := 4
def ip6soptAltcoa : ℕ := 0x3
def ip6soptAltcoaMinlen : ℕ := 18
def ip6soptAuth : ℕ := 0x4
def ip6soptAuthMinlen : ℕ := 6

/-- `inet_ntop` of sixteen bytes. -/
abbrev Ntop6 := List UInt8 → Text

/-! ## The walk -/

/-- The length of an option with its type and its length byte; none where that byte is missing. -/
def optionLength (mem : Memory) (bp len i kind : ℕ) : Printer (Option ℕ) :=
  if kind = ip6optPad1 then pure (some 1)
  else if i + 1 < len then do
    let l ← byte mem (bp + i + 1)
    return some (l + 2)
  else pure none

/-- The loop: `some true` at the end of the buffer, `some false` at `trunc`, `none` without enough
fuel.  `handle` is the `switch`, given the offset, the length and the type. -/
def optionWalk (handle : ℕ → ℕ → ℕ → Printer (Option Bool)) (mem : Memory) (bp len : ℕ) :
    ℕ → ℕ → Printer (Option Bool)
  | 0, i => pure (if len ≤ i then some true else none)
  | fuel + 1, i =>
    if len ≤ i then pure (some true)
    else do
      let kind ← byte mem (bp + i)
      match ← optionLength mem bp len i kind with
      | none => return some false
      | some optlen =>
        if len < i + optlen then return some false
        else
          match ← handle i optlen kind with
          | some true => optionWalk handle mem bp len fuel (i + optlen)
          | stop => return stop

/-- A text and `goto trunc` where an option is too short, and the rest otherwise. -/
def unlessShort (short : Bool) (t : Text) (rest : Printer (Option Bool)) : Printer (Option Bool) :=
  if short then do
    emit t
    return some false
  else rest

/-- What is printed for an option that needs nothing more. -/
def done (t : Text) : Printer (Option Bool) := do
  emit t
  return some true

/-! ## Sub-options -/

def soptCase (ntop : Ntop6) (mem : Memory) (bp len i _optlen kind : ℕ) : Printer (Option Bool) :=
  if kind = ip6optPad1 then done "pad1 ".toList
  else if kind = ip6optPadn then
    unlessShort (len - i < ip6optMinlen) "padn=trunc ".toList (done "padn ".toList)
  else if kind = ip6soptUi then
    unlessShort (len - i < ip6soptUiMinlen) "ui=trunc ".toList do
      let ui ← extract16Bits mem (bp + i + 2)
      done ("ui=0x".toList ++ hex 4 ui ++ " ".toList)
  else if kind = ip6soptAltcoa then
    unlessShort (len - i < ip6soptAltcoaMinlen) "altcoa=trunc ".toList do
      let addr ← block mem (bp + i + 2) 16
      done ("alt-CoA=".toList ++ ntop addr ++ " ".toList)
  else if kind = ip6soptAuth then
    unlessShort (len - i < ip6soptAuthMinlen) "auth=trunc ".toList do
      let spi ← extract32Bits mem (bp + i + 2)
      done ("auth-spi=0x".toList ++ hex 8 spi ++ " ".toList)
  else
    unlessShort (len - i < ip6optMinlen)
      ("sopt_type_trunc=".toList ++ unsigned kind ++ ")".toList) do
      let l ← byte mem (bp + i + 1)
      done ("sopt_type=0x".toList ++ hex 2 kind ++ " len=".toList ++ unsigned l)

def ip6SoptPrint (ntop : Ntop6) (mem : Memory) (fuel bp len : ℕ) : Printer (Option Unit) := do
  match ← optionWalk (soptCase ntop mem bp len) mem bp len fuel 0 with
  | none => return none
  | some true => return some ()
  | some false =>
    emit "[trunc] ".toList
    return some ()

/-! ## Options -/

/-- The sub-options behind the fixed part of an option, if there are any. -/
def subOptions (ntop : Ntop6) (mem : Memory) (fuel bp i minlen optlen l : ℕ) :
    Printer (Option Bool) :=
  if minlen - 2 < l then do
    let r ← ip6SoptPrint ntop mem fuel (bp + i + minlen) (optlen - minlen)
    return r.map fun _ => true
  else pure (some true)

/-- An option whose length has to be a given one. -/
def exactly (mem : Memory) (bp i size : ℕ) (invalid : Text) (rest : Printer (Option Bool)) :
    Printer (Option Bool) := do
  let l ← byte mem (bp + i + 1)
  if l ≠ size - 2 then do
    emit (invalid ++ unsigned l ++ ",".toList)
    return some false
  else rest

/-- An option of a least length, with sub-options behind its fixed part. -/
def atLeast (ntop : Ntop6) (mem : Memory) (fuel bp i minlen optlen : ℕ) (invalid : Text)
    (fixed : Printer Unit) : Printer (Option Bool) := do
  let l ← byte mem (bp + i + 1)
  if l < minlen - 2 then do
    emit (invalid ++ unsigned l ++ ",".toList)
    return some false
  else do
    fixed
    subOptions ntop mem fuel bp i minlen optlen l

def homeAddress (ntop : Ntop6) (mem : Memory) (p : ℕ) : Printer Unit := do
  let addr ← block mem (p + 2) 16
  emit ("HOMEADDR, ".toList ++ ntop addr ++ ",".toList)

/-- Whether one of the reserved bits is set; the later bytes are read only where the earlier ones
are zero. -/
def reservedBits (mem : Memory) (p flags : ℕ) : Printer Bool :=
  if flags &&& 0x0f ≠ 0 then pure true
  else do
    let b₁ ← byte mem (p + 3)
    if b₁ ≠ 0 then return true
    else
      let b₂ ← byte mem (p + 4)
      return b₂ ≠ 0

def bindingUpdate (mem : Memory) (p : ℕ) : Printer Unit := do
  emit "BINDINGUP,".toList
  let flags ← byte mem (p + 2)
  let reserved ← reservedBits mem p flags
  emit ((if flags &&& 0x80 ≠ 0 then "A".toList else []) ++
    (if flags &&& 0x40 ≠ 0 then "H".toList else []) ++
    (if flags &&& 0x20 ≠ 0 then "S".toList else []) ++
    (if flags &&& 0x10 ≠ 0 then "D".toList else []) ++
    (if reserved then "r".toList else []))
  let seq ← byte mem (p + 5)
  emit (",".toList ++ unsigned seq ++ ",".toList)
  let lifetime ← extract32Bits mem (p + 6)
  emit (unsigned lifetime ++ ",".toList)

def bindingAck (mem : Memory) (p : ℕ) : Printer Unit := do
  emit "BINDINGACK,".toList
  let status ← byte mem (p + 2)
  emit (unsigned status ++ ",".toList)
  let res ← byte mem (p + 3)
  emit (if res ≠ 0 then "res,".toList else ",".toList)
  let seq ← byte mem (p + 4)
  emit (unsigned seq ++ ",".toList)
  let lifetime ← extract32Bits mem (p + 5)
  emit (unsigned lifetime ++ ",".toList)
  let refresh ← extract32Bits mem (p + 9)
  emit (unsigned refresh ++ ",".toList)

def optCase (ntop : Ntop6) (mem : Memory) (fuel bp len i optlen kind : ℕ) : Printer (Option Bool) :=
  if kind = ip6optPad1 then done "PAD1,".toList
  else if kind = ip6optPadn then
    unlessShort (len - i < ip6optMinlen) "PADNTRUNC,".toList (done "PADN,".toList)
  else if kind = ip6optRouterAlert then
    unlessShort (len - i < ip6optRtalertLen) "RTALERTTRUNC,".toList <|
      exactly mem bp i ip6optRtalertLen "RTALERTINVALID, ".toList do
        let v ← extract16Bits mem (bp + i + 2)
        done ("RTALERT,0x".toList ++ hex 4 v ++ ",".toList)
  else if kind = ip6optJumbo then
    unlessShort (len - i < ip6optJumboLen) "JUMBOTRUNC,".toList <|
      exactly mem bp i ip6optJumboLen "JUMBOINVALID,".toList do
        let v ← extract32Bits mem (bp + i + 2)
        done ("JUMBO,".toList ++ unsigned v ++ ",".toList)
  else if kind = ip6optHomeAddress then
    unlessShort (len - i < ip6optHomeaddrMinlen) "HOMEADDRTRUNC,".toList <|
      atLeast ntop mem fuel bp i ip6optHomeaddrMinlen optlen "HOMEADDRINVALID, ".toList
        (homeAddress ntop mem (bp + i))
  else if kind = ip6optBindingUpdate then
    unlessShort (len - i < ip6optBuMinlen) "BINDINGUPTRUNC,".toList <|
      atLeast ntop mem fuel bp i ip6optBuMinlen optlen "BINDINGUPINVALID,".toList
        (bindingUpdate mem (bp + i))
  else if kind = ip6optBindingAck then
    unlessShort (len - i < ip6optBaMinlen) "BINDINGACKTRUNC,".toList <|
      atLeast ntop mem fuel bp i ip6optBaMinlen optlen "BINDINGACKINVALID,".toList
        (bindingAck mem (bp + i))
  else if kind = ip6optBindingReq then
    unlessShort (len - i < ip6optBrMinlen) "BINDINGREQTRUNC,".toList do
      emit "BINDINGREQ,".toList
      let l ← byte mem (bp + i + 1)
      subOptions ntop mem fuel bp i ip6optBrMinlen optlen l
  else
    unlessShort (len - i < ip6optMinlen) ("TYPETRUNC,".toList ++ unsigned kind ++ ",".toList) do
      let l ← byte mem (bp + i + 1)
      done ("TYPE,0x".toList ++ hex 2 kind ++ ",".toList ++ unsigned l ++ ",".toList)

def ip6OptPrint (ntop : Ntop6) (mem : Memory) (fuel bp len : ℕ) : Printer (Option Unit) :=
  if len = 0 then pure (some ())
  else do
    let r ← optionWalk (optCase ntop mem fuel bp len) mem bp len fuel 0
    return r.map fun _ => ()

end FreeSense.Filterlog
