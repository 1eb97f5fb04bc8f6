import FreeSensePorts.Voucher.Codec

/-!
# A printed voucher checks

For every key of a whole number of bytes, every configuration that passes the length check and every
roll and ticket count `PRINT` accepts, each printed code has at most `maxVoucherLen` characters and
`CHECK` answers `OK` with the roll and the ticket the code was printed for.

What is asked of RSA is `Key.Inverts`: `verifyRecover` undoes `sign` below the modulus, where the length
check keeps every packed value (`pack_lt_topBit`).
-/

namespace FreeSense.Voucher

open List

/-- **What the program relies on.**  The modulus has exactly `bits` bits, and signing the buffer
of a value below it gives a buffer of the same size that `verifyRecover` turns back. -/
structure Key.Inverts (key : Key) (modulus : ℕ) : Prop where
  low : 2 ^ (key.bits - 1) ≤ modulus
  high : modulus < 2 ^ key.bits
  recover : ∀ v < modulus, ∃ s, key.sign (ll2buf (cryptLen key) v) = some s ∧
    s.length = cryptLen key ∧ key.verifyRecover s = some (ll2buf (cryptLen key) v)

/-- The configurations of the manual: bit widths in `1..31`, a 64-bit magic number and a charset
of 2 to 255 different characters, none of them white space or the end of a string. -/
structure Cfg.Valid (cfg : Cfg) : Prop where
  rollBits : 1 ≤ cfg.rollBits ∧ cfg.rollBits ≤ 31
  ticketBits : 1 ≤ cfg.ticketBits ∧ cfg.ticketBits ≤ 31
  checksumBits : 1 ≤ cfg.checksumBits ∧ cfg.checksumBits ≤ 31
  magic : cfg.magic < 2 ^ 64
  length : 2 ≤ cfg.charset.length ∧ cfg.charset.length ≤ 255
  nodup : cfg.charset.Nodup
  chars : ∀ ch ∈ cfg.charset, isSpace ch = false ∧ ch ≠ 0

lemma Cfg.Valid.blank {cfg : Cfg} (h : cfg.Valid) : (32 : UInt8) ∉ cfg.charset := by
  intro hmem
  have := (h.chars 32 hmem).1
  simp [isSpace] at this

/-- `process` lets a valid configuration through to the action. -/
lemma process_eq {key : Key} {cfg : Cfg} (hmax : key.bits ≤ 64) (hcfg : cfg.Valid)
    (hlen : voucherLen cfg ≤ availLen key) (action : Action) :
    process key cfg action = match action with
      | .CHECK args => check key cfg args
      | .PRINT rollid ticketcount => print key cfg rollid ticketcount := by
  have h₁ : ¬key.bits / 8 > maxRsaKeyLen := by unfold maxRsaKeyLen; omega
  have h₂ : ¬cfg.charset.length < 2 := by have := hcfg.length.1; omega
  have h₃ : ¬(cfg.rollBits > 31 ∨ cfg.ticketBits > 31 ∨ cfg.checksumBits > 31) := by
    have := hcfg.rollBits.2; have := hcfg.ticketBits.2; have := hcfg.checksumBits.2
    omega
  have h₄ : ¬voucherLen cfg > availLen key := by omega
  cases action with
  | CHECK args => rw [process.eq_def, if_neg h₁, if_neg h₂, if_neg h₃, if_neg h₄]
  | PRINT rollid ticketcount => rw [process.eq_def, if_neg h₁, if_neg h₂, if_neg h₃, if_neg h₄]

/-- A code read from the end, down to the start of the argument or to the blank in front of it. -/
lemma decodeLoop_code {cfg : Cfg} (hcfg : cfg.Valid) {n : ℕ} (hn : n < 2 ^ 64) :
    ∀ front ∈ [[], [(32 : UInt8)]],
      decodeLoop cfg.charset
          ((((Nat.digits cfg.charset.length n).map fun d => cfg.charset.getD d 0).reverse) ++ front)
          0 = .ok n := by
  intro front hfront
  have hbase : 1 < cfg.charset.length := hcfg.length.1
  rw [decodeLoop_digits hcfg.nodup hcfg.blank front _ fun d hd => Nat.digits_lt_base hbase hd,
    Nat.ofDigits_digits, u64_of_lt hn]
  simp only [mem_cons, not_mem_nil, or_false] at hfront
  rcases hfront with rfl | rfl <;> simp [decodeLoop]

/-- **One ticket, there and back.** -/
theorem printTicket_checkOne {key : Key} {cfg : Cfg} {modulus rollid ticketid : ℕ}
    (hbits : 8 ∣ key.bits) (hmax : key.bits ≤ 64) (hrsa : key.Inverts modulus) (hcfg : cfg.Valid)
    (hlen : voucherLen cfg ≤ availLen key)
    (hr : rollid < 2 ^ cfg.rollBits) (ht : ticketid < 2 ^ cfg.ticketBits) :
    ∃ code, printTicket key cfg rollid ticketid = .ok code ∧ code.length ≤ maxVoucherLen ∧
      checkOne key cfg code = .ok (.ok rollid ticketid) ∧
      checkOne key cfg (32 :: code) = .ok (.ok rollid ticketid) := by
  have hkey : key.bits / 8 ≤ 8 := by omega
  have hcrypt : 8 * cryptLen key = key.bits := by unfold cryptLen; omega
  obtain ⟨-, hvb⟩ := voucherBits_lt hkey hlen
  set clear := clearcode key cfg rollid ticketid with hclear
  have heq := clearcode_eq hkey hlen hcfg.rollBits.2 hcfg.ticketBits.2 hcfg.checksumBits.2 hr ht
  have htop : clear < 2 ^ (key.bits - 1) := by
    rw [hclear, heq, ← hcrypt]
    exact pack_lt_topBit hvb (effectiveMagic_lt hkey hlen) (Nat.mod_lt _ (by positivity)) ht hr
  obtain ⟨s, hsign, hslen, hrec⟩ := hrsa.recover clear (lt_of_lt_of_le htop hrsa.low)
  have hs8 : s.length ≤ 8 := by omega
  have hn : buf2ll s < 2 ^ 64 := lt_of_lt_of_le (buf2ll_lt s hs8)
    (Nat.pow_le_pow_right (by norm_num) (by omega))
  have hloop := codeLoop_eq_digits hcfg.length.1 maxVoucherLen (buf2ll s) hn
  have hclearbuf : buf2ll (ll2buf (cryptLen key) clear) = clear := by
    refine buf2ll_ll2buf _ _ (by omega) (lt_trans htop ?_)
    exact Nat.pow_lt_pow_right (by norm_num) (by omega)
  -- both spellings decode to the signed number, and from there on the two checks agree
  have hcheck : ∀ arg, decodeLoop cfg.charset arg.reverse 0 = .ok (buf2ll s) →
      checkOne key cfg arg = .ok (.ok rollid ticketid) := by
    intro arg harg
    simp only [checkOne, harg]
    rw [← hslen, ll2buf_buf2ll s hs8, hrec]
    simp only
    rw [hclearbuf, hclear, heq]
    exact checkClear_pack arg hcfg.rollBits.2 hcfg.ticketBits.2 hcfg.checksumBits.2 hr ht
  refine ⟨(Nat.digits cfg.charset.length (buf2ll s)).map fun d => cfg.charset.getD d 0,
    ?_, ?_, ?_, ?_⟩
  · simp only [printTicket, ← hclear, hsign, hloop]
    simp
  · have := codeLoop_length cfg.charset maxVoucherLen (buf2ll s)
    rwa [hloop] at this
  · refine hcheck _ ?_
    simpa using decodeLoop_code hcfg hn [] (by simp)
  · refine hcheck _ ?_
    rw [reverse_cons]
    exact decodeLoop_code hcfg hn [32] (by simp)

lemma printLoop_eq {key : Key} {cfg : Cfg} {rollid : ℕ} {f : ℕ → List UInt8} :
    ∀ ts : List ℕ, (∀ t ∈ ts, printTicket key cfg rollid t = .ok (f t)) →
      printLoop key cfg rollid ts = ⟨(ts.map f).map .voucher, 0⟩
  | [], _ => rfl
  | t :: ts, h => by
    have ih := printLoop_eq ts fun t' ht' => h t' (mem_cons_of_mem _ ht')
    simp [printLoop, h t mem_cons_self, ih]

/-- **Behind the options**, `PRINT` writes one code for each ticket of the roll, and `CHECK` answers `OK`
with that roll and that ticket. -/
theorem process_roundtrip {key : Key} {cfg : Cfg} {modulus rollid ticketcount : ℕ}
    (hbits : 8 ∣ key.bits) (hmax : key.bits ≤ 64) (hrsa : key.Inverts modulus) (hcfg : cfg.Valid)
    (hlen : voucherLen cfg ≤ availLen key)
    (hcount : ¬(ticketcount ≥ 1 <<< cfg.ticketBits ∨ ticketcount < 1))
    (hroll : ¬rollid ≥ 1 <<< cfg.rollBits) :
    ∃ codes : List (List UInt8),
      process key cfg (.PRINT rollid ticketcount)
        = ⟨header key cfg rollid ticketcount ++ codes.map .voucher, 0⟩ ∧
      codes.length = ticketcount ∧
      ∀ t, 1 ≤ t → t ≤ ticketcount → ∃ code, codes[t - 1]? = some code ∧
        code.length ≤ maxVoucherLen ∧
        process key cfg (.CHECK [code]) = ⟨[.ok rollid t], 0⟩ ∧
        process key cfg (.CHECK [32 :: code]) = ⟨[.ok rollid t], 0⟩ := by
  rw [Nat.one_shiftLeft, not_or, not_le] at hcount
  rw [Nat.one_shiftLeft, not_le] at hroll
  have hticket : ∀ t, t ≤ ticketcount → ∃ code, printTicket key cfg rollid t = .ok code ∧
      code.length ≤ maxVoucherLen ∧ checkOne key cfg code = .ok (.ok rollid t) ∧
      checkOne key cfg (32 :: code) = .ok (.ok rollid t) := fun t ht =>
    printTicket_checkOne hbits hmax hrsa hcfg hlen hroll (lt_of_le_of_lt ht hcount.1)
  choose! f hf using hticket
  have hloop : printLoop key cfg rollid (List.range' 1 ticketcount)
      = ⟨((List.range' 1 ticketcount).map f).map .voucher, 0⟩ := by
    refine printLoop_eq _ fun t ht => (hf t ?_).1
    rw [mem_range'_1] at ht
    omega
  refine ⟨(List.range' 1 ticketcount).map f, ?_, by simp, ?_⟩
  · rw [process_eq hmax hcfg hlen]
    simp only [print, Nat.one_shiftLeft]
    rw [if_neg (by omega), if_neg (by omega), hloop]
  · intro t h1 ht
    obtain ⟨-, hcode, hplain, hblank⟩ := hf t ht
    refine ⟨f t, ?_, hcode, ?_, ?_⟩
    · rw [getElem?_map, getElem?_range' (by omega)]
      simp [show 1 + (t - 1) = t by omega]
    · rw [process_eq hmax hcfg hlen]
      simp [check, hplain]
    · rw [process_eq hmax hcfg hlen]
      simp [check, hblank]

/-! ## From the command line -/

/-- The arguments that print a roll. -/
def printArgs (cfgFile keyFile roll count : List UInt8) : List (List UInt8) :=
  [ascii "-c", cfgFile, ascii "-p", keyFile, roll, count]

/-- The arguments that check one code. -/
def checkArgs (cfgFile keyFile code : List UInt8) : List (List UInt8) :=
  [ascii "-c", cfgFile, ascii "-k", keyFile, code]

/-- An argument that is not taken for an option. -/
def IsOperand (arg : List UInt8) : Prop := arg.head? = some dash → arg = [dash]

instance (arg : List UInt8) : Decidable (IsOperand arg) := inferInstanceAs (Decidable (_ → _))

section Arguments

variable {files : Files} {key : Key} {cfg : Cfg} {cfgFile keyFile arg : List UInt8}
  {rest : List (List UInt8)} {o : Options}

lemma getopt_operand (h : IsOperand arg) (o : Options) (rest : List (List UInt8)) :
    getopt o (arg :: rest) = some (o, arg :: rest) := by
  have hne : arg ≠ [dash, dash] := by
    rintro rfl
    exact absurd (h rfl) (by decide)
  rw [getopt.eq_def]
  simp only [if_neg hne]
  exact if_pos (or_iff_not_imp_left.mpr fun hd => h (not_not.mp hd))

/-- **An argument taken for options** is not left, if it is the last. -/
lemma getopt_option (h : ¬IsOperand arg) (o : Options) :
    ∀ o' args, getopt o [arg] = some (o', args) → args = [] := by
  obtain ⟨hdash, hne⟩ := Classical.not_imp.mp h
  intro o' args hopt
  rw [getopt.eq_def] at hopt
  simp only [hdash, ne_eq, not_true_eq_false, hne, or_self, if_false] at hopt
  split_ifs at hopt
  · exact (Prod.mk.inj (Option.some.inj hopt)).2.symm
  · split at hopt
    · cases hopt
    · exact (Prod.mk.inj (Option.some.inj hopt)).2.symm
    · cases hopt

/-- An option whose argument is the next one. -/
lemma getopt_set {ch : UInt8} (h : ch = 'p'.toUInt8 ∨ ch = 'k'.toUInt8 ∨ ch = 'c'.toUInt8)
    (o : Options) (optarg : List UInt8) (rest : List (List UInt8)) :
    getopt o ([dash, ch] :: optarg :: rest) = getopt (o.set ch optarg) rest := by
  rcases h with rfl | rfl | rfl <;> rfl

lemma getopt_args (mode : Mode) (rest : List (List UInt8)) :
    getopt .initial (ascii "-c" :: cfgFile :: (if mode = .PRINT then ascii "-p" else ascii "-k") ::
      keyFile :: rest) = getopt ⟨some (mode, keyFile), cfgFile, false⟩ rest := by
  have hc : ascii "-c" = [dash, 'c'.toUInt8] := by decide +kernel
  have hp : ascii "-p" = [dash, 'p'.toUInt8] := by decide +kernel
  have hk : ascii "-k" = [dash, 'k'.toUInt8] := by decide +kernel
  rw [hc, getopt_set (Or.inr (Or.inr rfl))]
  cases mode with
  | PRINT => rw [if_pos rfl, hp]; rfl
  | CHECK => rw [if_neg nofun, hk]; rfl

/-- `main` with files that can be read and an operand. -/
lemma main_eq (mode : Mode) (hoperand : IsOperand arg) (hkey : files.key mode keyFile = some (some key))
    (hcfg : files.config cfgFile = some (some cfg)) (hmax : key.bits ≤ 64)
    (hcount : mode = .PRINT → rest.length = 1) :
    main files (ascii "-c" :: cfgFile :: (if mode = .PRINT then ascii "-p" else ascii "-k") ::
      keyFile :: arg :: rest) = process key cfg (actionOf mode (arg :: rest)) := by
  have hready : mode = .PRINT ∧ (arg :: rest).length = 2 ∨ mode = .CHECK ∧ arg :: rest ≠ [] ∨
      false = true := by
    cases mode with
    | PRINT => exact Or.inl ⟨rfl, by rw [length_cons, hcount rfl]⟩
    | CHECK => exact Or.inr (Or.inl ⟨rfl, cons_ne_nil _ _⟩)
  have hsize : ¬key.bits / 8 > maxRsaKeyLen := by unfold maxRsaKeyLen; omega
  rw [main, getopt_args, getopt_operand hoperand]
  simp only [hkey, if_neg hsize, hcfg]
  exact if_pos hready

/-- Without an argument left there is no `OK`. -/
lemma main_ne_ok {argv : List (List UInt8)}
    (h : ∀ o args, getopt .initial argv = some (o, args) → args = []) (rollid ticketid : ℕ) :
    main files argv ≠ ⟨[.ok rollid ticketid], 0⟩ := by
  rw [main]
  cases hopt : getopt .initial argv with
  | none => simp
  | some p =>
    obtain ⟨o, args⟩ := p
    obtain rfl := h o args hopt
    dsimp only
    cases o.key with
    | none => simp
    | some k =>
      obtain ⟨mode, keyFile⟩ := k
      dsimp only
      cases hreport : o.reportKeysize with
      | false => simp
      | true =>
        cases files.key mode keyFile with
        | none => simp
        | some loaded =>
          cases loaded with
          | none => simp
          | some key => by_cases hsize : key.bits / 8 > maxRsaKeyLen <;> simp [hsize]

end Arguments

/-- **Voucher round trip.**  `PRINT` writes one code for each ticket of the roll, and `CHECK`, given the
code with the blank in front of it, answers `OK` with that roll and that ticket.  Given the code without
the blank, it does so exactly if the code does not begin with a `-`, or is no more than that. -/
theorem print_check_roundtrip_iff {files : Files} {key : Key} {cfg : Cfg} {modulus : ℕ}
    {cfgFile privateFile publicFile roll count : List UInt8}
    (hprivate : files.key .PRINT privateFile = some (some key))
    (hpublic : files.key .CHECK publicFile = some (some key))
    (hconfig : files.config cfgFile = some (some cfg)) (hroll : IsOperand roll)
    (hbits : 8 ∣ key.bits) (hmax : key.bits ≤ 64) (hrsa : key.Inverts modulus) (hcfg : cfg.Valid)
    (hlen : voucherLen cfg ≤ availLen key)
    (hcount : ¬(atoi count ≥ 1 <<< cfg.ticketBits ∨ atoi count < 1))
    (hrange : ¬atoi roll ≥ 1 <<< cfg.rollBits) :
    ∃ codes : List (List UInt8),
      main files (printArgs cfgFile privateFile roll count)
        = ⟨header key cfg (atoi roll) (atoi count) ++ codes.map .voucher, 0⟩ ∧
      codes.length = atoi count ∧
      ∀ t, 1 ≤ t → t ≤ atoi count → ∃ code, codes[t - 1]? = some code ∧
        code.length ≤ maxVoucherLen ∧
        main files (checkArgs cfgFile publicFile (32 :: code)) = ⟨[.ok (atoi roll) t], 0⟩ ∧
        (main files (checkArgs cfgFile publicFile code) = ⟨[.ok (atoi roll) t], 0⟩ ↔
          IsOperand code) := by
  obtain ⟨codes, hprint, hlength, hcodes⟩ := process_roundtrip hbits hmax hrsa hcfg hlen hcount hrange
  refine ⟨codes, ?_, hlength, fun t h1 ht => ?_⟩
  · rw [← hprint]
    exact main_eq .PRINT hroll hprivate hconfig hmax fun _ => rfl
  obtain ⟨code, hcode, hle, hplain, hblank⟩ := hcodes t h1 ht
  have hcheck : ∀ {arg}, IsOperand arg → main files (checkArgs cfgFile publicFile arg)
      = process key cfg (.CHECK [arg]) := fun harg =>
    main_eq .CHECK harg hpublic hconfig hmax nofun
  refine ⟨code, hcode, hle, ?_, fun hok => ?_, fun hoperand => (hcheck hoperand).trans hplain⟩
  · have hoperand : IsOperand (32 :: code) := fun h => absurd (Option.some.inj h) (by decide)
    rw [hcheck hoperand, hblank]
  · by_contra hoption
    refine main_ne_ok (fun o args hopt => ?_) _ _ hok
    exact getopt_option hoption _ o args ((getopt_args .CHECK [code]).symm.trans hopt)

/-- The 8-bit key with modulus `143 = 11 · 13` and the exponents `43` and `7`. -/
def rsa143 : Key where
  bits := 8
  sign buf := if buf2ll buf < 143 then some (ll2buf 1 (buf2ll buf ^ 43 % 143)) else none
  verifyRecover buf := if buf2ll buf < 143 then some (ll2buf 1 (buf2ll buf ^ 7 % 143)) else none

lemma rsa143_inverts : rsa143.Inverts 143 where
  low := by decide
  high := by decide
  recover := by
    have h : ∀ v < 143, rsa143.sign (ll2buf 1 v) = some (ll2buf 1 (v ^ 43 % 143)) ∧
        rsa143.verifyRecover (ll2buf 1 (v ^ 43 % 143)) = some (ll2buf 1 v) := by decide +kernel
    exact fun v hv => ⟨_, (h v hv).1, by simp [rsa143, cryptLen], (h v hv).2⟩

/-- Two roll bits, three ticket bits, one checksum bit and one bit of magic, over `abc`. -/
def cfg231 : Cfg := ⟨2, 3, 1, 1174491275, [97, 98, 99]⟩

/-- The same over `-as`. -/
def dashCfg : Cfg := ⟨2, 3, 1, 1174491275, ascii "-as"⟩

lemma dashCfg_valid : dashCfg.Valid :=
  ⟨by decide, by decide, by decide, by decide, by decide +kernel, by decide +kernel, by decide +kernel⟩

/-- Both keys are in one file, and the configuration in another. -/
def sampleFiles : Files where
  key _ name := if name = ascii "key" then some (some rsa143) else none
  config name := if name = ascii "cfg" then some (some dashCfg) else none

/-- The codes of roll 2. -/
def sampleCodes : List (List UInt8) :=
  ["-aa-a", "as-s", "-s-a", "aa", "-ss-a", "-asaa", "-asa"].map ascii

theorem print_check_roundtrip_iff_dash :
    let check := fun code => main sampleFiles (checkArgs (ascii "cfg") (ascii "key") code)
    main sampleFiles (printArgs (ascii "cfg") (ascii "key") (ascii "2") (ascii "7"))
        = ⟨header rsa143 dashCfg 2 7 ++ sampleCodes.map .voucher, 0⟩ ∧
      check (ascii "as-s") = ⟨[.ok 2 2], 0⟩ ∧
      check (32 :: ascii "-asa") = ⟨[.ok 2 7], 0⟩ ∧ check (ascii "-asa") ≠ ⟨[.ok 2 7], 0⟩ := by
  have hroll : atoi (ascii "2") = 2 := by decide +kernel
  have hcount : atoi (ascii "7") = 7 := by decide +kernel
  have hcodes : main sampleFiles (printArgs (ascii "cfg") (ascii "key") (ascii "2") (ascii "7"))
      = ⟨header rsa143 dashCfg 2 7 ++ sampleCodes.map .voucher, 0⟩ := by decide +kernel
  obtain ⟨codes, hprint, -, hcheck⟩ := @print_check_roundtrip_iff sampleFiles rsa143 dashCfg 143
    (ascii "cfg") (ascii "key") (ascii "key") (ascii "2") (ascii "7") (if_pos rfl) (if_pos rfl)
    (if_pos rfl) (by decide +kernel) (by decide) (by decide) rsa143_inverts dashCfg_valid
    (by decide +kernel) (by rw [hcount]; decide) (by rw [hroll]; decide)
  rw [hroll, hcount] at hprint hcheck
  have hmap := append_cancel_left (congrArg Exit.stdout (hcodes.symm.trans hprint))
  obtain rfl := map_injective_iff.mpr (fun _ _ h => Line.voucher.inj h) hmap
  obtain ⟨code2, hcode2, -, -, h2⟩ := hcheck 2 (by decide) (by decide)
  obtain ⟨code7, hcode7, -, hblank, h7⟩ := hcheck 7 (by decide) (by decide)
  obtain rfl : ascii "as-s" = code2 := Option.some.inj hcode2
  obtain rfl : ascii "-asa" = code7 := Option.some.inj hcode7
  exact ⟨hcodes, h2.mpr (by decide +kernel), hblank, mt h7.mp (by decide +kernel)⟩

/-- **A code that is taken for options.**  It is printed as `-asa`, and with the blank it is checked; as
an argument of its own it is answered with the help. -/
theorem dash_code_refused :
    dashCfg.Valid ∧
      .voucher (ascii "-asa") ∈
        (main sampleFiles (printArgs (ascii "cfg") (ascii "key") (ascii "2") (ascii "7"))).stdout ∧
      main sampleFiles (checkArgs (ascii "cfg") (ascii "key") (ascii " -asa")) = ⟨[.ok 2 7], 0⟩ ∧
      main sampleFiles (checkArgs (ascii "cfg") (ascii "key") (ascii "-asa")) = ⟨[], 1⟩ :=
  ⟨dashCfg_valid, by decide +kernel, by decide +kernel, by decide +kernel⟩

end FreeSense.Voucher
