import FreeSensePorts.Voucher.RoundTrip

/-!
# What `CHECK` accepts

The magic test compares everything above the three fields, so a decrypted number passes exactly if it
is the one `PRINT` packs for the roll and the ticket reported.

The character loop keeps 64 bits of a code, and `ll2buf` the low bytes the key has room for.  So a code
has more than one accepted spelling: trailing characters `charset[0]` are leading zeros, and a number
that is too large is cut.  Among the codes that are `Canonical` the spelling is unique, if verifying is
injective.
-/

namespace FreeSense.Voucher

open List

variable {cfg : Cfg} {key : Key} {code : List UInt8}

/-! ## Numbers -/

lemma pack_fields (cfg : Cfg) (c : ℕ) :
    pack cfg (c / 2 ^ cfg.rollBits / 2 ^ cfg.ticketBits / 2 ^ cfg.checksumBits)
      (c / 2 ^ cfg.rollBits / 2 ^ cfg.ticketBits % 2 ^ cfg.checksumBits)
      (c / 2 ^ cfg.rollBits % 2 ^ cfg.ticketBits) (c % 2 ^ cfg.rollBits) = c := by
  simp only [pack, Nat.div_add_mod']

lemma checkClear_ok (hrb : cfg.rollBits ≤ 31) (htb : cfg.ticketBits ≤ 31)
    (hcb : cfg.checksumBits ≤ 31) (arg : List UInt8) (c rollid ticketid : ℕ) :
    checkClear key cfg arg c = .ok (.ok rollid ticketid) ↔
      rollid < 2 ^ cfg.rollBits ∧ ticketid < 2 ^ cfg.ticketBits ∧
        c = pack cfg (effectiveMagic key cfg) ((ticketid + rollid) % 2 ^ cfg.checksumBits)
          ticketid rollid := by
  constructor
  · rw [checkClear_eq arg hrb htb hcb]
    intro h
    simp only [ne_eq, ite_not] at h
    split_ifs at h with hmagic hsum
    obtain ⟨rfl, rfl⟩ : c % 2 ^ cfg.rollBits = rollid ∧
        c / 2 ^ cfg.rollBits % 2 ^ cfg.ticketBits = ticketid := by simpa using h
    refine ⟨Nat.mod_lt _ (by positivity), Nat.mod_lt _ (by positivity), ?_⟩
    rw [hmagic, hsum, pack_fields]
  · rintro ⟨hr, ht, rfl⟩
    exact checkClear_pack arg hrb htb hcb hr ht

/-- **`CHECK` accepts exactly packed vouchers.**  A decrypted number is reported as `OK` with a roll
and a ticket if and only if both are in range and it is the number `PRINT` packs for them, which is
the magic number, the checksum, the ticket and the roll in adjacent fields. -/
theorem checkClear_ok_iff {key : Key} {cfg : Cfg} (hkey : key.bits / 8 ≤ maxRsaKeyLen)
    (hrb : cfg.rollBits ≤ 31) (htb : cfg.ticketBits ≤ 31) (hcb : cfg.checksumBits ≤ 31)
    (hlen : voucherLen cfg ≤ availLen key) (arg : List UInt8) (c rollid ticketid : ℕ) :
    (checkClear key cfg arg c = .ok (.ok rollid ticketid) ↔
      rollid < 2 ^ cfg.rollBits ∧ ticketid < 2 ^ cfg.ticketBits ∧
        c = clearcode key cfg rollid ticketid) ∧
    (rollid < 2 ^ cfg.rollBits → ticketid < 2 ^ cfg.ticketBits →
      clearcode key cfg rollid ticketid
        = ((effectiveMagic key cfg * 2 ^ cfg.checksumBits
            + (ticketid + rollid) % 2 ^ cfg.checksumBits) * 2 ^ cfg.ticketBits + ticketid)
          * 2 ^ cfg.rollBits + rollid) := by
  have hclear : rollid < 2 ^ cfg.rollBits → ticketid < 2 ^ cfg.ticketBits →
      clearcode key cfg rollid ticketid = pack cfg (effectiveMagic key cfg)
        ((ticketid + rollid) % 2 ^ cfg.checksumBits) ticketid rollid :=
    fun hr ht => clearcode_eq hkey hlen hrb htb hcb hr ht
  refine ⟨?_, hclear⟩
  rw [checkClear_ok hrb htb hcb]
  refine and_congr_right fun hr => and_congr_right fun ht => ?_
  rw [hclear hr ht]

theorem checkClear_ok_iff_cfg231 :
    checkClear rsa143 cfg231 [] (clearcode rsa143 cfg231 2 7) = .ok (.ok 2 7) :=
  (checkClear_ok_iff (by decide) (by decide) (by decide) (by decide) (by decide) _ _ _ _).1.mpr
    ⟨by decide, by decide, rfl⟩

/-! ## Spellings -/

/-- **What uniqueness asks of RSA.**  Verifying gives a buffer of the key's size, rejects values
from the modulus on and is injective below it. -/
structure Key.Injects (key : Key) (modulus : ℕ) : Prop where
  length : ∀ v b, key.verifyRecover (ll2buf (cryptLen key) v) = some b → b.length = cryptLen key
  rejects : ∀ v, modulus ≤ v → v < 2 ^ (8 * cryptLen key) →
    key.verifyRecover (ll2buf (cryptLen key) v) = none
  inj : ∀ v < modulus, ∀ w < modulus, ∀ b, key.verifyRecover (ll2buf (cryptLen key) v) = some b →
    key.verifyRecover (ll2buf (cryptLen key) w) = some b → v = w

/-- The number a code spells, before it is cut to 64 bits. -/
def Cfg.spelled (cfg : Cfg) (code : List UInt8) : ℕ :=
  Nat.ofDigits cfg.charset.length (code.map fun ch => cfg.charset.idxOf ch)

/-- A code without leading zeros (which stand at its end) whose number fits the key. -/
def Canonical (key : Key) (cfg : Cfg) (code : List UInt8) : Prop :=
  code.getLast? ≠ cfg.charset.head? ∧ cfg.spelled code < 2 ^ (8 * cryptLen key)

instance (key : Key) (cfg : Cfg) (code : List UInt8) : Decidable (Canonical key cfg code) :=
  inferInstanceAs (Decidable (_ ∧ _))

lemma mem_charset_of_decodeLoop {cs : List UInt8} {n : ℕ} : ∀ {code : List UInt8} {acc : ℕ},
    (32 : UInt8) ∉ code → decodeLoop cs code acc = .ok n → ∀ ch ∈ code, ch ∈ cs
  | [], _, _, _ => by simp
  | ch :: rest, acc, hsp, h => by
    rw [mem_cons, not_or] at hsp
    rw [decodeLoop, if_neg (Ne.symm hsp.1)] at h
    cases hidx : cs.idxOf? ch with
    | none => simp [hidx] at h
    | some q =>
      simp only [hidx] at h
      have hmem : ch ∈ cs := by
        by_contra hnot
        simp [idxOf?_eq_none_iff.mpr hnot] at hidx
      intro d hd
      rcases mem_cons.mp hd with rfl | hd
      · exact hmem
      · exact mem_charset_of_decodeLoop hsp.2 h d hd

lemma map_getD_idxOf {cs code : List UInt8} (hcode : ∀ ch ∈ code, ch ∈ cs) :
    (code.map fun ch => cs.idxOf ch).map (fun d => cs.getD d 0) = code := by
  have hback : ∀ ch ∈ code, cs.getD (cs.idxOf ch) 0 = ch := by
    intro ch hch
    rw [getD_eq_getElem _ _ (idxOf_lt_length_of_mem (hcode ch hch)), getElem_idxOf]
  rw [map_map]
  exact (map_congr_left hback).trans (map_id' code)

lemma idxOf_lt {cs code : List UInt8} (hcode : ∀ ch ∈ code, ch ∈ cs) :
    ∀ d ∈ code.map fun ch => cs.idxOf ch, d < cs.length := by
  intro d hd
  obtain ⟨ch, hch, rfl⟩ := mem_map.mp hd
  exact idxOf_lt_length_of_mem (hcode ch hch)

/-- **What the character loop computes** from a code without blanks: the number spelled, cut to
64 bits. -/
lemma decodeLoop_spelled (hnd : cfg.charset.Nodup) (hsp : (32 : UInt8) ∉ cfg.charset)
    (hcode : ∀ ch ∈ code, ch ∈ cfg.charset) :
    decodeLoop cfg.charset code.reverse 0 = .ok (u64 (cfg.spelled code)) := by
  have h := decodeLoop_digits hnd hsp [] _ (idxOf_lt hcode)
  rw [map_getD_idxOf hcode, append_nil] at h
  rw [h, decodeLoop, Cfg.spelled]

lemma checkOne_ok (hnd : cfg.charset.Nodup) (hsp : (32 : UInt8) ∉ cfg.charset)
    (hblank : (32 : UInt8) ∉ code) {rollid ticketid : ℕ} :
    checkOne key cfg code = .ok (.ok rollid ticketid) ↔
      (∀ ch ∈ code, ch ∈ cfg.charset) ∧ ∃ buf,
        key.verifyRecover (ll2buf (cryptLen key) (u64 (cfg.spelled code))) = some buf ∧
        checkClear key cfg code (buf2ll buf) = .ok (.ok rollid ticketid) := by
  constructor
  · intro h
    have hcode : ∀ ch ∈ code, ch ∈ cfg.charset := by
      cases hloop : decodeLoop cfg.charset code.reverse 0 with
      | error ch => simp [checkOne, hloop] at h
      | ok n =>
        have hmem := mem_charset_of_decodeLoop (by simpa using hblank) hloop
        exact fun ch hch => hmem ch (mem_reverse.mpr hch)
    refine ⟨hcode, ?_⟩
    simp only [checkOne, decodeLoop_spelled hnd hsp hcode] at h
    cases hrec : key.verifyRecover (ll2buf (cryptLen key) (u64 (cfg.spelled code))) with
    | none => simp [hrec] at h
    | some buf => exact ⟨buf, rfl, by simpa [hrec] using h⟩
  · rintro ⟨hcode, buf, hrec, hclear⟩
    simp only [checkOne, decodeLoop_spelled hnd hsp hcode, hrec]
    exact hclear

lemma digits_spelled (hbase : 2 ≤ cfg.charset.length) (hcode : ∀ ch ∈ code, ch ∈ cfg.charset)
    (hcan : Canonical key cfg code) : code.map (fun ch => cfg.charset.idxOf ch)
      = Nat.digits cfg.charset.length (cfg.spelled code) := by
  refine (Nat.digits_ofDigits _ (by omega) _ (idxOf_lt hcode) fun hne hzero => hcan.1 ?_).symm
  have hne' : code ≠ [] := by simpa using hne
  rw [getLast_map] at hzero
  replace hzero : cfg.charset.idxOf (code.getLast hne') = 0 := hzero
  cases hcs : cfg.charset with
  | nil => simp [hcs] at hbase
  | cons zero cs =>
    rw [hcs, idxOf_cons] at hzero
    have hlast : zero = code.getLast hne' := by
      by_contra hdiff
      rw [beq_false_of_ne hdiff, cond_false] at hzero
      exact absurd hzero (by omega)
    rw [getLast?_eq_some_getLast hne', head?_cons, hlast]

/-- The checks of `process` in front of `CHECK`. -/
structure Passes (key : Key) (cfg : Cfg) : Prop where
  keyLen : key.bits / 8 ≤ maxRsaKeyLen
  charset : 2 ≤ cfg.charset.length
  rollBits : cfg.rollBits ≤ 31
  ticketBits : cfg.ticketBits ≤ 31
  checksumBits : cfg.checksumBits ≤ 31
  length : voucherLen cfg ≤ availLen key

/-- `CHECK` answers one code with `OK`. -/
lemma process_check_ok {rollid ticketid : ℕ} :
    process key cfg (.CHECK [code]) = ⟨[.ok rollid ticketid], 0⟩ ↔
      Passes key cfg ∧ checkOne key cfg code = .ok (.ok rollid ticketid) := by
  have hone : check key cfg [code] = ⟨[.ok rollid ticketid], 0⟩ ↔
      checkOne key cfg code = .ok (.ok rollid ticketid) := by
    unfold check
    cases checkOne key cfg code <;> simp [check]
  unfold process
  split_ifs with hkey hcs hbits hlen
  · exact iff_of_false (by simp) fun h => absurd h.1.keyLen (by omega)
  · exact iff_of_false (by simp) fun h => absurd h.1.charset (by omega)
  · refine iff_of_false (by simp) fun h => ?_
    have := h.1.rollBits
    have := h.1.ticketBits
    have := h.1.checksumBits
    omega
  · exact iff_of_false (by simp) fun h => absurd h.1.length (by omega)
  · simp only [hone]
    refine (and_iff_right ⟨?_, ?_, ?_, ?_, ?_, ?_⟩).symm <;> omega

section Spelling

variable {key : Key} {cfg : Cfg} (hnd : cfg.charset.Nodup) (hsp : (32 : UInt8) ∉ cfg.charset)
  {code : List UInt8} (hblank : (32 : UInt8) ∉ code) {rollid ticketid : ℕ}

include hnd hsp hblank

/-- An accepted canonical code spells a value below the modulus that verifies to the packed
voucher. -/
lemma recover_of_canonical {modulus : ℕ} (hrsa : key.Injects modulus)
    (hcan : Canonical key cfg code)
    (h : process key cfg (.CHECK [code]) = ⟨[.ok rollid ticketid], 0⟩) :
    cfg.spelled code < modulus ∧
      key.verifyRecover (ll2buf (cryptLen key) (cfg.spelled code))
        = some (ll2buf (cryptLen key) (pack cfg (effectiveMagic key cfg)
            ((ticketid + rollid) % 2 ^ cfg.checksumBits) ticketid rollid)) := by
  obtain ⟨hpass, hone⟩ := process_check_ok.mp h
  obtain ⟨-, buf, hrec, hclear⟩ := (checkOne_ok hnd hsp hblank).mp hone
  have hkey : cryptLen key ≤ 8 := hpass.keyLen
  have h64 : cfg.spelled code < 2 ^ 64 :=
    lt_of_lt_of_le hcan.2 (Nat.pow_le_pow_right (by norm_num) (by omega))
  rw [u64_of_lt h64] at hrec
  have hlen := hrsa.length _ _ hrec
  rw [checkClear_ok hpass.rollBits hpass.ticketBits hpass.checksumBits] at hclear
  refine ⟨?_, ?_⟩
  · by_contra hge
    rw [hrsa.rejects _ (not_lt.mp hge) hcan.2] at hrec
    exact absurd hrec (by simp)
  · rw [hrec, ← hclear.2.2, ← hlen, ll2buf_buf2ll buf (by omega)]

/-- **The spelling of a canonical code is unique.**  Let one canonical code be accepted for a roll and
a ticket.  Another code accepted for them is the same one exactly if it is canonical too. -/
theorem accepted_eq_iff_canonical {modulus : ℕ} (hrsa : key.Injects modulus)
    (hcan : Canonical key cfg code)
    (h : process key cfg (.CHECK [code]) = ⟨[.ok rollid ticketid], 0⟩)
    {code' : List UInt8} (hblank' : (32 : UInt8) ∉ code')
    (h' : process key cfg (.CHECK [code']) = ⟨[.ok rollid ticketid], 0⟩) :
    code' = code ↔ Canonical key cfg code' := by
  constructor
  · rintro rfl
    exact hcan
  intro hcan'
  obtain ⟨hpass, hone⟩ := process_check_ok.mp h
  obtain ⟨-, hone'⟩ := process_check_ok.mp h'
  have hcode := ((checkOne_ok hnd hsp hblank).mp hone).1
  have hcode' := ((checkOne_ok hnd hsp hblank').mp hone').1
  obtain ⟨hlt, hrec⟩ := recover_of_canonical hnd hsp hblank hrsa hcan h
  obtain ⟨hlt', hrec'⟩ := recover_of_canonical hnd hsp hblank' hrsa hcan' h'
  have hsame : cfg.spelled code' = cfg.spelled code := hrsa.inj _ hlt' _ hlt _ hrec' hrec
  calc code' = (code'.map fun ch => cfg.charset.idxOf ch).map fun d => cfg.charset.getD d 0 :=
        (map_getD_idxOf hcode').symm
    _ = (code.map fun ch => cfg.charset.idxOf ch).map fun d => cfg.charset.getD d 0 := by
        rw [digits_spelled hpass.charset hcode' hcan', digits_spelled hpass.charset hcode hcan,
          hsame]
    _ = code := map_getD_idxOf hcode

end Spelling

lemma rsa143_injects : rsa143.Injects 143 where
  length := by
    intro v b h
    simp only [rsa143] at h
    split_ifs at h
    rw [← Option.some.inj h]
    simp [rsa143, cryptLen]
  rejects := by
    have h : ∀ v < 256, 143 ≤ v → rsa143.verifyRecover (ll2buf 1 v) = none := by decide +kernel
    exact fun v hge hlt => h v hlt hge
  inj := by
    -- the private exponent takes each value back
    have h : ∀ v < 143, (rsa143.verifyRecover (ll2buf 1 v)).bind rsa143.sign = some (ll2buf 1 v) := by
      decide +kernel
    intro v hv w hw b hvb hwb
    have hv' := h v hv
    have hw' := h w hw
    have hlen : cryptLen rsa143 = 1 := rfl
    rw [hlen] at hvb hwb
    rw [hvb] at hv'
    rw [hwb] at hw'
    have hbuf : ll2buf 1 v = ll2buf 1 w := Option.some.inj (hv'.symm.trans hw')
    rw [← buf2ll_ll2buf 1 v (by norm_num) (by omega), hbuf, buf2ll_ll2buf 1 w (by norm_num) (by omega)]

/-- `abcb`, the code of roll 2 and ticket 7. -/
def code27 : List UInt8 := [97, 98, 99, 98]

theorem accepted_eq_iff_canonical_code27 :
    process rsa143 cfg231 (.CHECK [code27]) = ⟨[.ok 2 7], 0⟩ ∧
      process rsa143 cfg231 (.CHECK [code27 ++ [97, 97]]) = ⟨[.ok 2 7], 0⟩ ∧
      ¬Canonical rsa143 cfg231 (code27 ++ [97, 97]) := by
  have h : process rsa143 cfg231 (.CHECK [code27]) = ⟨[.ok 2 7], 0⟩ := by decide +kernel
  have h' : process rsa143 cfg231 (.CHECK [code27 ++ [97, 97]]) = ⟨[.ok 2 7], 0⟩ := by decide +kernel
  have hiff := accepted_eq_iff_canonical (by decide) (by decide) (by decide) rsa143_injects
    (by decide +kernel) h (by decide) h'
  exact ⟨h, h', mt hiff.mpr (by decide)⟩

/-- **One voucher, three spellings**: as printed, with a leading zero, and with a number `2 ^ 8`
larger, all over the charset and without a blank. -/
theorem code27_spellings :
    cfg231.Valid ∧ rsa143.Injects 143 ∧ 8 ∣ rsa143.bits ∧ rsa143.bits ≤ 64 ∧
      (∀ code ∈ [code27, code27 ++ [97], [98, 99, 97, 99, 97, 98]],
        (∀ ch ∈ code, ch ∈ cfg231.charset) ∧ (32 : UInt8) ∉ code ∧
        process rsa143 cfg231 (.CHECK [code]) = ⟨[.ok 2 7], 0⟩) ∧
      code27 ≠ code27 ++ [97] :=
  ⟨⟨by decide, by decide, by decide, by decide, by decide, by decide, by decide +kernel⟩,
    rsa143_injects, by decide, by decide, by decide +kernel, by decide⟩

end FreeSense.Voucher
