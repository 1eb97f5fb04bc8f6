import FreeSensePorts.Voucher.Model
import Mathlib.Data.Nat.Digits.Lemmas
import Mathlib.Tactic

/-!
# The inverse pairs of a voucher

* buffers: `ll2buf` and `buf2ll` are inverse on numbers of at most eight bytes;
* spelling: the digit loop writes `Nat.digits` over the charset (`codeLoop_eq_digits`), and the
  character loop reads `Nat.ofDigits` of it, modulo `2 ^ 64` (`decodeLoop_digits`);
* fields: `clearcode` is the positional packing of its four fields, nothing wraps and the cleared top
  bit was clear already (`clearcode_eq`), and `checkClear` takes them apart again (`checkClear_pack`).
-/

namespace FreeSense.Voucher

open List

variable {key : Key} {cfg : Cfg}

/-! ## Wraparound -/

variable {b n a ticketid rollid : ℕ} {cs : List UInt8}

lemma bit_eq (hb : b ≤ 31) : bit 32 b = 2 ^ b := by
  have h : ∀ b < 32, bit 32 b = 2 ^ b := by decide
  exact h b (by omega)

lemma mask_eq (hb : b ≤ 31) : mask 64 b = 2 ^ b - 1 ∧ mask 32 b = 2 ^ b - 1 := by
  have h : ∀ b < 32, mask 64 b = 2 ^ b - 1 ∧ mask 32 b = 2 ^ b - 1 := by decide
  exact h b (by omega)

lemma u64_of_lt (h : n < 2 ^ 64) : u64 n = n := Nat.mod_eq_of_lt h

lemma u32_of_lt (h : n < 2 ^ 32) : u32 n = n := Nat.mod_eq_of_lt h

lemma u64_u64_mul_add (n b d : ℕ) : u64 (u64 (u64 n * b) + d) = u64 (n * b + d) := by
  simp [u64, Nat.add_mod, Nat.mul_mod]

/-! ## Buffers -/

@[simp] lemma ll2buf_length : ∀ len ll : ℕ, (ll2buf len ll).length = len
  | 0, _ => rfl
  | len + 1, ll => by simp [ll2buf, ll2buf_length len]

lemma buf2ll_snoc (bs : List UInt8) (b : UInt8) :
    buf2ll (bs ++ [b]) = u64 (u64 (buf2ll bs <<< 8) + b.toNat) := by
  cases bs with
  | nil => simp [buf2ll, u64]
  | cons a as => simp [buf2ll, foldl_append]

lemma buf2ll_lt (bs : List UInt8) : bs.length ≤ 8 → buf2ll bs < 2 ^ (8 * bs.length) := by
  induction bs using List.reverseRecOn with
  | nil => simp [buf2ll]
  | append_singleton bs b ih =>
    intro hlen
    rw [length_append] at hlen ⊢
    have hbs := ih (by omega)
    have hb : b.toNat < 2 ^ 8 := b.toNat_lt
    rw [buf2ll_snoc, Nat.shiftLeft_eq]
    calc u64 (u64 (buf2ll bs * 2 ^ 8) + b.toNat)
        ≤ buf2ll bs * 2 ^ 8 + b.toNat :=
          le_trans (Nat.mod_le _ _) (Nat.add_le_add_right (Nat.mod_le _ _) _)
      _ < (buf2ll bs + 1) * 2 ^ 8 := by omega
      _ ≤ 2 ^ (8 * bs.length) * 2 ^ 8 := Nat.mul_le_mul_right _ hbs
      _ = 2 ^ (8 * (bs.length + 1)) := by rw [← Nat.pow_add, Nat.mul_add]

/-- Reading back a number that fits its buffer. -/
theorem buf2ll_ll2buf : ∀ len ll : ℕ, len ≤ 8 → ll < 2 ^ (8 * len) → buf2ll (ll2buf len ll) = ll
  | 0, ll, _, h => by
    have : ll = 0 := by simpa using h
    simp [ll2buf, buf2ll, this]
  | len + 1, ll, hlen, h => by
    have h64 : ll < 2 ^ 64 :=
      lt_of_lt_of_le h (Nat.pow_le_pow_right (by norm_num) (by omega))
    have hdiv : ll >>> 8 < 2 ^ (8 * len) := by
      rw [Nat.shiftRight_eq_div_pow, Nat.div_lt_iff_lt_mul (by positivity), ← Nat.pow_add]
      exact h
    have hlow : (UInt8.ofNat (ll &&& 0xff)).toNat = ll % 256 := by
      rw [show (0xff : ℕ) = 2 ^ 8 - 1 by norm_num, Nat.and_two_pow_sub_one_eq_mod]
      simp
    rw [ll2buf, buf2ll_snoc, buf2ll_ll2buf len _ (by omega) hdiv, hlow, Nat.shiftLeft_eq,
      Nat.shiftRight_eq_div_pow]
    have hsplit : ll / 2 ^ 8 * 2 ^ 8 + ll % 256 = ll := by omega
    rw [u64_of_lt (n := ll / 2 ^ 8 * 2 ^ 8) (by omega), hsplit, u64_of_lt h64]

theorem ll2buf_buf2ll (bs : List UInt8) :
    bs.length ≤ 8 → ll2buf bs.length (buf2ll bs) = bs := by
  induction bs using List.reverseRecOn with
  | nil => intro _; rfl
  | append_singleton bs b ih =>
    intro hlen
    rw [length_append, length_singleton] at hlen ⊢
    have hb : b.toNat < 2 ^ 8 := b.toNat_lt
    have hbs : buf2ll bs < 2 ^ 56 := lt_of_lt_of_le (buf2ll_lt bs (by omega))
      (Nat.pow_le_pow_right (by norm_num) (by omega))
    have hval : buf2ll (bs ++ [b]) = buf2ll bs * 2 ^ 8 + b.toNat := by
      rw [buf2ll_snoc, Nat.shiftLeft_eq, u64_of_lt (n := buf2ll bs * 2 ^ 8) (by omega),
        u64_of_lt (by omega)]
    have hhigh : (buf2ll bs * 2 ^ 8 + b.toNat) >>> 8 = buf2ll bs := by
      omega
    have hlow : UInt8.ofNat ((buf2ll bs * 2 ^ 8 + b.toNat) &&& 0xff) = b := by
      rw [show (0xff : ℕ) = 2 ^ 8 - 1 by norm_num, Nat.and_two_pow_sub_one_eq_mod]
      simp
    rw [hval, ll2buf, hhigh, hlow, ih (by omega)]

/-! ## Spelling -/

lemma codeLoop_length (cs : List UInt8) : ∀ num n : ℕ, (codeLoop cs (num + 1) n).1.length ≤ num
  | 0, n => by simp [codeLoop]
  | num + 1, n => by
    rw [codeLoop]
    split_ifs with h
    · simpa using codeLoop_length cs num (n / cs.length)
    · simp

/-- **The digit loop writes the digits of its number**, and nothing is left over, as soon as the
loop may run as often as the number has bits. -/
theorem codeLoop_eq_digits (hcs : 2 ≤ cs.length) :
    ∀ num n : ℕ, n < 2 ^ num →
      codeLoop cs (num + 1) n = ((Nat.digits cs.length n).map fun d => cs.getD d 0, 0)
  | 0, n, h => by
    have : n = 0 := by simpa using h
    simp [codeLoop, this]
  | num + 1, n, h => by
    rw [codeLoop]
    by_cases hn : n = 0
    · simp [hn]
    · have hdiv : n / cs.length < 2 ^ num := by
        rw [Nat.div_lt_iff_lt_mul (by omega)]
        calc n < 2 ^ num * 2 := by rwa [← Nat.pow_succ]
          _ ≤ 2 ^ num * cs.length := Nat.mul_le_mul_left _ hcs
      rw [if_pos ⟨hn, by omega⟩, codeLoop_eq_digits hcs num _ hdiv,
        Nat.digits_def' (n := n) (by omega) (by omega), map_cons]

/-- `strchr` finds a character of a charset without repetition where it stands. -/
lemma idxOf?_getD (hnd : cs.Nodup) {d : ℕ} (hd : d < cs.length) :
    cs.idxOf? (cs.getD d 0) = some d := by
  rw [getD_eq_getElem _ _ hd, idxOf?_eq_some_iff]
  refine ⟨hd, rfl, fun j hj hjd => ?_⟩
  exact absurd ((hnd.getElem_inj_iff).mp hjd) (by omega)

/-- **The character loop reads the digits back**, modulo the 64 bits of `cryptcode`, and goes on
with what stands in front of the code.  The induction is on the digits, so that the reversed
spelling is met from its far end. -/
theorem decodeLoop_digits (hnd : cs.Nodup) (hsp : (32 : UInt8) ∉ cs) (front : List UInt8) :
    ∀ ds : List ℕ, (∀ d ∈ ds, d < cs.length) →
      decodeLoop cs ((ds.map fun d => cs.getD d 0).reverse ++ front) 0
        = decodeLoop cs front (u64 (Nat.ofDigits cs.length ds)) := by
  intro ds
  induction ds generalizing front with
  | nil => simp [u64]
  | cons d ds ih =>
    intro hds
    have hd : d < cs.length := hds d mem_cons_self
    have hne : cs.getD d 0 ≠ 32 := by
      intro h
      rw [getD_eq_getElem _ _ hd] at h
      exact hsp (h ▸ getElem_mem hd)
    rw [map_cons, reverse_cons, append_assoc, singleton_append,
      ih _ fun d' hd' => hds d' (mem_cons_of_mem _ hd'), decodeLoop, if_neg hne,
      idxOf?_getD hnd hd]
    simp only [u64_u64_mul_add, Nat.ofDigits_cons]
    congr 2
    ring

/-! ## Fields -/

lemma pack_lt {m : ℕ} (ha : a < 2 ^ m) (hb : b < 2 ^ n) : a * 2 ^ n + b < 2 ^ (m + n) := by
  calc a * 2 ^ n + b < (a + 1) * 2 ^ n := by rw [Nat.add_mul]; omega
    _ ≤ 2 ^ m * 2 ^ n := Nat.mul_le_mul_right _ ha
    _ = 2 ^ (m + n) := (Nat.pow_add _ _ _).symm

lemma pack_div (hb : b < 2 ^ n) : (a * 2 ^ n + b) / 2 ^ n = a := by
  rw [Nat.mul_comm, Nat.mul_add_div (by positivity), Nat.div_eq_of_lt hb, Nat.add_zero]

lemma pack_mod (hb : b < 2 ^ n) : (a * 2 ^ n + b) % 2 ^ n = b := by
  rw [Nat.mul_comm, Nat.mul_add_mod, Nat.mod_eq_of_lt hb]

def pack (cfg : Cfg) (magic checksum ticketid rollid : ℕ) : ℕ :=
  ((magic * 2 ^ cfg.checksumBits + checksum) * 2 ^ cfg.ticketBits + ticketid)
    * 2 ^ cfg.rollBits + rollid

lemma voucherBits_lt (hkey : key.bits / 8 ≤ 8) (hlen : voucherLen cfg ≤ availLen key) :
    availLen key = cryptLen key ∧ cfg.voucherBits + 1 ≤ 8 * cryptLen key := by
  have havail : availLen key = cryptLen key := by
    unfold availLen cryptLen
    split_ifs <;> omega
  rw [voucherLen] at hlen
  omega

/-- The magic number fits the bits left beside the fields and the top bit. -/
lemma effectiveMagic_lt (hkey : key.bits / 8 ≤ 8) (hlen : voucherLen cfg ≤ availLen key) :
    effectiveMagic key cfg < 2 ^ (8 * cryptLen key - (cfg.voucherBits + 1)) := by
  obtain ⟨havail, hbits⟩ := voucherBits_lt hkey hlen
  have hcast : ((availLen key * 8 : ℤ) - (cfg.voucherBits + 1)).toNat
      = 8 * cryptLen key - (cfg.voucherBits + 1) := by omega
  simp only [effectiveMagic]
  split_ifs with h
  · rw [hcast, Nat.one_shiftLeft, Nat.and_two_pow_sub_one_eq_mod]
    exact Nat.mod_lt _ (by positivity)
  · positivity

lemma pack_lt_topBit {magic checksum : ℕ} (hbits : cfg.voucherBits + 1 ≤ 8 * cryptLen key)
    (hm : magic < 2 ^ (8 * cryptLen key - (cfg.voucherBits + 1)))
    (hc : checksum < 2 ^ cfg.checksumBits) (ht : ticketid < 2 ^ cfg.ticketBits)
    (hr : rollid < 2 ^ cfg.rollBits) :
    pack cfg magic checksum ticketid rollid < 2 ^ (8 * cryptLen key - 1) := by
  have h := pack_lt (pack_lt (pack_lt hm hc) ht) hr
  rw [show 8 * cryptLen key - (cfg.voucherBits + 1) + cfg.checksumBits + cfg.ticketBits
    + cfg.rollBits = 8 * cryptLen key - 1 by unfold Cfg.voucherBits at hbits ⊢; omega] at h
  exact h

/-- **Packing never wraps.**  Under the length check each 64-bit operation is exact and the final
mask clears a bit that was clear, so a ticket's number is the positional value of its fields. -/
theorem clearcode_eq (hkey : key.bits / 8 ≤ 8) (hlen : voucherLen cfg ≤ availLen key)
    (hrb : cfg.rollBits ≤ 31) (htb : cfg.ticketBits ≤ 31) (hcb : cfg.checksumBits ≤ 31)
    (hr : rollid < 2 ^ cfg.rollBits) (ht : ticketid < 2 ^ cfg.ticketBits) :
    clearcode key cfg rollid ticketid
      = pack cfg (effectiveMagic key cfg) ((ticketid + rollid) % 2 ^ cfg.checksumBits)
          ticketid rollid := by
  obtain ⟨-, hbits⟩ := voucherBits_lt hkey hlen
  have hm := effectiveMagic_lt hkey hlen
  set M := effectiveMagic key cfg with hM
  have hr31 : rollid < 2 ^ 31 := lt_of_lt_of_le hr (Nat.pow_le_pow_right (by norm_num) hrb)
  have ht31 : ticketid < 2 ^ 31 := lt_of_lt_of_le ht (Nat.pow_le_pow_right (by norm_num) htb)
  have hc : (ticketid + rollid) % 2 ^ cfg.checksumBits < 2 ^ cfg.checksumBits :=
    Nat.mod_lt _ (by positivity)
  have hcrypt : 8 * cryptLen key ≤ 64 := by unfold cryptLen; omega
  have htop := pack_lt_topBit hbits hm hc ht hr
  have h64 : (2 : ℕ) ^ (8 * cryptLen key - 1) ≤ 2 ^ 64 :=
    Nat.pow_le_pow_right (by norm_num) (by omega)
  -- the partial results only grow towards the packed value, which is below the top bit
  have hgrow : ∀ a n b : ℕ, a ≤ a * 2 ^ n + b := fun a n b =>
    le_trans (Nat.le_mul_of_pos_right _ (by positivity)) (Nat.le_add_right _ _)
  set C := (ticketid + rollid) % 2 ^ cfg.checksumBits with hC
  have h₃ : ((M * 2 ^ cfg.checksumBits + C) * 2 ^ cfg.ticketBits + ticketid) * 2 ^ cfg.rollBits
      + rollid < 2 ^ 64 := lt_of_lt_of_le htop h64
  have h₂ : (M * 2 ^ cfg.checksumBits + C) * 2 ^ cfg.ticketBits + ticketid < 2 ^ 64 :=
    lt_of_le_of_lt (hgrow _ _ _) h₃
  have h₁ : M * 2 ^ cfg.checksumBits + C < 2 ^ 64 := lt_of_le_of_lt (hgrow _ _ _) h₂
  have hsum : u32 (ticketid + rollid) = ticketid + rollid := u32_of_lt (by omega)
  simp only [clearcode, Nat.shiftLeft_eq, hsum, bit_eq hcb, ← hM, ← hC]
  rw [u64_of_lt (n := M * 2 ^ cfg.checksumBits) (by omega), u64_of_lt h₁,
    u64_of_lt (n := (M * 2 ^ cfg.checksumBits + C) * 2 ^ cfg.ticketBits) (by omega),
    u64_of_lt h₂, u64_of_lt (n := _ * 2 ^ cfg.rollBits) (by omega), u64_of_lt h₃]
  have hmask : 0xffffffffffffffff >>> (65 - 8 * cryptLen key) = 2 ^ (8 * cryptLen key - 1) - 1 := by
    have hall : ∀ c < 9, 1 ≤ c → 0xffffffffffffffff >>> (65 - 8 * c) = 2 ^ (8 * c - 1) - 1 := by
      decide
    exact hall _ (by omega) (by omega)
  rw [hmask, Nat.and_two_pow_sub_one_eq_mod]
  exact Nat.mod_eq_of_lt htop

/-- The tests of `CHECK`, with the masks and shifts read as remainders and quotients. -/
lemma checkClear_eq (arg : List UInt8) (hrb : cfg.rollBits ≤ 31) (htb : cfg.ticketBits ≤ 31)
    (hcb : cfg.checksumBits ≤ 31) (c : ℕ) : checkClear key cfg arg c =
      let rollid := c % 2 ^ cfg.rollBits
      let ticketid := c / 2 ^ cfg.rollBits % 2 ^ cfg.ticketBits
      let above := c / 2 ^ cfg.rollBits / 2 ^ cfg.ticketBits
      if effectiveMagic key cfg ≠ above / 2 ^ cfg.checksumBits then .error (.invalidMagic arg)
      else if (ticketid + rollid) % 2 ^ cfg.checksumBits ≠ above % 2 ^ cfg.checksumBits then
        .error (.invalidChecksum arg)
      else .ok (.ok rollid ticketid) := by
  have h31 : ∀ {b : ℕ} (n : ℕ), b ≤ 31 → n % 2 ^ b < 2 ^ 31 := fun {b} n h =>
    lt_of_lt_of_le (Nat.mod_lt n (Nat.two_pow_pos b)) (Nat.pow_le_pow_right (by norm_num) h)
  have hroll : u32 (c &&& mask 64 cfg.rollBits) = c % 2 ^ cfg.rollBits := by
    rw [(mask_eq hrb).1, Nat.and_two_pow_sub_one_eq_mod]
    exact u32_of_lt (lt_trans (h31 c hrb) (by norm_num))
  have hticket : u32 (c >>> cfg.rollBits &&& mask 64 cfg.ticketBits)
      = c / 2 ^ cfg.rollBits % 2 ^ cfg.ticketBits := by
    rw [(mask_eq htb).1, Nat.and_two_pow_sub_one_eq_mod, Nat.shiftRight_eq_div_pow]
    exact u32_of_lt (lt_trans (h31 _ htb) (by norm_num))
  have habove : c >>> (cfg.ticketBits + cfg.rollBits) = c / 2 ^ cfg.rollBits / 2 ^ cfg.ticketBits := by
    rw [Nat.add_comm, Nat.shiftRight_add, Nat.shiftRight_eq_div_pow, Nat.shiftRight_eq_div_pow]
  have hsum : u32 (c >>> (cfg.ticketBits + cfg.rollBits)) &&& mask 32 cfg.checksumBits
      = c / 2 ^ cfg.rollBits / 2 ^ cfg.ticketBits % 2 ^ cfg.checksumBits := by
    rw [habove, (mask_eq hcb).2, Nat.and_two_pow_sub_one_eq_mod, u32,
      Nat.mod_mod_of_dvd _ (Nat.pow_dvd_pow 2 (by omega))]
  have hmagic : c >>> (cfg.rollBits + cfg.ticketBits + cfg.checksumBits)
      = c / 2 ^ cfg.rollBits / 2 ^ cfg.ticketBits / 2 ^ cfg.checksumBits := by
    rw [Nat.shiftRight_add, Nat.add_comm cfg.rollBits, habove, Nat.shiftRight_eq_div_pow]
  have hadd := h31 c hrb
  have hadd' := h31 (c / 2 ^ cfg.rollBits) htb
  simp only [checkClear, hroll, hticket, hsum, hmagic]
  rw [u32_of_lt (by omega)]

/-- **The fields come apart again**, and the two tests pass. -/
theorem checkClear_pack (arg : List UInt8) (hrb : cfg.rollBits ≤ 31) (htb : cfg.ticketBits ≤ 31)
    (hcb : cfg.checksumBits ≤ 31) (hr : rollid < 2 ^ cfg.rollBits)
    (ht : ticketid < 2 ^ cfg.ticketBits) : checkClear key cfg arg
        (pack cfg (effectiveMagic key cfg) ((ticketid + rollid) % 2 ^ cfg.checksumBits)
          ticketid rollid)
      = .ok (.ok rollid ticketid) := by
  have hc : (ticketid + rollid) % 2 ^ cfg.checksumBits < 2 ^ cfg.checksumBits :=
    Nat.mod_lt _ (by positivity)
  rw [checkClear_eq arg hrb htb hcb]
  simp only [pack, pack_div hr, pack_mod hr, pack_div ht, pack_mod ht, pack_div hc, pack_mod hc]
  rw [if_neg (by simp), if_neg (by simp)]

end FreeSense.Voucher
