import FreeSensePorts.Core.ByteOrder
import FreeSensePorts.Filterdns.Entries

/-!
# The mask on a host

`setIpmask` computes with words in network order.  The source reads and writes words of the host, and
swaps the bytes of the one word of the mask that is neither all ones nor zero.  Here `set_ipmask` is
modelled on the sixteen bytes of an address, on a host of either order; a write behind the four words
of the mask is `none`.  Up to 128 bits the bytes are those of `setIpmask` (`setIpmaskOn_eq`).
-/

namespace FreeSense.Filterdns

/-- The bytes of an address, in network order: four words of four. -/
abbrev Bytes16 := Fin (4 * 4) → BitVec 8

/-- `struct pf_addr` as `addr32`. -/
abbrev Words4 := Fin 4 → BitVec 32

def writeWord (m : Words4) (j : ℕ) (w : BitVec 32) : Option Words4 :=
  if h : j < 4 then some (Function.update m ⟨j, h⟩ w) else none

/-- `while (b >= 32)`: the words that are all ones.  The array, the word after them and the bits that
are left. -/
def fullWords (m : Words4) (j b : ℕ) : Option (Words4 × ℕ × ℕ) :=
  if 32 ≤ b then do
    let m ← writeWord m j (BitVec.allOnes 32)
    fullWords m (j + 1) (b - 32)
  else some (m, j, b)
termination_by b

/-- `m.addr32[j] |= (1 << i)`.  For `i = 31` the shift of an `int` has the bit pattern of the word. -/
def orBit (m : Words4) (j i : ℕ) : Option Words4 :=
  if h : j < 4 then writeWord m j (m ⟨j, h⟩ ||| 1#32 <<< i) else none

/-- `for (i = 31; i > 31-b; --i)`. -/
def topBits (j b : ℕ) : ℕ → Words4 → Option Words4
  | 0, m => some m
  | i + 1, m =>
    if i + 1 > 31 - b then do
      let m ← orBit m j (i + 1)
      topBits j b i m
    else some m

/-- `if (b) m.addr32[j] = htonl(m.addr32[j])`. -/
def swapWord (o : ByteOrder) (m : Words4) (j b : ℕ) : Option Words4 :=
  if b ≠ 0 then
    if h : j < 4 then writeWord m j (o.htonl (m ⟨j, h⟩)) else none
  else some m

def ipmaskOn (o : ByteOrder) (b : ℕ) : Option Words4 := do
  let (m, j, b) ← fullWords (fun _ => 0#32) 0 b
  let m ← topBits j b 31 m
  swapWord o m j b

/-- Word `k` of an address, as the host reads it. -/
def hostWord (o : ByteOrder) (h : Bytes16) (k : Fin 4) : BitVec 32 :=
  o.load fun q => h (finProdFinEquiv (k, q))

def ofHostWords (o : ByteOrder) (w : Words4) : Bytes16 := fun p =>
  o.store (w (finProdFinEquiv.symm p).1) (finProdFinEquiv.symm p).2

/-- `set_ipmask`. -/
def setIpmaskOn (o : ByteOrder) (h : Bytes16) (b : ℕ) : Option Bytes16 := do
  let m ← ipmaskOn o b
  return ofHostWords o fun k => hostWord o h k &&& m k

/-! ## The loops -/

lemma writeWord_of_lt {j : ℕ} (hj : j < 4) (m : Words4) (w : BitVec 32) :
    writeWord m j w = some (Function.update m ⟨j, hj⟩ w) :=
  dif_pos hj

/-- The array with `n` words set to ones, the first of them word `j`. -/
def withOnes (m : Words4) (j n : ℕ) : Words4 := fun k =>
  if j ≤ (k : ℕ) ∧ (k : ℕ) < j + n then BitVec.allOnes 32 else m k

lemma withOnes_zero (m : Words4) (j : ℕ) : withOnes m j 0 = m :=
  funext fun k => if_neg (by omega)

lemma withOnes_succ {j : ℕ} (hj : j < 4) (m : Words4) (n : ℕ) :
    withOnes (Function.update m ⟨j, hj⟩ (BitVec.allOnes 32)) (j + 1) n = withOnes m j (n + 1) := by
  funext k
  unfold withOnes
  by_cases hk : k = ⟨j, hj⟩
  · subst hk
    rw [if_neg (by simp), if_pos ⟨le_rfl, by simp⟩, Function.update_self]
  · have hne : (k : ℕ) ≠ j := fun h => hk (Fin.ext h)
    rw [Function.update_of_ne hk]
    exact if_congr (by omega) rfl rfl

lemma fullWords_eq (n : ℕ) {r : ℕ} (hr : r < 32) : ∀ {m : Words4} {j : ℕ}, j + n ≤ 4 →
    fullWords m j (32 * n + r) = some (withOnes m j n, j + n, r) := by
  induction n with
  | zero =>
    intro m j _
    rw [fullWords, if_neg (by omega), withOnes_zero, Nat.zero_add, Nat.add_zero]
  | succ n ih =>
    intro m j hj
    have hlt : j < 4 := by omega
    have hbits : 32 * (n + 1) + r - 32 = 32 * n + r := by omega
    have hword : j + 1 + n = j + (n + 1) := by omega
    rw [fullWords, if_pos (by omega), writeWord_of_lt hlt, Option.bind_eq_bind, Option.bind_some,
      hbits, ih (by omega), hword, withOnes_succ hlt]

/-- A turn sets bit `i`; the ones below it, down to the last one the loop comes to, are still to be
set. -/
lemma topBits_eq {j b : ℕ} (hj : j < 4) : ∀ (i : ℕ) (m : Words4), i < 32 →
    ∃ w, topBits j b i m = some (Function.update m ⟨j, hj⟩ w) ∧
      ∀ t, w.getLsbD t = ((m ⟨j, hj⟩).getLsbD t || decide (31 - b < t ∧ t ≤ i))
  | 0, m, _ => by
    refine ⟨m ⟨j, hj⟩, by rw [Function.update_eq_self]; rfl, fun t => ?_⟩
    rw [decide_eq_false (by omega), Bool.or_false]
  | i + 1, m, hi => by
    rw [topBits]
    by_cases hturn : i + 1 > 31 - b
    · obtain ⟨w, hw, hbits⟩ := topBits_eq hj i
        (Function.update m ⟨j, hj⟩ (m ⟨j, hj⟩ ||| 1#32 <<< (i + 1))) (by omega)
      refine ⟨w, ?_, fun t => ?_⟩
      · rw [if_pos hturn, orBit, dif_pos hj, writeWord_of_lt hj, Option.bind_eq_bind,
          Option.bind_some, hw, Function.update_idem]
      · have hbit : (1#32 <<< (i + 1)).getLsbD t = decide (t = i + 1) := by
          rw [BitVec.getLsbD_shiftLeft, BitVec.getLsbD_one, Bool.eq_iff_iff]
          simp only [Bool.and_eq_true, Bool.not_eq_true', decide_eq_true_eq,
            decide_eq_false_iff_not]
          omega
        rw [hbits, Function.update_self, BitVec.getLsbD_or, hbit, Bool.or_assoc, ← Bool.decide_or]
        congr 1
        rw [decide_eq_decide]
        omega
    · refine ⟨m ⟨j, hj⟩, by rw [if_neg hturn, Function.update_eq_self], fun t => ?_⟩
      rw [decide_eq_false (by omega), Bool.or_false]

/-! ## The mask -/

lemma getMsbD_store_withOnes (o : ByteOrder) (n : ℕ) (k q : Fin 4) {t : ℕ} (ht : t < 8) :
    (o.store (withOnes (fun _ => 0#32) 0 n k) q).getMsbD t = decide ((k : ℕ) < n) := by
  unfold withOnes
  by_cases hk : (k : ℕ) < n
  · rw [if_pos (by omega), o.store_allOnes, decide_eq_true hk, BitVec.getMsbD,
      BitVec.getLsbD_allOnes, decide_eq_true ht, decide_eq_true (by omega), Bool.and_self]
  · rw [if_neg (by omega), o.store_zero, decide_eq_false hk]
    simp

/-- In memory, the first `b` bits of the mask are ones and the others are zeros. -/
lemma ipmaskOn_eq (o : ByteOrder) {b : ℕ} (hb : b ≤ 128) :
    ∃ m, ipmaskOn o b = some m ∧ ∀ (k q : Fin 4) {t : ℕ}, t < 8 →
      (o.store (m k) q).getMsbD t = decide (32 * k + 8 * q + t < b) := by
  obtain ⟨n, r, hr, rfl⟩ : ∃ n r, r < 32 ∧ b = 32 * n + r :=
    ⟨b / 32, b % 32, Nat.mod_lt _ (by decide), (Nat.div_add_mod b 32).symm⟩
  rw [ipmaskOn, fullWords_eq n hr (by omega), Nat.zero_add, Option.bind_eq_bind]
  obtain rfl | hr₀ := Nat.eq_zero_or_pos r
  · refine ⟨withOnes (fun _ => 0#32) 0 n, rfl, fun k q t ht => ?_⟩
    rw [getMsbD_store_withOnes o n k q ht, decide_eq_decide]
    omega
  have hn : n < 4 := by omega
  obtain ⟨w, hw, hbits⟩ := topBits_eq (b := r) hn 31 (withOnes (fun _ => 0#32) 0 n) (by decide)
  have hzero : withOnes (fun _ => 0#32) 0 n ⟨n, hn⟩ = 0#32 := if_neg (by simp)
  refine ⟨Function.update (withOnes (fun _ => 0#32) 0 n) ⟨n, hn⟩ (o.htonl w), ?_, fun k q t ht => ?_⟩
  · show (topBits n r 31 (withOnes (fun _ => 0#32) 0 n) >>= fun m => swapWord o m n r) = _
    rw [hw, Option.bind_eq_bind, Option.bind_some, swapWord, if_pos (by omega), dif_pos hn,
      writeWord_of_lt hn, Function.update_idem, Function.update_self]
  · by_cases hk : k = ⟨n, hn⟩
    · -- the word that was put together bit by bit
      have hval : (k : ℕ) = n := congrArg Fin.val hk
      rw [hk, Function.update_self, ← hk, o.store_htonl, ByteOrder.getMsbD_store_big w q ht, BitVec.getMsbD,
        hbits, hzero, BitVec.getLsbD_zero, Bool.false_or, ← Bool.decide_and, decide_eq_decide]
      omega
    · have hne : (k : ℕ) ≠ n := fun h => hk (Fin.ext h)
      rw [Function.update_of_ne hk, getMsbD_store_withOnes o n k q ht, decide_eq_decide]
      omega

/-! ## The address -/

def address (h : Bytes16) : BitVec 128 := joinWords (List.ofFn (hostWord .big h))

/-- The place of a bit: its word, its byte there and its place in the byte. -/
lemma exists_place {i : ℕ} (hi : i < 128) :
    ∃ (k q : Fin 4) (t : ℕ), t < 8 ∧ i = 32 * (k : ℕ) + 8 * (q : ℕ) + t :=
  ⟨⟨i / 32, by omega⟩, ⟨i % 32 / 8, by omega⟩, i % 8, by omega, by simp only; omega⟩

lemma getMsbD_address (h : Bytes16) (k q : Fin 4) {t : ℕ} (ht : t < 8) :
    (address h).getMsbD (32 * k + 8 * q + t) = (h (finProdFinEquiv (k, q))).getMsbD t := by
  have hbyte : h (finProdFinEquiv (k, q)) = ByteOrder.big.store (hostWord .big h k) q :=
    (ByteOrder.big.store_load (fun q => h (finProdFinEquiv (k, q))) q).symm
  have hword : (List.ofFn (hostWord .big h)).getD (3 - (3 - (k : ℕ))) 0#32 = hostWord .big h k := by
    have hk : 3 - (3 - (k : ℕ)) = k := by omega
    rw [hk, List.getD_eq_getElem _ _ (by simp), List.getElem_ofFn]
  have hplace : 128 - 1 - (32 * (k : ℕ) + 8 * q + t) = 32 * (3 - k) + (32 - 1 - (8 * q + t)) := by
    omega
  rw [hbyte, ByteOrder.getMsbD_store_big _ q ht, BitVec.getMsbD, BitVec.getMsbD,
    decide_eq_true (by omega), decide_eq_true (by omega), Bool.true_and, Bool.true_and, address,
    hplace, getLsbD_joinWords (by simp) (by omega) (by omega), hword]

lemma ofHostWords_and (o : ByteOrder) (h : Bytes16) (m : Words4) (k q : Fin 4) :
    ofHostWords o (fun k => hostWord o h k &&& m k) (finProdFinEquiv (k, q)) =
      h (finProdFinEquiv (k, q)) &&& o.store (m k) q := by
  rw [ofHostWords, Equiv.symm_apply_apply, o.store_and, hostWord, o.store_load]

/-- **The bytes the host leaves are those of the network.**  For a length up to 128 all writes are in
the array, and the address is the one of `setIpmask`. -/
theorem setIpmaskOn_eq (o : ByteOrder) (h : Bytes16) {b : ℕ} (hb : b ≤ 128) :
    (setIpmaskOn o h b).map address = some (setIpmask (address h) b) := by
  obtain ⟨m, hm, hbits⟩ := ipmaskOn_eq o hb
  rw [setIpmaskOn, hm, Option.bind_eq_bind, Option.bind_some, Option.pure_def, Option.map_some]
  congr 1
  refine BitVec.eq_of_getMsbD_eq fun i hi => ?_
  obtain ⟨k, q, t, ht, rfl⟩ := exists_place hi
  rw [getMsbD_setIpmask _ _ hi, getMsbD_address _ k q ht, getMsbD_address _ k q ht, ofHostWords_and,
    BitVec.getMsbD_and, hbits k q ht, Bool.and_comm]

/-- **`set_ipmask` keeps the first `b` bits of an address and clears the others**, on every host. -/
theorem set_ipmask_exact (o : ByteOrder) (h : Bytes16) {b : ℕ} (hb : b ≤ 128) :
    ∃ h', setIpmaskOn o h b = some h' ∧ ∀ i < 128,
      (address h').getMsbD i = (decide (i < b) && (address h).getMsbD i) := by
  obtain ⟨h', hset, haddress⟩ := Option.map_eq_some_iff.1 (setIpmaskOn_eq o h hb)
  refine ⟨h', hset, fun i hi => ?_⟩
  rw [haddress, getMsbD_setIpmask _ _ hi]

theorem set_ipmask_exact_little : 44 ≤ 128 ∧
    ∃ h', setIpmaskOn .little (fun p => BitVec.ofNat 8 (16 * p + 15)) 44 = some h' ∧ ∀ i < 128,
      (address h').getMsbD i =
        (decide (i < 44) && (address fun p => BitVec.ofNat 8 (16 * p + 15)).getMsbD i) :=
  ⟨by decide, set_ipmask_exact .little _ (by decide)⟩

end FreeSense.Filterdns
