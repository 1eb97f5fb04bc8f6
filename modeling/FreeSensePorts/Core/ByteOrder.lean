import Mathlib.Data.Fin.Basic

/-!
# Words in memory

A word of four bytes on a host of either byte order: how it is read from memory and written there,
and `htonl`.  A word that went through `htonl` stands in memory with its highest byte first
(`store_htonl`), whatever the host.
-/

namespace FreeSense

inductive ByteOrder
  | little
  | big
  deriving DecidableEq, Repr

namespace ByteOrder

/-- The word that four bytes of memory are. -/
def load : ByteOrder → (Fin 4 → BitVec 8) → BitVec 32
  | little, bytes => bytes 3 ++ bytes 2 ++ bytes 1 ++ bytes 0
  | big, bytes => bytes 0 ++ bytes 1 ++ bytes 2 ++ bytes 3

/-- The number of bits of a word below byte `q` of its memory. -/
def shift : ByteOrder → Fin 4 → ℕ
  | little, q => 8 * q
  | big, q => 8 * q.rev

/-- Byte `q` of the memory a word is written to. -/
def store (o : ByteOrder) (w : BitVec 32) (q : Fin 4) : BitVec 8 := w.extractLsb' (o.shift q) 8

def htonl : ByteOrder → BitVec 32 → BitVec 32
  | little, w => w.extractLsb' 0 8 ++ w.extractLsb' 8 8 ++ w.extractLsb' 16 8 ++ w.extractLsb' 24 8
  | big, w => w

lemma extractLsb'_append_four (bytes : Fin 4 → BitVec 8) (q : Fin 4) :
    (bytes 3 ++ bytes 2 ++ bytes 1 ++ bytes 0).extractLsb' (8 * q) 8 = bytes q := by
  refine BitVec.eq_of_getLsbD_eq fun i hi => ?_
  rw [BitVec.getLsbD_extractLsb', decide_eq_true hi, Bool.true_and, BitVec.getLsbD_append,
    BitVec.getLsbD_append, BitVec.getLsbD_append]
  obtain rfl | rfl | rfl | rfl : q = 0 ∨ q = 1 ∨ q = 2 ∨ q = 3 := by omega
  · rw [if_pos (by simpa using hi)]
    simp
  · rw [if_neg (by simp), if_pos (by simpa using hi)]
    simp
  · rw [if_neg (by omega), if_neg (by omega), if_pos (by omega)]
    exact congrArg _ (by omega)
  · rw [if_neg (by omega), if_neg (by omega), if_neg (by omega)]
    exact congrArg _ (by omega)

variable (o : ByteOrder)

lemma store_load (bytes : Fin 4 → BitVec 8) (q : Fin 4) : o.store (o.load bytes) q = bytes q := by
  cases o with
  | little => exact extractLsb'_append_four bytes q
  | big => exact (extractLsb'_append_four (bytes ∘ Fin.rev) q.rev).trans (by simp)

lemma store_htonl (w : BitVec 32) (q : Fin 4) : o.store (o.htonl w) q = big.store w q := by
  cases o with
  | little => exact extractLsb'_append_four (fun k => w.extractLsb' (8 * k.rev) 8) q
  | big => rfl

lemma store_and (v w : BitVec 32) (q : Fin 4) :
    o.store (v &&& w) q = o.store v q &&& o.store w q := by
  refine BitVec.eq_of_getLsbD_eq fun i hi => ?_
  simp [store, hi]

lemma shift_le (q : Fin 4) : o.shift q ≤ 24 := by
  cases o <;> simp only [shift] <;> omega

lemma store_allOnes (q : Fin 4) : o.store (BitVec.allOnes 32) q = BitVec.allOnes 8 := by
  have hshift := o.shift_le q
  refine BitVec.eq_of_getLsbD_eq fun i hi => ?_
  have hin : o.shift q + i < 32 := by omega
  rw [store, BitVec.getLsbD_extractLsb', BitVec.getLsbD_allOnes, BitVec.getLsbD_allOnes,
    decide_eq_true hin, Bool.and_true]

lemma store_zero (q : Fin 4) : o.store 0#32 q = 0#8 :=
  BitVec.eq_of_getLsbD_eq fun i hi => by simp [store, hi]

lemma getMsbD_store_big (w : BitVec 32) (q : Fin 4) {t : ℕ} (ht : t < 8) :
    (big.store w q).getMsbD t = w.getMsbD (8 * q + t) := by
  have hbit : 8 * (q.rev : ℕ) + (8 - 1 - t) = 32 - 1 - (8 * q + t) := by
    rw [Fin.val_rev]
    omega
  have hin : 8 * (q : ℕ) + t < 32 := by omega
  have hlow : 8 - 1 - t < 8 := by omega
  simp only [BitVec.getMsbD, store, shift, BitVec.getLsbD_extractLsb', hbit, decide_eq_true ht,
    decide_eq_true hlow, decide_eq_true hin, Bool.true_and]

end ByteOrder

end FreeSense
