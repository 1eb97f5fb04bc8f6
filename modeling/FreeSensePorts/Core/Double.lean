import Mathlib.Data.Nat.Log
import Mathlib.Tactic

/-!
# Doubles that are natural numbers

`toDouble n` is the double nearest to `n`, ties to even, as the natural number it stands for (no
number here comes near the largest double).  The two bounds say that rounding is off by at most one
part in `2 ^ 53`; they are linear, so `omega` can use them on concrete ranges.
-/

namespace FreeSense

def toDouble (n : ℕ) : ℕ :=
  if n < 2 ^ 53 then n
  else
    let e := Nat.log 2 n - 52
    let q := n / 2 ^ e
    let r := n % 2 ^ e
    (if 2 ^ e < 2 * r ∨ (2 * r = 2 ^ e ∧ q % 2 = 1) then q + 1 else q) * 2 ^ e

/-- The distance between a number and its double is at most half a unit of the last place. -/
lemma toDouble_ulp {n : ℕ} (hn : 2 ^ 53 ≤ n) :
    2 * toDouble n ≤ 2 * n + 2 ^ (Nat.log 2 n - 52) ∧
      2 * n ≤ 2 * toDouble n + 2 ^ (Nat.log 2 n - 52) := by
  set e := Nat.log 2 n - 52 with he
  have hsplit : n / 2 ^ e * 2 ^ e + n % 2 ^ e = n := Nat.div_add_mod' n (2 ^ e)
  have hlt : n % 2 ^ e < 2 ^ e := Nat.mod_lt _ (by positivity)
  have hdef : toDouble n = (if 2 ^ e < 2 * (n % 2 ^ e) ∨
      (2 * (n % 2 ^ e) = 2 ^ e ∧ n / 2 ^ e % 2 = 1) then n / 2 ^ e + 1 else n / 2 ^ e) * 2 ^ e := by
    rw [toDouble, if_neg (by omega)]
  rw [hdef]
  split_ifs with h
  · rw [Nat.add_mul]
    omega
  · omega

lemma two_pow_ulp_le {n : ℕ} (hn : 2 ^ 53 ≤ n) : 2 ^ 52 * 2 ^ (Nat.log 2 n - 52) ≤ n := by
  have hlog : 53 ≤ Nat.log 2 n := (Nat.le_log_iff_pow_le (by norm_num) (by omega)).mpr hn
  rw [← Nat.pow_add, Nat.add_sub_cancel' (by omega)]
  exact Nat.pow_log_le_self 2 (by omega)

lemma toDouble_le (n : ℕ) : 2 ^ 53 * toDouble n ≤ (2 ^ 53 + 1) * n := by
  by_cases hn : n < 2 ^ 53
  · rw [toDouble, if_pos hn]
    omega
  · have hulp := (toDouble_ulp (by omega : 2 ^ 53 ≤ n)).1
    have hlog := two_pow_ulp_le (by omega : 2 ^ 53 ≤ n)
    omega

lemma le_toDouble (n : ℕ) : (2 ^ 53 - 1) * n ≤ 2 ^ 53 * toDouble n := by
  by_cases hn : n < 2 ^ 53
  · rw [toDouble, if_pos hn]
    omega
  · have hulp := (toDouble_ulp (by omega : 2 ^ 53 ≤ n)).2
    have hlog := two_pow_ulp_le (by omega : 2 ^ 53 ≤ n)
    omega

end FreeSense
