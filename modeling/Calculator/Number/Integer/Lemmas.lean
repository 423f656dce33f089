import Calculator.Number.Integer
import Mathlib.Algebra.Order.Field.Basic
import Mathlib.Data.Int.Bitwise
import Mathlib.Data.Rat.Lemmas

set_option autoImplicit false

namespace Calculator.Bitwise

theorem without_eq_ldiff (m n : Nat) : without m n = m.ldiff n := by
  refine Nat.eq_of_testBit_eq fun i => ?_
  rw [without, Nat.testBit_xor, Nat.testBit_and, Nat.testBit_ldiff]
  cases m.testBit i <;> cases n.testBit i <;> rfl

/-- Integers have infinitely many bits, those of the two's complement. -/
theorem and_eq_land : and = Int.land := by
  funext m n
  cases m <;> cases n <;> simp only [and, without_eq_ldiff] <;> rfl

theorem or_eq_lor : or = Int.lor := by
  funext m n
  cases m <;> cases n <;> simp only [or, without_eq_ldiff] <;> rfl

end Calculator.Bitwise

namespace Calculator.Power

theorem squareFrom_eq (fuel : Nat) (acc base : Int) (n : Nat) (h : n < 2 ^ fuel) :
    squareFrom fuel acc base n = acc * base ^ n := by
  induction fuel generalizing acc base n with
  | zero =>
    have zero : n = 0 := by simpa using h
    subst zero
    simp [squareFrom]
  | succ fuel ih =>
    unfold squareFrom
    split
    · rename_i hn
      simp [hn]
    · rename_i hn
      by_cases small : n < 2
      · have one : n = 1 := by omega
        subst one
        rw [ih _ _ _ (Nat.two_pow_pos fuel)]
        simp
      · rw [ih _ _ _ (by rw [pow_succ] at h; omega)]
        -- `acc * base ^ n` stays the same while `n` is halved.
        have square : (base * base) ^ (n / 2) = base ^ (2 * (n / 2)) := by
          rw [pow_mul, pow_two]
        simp only [small, if_false, square]
        split
        · rename_i odd
          have split : n = 2 * (n / 2) + 1 := by omega
          conv => rhs; rw [split, pow_succ]
          rw [mul_assoc, mul_comm base]
        · rename_i even
          have split : 2 * (n / 2) = n := by omega
          rw [split]

theorem int_eq_pow (base : Int) (n : Nat) : int base n = base ^ n := by
  unfold int
  rw [squareFrom_eq _ _ _ _ Nat.lt_log2_self, one_mul]

theorem rat_eq_zpow (base : Rat) (n : Int) : rat base n = base ^ n := by
  have quotient (k : Nat) : (base.num : Rat) ^ k / (base.den : Rat) ^ k = base ^ k := by
    rw [← div_pow, Rat.num_div_den]
  unfold rat
  simp only [int_eq_pow, Rat.divInt_eq_div, Int.cast_pow, Int.cast_natCast]
  obtain ⟨k, rfl | rfl⟩ := Int.eq_nat_or_neg n
  · rw [if_pos (Int.natCast_nonneg k), Int.natAbs_natCast, quotient, zpow_natCast]
  · rw [Int.natAbs_neg, Int.natAbs_natCast, zpow_neg, zpow_natCast]
    split
    · obtain rfl : k = 0 := by omega
      simp
    · rw [← inv_div, quotient]

end Calculator.Power
