import Calculator.Number.Decimal
import Mathlib.Tactic.Ring

set_option autoImplicit false

/-!
# Shortest decimals read back

The search for the shortest decimal starts on a grid above the interval and comes to one that is
finer than the interval is wide. So it finds a decimal in the interval (`contains_shortest`), and
only the decimal of a zero is zero (`digits_shortest_eq_zero_iff`).
-/
namespace Calculator

namespace Binary64

theorem mantissa_lt (x : Float) : mantissa x < 2 ^ 53 := by
  have fraction : fractionField x < hiddenBit := Nat.mod_lt _ (by decide)
  unfold mantissa
  unfold hiddenBit at *
  split <;> omega

theorem exponent_bounds (x : Float) : -1074 ≤ exponent x ∧ exponent x ≤ 972 := by
  have field : exponentField x < 2048 := Nat.mod_lt _ (by decide)
  unfold exponent leastExponent
  split <;> omega

end Binary64

theorem ten_pow_le_two_pow {n k : Nat} (h : 10 * n + 30 ≤ 3 * k) : 10 ^ n ≤ 2 ^ k :=
  calc 10 ^ n ≤ 10 ^ (3 * (n / 3 + 1)) := Nat.pow_le_pow_right (by decide) (by omega)
    _ = (10 ^ 3) ^ (n / 3 + 1) := Nat.pow_mul ..
    _ ≤ (2 ^ 10) ^ (n / 3 + 1) := Nat.pow_le_pow_left (by decide) _
    _ = 2 ^ (10 * (n / 3 + 1)) := (Nat.pow_mul ..).symm
    _ ≤ 2 ^ k := Nat.pow_le_pow_right (by decide) (by omega)

theorem two_pow_le_ten_pow {n k : Nat} (h : 4 * n + 52 ≤ 13 * k) : 2 ^ n ≤ 10 ^ k :=
  calc 2 ^ n ≤ 2 ^ (13 * (n / 13 + 1)) := Nat.pow_le_pow_right (by decide) (by omega)
    _ = (2 ^ 13) ^ (n / 13 + 1) := Nat.pow_mul ..
    _ ≤ (10 ^ 4) ^ (n / 13 + 1) := Nat.pow_le_pow_left (by decide) _
    _ = 10 ^ (4 * (n / 13 + 1)) := (Nat.pow_mul ..).symm
    _ ≤ 10 ^ k := Nat.pow_le_pow_right (by decide) (by omega)

namespace Shortest

theorem commonUnit_le {p e : Int} (low : -1076 ≤ e) (high : e ≤ 970)
    (fine : 100000 * p ≤ 30103 * e - 1140000) : (commonUnit p e).1 ≤ (commonUnit p e).2 := by
  change 10 ^ p.toNat * 2 ^ (-e).toNat ≤ 2 ^ e.toNat * 10 ^ (-p).toNat
  by_cases positive : 0 ≤ p
  · have none : (-e).toNat = 0 := by omega
    have none' : (-p).toNat = 0 := by omega
    have tens : 10 ^ p.toNat ≤ 2 ^ e.toNat := ten_pow_le_two_pow (by omega)
    rw [none, none']
    simpa only [Nat.pow_zero, Nat.mul_one] using tens
  · have none : p.toNat = 0 := by omega
    rw [none, Nat.pow_zero, Nat.one_mul]
    have tens : 2 ^ (-e).toNat ≤ 10 ^ (-p).toNat := by
      by_cases whole : 0 ≤ e
      · have none : (-e).toNat = 0 := by omega
        rw [none, Nat.pow_zero]
        exact Nat.pow_pos (by decide)
      · exact two_pow_le_ten_pow (by omega)
    exact tens.trans (Nat.le_mul_of_pos_left _ (Nat.two_pow_pos _))

namespace Interval

/-- The middle lies between the midpoints, and those are positive. -/
structure Proper (i : Interval) : Prop where
  positive : 0 < i.low
  below : i.low < i.middle
  above : i.middle < i.high

variable {i : Interval} {p : Int}

theorem commonUnit_pos (p e : Int) : 0 < (commonUnit p e).1 ∧ 0 < (commonUnit p e).2 :=
  ⟨Nat.mul_pos (Nat.pow_pos (by decide)) (Nat.two_pow_pos _),
    Nat.mul_pos (Nat.two_pow_pos _) (Nat.pow_pos (by decide))⟩

theorem not_contains_zero (proper : i.Proper) (p : Int) : i.contains 0 p = false := by
  have low : 0 < i.low * (commonUnit p i.exponent).2 :=
    Nat.mul_pos proper.positive (commonUnit_pos p i.exponent).2
  unfold contains
  dsimp only
  rw [Nat.zero_mul]
  split
  · rw [decide_eq_false (Nat.not_le.mpr low), Bool.false_and]
  · rw [decide_eq_false (Nat.not_lt.mpr low.le), Bool.false_and]

theorem contains_of_between {digits : Nat}
    (above : i.low * (commonUnit p i.exponent).2 < digits * (commonUnit p i.exponent).1)
    (below : digits * (commonUnit p i.exponent).1 < i.high * (commonUnit p i.exponent).2) :
    i.contains digits p = true := by
  unfold contains
  dsimp only
  split
  · rw [decide_eq_true above.le, decide_eq_true below.le, Bool.and_true]
  · rw [decide_eq_true above, decide_eq_true below, Bool.and_true]

theorem contains_onGrid {d : Decimal} (h : i.onGrid p = some d) :
    i.contains d.digits d.exponent = true := by
  unfold onGrid at h
  dsimp only at h
  split at h
  · rename_i lower upper
    obtain rfl := Option.some.inj h
    dsimp only
    split
    · exact lower
    · exact upper
  · rename_i lower _
    obtain rfl := Option.some.inj h
    exact lower
  · rename_i _ upper
    obtain rfl := Option.some.inj h
    exact upper
  · cases h

theorem isSome_onGrid (proper : i.Proper)
    (fine : (commonUnit p i.exponent).1 ≤ (commonUnit p i.exponent).2) :
    (i.onGrid p).isSome = true := by
  obtain ⟨tensPositive, twosPositive⟩ := commonUnit_pos p i.exponent
  have split := Nat.div_add_mod (i.middle * (commonUnit p i.exponent).2) (commonUnit p i.exponent).1
  have short := Nat.mod_lt (i.middle * (commonUnit p i.exponent).2) tensPositive
  -- On a grid finer than the interval the multiple below its middle lies inside.
  have neighbour : i.contains
      (i.middle * (commonUnit p i.exponent).2 / (commonUnit p i.exponent).1) p = true := by
    refine contains_of_between ?_ ?_
    · have unit : (i.low + 1) * (commonUnit p i.exponent).2 ≤
          i.middle * (commonUnit p i.exponent).2 := Nat.mul_le_mul_right _ proper.below
      rw [Nat.add_mul, Nat.one_mul] at unit
      rw [Nat.mul_comm (_ / _)]
      omega
    · exact (Nat.div_mul_le_self ..).trans_lt
        (Nat.mul_lt_mul_of_pos_right proper.above twosPositive)
  unfold onGrid
  dsimp only
  rw [neighbour]
  split <;> first | rfl | simp_all

theorem contains_search {fuel k : Nat} (enough : k ≤ fuel)
    (found : (i.onGrid (p - k)).isSome = true) :
    i.contains (i.search fuel p).digits (i.search fuel p).exponent = true := by
  induction fuel generalizing k p with
  | zero =>
    obtain rfl := Nat.le_zero.mp enough
    obtain ⟨d, onGrid⟩ := Option.isSome_iff_exists.mp found
    rw [Int.natCast_zero, Int.sub_zero] at onGrid
    rw [search, onGrid]
    exact contains_onGrid onGrid
  | succ fuel ih =>
    unfold search
    cases onGrid : i.onGrid p with
    | some d => exact contains_onGrid onGrid
    | none =>
      cases k with
      | zero =>
        rw [Int.natCast_zero, Int.sub_zero, onGrid] at found
        cases found
      | succ k =>
        refine ih (Nat.le_of_succ_le_succ enough) ?_
        rwa [show p - 1 - k = p - (k + 1 : Nat) by omega]

end Interval

section
variable {x : Float} (nonzero : Binary64.mantissa x ≠ 0)

include nonzero

theorem proper_interval : (interval x).Proper := by
  unfold interval
  constructor <;> dsimp only
  · split <;> omega
  · split <;> omega
  · omega

theorem isSome_onGrid_last : ((interval x).onGrid ((interval x).ceiling - 30)).isSome = true := by
  refine Interval.isSome_onGrid (proper_interval nonzero) ?_
  obtain ⟨low, high⟩ := Binary64.exponent_bounds x
  have exponent : (interval x).exponent = Binary64.exponent x - 2 := rfl
  -- A mantissa has 53 bits, so thirty grids are enough for every exponent.
  have bits : (interval x).high.log2 < 55 := by
    have mantissa := Binary64.mantissa_lt x
    have upper : (interval x).high = 4 * Binary64.mantissa x + 2 := rfl
    exact (Nat.log2_lt (by omega)).mpr (by omega)
  refine commonUnit_le (by omega) (by omega) ?_
  unfold Interval.ceiling
  dsimp only
  rw [Int.fdiv_eq_ediv_of_nonneg _ (by decide)]
  omega

/-- The decimal reads back as the float: it lies between the midpoints to its neighbours. -/
theorem contains_shortest :
    (interval x).contains (shortest x).digits (shortest x).exponent = true := by
  rw [shortest, if_neg nonzero]
  exact Interval.contains_search (Nat.le_refl 30) (isSome_onGrid_last nonzero)

end

theorem digits_shortest_eq_zero_iff {x : Float} :
    (shortest x).digits = 0 ↔ Binary64.mantissa x = 0 := by
  constructor
  · intro zero
    by_contra nonzero
    have inside := contains_shortest nonzero
    rw [zero, Interval.not_contains_zero (proper_interval nonzero)] at inside
    cases inside
  · intro zero
    rw [shortest, if_pos zero]

end Shortest

end Calculator
