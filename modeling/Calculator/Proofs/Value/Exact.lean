import Calculator.Number.Integer.Lemmas
import Calculator.Value.Arithmetic
import Mathlib.Algebra.Order.Field.Rat
import Mathlib.Data.Int.Cast.Lemmas

set_option autoImplicit false

namespace Calculator

/-- The result of an operation in the field of rationals, none where it has no result. Exponents
are integers. -/
def Operation.onRationals : Operation → Rat → Rat → Option Rat
  | .add, x, y => some (x + y)
  | .subtract, x, y => some (x - y)
  | .multiply, x, y => some (x * y)
  | .divide, x, y => if y = 0 then none else some (x / y)
  | .power, x, y => if x = 0 ∧ y < 0 then none else some (x ^ y.num)
  | _, _, _ => none

namespace Value

def Denotes (v : Value) (q : Rat) : Prop :=
  ∀ op line, v.toRational op line = .ok q

theorem denotes_int (n : Int) (flavor : Flavor) : (int n flavor).Denotes n :=
  fun _ _ => rfl

theorem denotes_rational (q : Rat) (flavor : Flavor) (precision : Nat) :
    (rational q flavor precision).Denotes q :=
  fun _ _ => rfl

section
variable {a b : Value} {x y : Rat} {n : Int}

theorem Denotes.cases (h : a.Denotes x) :
    (∃ n flavor, a = .int n flavor ∧ x = n) ∨
      ∃ flavor precision, a = .rational x flavor precision := by
  have read := h "" 0
  cases a with
  | int n flavor => exact .inl ⟨n, flavor, rfl, (Except.ok.inj read).symm⟩
  | rational q flavor precision => exact .inr ⟨flavor, precision, by rw [Except.ok.inj read]⟩
  | float | date | function | builtin => cases read

theorem Denotes.unique (hx : a.Denotes x) (hy : a.Denotes y) : x = y :=
  Except.ok.inj ((hx "" 0).symm.trans (hy "" 0))

/-- An answer that is this number, or the failure of a division by zero where there is no number. -/
def Answers (line : Position) : Option Rat → Except EvalError Value → Prop
  | some q, r => ∃ v, r = .ok v ∧ v.Denotes q
  | none, r => r = .error (.divisionByZero line)

/-- The operation answers with the value in any mode. -/
def Gives (op : Operation) (a b v : Value) : Prop :=
  ∀ mode line, a.apply op mode b line = .ok v

/-- All that makes up an integer or a rational: the number, its kind and how it is shown. -/
structure HasParts (v : Value) (q : Rat) (breadth : Breadth) (flavor : Flavor) (precision : Nat) :
    Prop where
  denotes : v.Denotes q
  breadth : v.breadth = breadth
  flavor : v.flavor = flavor
  precision : v.precision = precision

theorem exists_sum (ha : a.Denotes x) (hb : b.Denotes y) :
    ∃ v, Gives .add a b v ∧ v.HasParts (x + y) (a.breadth.max b.breadth)
      (a.flavor.merge b.flavor) (max a.precision b.precision) := by
  obtain ⟨n, f, rfl, rfl⟩ | ⟨f, p, rfl⟩ := ha.cases <;>
    obtain ⟨k, g, rfl, rfl⟩ | ⟨g, p', rfl⟩ := hb.cases
  · exact ⟨.int (n + k) (f.merge g), fun _ _ => rfl,
      fun _ _ => congrArg Except.ok (Int.cast_add n k), rfl, rfl, rfl⟩
  all_goals exact ⟨_, fun _ _ => rfl, denotes_rational _ _ _, rfl, rfl, rfl⟩

theorem exists_difference (ha : a.Denotes x) (hb : b.Denotes y) :
    ∃ v, Gives .subtract a b v ∧ v.HasParts (x - y) (a.breadth.max b.breadth)
      (a.flavor.merge b.flavor) (max a.precision b.precision) := by
  obtain ⟨n, f, rfl, rfl⟩ | ⟨f, p, rfl⟩ := ha.cases <;>
    obtain ⟨k, g, rfl, rfl⟩ | ⟨g, p', rfl⟩ := hb.cases
  · exact ⟨.int (n - k) (f.merge g), fun _ _ => rfl,
      fun _ _ => congrArg Except.ok (Int.cast_sub n k), rfl, rfl, rfl⟩
  all_goals exact ⟨_, fun _ _ => rfl, denotes_rational _ _ _, rfl, rfl, rfl⟩

theorem exists_product (ha : a.Denotes x) (hb : b.Denotes y) :
    ∃ v, Gives .multiply a b v ∧ v.HasParts (x * y) (a.breadth.max b.breadth)
      (a.flavor.merge b.flavor) (capped (a.precision + b.precision)) := by
  obtain ⟨n, f, rfl, rfl⟩ | ⟨f, p, rfl⟩ := ha.cases <;>
    obtain ⟨k, g, rfl, rfl⟩ | ⟨g, p', rfl⟩ := hb.cases
  · exact ⟨.int (n * k) (f.merge g), fun _ _ => rfl,
      fun _ _ => congrArg Except.ok (Int.cast_mul n k), rfl, rfl, rfl⟩
  all_goals exact ⟨_, fun _ _ => rfl, denotes_rational _ _ _, rfl, rfl, rfl⟩

theorem apply_ring (ha : a.Denotes x) (hb : b.Denotes y) (mode : NumericMode) (line : Position)
    {op : Operation} (ring : op ∈ [Operation.add, .subtract, .multiply]) :
    Answers line (op.onRationals x y) (a.apply op mode b line) := by
  simp only [List.mem_cons, List.not_mem_nil, or_false] at ring
  rcases ring with rfl | rfl | rfl
  · obtain ⟨v, gives, parts⟩ := exists_sum ha hb
    exact ⟨v, gives mode line, parts.denotes⟩
  · obtain ⟨v, gives, parts⟩ := exists_difference ha hb
    exact ⟨v, gives mode line, parts.denotes⟩
  · obtain ⟨v, gives, parts⟩ := exists_product ha hb
    exact ⟨v, gives mode line, parts.denotes⟩

theorem divide_rational (ha : a.Denotes x) (hb : b.Denotes y) (line : Position) :
    divide .rational a b line = divideExactly a b line := by
  obtain ⟨n, f, rfl, rfl⟩ | ⟨f, p, rfl⟩ := ha.cases <;>
    obtain ⟨k, g, rfl, rfl⟩ | ⟨g, p', rfl⟩ := hb.cases <;> rfl

theorem divide_exact (ha : a.Denotes x) (hb : b.Denotes y) (line : Position) :
    Answers line (Operation.onRationals .divide x y) (a.apply .divide .rational b line) := by
  change Answers line (if y = 0 then none else some (x / y)) (divide .rational a b line)
  rw [divide_rational ha hb, divideExactly, hb]
  change Answers line _ (if y = 0 then _ else _)
  by_cases zero : y = 0
  · rw [if_pos zero, if_pos zero]
    exact rfl
  · rw [if_neg zero, if_neg zero, ha]
    exact ⟨_, rfl, denotes_rational _ _ _⟩

theorem fits32_of_abs_lt (small : |n| < 2 ^ 31) : Word.fits32 n = true := by
  have bounds := abs_lt.mp small
  simp only [Word.fits32, Bool.and_eq_true, decide_eq_true_eq]
  omega

theorem fitsUnsigned32_of_abs_lt (positive : 0 ≤ n) (small : |n| < 2 ^ 31) :
    Word.fitsUnsigned32 n = true := by
  have bounds := abs_lt.mp small
  simp only [Word.fitsUnsigned32, Bool.and_eq_true, decide_eq_true_eq]
  omega

theorem rationalPower_exact (small : |n| < 2 ^ 31) (x : Rat) (precision : Nat) (line : Position) :
    Answers line (if x = 0 ∧ n < 0 then none else some (x ^ n))
      (rationalPower x n precision line) := by
  unfold rationalPower
  rw [fits32_of_abs_lt small, Bool.not_true, if_neg Bool.false_ne_true]
  by_cases pole : x = 0 ∧ n < 0
  · rw [if_pos pole, if_pos pole.symm]
    exact rfl
  · rw [if_neg pole, if_neg fun h => pole h.symm, Power.rat_eq_zpow]
    exact ⟨_, rfl, denotes_rational _ _ _⟩

theorem integerPower_exact (small : |n| < 2 ^ 31) (k : Int) (f g : Flavor) (line : Position) :
    Answers line (if (k : Rat) = 0 ∧ n < 0 then none else some ((k : Rat) ^ n))
      (integerPower .rational (.int k f) (.int n g) line) := by
  change Answers line _ (if 0 ≤ n then _ else _)
  by_cases positive : 0 ≤ n
  · rw [if_pos positive, if_pos (fitsUnsigned32_of_abs_lt positive small),
      if_neg fun pole => absurd positive (not_le_of_gt pole.2)]
    refine ⟨_, rfl, fun _ _ => congrArg Except.ok ?_⟩
    obtain ⟨m, rfl⟩ := Int.eq_ofNat_of_zero_le positive
    rw [Power.int_eq_pow, Int.cast_pow, Int.toNat_natCast, zpow_natCast]
  · rw [if_neg positive]
    exact rationalPower_exact small k divisionHeadroom line

theorem power_exact (ha : a.Denotes x) (hb : b.Denotes n) (small : |n| < 2 ^ 31) (line : Position) :
    Answers line (Operation.onRationals .power x n) (a.apply .power .rational b line) := by
  have integral : Operation.onRationals .power x n =
      if x = 0 ∧ n < 0 then none else some (x ^ n) := by
    simp only [Operation.onRationals, Int.cast_lt_zero, Rat.num_intCast]
  rw [integral]
  -- Every case but that of two integers converts both operands to rationals.
  have rationals (precision : Nat) : Answers line (if x = 0 ∧ n < 0 then none else some (x ^ n))
      (if (n : Rat).den = 1 then rationalPower x (n : Rat).num precision line
        else fractionalPower .rational a b line) := by
    rw [Rat.den_intCast, if_pos rfl, Rat.num_intCast]
    exact rationalPower_exact small x precision line
  obtain ⟨k, f, rfl, rfl⟩ | ⟨f, p, rfl⟩ := ha.cases <;>
    obtain ⟨m, g, rfl, same⟩ | ⟨g, p', rfl⟩ := hb.cases
  · obtain rfl := Int.cast_injective same
    exact integerPower_exact small k f g line
  · exact rationals _
  · rw [Int.cast_injective same] at rationals ⊢
    exact rationals _
  · exact rationals _

def exactOperations : List Operation :=
  [.add, .subtract, .multiply, .divide, .power]

theorem apply_exact (ha : a.Denotes x) (hb : b.Denotes y) (line : Position) {op : Operation}
    (mem : op ∈ exactOperations)
    (integral : op = .power → ∃ n : Int, y = n ∧ |n| < 2 ^ 31) :
    Answers line (op.onRationals x y) (a.apply op .rational b line) := by
  simp only [exactOperations, List.mem_cons, List.not_mem_nil, or_false] at mem
  rcases mem with rfl | rfl | rfl | rfl | rfl
  · exact apply_ring ha hb _ line (by decide)
  · exact apply_ring ha hb _ line (by decide)
  · exact apply_ring ha hb _ line (by decide)
  · exact divide_exact ha hb line
  · obtain ⟨n, rfl, small⟩ := integral rfl
    exact power_exact ha hb small line

theorem orderingOf_compares {α : Type} [LinearOrder α] (s t : α) :
    (orderingOf (s < t) (s = t)).Compares s t := by
  unfold orderingOf
  rcases lt_trichotomy s t with less | same | greater
  · rw [if_pos (decide_eq_true less)]
    exact less
  · rw [if_neg (by simp [same]), if_pos (decide_eq_true same)]
    exact same
  · rw [if_neg (by simp [greater.le]), if_neg (by simp [greater.ne'])]
    exact greater

theorem compare?_exact (ha : a.Denotes x) (hb : b.Denotes y) (op : Operation) (line : Position) :
    compare? op a b line = .ok (some (orderingOf (x < y) (x = y))) := by
  obtain ⟨n, f, rfl, rfl⟩ | ⟨f, p, rfl⟩ := ha.cases <;>
    obtain ⟨k, g, rfl, rfl⟩ | ⟨g, p', rfl⟩ := hb.cases
  · simp only [Int.cast_lt, Int.cast_inj]
    rfl
  all_goals rfl

theorem equal_exact (ha : a.Denotes x) (hb : b.Denotes y) (mode : NumericMode) (line : Position) :
    a.apply .equal mode b line = .ok (boolean (x = y)) := by
  have tested : (some (orderingOf (x < y) (x = y)) == some .eq) = decide (x = y) := by
    rw [Option.some_beq_some, Bool.eq_iff_iff, beq_iff_eq, decide_eq_true_iff]
    exact (orderingOf_compares x y).eq_eq
  change comparison .equal (· == some .eq) a b line = _
  rw [comparison, compare?_exact ha hb]
  exact congrArg (fun t => Except.ok (boolean t)) tested

theorem exists_negation (ha : a.Denotes x) : ∃ v, (∀ line, a.negate line = .ok v) ∧
    v.HasParts (-x) a.breadth a.flavor a.precision := by
  obtain ⟨n, flavor, rfl, rfl⟩ | ⟨flavor, precision, rfl⟩ := ha.cases
  · exact ⟨.int (-n) flavor, fun _ => rfl,
      fun _ _ => congrArg Except.ok (Int.cast_neg n), rfl, rfl, rfl⟩
  · exact ⟨_, fun _ => rfl, denotes_rational _ _ _, rfl, rfl, rfl⟩

theorem negate_exact (ha : a.Denotes x) (line : Position) :
    ∃ v, a.negate line = .ok v ∧ v.Denotes (-x) := by
  obtain ⟨v, gives, parts⟩ := exists_negation ha
  exact ⟨v, gives line, parts.denotes⟩

end

end Value

end Calculator
