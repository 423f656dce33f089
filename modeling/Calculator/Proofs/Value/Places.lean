import Calculator.Proofs.Value.Shown
import Calculator.Tree.Literal
import Calculator.Value.Arithmetic

set_option autoImplicit false

namespace Calculator

namespace Decimal

def Fits (q : Rat) (places : Nat) : Prop :=
  ∃ n : Int, q * 10 ^ places = n

variable {x y q : Rat} {p r : Nat}

theorem fits_iff_truncated : Fits q p ↔ truncated q p = q := by
  rw [truncated_eq_iff, Rat.isInt, beq_iff_eq]
  constructor
  · rintro ⟨n, same⟩
    rw [same, Rat.den_intCast]
  · intro integral
    exact ⟨_, (Rat.coe_int_num_of_den_eq_one integral).symm⟩

theorem fits_int (n : Int) (p : Nat) : Fits n p :=
  ⟨n * 10 ^ p, by push_cast; rfl⟩

theorem fits_div_pow (n : Int) (p : Nat) : Fits (n / 10 ^ p) p :=
  ⟨n, div_mul_cancel₀ _ (by positivity)⟩

theorem Fits.mono (h : Fits x p) (more : p ≤ r) : Fits x r := by
  obtain ⟨n, same⟩ := h
  obtain ⟨count, rfl⟩ := Nat.le.dest more
  exact ⟨n * 10 ^ count, by rw [pow_add, ← mul_assoc, same]; push_cast; rfl⟩

theorem Fits.neg (h : Fits x p) : Fits (-x) p := by
  obtain ⟨n, same⟩ := h
  exact ⟨-n, by rw [neg_mul, same, Int.cast_neg]⟩

theorem Fits.abs (h : Fits x p) : Fits |x| p := by
  rcases abs_choice x with same | opposite
  · rwa [same]
  · rw [opposite]
    exact h.neg

theorem Fits.add (hx : Fits x p) (hy : Fits y r) : Fits (x + y) (max p r) := by
  obtain ⟨n, left⟩ := hx.mono (Nat.le_max_left p r)
  obtain ⟨m, right⟩ := hy.mono (Nat.le_max_right p r)
  exact ⟨n + m, by rw [add_mul, left, right, Int.cast_add]⟩

theorem Fits.sub (hx : Fits x p) (hy : Fits y r) : Fits (x - y) (max p r) := by
  rw [sub_eq_add_neg]
  exact hx.add hy.neg

theorem Fits.mul (hx : Fits x p) (hy : Fits y r) : Fits (x * y) (p + r) := by
  obtain ⟨n, left⟩ := hx
  obtain ⟨m, right⟩ := hy
  exact ⟨n * m, by rw [pow_add, mul_mul_mul_comm, left, right, Int.cast_mul]⟩

theorem Fits.pow (h : Fits x p) (k : Nat) : Fits (x ^ k) (p * k) := by
  obtain ⟨n, same⟩ := h
  exact ⟨n ^ k, by rw [pow_mul, ← mul_pow, same, Int.cast_pow]⟩

end Decimal

namespace Value

open Decimal (Fits)

/-- A value that is shown without loss: an integer, or a rational whose decimal places are all
shown. -/
def IsExact : Value → Prop
  | .int .. => True
  | .rational q _ precision => Fits q precision
  | _ => False

variable {a b v : Value} {x q : Rat} {k : Nat}

theorem isExact_iff (h : v.Denotes q) : v.IsExact ↔ Fits q v.precision := by
  obtain ⟨n, flavor, rfl, rfl⟩ | ⟨flavor, precision, rfl⟩ := h.cases
  · exact iff_of_true trivial (Decimal.fits_int n 0)
  · exact Iff.rfl

/-- The value is this number and is shown without loss. -/
structure IsExactly (v : Value) (q : Rat) : Prop where
  denotes : v.Denotes q
  isExact : v.IsExact

theorem HasParts.isExactly {breadth : Breadth} {flavor : Flavor} {precision : Nat}
    (parts : v.HasParts q breadth flavor precision) (fits : Fits q precision) : v.IsExactly q :=
  ⟨parts.denotes, (isExact_iff parts.denotes).mpr (parts.precision ▸ fits)⟩

theorem isExact_iff_shown (h : v.Denotes q) (programmer : Bool) :
    v.IsExact ↔ Shown.read (v.render programmer).toList = some q := by
  rw [isExact_iff h, Decimal.fits_iff_truncated, Shown.read_render h, Option.some_inj]

theorem exists_absolute (h : a.Denotes x) : ∃ v, (∀ line, Builtin.abs.apply [a] line = .ok v) ∧
    v.HasParts |x| a.breadth a.flavor a.precision := by
  obtain ⟨n, flavor, rfl, rfl⟩ | ⟨flavor, precision, rfl⟩ := h.cases
  · refine ⟨.int n.natAbs flavor, fun _ => rfl, fun _ _ => congrArg Except.ok ?_, rfl, rfl, rfl⟩
    rw [Int.natCast_natAbs, Int.cast_abs]
  · have same : (if x < 0 then -x else x) = |x| := by
      split_ifs with negative
      · exact (abs_of_neg negative).symm
      · exact (abs_of_nonneg (not_lt.mp negative)).symm
    refine ⟨.rational |x| flavor precision, fun _ => ?_, denotes_rational _ _ _, rfl, rfl, rfl⟩
    rw [← same]
    rfl

theorem exists_step (h : a.Denotes x) (s : Step) : ∃ v, (∀ line, step s a line = .ok v) ∧
    v.HasParts (x + s.delta) a.breadth a.flavor a.precision := by
  obtain ⟨n, flavor, rfl, rfl⟩ | ⟨flavor, precision, rfl⟩ := h.cases
  · exact ⟨.int (n + s.delta) flavor, fun _ => rfl,
      fun _ _ => congrArg Except.ok (Int.cast_add n _), rfl, rfl, rfl⟩
  · exact ⟨_, fun _ => rfl, denotes_rational _ _ _, rfl, rfl, rfl⟩

theorem rationalPower_natural (x : Rat) (k precision : Nat) (line : Position) :
    rationalPower x k precision line =
      if Word.fits32 k then .ok (.rational (x ^ k) .dec precision)
      else .error (.domain .exponentTooLarge line) := by
  unfold rationalPower
  by_cases fits : Word.fits32 k = true
  · have noPole : ¬((k : Int) < 0 ∧ x = 0) := fun pole => absurd pole.1 (by omega)
    rw [fits, Bool.not_true, if_neg Bool.false_ne_true, if_neg noPole, if_pos rfl,
      Power.rat_eq_zpow, zpow_natCast]
  · rw [Bool.eq_false_of_not_eq_true fits, Bool.not_false, if_pos rfl, if_neg Bool.false_ne_true]

theorem integerPower_natural (n : Int) (k : Nat) (f g : Flavor) (mode : NumericMode)
    (line : Position) : (int n f).apply .power mode (.int k g) line =
      if Word.fitsUnsigned32 k then .ok (.int (Power.int n k) f)
      else .error (.domain .exponentTooLarge line) := by
  change integerPower mode (.int n f) (.int k g) line = _
  dsimp only [integerPower, toInt, bind, Except.bind]
  rw [if_pos (Int.natCast_nonneg k)]
  rfl

theorem power_natural (ha : a.Denotes x) (hb : b.Denotes k) :
    (∃ n f g, a = .int n f ∧ b = .int k g) ∨ ∀ mode line, a.apply .power mode b line =
      rationalPower x k (capped (max a.precision 1 * k)) line := by
  -- Every case but that of two integers converts both operands to rationals.
  have rationals (mode : NumericMode) (precision : Nat) (line : Position) :
      (if (k : Rat).den = 1 then rationalPower x (k : Rat).num
        (capped (max precision 1 * (k : Rat).num.natAbs)) line
        else fractionalPower mode a b line) =
      rationalPower x k (capped (max precision 1 * k)) line := by
    rw [Rat.den_natCast, if_pos rfl, Rat.num_natCast, Int.natAbs_natCast]
  obtain ⟨n, f, rfl, rfl⟩ | ⟨f, p, rfl⟩ := ha.cases <;>
    obtain ⟨m, g, rfl, same⟩ | ⟨g, r, rfl⟩ := hb.cases
  · obtain rfl : m = k := Int.cast_injective (same.symm.trans (Int.cast_natCast k).symm)
    exact .inl ⟨n, f, g, rfl, rfl⟩
  · exact .inr fun mode line => rationals mode 0 line
  · rw [same] at rationals
    exact .inr fun mode line => rationals mode p line
  · exact .inr fun mode line => rationals mode p line

theorem capped_eq_self {p : Nat} (few : p ≤ 64) : capped p = p :=
  Nat.min_eq_left few

theorem exists_power (ha : a.Denotes x) (hb : b.Denotes k) (few : max a.precision 1 * k ≤ 64) :
    ∃ v, Gives .power a b v ∧ v.Denotes (x ^ k) := by
  have short : k ≤ 64 := (Nat.le_mul_of_pos_left k (by omega)).trans few
  have small : |(k : Int)| < 2 ^ 31 := by
    rw [Nat.abs_cast]
    omega
  obtain ⟨n, f, g, rfl, rfl⟩ | rationals := power_natural ha hb
  · have fits : Word.fitsUnsigned32 k = true :=
      fitsUnsigned32_of_abs_lt (Int.natCast_nonneg k) small
    refine ⟨.int (Power.int n k) f, fun mode line => ?_, ?_⟩
    · rw [integerPower_natural, if_pos fits]
    · rw [ha.unique (denotes_int n f), Power.int_eq_pow, ← Int.cast_pow]
      exact denotes_int _ f
  · have fits : Word.fits32 k = true := fits32_of_abs_lt small
    refine ⟨.rational (x ^ k) .dec (capped (max a.precision 1 * k)), fun mode line => ?_,
      denotes_rational _ _ _⟩
    rw [rationals, rationalPower_natural, if_pos fits]

theorem isExact_power (ha : a.Denotes x) (fits : Fits x a.precision) (hb : b.Denotes k)
    {mode : NumericMode} {line : Position} (answer : a.apply .power mode b line = .ok v)
    (few : v.breadth = .integer ∨ max a.precision 1 * k ≤ 64) : v.IsExact := by
  obtain ⟨n, f, g, rfl, rfl⟩ | rationals := power_natural ha hb
  · rw [integerPower_natural] at answer
    split_ifs at answer
    · obtain rfl := Except.ok.inj answer
      trivial
  · rw [rationals, rationalPower_natural] at answer
    split_ifs at answer
    · obtain rfl := Except.ok.inj answer
      have enough := few.resolve_left nofun
      change Fits (x ^ k) (capped _)
      rw [capped_eq_self enough]
      exact (fits.mono (Nat.le_max_left _ 1)).pow k

theorem fits_of_toRat? {l : RealLiteral} (value : l.toRat? = some q) : Fits q l.scale.toNat := by
  unfold RealLiteral.toRat? at value
  split_ifs at value with bounded positive
  · obtain rfl := Option.some.inj value
    change Fits (mkRat l.digits (10 ^ l.scale.toNat)) _
    rw [Rat.mkRat_eq_div]
    push_cast
    exact Decimal.fits_div_pow l.digits _
  · obtain rfl := Option.some.inj value
    exact Decimal.fits_int _ _

theorem isExact_literal {text : String} {line : Position} {l : RealLiteral}
    (read : RealLiteral.read text.toList = some l)
    (accepted : Literal.value .rational ⟨.real, text, line⟩ = .ok v)
    (few : (l.places : Int) - l.exponent.getD 0 ≤ 64) : v.IsExact := by
  change Literal.real .rational text = _ at accepted
  rw [Literal.real, read] at accepted
  dsimp only at accepted
  split at accepted
  · rename_i q value
    obtain rfl := Except.ok.inj accepted
    have enough : l.scale.toNat ≤ Literal.exactPrecision l := by
      change l.scale ≤ 64 at few
      unfold Literal.exactPrecision
      omega
    exact (fits_of_toRat? value).mono enough
  · cases accepted

/-- What the operations of arithmetic make of two exact values is exact, products and powers if the
digits that they need are not capped. -/
structure StayExact (a b : Value) (x y : Rat) : Prop where
  sum : ∃ v, Gives .add a b v ∧ v.IsExactly (x + y)
  difference : ∃ v, Gives .subtract a b v ∧ v.IsExactly (x - y)
  negation : ∃ v, (∀ line, a.negate line = .ok v) ∧ v.IsExactly (-x)
  absolute : ∃ v, (∀ line, Builtin.abs.apply [a] line = .ok v) ∧ v.IsExactly |x|
  step : ∀ s, ∃ v, (∀ line, step s a line = .ok v) ∧ v.IsExactly (x + s.delta)
  product : a.precision + b.precision ≤ 64 → ∃ v, Gives .multiply a b v ∧ v.IsExactly (x * y)
  power : ∀ k : Nat, y = k → max a.precision 1 * k ≤ 64 →
    ∃ v, Gives .power a b v ∧ v.IsExactly (x ^ k)
  /-- A power with a large exponent may fail, but an integer is exact. -/
  anyPower : ∀ (k : Nat) mode line v, y = k → a.apply .power mode b line = .ok v →
    v.breadth = .integer ∨ max a.precision 1 * k ≤ 64 → v.IsExact

theorem IsExactly.stayExact {y : Rat} (ha : a.IsExactly x) (hb : b.IsExactly y) :
    StayExact a b x y := by
  have fx := (isExact_iff ha.denotes).mp ha.isExact
  have fy := (isExact_iff hb.denotes).mp hb.isExact
  refine ⟨?_, ?_, ?_, ?_, fun s => ?_, fun few => ?_, ?_, ?_⟩
  · obtain ⟨v, gives, parts⟩ := exists_sum ha.denotes hb.denotes
    exact ⟨v, gives, parts.isExactly (fx.add fy)⟩
  · obtain ⟨v, gives, parts⟩ := exists_difference ha.denotes hb.denotes
    exact ⟨v, gives, parts.isExactly (fx.sub fy)⟩
  · obtain ⟨v, gives, parts⟩ := exists_negation ha.denotes
    exact ⟨v, gives, parts.isExactly fx.neg⟩
  · obtain ⟨v, gives, parts⟩ := exists_absolute ha.denotes
    exact ⟨v, gives, parts.isExactly fx.abs⟩
  · obtain ⟨v, gives, parts⟩ := exists_step ha.denotes s
    have fits := fx.add (Decimal.fits_int s.delta 0)
    rw [Nat.max_zero] at fits
    exact ⟨v, gives, parts.isExactly fits⟩
  · obtain ⟨v, gives, parts⟩ := exists_product ha.denotes hb.denotes
    rw [capped_eq_self few] at parts
    exact ⟨v, gives, parts.isExactly (fx.mul fy)⟩
  · rintro k rfl few
    obtain ⟨v, gives, denotes⟩ := exists_power ha.denotes hb.denotes few
    exact ⟨v, gives, denotes,
      isExact_power ha.denotes fx hb.denotes (gives .rational 0) (.inr few)⟩
  · rintro k mode line v rfl answer few
    exact isExact_power ha.denotes fx hb.denotes answer few

/-- Arithmetic keeps values exact, literals with 64 decimal places at most are exact, and the text
of a value shows the number that it is just if it is exact. -/
theorem displays_exactly :
    (∀ (a b : Value) (x y : Rat), a.IsExactly x → b.IsExactly y → StayExact a b x y) ∧
      (∀ (text : String) (line : Position) (l : RealLiteral) (v : Value),
        RealLiteral.read text.toList = some l →
        Literal.value .rational ⟨.real, text, line⟩ = .ok v →
        (l.places : Int) - l.exponent.getD 0 ≤ 64 → v.IsExact) ∧
      ∀ (v : Value) (q : Rat) (programmer : Bool), v.Denotes q →
        (v.IsExact ↔ Shown.read (v.render programmer).toList = some q) :=
  ⟨fun _ _ _ _ left right => left.stayExact right,
    fun _ _ _ _ read accepted few => isExact_literal read accepted few,
    fun _ _ programmer denotes => isExact_iff_shown denotes programmer⟩

/-- The product of 0.5 and -0.25 is shown whole. -/
theorem displays_exactly_product :
    ∃ v, Gives .multiply (rational (1 / 2) .dec 1) (rational (-1 / 4) .dec 2) v ∧
      v.IsExactly (1 / 2 * (-1 / 4)) :=
  (displays_exactly.1 (rational (1 / 2) .dec 1) (rational (-1 / 4) .dec 2) _ _
    ⟨denotes_rational _ _ _, 5, by norm_num⟩
    ⟨denotes_rational _ _ _, -25, by norm_num⟩).product (by decide)

end Value

end Calculator
