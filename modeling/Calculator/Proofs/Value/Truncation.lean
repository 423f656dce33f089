import Calculator.Proofs.Value.Exact
import Calculator.Proofs.Value.Literals
import Mathlib.Data.Rat.Floor

set_option autoImplicit false

namespace Calculator

open Lexer (unquoted_append unquoted_cons unquoted_eq_self isDigitOrQuote)

namespace Decimal

/-- The integral part, without the sign of what is between two integers. -/
def towardsZero (x : Rat) : Int :=
  if 0 ≤ x then ⌊x⌋ else ⌈x⌉

/-- The number without what is behind so many decimal places. -/
def truncated (q : Rat) (places : Nat) : Rat :=
  towardsZero (q * 10 ^ places) / 10 ^ places

/-- The decimal digits of a number up to so many places, as one number without a sign. -/
def cut (q : Rat) (places : Nat) : Nat :=
  q.num.natAbs * 10 ^ places / q.den

theorem floor_div_mul_pow (n d places : Nat) :
    ⌊(n / d * 10 ^ places : Rat)⌋ = ((n * 10 ^ places / d : Nat) : Int) := by
  have quotient : (n / d * 10 ^ places : Rat) = ((n * 10 ^ places : Nat) : Int) / (d : Nat) := by
    push_cast
    ring
  rw [quotient, Rat.floor_intCast_div_natCast, Int.natCast_div]

theorem towardsZero_eq_cut (q : Rat) (places : Nat) :
    towardsZero (q * 10 ^ places) = if q.num < 0 then -(cut q places : Int) else cut q places := by
  have positive : (0 : Rat) < 10 ^ places := by positivity
  have quotient : q = q.num / q.den := (Rat.num_div_den q).symm
  have bound := floor_div_mul_pow q.num.natAbs q.den places
  by_cases negative : q.num < 0
  · have below : ¬0 ≤ q * 10 ^ places :=
      not_le.mpr (mul_neg_of_neg_of_pos (Rat.num_neg.mp negative) positive)
    have opposite : -(q * 10 ^ places) = (q.num.natAbs : Rat) / q.den * 10 ^ places := by
      have absolute : (q.num.natAbs : Rat) = -q.num := by
        rw [← Int.cast_natCast, Int.ofNat_natAbs_of_nonpos negative.le, Int.cast_neg]
      rw [absolute]
      nth_rewrite 1 [quotient]
      ring
    rw [towardsZero, if_neg below, if_pos negative, ← neg_neg ⌈_⌉, ← Int.floor_neg, opposite, bound]
    rfl
  · have above : 0 ≤ q * 10 ^ places :=
      mul_nonneg (Rat.num_nonneg.mp (not_lt.mp negative)) positive.le
    have absolute : (q.num.natAbs : Rat) = q.num := by
      rw [← Int.cast_natCast, Int.natAbs_of_nonneg (not_lt.mp negative)]
    rw [absolute, ← quotient] at bound
    rw [towardsZero, if_pos above, if_neg negative, bound]
    rfl

theorem truncated_eq_cut (q : Rat) (places : Nat) : truncated q places =
    if q.num < 0 ∧ cut q places ≠ 0 then -(cut q places / 10 ^ places : Rat)
      else cut q places / 10 ^ places := by
  rw [truncated, towardsZero_eq_cut]
  by_cases zero : cut q places = 0
  · have noSign : ¬(q.num < 0 ∧ cut q places ≠ 0) := fun both => both.2 zero
    rw [if_neg noSign, zero]
    split_ifs <;> norm_num
  · by_cases negative : q.num < 0
    · rw [if_pos negative, if_pos ⟨negative, zero⟩]
      push_cast
      exact neg_div _ _
    · rw [if_neg negative, if_neg fun both => negative both.1]
      push_cast
      rfl

theorem truncated_neg_iff {q : Rat} {places : Nat} :
    truncated q places < 0 ↔ q.num < 0 ∧ cut q places ≠ 0 := by
  rw [truncated_eq_cut]
  split_ifs with sign
  · have positive : (0 : Rat) < cut q places := Nat.cast_pos.mpr (Nat.pos_of_ne_zero sign.2)
    refine iff_of_true (neg_lt_zero.mpr ?_) sign
    positivity
  · refine iff_of_false (not_lt.mpr ?_) sign
    positivity

theorem truncated_eq_iff {q : Rat} {places : Nat} :
    truncated q places = q ↔ (q * 10 ^ places).isInt = true := by
  have nonzero : (10 : Rat) ^ places ≠ 0 := by positivity
  rw [truncated, div_eq_iff nonzero, Rat.isInt, beq_iff_eq]
  constructor
  · intro same
    rw [← same, Rat.den_intCast]
  · intro integral
    have whole : ((q * 10 ^ places).num : Rat) = q * 10 ^ places :=
      Rat.coe_int_num_of_den_eq_one integral
    rw [← whole, towardsZero]
    split_ifs
    · rw [Int.floor_intCast]
    · rw [Int.ceil_intCast]

def padded (n places : Nat) : List Char :=
  Numeral.padZeros (places + 1) (Numeral.decimal n)

def integral (n places : Nat) : List Char :=
  (padded n places).take ((padded n places).length - places)

def fraction (n places : Nat) : List Char :=
  (padded n places).drop ((padded n places).length - places)

def text (n places : Nat) : List Char :=
  if places = 0 then Numeral.decimal n else integral n places ++ '.' :: fraction n places

theorem truncatedDecimal_eq (q : Rat) (places : Nat) : Value.truncatedDecimal q places =
    (if q.num < 0 ∧ cut q places ≠ 0 then ['-'] else []) ++ text (cut q places) places := by
  change (if places = 0 then _ else _) = _
  unfold text
  by_cases whole : places = 0
  · rw [if_pos whole, if_pos whole]
    rfl
  · rw [if_neg whole, if_neg whole, List.append_assoc]
    rfl

theorem isDecimalDigit_of_mem_padded {n places : Nat} {c : Char} (h : c ∈ padded n places) :
    Numeral.isDecimalDigit c = true :=
  (Numeral.isDigit_of_mem_padZeros (by decide) h).isDecimalDigit

theorem integral_append_fraction (n places : Nat) :
    integral n places ++ fraction n places = padded n places :=
  List.take_append_drop ..

theorem isDecimalDigit_of_mem_integral {n places : Nat} {c : Char} (h : c ∈ integral n places) :
    Numeral.isDecimalDigit c = true :=
  isDecimalDigit_of_mem_padded (List.mem_of_mem_take h)

theorem isDecimalDigit_of_mem_fraction {n places : Nat} {c : Char} (h : c ∈ fraction n places) :
    Numeral.isDecimalDigit c = true :=
  isDecimalDigit_of_mem_padded (List.mem_of_mem_drop h)

theorem isDecimalDigit_or_eq_of_mem_text {n places : Nat} {c : Char} (h : c ∈ text n places) :
    Numeral.isDecimalDigit c = true ∨ c = '.' := by
  unfold text at h
  split_ifs at h
  · exact .inl (Numeral.isDigit_of_mem_digits (by decide) h).isDecimalDigit
  · rcases List.mem_append.mp h with front | back
    · exact .inl (isDecimalDigit_of_mem_integral front)
    · rcases List.mem_cons.mp back with point | behind
      · exact .inr point
      · exact .inl (isDecimalDigit_of_mem_fraction behind)

theorem not_mem_groupUnsigned_text {c : Char} (notDigit : Numeral.isDecimalDigit c = false)
    (other : c ≠ '.' ∧ c ≠ '\'') (n places : Nat) :
    c ∉ Grouping.groupUnsigned (text n places) := by
  intro inside
  rcases Grouping.mem_of_mem_groupUnsigned inside with quote | kept
  · exact other.2 quote
  · rcases isDecimalDigit_or_eq_of_mem_text kept with digit | point
    · rw [notDigit] at digit
      cases digit
    · exact other.1 point

theorem minus_not_mem_groupUnsigned_text (n places : Nat) :
    '-' ∉ Grouping.groupUnsigned (text n places) :=
  not_mem_groupUnsigned_text (by decide) (by decide) n places

theorem places_lt_length_padded (n places : Nat) : places < (padded n places).length := by
  rw [padded, Numeral.padZeros, List.length_append, List.length_replicate]
  omega

theorem length_fraction (n places : Nat) : (fraction n places).length = places := by
  have long := places_lt_length_padded n places
  rw [fraction, List.length_drop]
  omega

theorem integral_eq_zero_or_cons (n places : Nat) : integral n places = ['0'] ∨
    ∃ c u, Words.isPositiveDigit c = true ∧ (∀ x ∈ u, Numeral.isDecimalDigit x = true) ∧
      integral n places = c :: u := by
  have long := places_lt_length_padded n places
  by_cases short : (Numeral.decimal n).length ≤ places
  · left
    have zeros : padded n places = '0' ::
        (List.replicate (places - (Numeral.decimal n).length) '0' ++ Numeral.decimal n) := by
      rw [padded, Numeral.padZeros, Nat.sub_add_comm short, List.replicate_succ, List.cons_append]
    have one : (padded n places).length - places = 1 := by
      rw [padded, Numeral.length_padZeros (Nat.le_succ_of_le short)]
      omega
    rw [integral, one, zeros]
    rfl
  · have self : padded n places = Numeral.decimal n := Numeral.padZeros_eq_self (by omega)
    rw [integral, self]
    rw [self] at long
    obtain ⟨k, positive⟩ : ∃ k, (Numeral.decimal n).length - places = k + 1 :=
      ⟨_, (Nat.succ_pred (by omega)).symm⟩
    rw [positive]
    obtain zero | ⟨c, u, first, digits, same⟩ := Grouping.decimal_eq_zero_or_cons n
    · left
      rw [zero, List.take_succ_cons, List.take_nil]
    · right
      rw [same]
      exact ⟨c, u.take k, first, fun x inside => digits x (List.mem_of_mem_take inside), rfl⟩

theorem integral_ne_nil (n places : Nat) : integral n places ≠ [] := by
  obtain zero | ⟨c, u, -, -, same⟩ := integral_eq_zero_or_cons n places
  · rw [zero]
    exact List.cons_ne_nil _ _
  · rw [same]
    exact List.cons_ne_nil _ _

theorem exists_groupUnsigned_text {places : Nat} (positive : places ≠ 0) (n : Nat) :
    ∃ width kept m, Grouping.groupUnsigned (text n places) =
        Grouping.groupFrom width 0 (integral n places) ++ '.' :: kept ∧
      (∀ c ∈ kept, Numeral.isDecimalDigit c = true) ∧ kept.length ≤ places ∧
      Numeral.read 10 (integral n places ++ kept) = some m ∧
      (m / 10 ^ kept.length : Rat) = n / 10 ^ places := by
  have noPoint : '.' ∉ integral n places := fun inside =>
    absurd (isDecimalDigit_of_mem_integral inside) (by decide)
  obtain ⟨kept, trimmed, trims⟩ := Grouping.exists_trims '.' (fraction n places)
  obtain ⟨count, split⟩ := trims.zeros
  have fewer : kept.length + count = places := by
    rw [← length_fraction n places, split, List.length_append, List.length_replicate]
  -- The digits that are left out are zeros, and the others are smaller by so many powers.
  have padded : Numeral.read 10 (padded n places) = some n :=
    Numeral.read_padZeros (by decide) (by decide) _ n
  rw [← integral_append_fraction, split, ← List.append_assoc] at padded
  obtain ⟨m, value, scaled⟩ := Numeral.exists_read_of_zeros (by decide)
    (List.append_ne_nil_of_left_ne_nil (integral_ne_nil n places) kept) padded
  refine ⟨Grouping.byteLength (integral n places), kept, m, ?_, fun c inside => ?_,
    Nat.le.intro fewer, value, ?_⟩
  · rw [text, if_neg positive, Grouping.groupUnsigned_append noPoint (.inr ⟨_, rfl⟩),
      trimmed]
  · have inFraction : c ∈ fraction n places := by
      rw [split]
      exact List.mem_append_left _ inside
    exact isDecimalDigit_of_mem_fraction inFraction
  · rw [scaled, ← fewer, pow_add]
    push_cast
    exact (mul_div_mul_right _ _ (by positivity)).symm

end Decimal

theorem Grouping.point_mem_real {integral fraction : List Char} (width : Nat)
    (natural : integral = ['0'] ∨ ∃ c u, Words.isPositiveDigit c = true ∧
      (∀ x ∈ u, Numeral.isDecimalDigit x = true) ∧ integral = c :: u)
    (digits : ∀ c ∈ fraction, Numeral.isDecimalDigit c = true) :
    groupFrom width 0 integral ++ '.' :: fraction ∈ Kind.real.words := by
  refine Words.mem_real.mpr (.inr (.inl ⟨_, fraction, groupFrom_mem_natural _ natural,
    ⟨fraction, [], fun c inside => ?_, .inl rfl, (List.append_nil _).symm⟩, rfl⟩))
  rw [isDigitOrQuote, digits c inside, Bool.true_or]

theorem Kind.WritesIn.point {integral fraction : List Char} {n : Nat} (width : Nat)
    (natural : integral = ['0'] ∨ ∃ c u, Words.isPositiveDigit c = true ∧
      (∀ x ∈ u, Numeral.isDecimalDigit x = true) ∧ integral = c :: u)
    (fractionDigits : AreDigits fraction)
    (value : Numeral.read 10 (integral ++ fraction) = some n)
    (small : fraction.length ≤ Value.maxPrecision) : ∃ precision,
      Kind.real.WritesIn .rational (Grouping.groupFrom width 0 integral ++ '.' :: fraction)
        (.rational (n / 10 ^ fraction.length) .dec precision) := by
  have integralDigits : AreDigits integral := by
    obtain rfl | ⟨c, u, positive, digits, rfl⟩ := natural
    · exact List.forall_mem_singleton.mpr (by decide)
    · exact List.forall_mem_cons.mpr ⟨(Bool.and_eq_true_iff.mp positive).1, digits⟩
  refine ⟨(RealSpelling.around integralDigits fractionDigits).precision,
    Grouping.point_mem_real width natural fractionDigits, rfl, fun line => ?_⟩
  have text : Kind.real.textOf (Grouping.groupFrom width 0 integral ++ '.' :: fraction) =
      integral ++ '.' :: fraction := by
    rw [Kind.textOf, if_neg (by simp), unquoted_append, Grouping.unquoted_groupFrom,
      unquoted_cons (by decide), unquoted_eq_self fractionDigits rfl,
      unquoted_eq_self integralDigits rfl]
  rw [text]
  exact RealSpelling.real_around integralDigits fractionDigits value small

theorem Kind.exists_writesIn_rational (n : Nat) {places : Nat}
    (small : places ≤ Value.maxPrecision) :
    ∃ (kind : Kind) (v : Value),
      kind.WritesIn .rational (Grouping.groupUnsigned (Decimal.text n places)) v ∧
        v.Denotes (n / 10 ^ places) := by
  by_cases whole : places = 0
  · subst whole
    refine ⟨.int, .int n .dec, (Writes.dec n).inMode _, ?_⟩
    rw [pow_zero, div_one]
    exact Value.denotes_int n .dec
  · obtain ⟨width, kept, m, grouped, keptDigits, fewer, value, same⟩ :=
      Decimal.exists_groupUnsigned_text whole n
    obtain ⟨precision, writes⟩ := WritesIn.point width (Decimal.integral_eq_zero_or_cons n places)
      keptDigits value (fewer.trans small)
    rw [grouped, ← same]
    exact ⟨.real, _, writes, Value.denotes_rational _ _ _⟩

end Calculator
