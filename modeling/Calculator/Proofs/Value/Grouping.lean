import Calculator.Proofs.Value.Literals
import Calculator.Proofs.Value.Shown

set_option autoImplicit false

namespace Calculator

open Numeral (isDecimalDigit number)
open Lexer (unquoted_append unquoted_cons unquoted_eq_self)

/-- How a number is spelled in decimal digits: a minus sign or none, digits, and maybe a point with
digits behind it, which may be missing. -/
structure DecimalSpelling where
  negative : Bool
  integral : List Char
  fraction : Option (List Char)
  integral_ne_nil : integral ≠ []
  integralDigits : AreDigits integral
  fractionDigits : ∀ f ∈ fraction, AreDigits f

namespace DecimalSpelling

variable (d : DecimalSpelling)

def sign : List Char :=
  if d.negative then ['-'] else []

def pointed : List Char :=
  (d.fraction.map fun f => '.' :: f).getD []

def text : String :=
  String.ofList (d.sign ++ (d.integral ++ d.pointed))

def unsigned : RealSpelling :=
  ⟨d.integral, d.fraction, none, d.integralDigits, d.fractionDigits⟩

/-- All digits as one number, divided by a power of ten for each digit behind the point. -/
def value : Rat :=
  let q : Rat := d.unsigned.digits / 10 ^ d.unsigned.decimals.length
  if d.negative then -q else q

theorem pointed_eq : d.pointed = [] ∨ ∃ digits, d.pointed = '.' :: digits := by
  unfold pointed
  cases d.fraction with
  | none => exact .inl rfl
  | some f => exact .inr ⟨f, rfl⟩

theorem isDecimalDigit_or_eq {c : Char} (h : c ∈ d.integral ++ d.pointed) :
    isDecimalDigit c = true ∨ c = '.' :=
  d.unsigned.isDecimalDigit_or_eq_of_mem_mantissa h

def withFraction {f : List Char} (digits : AreDigits f) : DecimalSpelling :=
  { d with
    fraction := some f
    fractionDigits := digits.forall_mem_some }

theorem value_withFraction {f kept : List Char} (fraction : d.fraction = some f)
    (trims : Grouping.Trims f kept) (digits : AreDigits kept) :
    (d.withFraction digits).value = d.value := by
  obtain ⟨count, rfl⟩ := trims.zeros
  have whole : d.unsigned.digits = number 10 (d.integral ++ kept) * 10 ^ count := by
    have nonempty := List.append_ne_nil_of_left_ne_nil d.integral_ne_nil kept
    change number 10 (d.integral ++ d.fraction.getD []) = _
    rw [fraction, Option.getD_some, ← List.append_assoc]
    exact (d.integralDigits.append digits).number_append_zeros nonempty count
  have places : d.unsigned.decimals.length = kept.length + count := by
    change (d.fraction.getD []).length = _
    rw [fraction, Option.getD_some, List.length_append, List.length_replicate]
  have same : (d.unsigned.digits / 10 ^ d.unsigned.decimals.length : Rat) =
      number 10 (d.integral ++ kept) / 10 ^ kept.length := by
    rw [whole, places, pow_add]
    push_cast
    exact mul_div_mul_right _ _ (by positivity)
  unfold value
  dsimp only
  rw [same]
  rfl

end DecimalSpelling

namespace Grouping

def beforePoint (text : String) : List Char :=
  text.toList.takeWhile (· != '.')

def fromPoint (text : String) : List Char :=
  text.toList.dropWhile (· != '.')

def denoted (text : String) : Option Rat :=
  match text.toList with
  | '-' :: digits => (Shown.readDecimal digits).map (-·)
  | digits => Shown.readDecimal digits

/-- The text has the digits of the spelling: in front of the point behind the same sign, in groups
of three, and behind the point without zeros at their end. -/
structure IsGroupingOf (text : String) (d : DecimalSpelling) : Prop where
  groups : ∃ first others, InThrees d.integral first others ∧
    beforePoint text = d.sign ++ List.intercalate ['\''] (first :: others)
  unquoted : unquoted (beforePoint text) = d.sign ++ d.integral
  whole : d.fraction = none → fromPoint text = []
  fraction : ∀ f ∈ d.fraction, ∃ kept, fromPoint text = '.' :: kept ∧ Trims f kept ∧
    (f.length ≤ 1 → kept = f)
  number : denoted d.text = some d.value ∧ denoted text = some d.value

section
variable (d : DecimalSpelling)

theorem denoted_eq {text : List Char} (same : unquoted text = d.integral ++ d.pointed) :
    denoted (String.ofList (d.sign ++ text)) = some d.value := by
  have unsigned : '-' ∉ text := by
    intro inside
    have kept : '-' ∈ unquoted text := List.mem_filter.mpr ⟨inside, rfl⟩
    rw [same] at kept
    exact (d.isDecimalDigit_or_eq kept).elim (by decide) (by decide)
  have nonempty : d.unsigned.integral ++ d.unsigned.decimals ≠ [] :=
    List.append_ne_nil_of_left_ne_nil d.integral_ne_nil _
  have read : Shown.readDecimal text =
      some (d.unsigned.digits / 10 ^ d.unsigned.decimals.length : Rat) := by
    have mantissa := d.unsigned.readMantissa_eq
    rw [if_neg nonempty] at mantissa
    rw [Shown.readDecimal, same]
    exact congrArg (Option.map _) mantissa
  unfold denoted DecimalSpelling.sign DecimalSpelling.value
  rw [String.toList_ofList]
  by_cases negative : d.negative = true
  · rw [if_pos negative, if_pos negative, List.singleton_append]
    change (Shown.readDecimal text).map (-·) = _
    rw [read]
    rfl
  · rw [if_neg negative, if_neg negative, List.nil_append]
    split
    · exact absurd List.mem_cons_self unsigned
    · exact read

theorem group_text : group d.text =
    String.ofList (d.sign ++ (groupFrom d.integral.length 0 d.integral ++
      trimFraction d.pointed)) := by
  have noPoint : '.' ∉ d.integral := d.integralDigits.not_mem rfl
  rw [group, DecimalSpelling.text, String.toList_ofList]
  refine congrArg String.ofList ?_
  have signed := groupChars_signed (d.negative = true) fun c inside => d.isDecimalDigit_or_eq inside
  rw [groupUnsigned_append noPoint d.pointed_eq, byteLength_eq_length d.integralDigits] at signed
  exact signed

theorem parts_group : beforePoint (group d.text) =
      d.sign ++ groupFrom d.integral.length 0 d.integral ∧
    fromPoint (group d.text) = trimFraction d.pointed := by
  have noPoint : '.' ∉ d.sign ++ groupFrom d.integral.length 0 d.integral := by
    rw [List.mem_append, not_or]
    constructor
    · unfold DecimalSpelling.sign
      split_ifs <;> decide
    · intro inside
      exact (mem_of_mem_groupFrom inside).elim (by decide) (d.integralDigits.not_mem rfl)
  have start : trimFraction d.pointed = [] ∨ ∃ kept, trimFraction d.pointed = '.' :: kept := by
    rcases d.pointed_eq with none | ⟨digits, pointed⟩
    · exact .inl (by rw [none, trimFraction_nil])
    · obtain ⟨kept, trimmed, -⟩ := exists_trims '.' digits
      exact .inr ⟨kept, by rw [pointed, trimmed]⟩
  unfold beforePoint fromPoint
  rw [group_text, String.toList_ofList, ← List.append_assoc]
  exact Prod.mk.inj (splitBefore_point noPoint start)

theorem unquoted_integral : unquoted (groupFrom d.integral.length 0 d.integral) = d.integral := by
  rw [unquoted_groupFrom]
  exact unquoted_eq_self d.integralDigits rfl

theorem denoted_text : denoted d.text = some d.value :=
  denoted_eq d <| List.filter_eq_self.mpr fun c inside => bne_iff_ne.mpr <| by
    rintro rfl
    exact (d.isDecimalDigit_or_eq inside).elim (by decide) (by decide)

theorem denoted_group : denoted (group d.text) = some d.value := by
  rw [group_text]
  cases fraction : d.fraction with
  | none =>
    have pointed : d.pointed = [] := by rw [DecimalSpelling.pointed, fraction]; rfl
    refine denoted_eq d ?_
    rw [pointed, trimFraction_nil, List.append_nil, List.append_nil, unquoted_integral]
  | some f =>
    have pointed : d.pointed = '.' :: f := by rw [DecimalSpelling.pointed, fraction]; rfl
    obtain ⟨kept, trimmed, trims⟩ := exists_trims '.' f
    have digits : AreDigits kept := by
      obtain ⟨count, split⟩ := trims.zeros
      have all := d.fractionDigits f fraction
      rw [split] at all
      exact fun c inside => all c (List.mem_append_left _ inside)
    rw [pointed, trimmed, ← d.value_withFraction fraction trims digits]
    refine denoted_eq (d.withFraction digits) ?_
    rw [unquoted_append, unquoted_integral, unquoted_cons (by decide), unquoted_eq_self digits rfl]
    rfl

/-- Grouping keeps a number and its digits, but for zeros at its end. -/
theorem group_isGroupingOf : IsGroupingOf (group d.text) d := by
  obtain ⟨front, back⟩ := parts_group d
  refine ⟨?_, ?_, fun none => ?_, fun f fraction => ?_, denoted_text d, denoted_group d⟩
  · obtain ⟨first, others, inThrees, grouped⟩ := exists_inThrees d.integral_ne_nil
    exact ⟨first, others, inThrees, by rw [front, grouped]⟩
  · have sign : unquoted d.sign = d.sign := by
      unfold DecimalSpelling.sign
      split_ifs <;> rfl
    rw [front, unquoted_append, sign, unquoted_integral]
  · rw [back, DecimalSpelling.pointed, none]
    rfl
  · obtain ⟨kept, trimmed, trims⟩ := exists_trims '.' f
    refine ⟨kept, ?_, trims, trims.eq_self⟩
    rw [back, DecimalSpelling.pointed, Option.mem_def.mp fraction]
    exact trimmed

/-- Seven digits, and only zeros behind the point. -/
def negatedMillion : DecimalSpelling where
  negative := true
  integral := "1234567".toList
  fraction := some "000".toList
  integral_ne_nil := by decide
  integralDigits := List.all_eq_true.mp (by decide)
  fractionDigits := AreDigits.forall_mem_some (List.all_eq_true.mp (by decide))

/-- The first group has one digit, and one of the zeros is kept. -/
theorem group_isGroupingOf_million : negatedMillion.text = "-1234567.000" ∧
    group negatedMillion.text = "-1'234'567.0" ∧
      IsGroupingOf (group negatedMillion.text) negatedMillion :=
  ⟨by decide +kernel, by decide +kernel, group_isGroupingOf negatedMillion⟩

end

end Grouping

end Calculator
