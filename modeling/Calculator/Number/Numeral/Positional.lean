import Calculator.Number.Numeral
import Mathlib.Data.Nat.Digits.Defs
import Mathlib.Tactic.SplitIfs

set_option autoImplicit false

namespace Calculator.Numeral

/-- The number that a row of values makes up in a base, the last one counting once. -/
def positional (base : Nat) (values : List Nat) : Nat :=
  Nat.ofDigits base values.reverse

def digit (c : Char) : Nat :=
  (digitValue c).getD 0

def number (base : Nat) (digits : List Char) : Nat :=
  positional base (digits.map digit)

section
variable {base : Nat} {c : Char} {text : List Char}

theorem positional_cons (value : Nat) (values : List Nat) :
    positional base (value :: values) = value * base ^ values.length + positional base values := by
  unfold positional
  rw [List.reverse_cons, Nat.ofDigits_append, Nat.ofDigits_singleton, List.length_reverse,
    Nat.mul_comm, Nat.add_comm]

theorem number_cons (c : Char) (text : List Char) :
    number base (c :: text) = digit c * base ^ text.length + number base text := by
  rw [number, List.map_cons, positional_cons, List.length_map]
  rfl

theorem digitBelow_of_lt {d : Nat} (value : digitValue c = some d) (below : d < base) :
    digitBelow base c = some (digit c) := by
  rw [digitBelow, digit, value, Option.filter_some, if_pos (decide_eq_true below), Option.getD_some]

theorem digitBelow_of_decimal (isDigit : isDecimalDigit c = true) :
    digitBelow 10 c = some (digit c) := by
  simp only [isDecimalDigit, Bool.and_eq_true, decide_eq_true_eq] at isDigit
  have below : c.toNat ≤ '9'.toNat := isDigit.2
  exact digitBelow_of_lt (if_pos isDigit) (Nat.lt_of_le_of_lt (Nat.sub_le_sub_right below _)
    (by decide))

theorem digitBelow_of_octal (isDigit : isOctalDigit c = true) :
    digitBelow 8 c = some (digit c) := by
  simp only [isOctalDigit, Bool.and_eq_true, decide_eq_true_eq] at isDigit
  have below : c.toNat ≤ '7'.toNat := isDigit.2
  have decimal : c ≤ '9' := Nat.le_trans below (by decide)
  exact digitBelow_of_lt (if_pos ⟨isDigit.1, decimal⟩)
    (Nat.lt_of_le_of_lt (Nat.sub_le_sub_right below _) (by decide))

theorem digitValue_lt {d : Nat} (value : digitValue c = some d) : d < 16 := by
  unfold digitValue at value
  split_ifs at value with decimal lower upper
  · have below : c.toNat ≤ '9'.toNat := decimal.2
    have top : '9'.toNat = 57 := rfl
    have bottom : '0'.toNat = 48 := rfl
    have value := Option.some.inj value
    omega
  · have below : c.toNat ≤ 'f'.toNat := lower.2
    have top : 'f'.toNat = 102 := rfl
    have bottom : 'a'.toNat = 97 := rfl
    have value := Option.some.inj value
    omega
  · have below : c.toNat ≤ 'F'.toNat := upper.2
    have top : 'F'.toNat = 70 := rfl
    have bottom : 'A'.toNat = 65 := rfl
    have value := Option.some.inj value
    omega

theorem digitBelow_of_hexadecimal (isDigit : isHexadecimalDigit c = true) :
    digitBelow 16 c = some (digit c) := by
  obtain ⟨d, value⟩ := Option.isSome_iff_exists.mp isDigit
  exact digitBelow_of_lt value (digitValue_lt value)

theorem readFrom_eq (digits : ∀ c ∈ text, digitBelow base c = some (digit c)) (acc : Nat) :
    readFrom base acc text = some (acc * base ^ text.length + number base text) := by
  induction text generalizing acc with
  | nil => rw [readFrom, List.length_nil, Nat.pow_zero, Nat.mul_one]; rfl
  | cons c text ih =>
    obtain ⟨first, rest⟩ := List.forall_mem_cons.mp digits
    rw [readFrom, first]
    dsimp only
    rw [ih rest, number_cons, List.length_cons, Nat.add_mul, Nat.pow_succ', Nat.mul_assoc,
      Nat.add_assoc]

theorem read_eq (digits : ∀ c ∈ text, digitBelow base c = some (digit c)) :
    read base text = if text = [] then none else some (number base text) := by
  unfold read
  rw [readFrom_eq digits, Nat.zero_mul, Nat.zero_add]
  simp only [List.isEmpty_iff]

end

end Calculator.Numeral
