import Calculator.Token.Lexer
import Mathlib.Computability.Language

set_option autoImplicit false

/-!
# The words of token kinds

Each token kind has a language of words, written with the operations of regular expressions:
numbers, dates, times and names have one of their own, all other kinds have their fixed spelling.
Nothing here says how words are found in the input.
-/
namespace Calculator

open scoped Computability
open Numeral (isDecimalDigit isOctalDigit isHexadecimalDigit)
open Lexer (isDigitOrQuote isDigitOrColon isMark)

namespace Words

def one (accept : Char → Bool) : Language Char :=
  {w | ∃ c, accept c = true ∧ w = [c]}

def many (accept : Char → Bool) : Language Char :=
  (one accept)∗

def isPositiveDigit (c : Char) : Bool :=
  isDecimalDigit c && c != '0'

def isHexMark (c : Char) : Bool :=
  c == 'x' || c == 'X'

def isSign (c : Char) : Bool :=
  c == '+' || c == '-'

def natural : Language Char :=
  one (· == '0') + one isPositiveDigit * many isDigitOrQuote

def exponent : Language Char :=
  one isMark * (1 + one isSign) * many isDecimalDigit

/-- A number with a point, or with an exponent behind an integer other than zero. -/
def real : Language Char :=
  (1 + natural) * one (· == '.') * many isDigitOrQuote * (1 + exponent) +
    one isPositiveDigit * many isDigitOrQuote * exponent

def name : Language Char :=
  one Letter.startsName * many Letter.continuesName

section
variable {accept : Char → Bool} {l : Language Char} {w : List Char}

theorem mem_one : w ∈ one accept ↔ ∃ c, accept c = true ∧ w = [c] :=
  Iff.rfl

theorem mem_many : w ∈ many accept ↔ ∀ c ∈ w, accept c = true := by
  constructor
  · intro h c hc
    obtain ⟨parts, rfl, singles⟩ := Language.mem_kstar.mp h
    obtain ⟨part, hp, hc⟩ := List.mem_flatten.mp hc
    obtain ⟨d, hd, rfl⟩ := singles part hp
    rw [List.mem_singleton.mp hc]
    exact hd
  · intro h
    refine Language.mem_kstar.mpr ⟨w.map fun c => [c], ?_, ?_⟩
    · induction w with
      | nil => rfl
      | cons c w ih =>
        have rest := ih fun d hd => h d (List.mem_cons_of_mem c hd)
        rw [List.map_cons, List.flatten_cons, ← rest]
        rfl
    · intro part hp
      obtain ⟨c, hc, rfl⟩ := List.mem_map.mp hp
      exact ⟨c, h c hc, rfl⟩

theorem mem_one_mul : w ∈ one accept * l ↔ ∃ c u, accept c = true ∧ u ∈ l ∧ w = c :: u := by
  constructor
  · intro h
    obtain ⟨_, ⟨c, hc, rfl⟩, u, hu, rfl⟩ := Language.mem_mul.mp h
    exact ⟨c, u, hc, hu, rfl⟩
  · rintro ⟨c, u, hc, hu, rfl⟩
    exact Language.append_mem_mul (mem_one.mpr ⟨c, hc, rfl⟩) hu

theorem mem_char_mul {c : Char} : w ∈ one (· == c) * l ↔ ∃ u ∈ l, w = c :: u := by
  rw [mem_one_mul]
  constructor
  · rintro ⟨d, u, hd, hu, rfl⟩
    rw [eq_of_beq hd]
    exact ⟨u, hu, rfl⟩
  · rintro ⟨u, hu, rfl⟩
    exact ⟨c, u, beq_self_eq_true c, hu, rfl⟩

theorem mem_many_mul :
    w ∈ many accept * l ↔ ∃ u v, (∀ c ∈ u, accept c = true) ∧ v ∈ l ∧ w = u ++ v := by
  constructor
  · intro h
    obtain ⟨u, hu, v, hv, rfl⟩ := Language.mem_mul.mp h
    exact ⟨u, v, mem_many.mp hu, hv, rfl⟩
  · rintro ⟨u, v, hu, hv, rfl⟩
    exact Language.append_mem_mul (mem_many.mpr hu) hv

end

theorem mem_natural {w : List Char} :
    w ∈ natural ↔ w = ['0'] ∨
      ∃ c u, isPositiveDigit c = true ∧ (∀ x ∈ u, isDigitOrQuote x = true) ∧ w = c :: u := by
  unfold natural
  rw [Language.mem_add, mem_one, mem_one_mul]
  simp only [mem_many, beq_iff_eq, exists_eq_left]

def SignedDigits (w : List Char) : Prop :=
  ∃ s u, (s = [] ∨ s = ['+'] ∨ s = ['-']) ∧ (∀ c ∈ u, isDecimalDigit c = true) ∧ w = s ++ u

theorem mem_exponent {w : List Char} :
    w ∈ exponent ↔ ∃ m u, isMark m = true ∧ SignedDigits u ∧ w = m :: u := by
  unfold exponent
  rw [mul_assoc, mem_one_mul, add_mul, one_mul]
  refine exists_congr fun m => exists_congr fun u => ?_
  refine and_congr_right fun _ => and_congr_left fun _ => ?_
  rw [Language.mem_add, mem_many, mem_one_mul]
  constructor
  · rintro (h | ⟨c, v, hc, hv, rfl⟩)
    · exact ⟨[], u, .inl rfl, h, rfl⟩
    · simp only [isSign, Bool.or_eq_true, beq_iff_eq] at hc
      refine ⟨[c], v, .inr ?_, mem_many.mp hv, rfl⟩
      rcases hc with rfl | rfl
      · exact .inl rfl
      · exact .inr rfl
  · rintro ⟨s, v, rfl | rfl | rfl, hv, rfl⟩
    · exact .inl hv
    · exact .inr ⟨'+', v, rfl, mem_many.mpr hv, rfl⟩
    · exact .inr ⟨'-', v, rfl, mem_many.mpr hv, rfl⟩

def Fraction (w : List Char) : Prop :=
  ∃ u e, (∀ c ∈ u, isDigitOrQuote c = true) ∧ (e = [] ∨ e ∈ exponent) ∧ w = u ++ e

theorem mem_real {w : List Char} :
    w ∈ real ↔ (∃ f, Fraction f ∧ w = '.' :: f) ∨
      (∃ n f, n ∈ natural ∧ Fraction f ∧ w = n ++ '.' :: f) ∨
      ∃ c u e, isPositiveDigit c = true ∧ (∀ x ∈ u, isDigitOrQuote x = true) ∧ e ∈ exponent ∧
        w = c :: (u ++ e) := by
  have pointed (v : List Char) :
      v ∈ one (· == '.') * (many isDigitOrQuote * (1 + exponent)) ↔
        ∃ f, Fraction f ∧ v = '.' :: f := by
    simp only [mem_one_mul, mem_many_mul, Language.mem_add, Language.mem_one, beq_iff_eq,
      exists_and_left, exists_eq_left, Fraction]
  unfold real
  rw [Language.mem_add, mul_assoc, mul_assoc, add_mul, one_mul, Language.mem_add, pointed, or_assoc]
  refine or_congr_right (or_congr ?_ ?_)
  · rw [Language.mem_mul]
    constructor
    · rintro ⟨n, hn, v, hv, rfl⟩
      obtain ⟨f, hf, rfl⟩ := (pointed v).mp hv
      exact ⟨n, f, hn, hf, rfl⟩
    · rintro ⟨n, f, hn, hf, rfl⟩
      exact ⟨n, hn, '.' :: f, (pointed _).mpr ⟨f, hf, rfl⟩, rfl⟩
  · rw [mul_assoc, mem_one_mul]
    constructor
    · rintro ⟨c, v, hc, hv, rfl⟩
      obtain ⟨u, e, hu, he, rfl⟩ := mem_many_mul.mp hv
      exact ⟨c, u, e, hc, hu, he, rfl⟩
    · rintro ⟨c, u, e, hc, hu, he, rfl⟩
      exact ⟨c, u ++ e, hc, mem_many_mul.mpr ⟨u, e, hu, he, rfl⟩, rfl⟩

end Words

open Words in
/-- The words of a token kind. The end of the input and errors have none. -/
def Kind.words : Kind → Language Char
  | .int => natural
  | .hex => one (· == '0') * one isHexMark * many isHexadecimalDigit
  | .oct => one (· == '0') * one isOctalDigit * many isOctalDigit
  | .real => Words.real
  | .time => natural * one (· == ':') * many isDigitOrColon
  | .date => one (· == '$') * many isDecimalDigit
  | .symbol => {w | w ∈ Words.name ∧ Token.isKeyword (String.ofList w) = false}
  | .keyword => {w | w ∈ Words.name ∧ Token.isKeyword (String.ofList w) = true}
  | kind => {w | kind.lexeme = some (String.ofList w)}

def Kind.isWord (kind : Kind) : Bool :=
  [.int, .hex, .oct, .real, .time, .date, .symbol, .keyword].contains kind

namespace Words

variable {w : List Char}

theorem mem_hex : w ∈ Kind.hex.words ↔
    ∃ m u, isHexMark m = true ∧ (∀ c ∈ u, isHexadecimalDigit c = true) ∧ w = '0' :: m :: u := by
  change w ∈ one (· == '0') * one isHexMark * many isHexadecimalDigit ↔ _
  rw [mul_assoc, mem_char_mul]
  constructor
  · rintro ⟨v, hv, rfl⟩
    obtain ⟨m, u, hm, hu, rfl⟩ := mem_one_mul.mp hv
    exact ⟨m, u, hm, mem_many.mp hu, rfl⟩
  · rintro ⟨m, u, hm, hu, rfl⟩
    exact ⟨_, mem_one_mul.mpr ⟨m, u, hm, mem_many.mpr hu, rfl⟩, rfl⟩

theorem mem_oct : w ∈ Kind.oct.words ↔
    ∃ c u, isOctalDigit c = true ∧ (∀ x ∈ u, isOctalDigit x = true) ∧ w = '0' :: c :: u := by
  change w ∈ one (· == '0') * one isOctalDigit * many isOctalDigit ↔ _
  rw [mul_assoc, mem_char_mul]
  constructor
  · rintro ⟨v, hv, rfl⟩
    obtain ⟨c, u, hc, hu, rfl⟩ := mem_one_mul.mp hv
    exact ⟨c, u, hc, mem_many.mp hu, rfl⟩
  · rintro ⟨c, u, hc, hu, rfl⟩
    exact ⟨_, mem_one_mul.mpr ⟨c, u, hc, mem_many.mpr hu, rfl⟩, rfl⟩

theorem mem_time : w ∈ Kind.time.words ↔
    ∃ n u, n ∈ natural ∧ (∀ c ∈ u, isDigitOrColon c = true) ∧ w = n ++ ':' :: u := by
  change w ∈ natural * one (· == ':') * many isDigitOrColon ↔ _
  rw [mul_assoc, Language.mem_mul]
  constructor
  · rintro ⟨n, hn, v, hv, rfl⟩
    obtain ⟨u, hu, rfl⟩ := mem_char_mul.mp hv
    exact ⟨n, u, hn, mem_many.mp hu, rfl⟩
  · rintro ⟨n, u, hn, hu, rfl⟩
    exact ⟨n, hn, _, mem_char_mul.mpr ⟨u, mem_many.mpr hu, rfl⟩, rfl⟩

theorem mem_date : w ∈ Kind.date.words ↔
    ∃ u, (∀ c ∈ u, isDecimalDigit c = true) ∧ w = '$' :: u := by
  change w ∈ one (· == '$') * many isDecimalDigit ↔ _
  rw [mem_char_mul]
  exact exists_congr fun u => and_congr_left fun _ => mem_many

theorem mem_name : w ∈ name ↔
    ∃ c u, Letter.startsName c = true ∧ (∀ x ∈ u, Letter.continuesName x = true) ∧ w = c :: u := by
  unfold name
  simp only [mem_one_mul, mem_many]

end Words

end Calculator
