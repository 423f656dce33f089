import Calculator.Proofs.Number.Shortest
import Calculator.Proofs.Token.Single
import Calculator.Proofs.Value.Truncation

set_option autoImplicit false

namespace Calculator

open Lexer (isDigitOrQuote isMark)

namespace FloatText

variable {d : Shortest.Decimal}

theorem isDecimalDigit_of_mem_decimal {n : Nat} {c : Char} (h : c ∈ Numeral.decimal n) :
    Numeral.isDecimalDigit c = true :=
  (Numeral.isDigit_of_mem_digits (by decide) h).isDecimalDigit

theorem exists_decimal_eq_cons {n : Nat} (nonzero : n ≠ 0) :
    ∃ c u, Words.isPositiveDigit c = true ∧ (∀ x ∈ u, Numeral.isDecimalDigit x = true) ∧
      Numeral.decimal n = c :: u := by
  refine (Grouping.decimal_eq_zero_or_cons n).resolve_left fun zero => nonzero ?_
  have read : Numeral.read 10 (Numeral.decimal n) = some n :=
    Numeral.read_digits (by decide) (by decide) n
  rw [zero] at read
  exact (Option.some.inj read).symm

theorem positional_of_neg (h : d.exponent < 0) :
    positional d = Decimal.text d.digits (-d.exponent).toNat := by
  have places : (-d.exponent).toNat ≠ 0 := by omega
  rw [positional, if_neg (Int.not_le.mpr h), Decimal.text, if_neg places]
  rfl

theorem positional_of_nonneg (h : 0 ≤ d.exponent) : positional d = ['0'] ∨
    ∃ c u, Words.isPositiveDigit c = true ∧ (∀ x ∈ u, Numeral.isDecimalDigit x = true) ∧
      positional d = c :: u := by
  rw [positional, if_pos h]
  by_cases zero : d.digits = 0
  · left
    rw [if_pos zero, zero]
    rfl
  · right
    obtain ⟨c, u, positive, digits, same⟩ := exists_decimal_eq_cons zero
    refine ⟨c, u ++ List.replicate d.exponent.toNat '0', positive, fun x inside => ?_, ?_⟩
    · rcases List.mem_append.mp inside with front | back
      · exact digits x front
      · rw [(List.mem_replicate.mp back).2]
        rfl
    · rw [if_neg zero, same]
      rfl

theorem isDecimalDigit_or_eq_of_mem_positional {c : Char} (h : c ∈ positional d) :
    Numeral.isDecimalDigit c = true ∨ c = '.' := by
  by_cases whole : 0 ≤ d.exponent
  · left
    rcases positional_of_nonneg whole with same | ⟨c', u, positive, digits, same⟩
    · rw [same] at h
      rw [List.mem_singleton.mp h]
      rfl
    · rw [same] at h
      rcases List.mem_cons.mp h with rfl | inside
      · exact (Bool.and_eq_true_iff.mp positive).1
      · exact digits c inside
  · rw [positional_of_neg (Int.not_le.mp whole)] at h
    exact Decimal.isDecimalDigit_or_eq_of_mem_text h

theorem exists_positional_mem (d : Shortest.Decimal) : ∃ kind : Kind, (kind = .int ∨ kind = .real) ∧
    Grouping.groupUnsigned (positional d) ∈ kind.words := by
  by_cases whole : 0 ≤ d.exponent
  · have natural := positional_of_nonneg whole
    have noPoint : '.' ∉ positional d := by
      rcases natural with same | ⟨c, u, positive, digits, same⟩
      · rw [same]
        decide
      · rw [same, List.mem_cons, not_or]
        refine ⟨?_, fun inside => absurd (digits _ inside) (by decide)⟩
        rintro rfl
        cases positive
    refine ⟨.int, .inl rfl, ?_⟩
    rw [Grouping.groupUnsigned_eq noPoint]
    exact Grouping.groupFrom_mem_natural _ natural
  · have places : (-d.exponent).toNat ≠ 0 := by omega
    obtain ⟨width, kept, -, grouped, digits, -⟩ :=
      Decimal.exists_groupUnsigned_text places d.digits
    refine ⟨.real, .inr rfl, ?_⟩
    rw [positional_of_neg (Int.not_le.mp whole), grouped]
    exact Grouping.point_mem_real width (Decimal.integral_eq_zero_or_cons _ _) digits

theorem signedDigits_integer (n : Int) : Words.SignedDigits (Numeral.integer n) := by
  refine ⟨if n < 0 then ['-'] else [], Numeral.decimal n.natAbs, ?_,
    fun c inside => isDecimalDigit_of_mem_decimal inside, Value.integer_eq n⟩
  split
  · exact .inr (.inr rfl)
  · exact .inl rfl

theorem scientific_mem_real (nonzero : d.digits ≠ 0) : scientific d ∈ Kind.real.words := by
  obtain ⟨c, u, positive, digits, same⟩ := exists_decimal_eq_cons nonzero
  unfold scientific
  dsimp only
  rw [same]
  generalize d.exponent + _ = power
  have mark : 'e' :: Numeral.integer power ∈ Words.exponent :=
    Words.mem_exponent.mpr ⟨'e', _, rfl, signedDigits_integer power, rfl⟩
  cases u with
  | nil => exact Words.mem_real.mpr (.inr (.inr ⟨c, [], _, positive, nofun, mark, rfl⟩))
  | cons x u =>
    refine Words.mem_real.mpr (.inr (.inl ⟨[c], x :: u ++ 'e' :: Numeral.integer power,
      Words.mem_natural.mpr (.inr ⟨c, [], positive, nofun, rfl⟩),
      ⟨x :: u, _, fun y inside => ?_, .inr mark, rfl⟩, rfl⟩))
    rw [isDigitOrQuote, digits y inside, Bool.true_or]

theorem write_of_finite {x : Float} (finite : Binary64.isFinite x = true)
    (layout : Shortest.Decimal → List Char) : write layout x =
      (if Binary64.signBit x then ['-'] else []) ++ layout (Shortest.shortest x) := by
  have number : Binary64.isNaN x = false := by
    have field : ¬Binary64.exponentField x = 2047 := of_decide_eq_true finite
    exact decide_eq_false fun both => field both.1
  unfold write
  rw [number, finite]
  dsimp only
  split_ifs <;> first | rfl | contradiction

end FloatText

namespace Value

open FloatText

def magnitudeText (x : Float) (flavor : Flavor) : List Char :=
  if flavor = .exp then scientific (Shortest.shortest x)
  else Grouping.groupUnsigned (positional (Shortest.shortest x))

variable {x : Float} {flavor : Flavor}

theorem floatText_of_finite (finite : Binary64.isFinite x = true) (flavor : Flavor) :
    floatText x flavor =
      (if Binary64.signBit x then ['-'] else []) ++ magnitudeText x flavor := by
  unfold floatText magnitudeText display displayScientific
  rw [finite, if_neg (by decide)]
  by_cases mark : flavor = .exp
  · rw [if_pos mark, if_pos mark, write_of_finite finite]
  · rw [if_neg mark, if_neg mark, write_of_finite finite]
    exact Grouping.groupChars_signed _ fun c inside =>
      isDecimalDigit_or_eq_of_mem_positional inside

theorem exists_magnitudeText_mem (numeral : ¬(flavor = .exp ∧ Binary64.mantissa x = 0)) :
    ∃ kind : Kind, (kind = .int ∨ kind = .real) ∧ magnitudeText x flavor ∈ kind.words := by
  unfold magnitudeText
  by_cases mark : flavor = .exp
  · have nonzero : (Shortest.shortest x).digits ≠ 0 := fun zero =>
      numeral ⟨mark, Shortest.digits_shortest_eq_zero_iff.mp zero⟩
    rw [if_pos mark]
    exact ⟨.real, .inr rfl, scientific_mem_real nonzero⟩
  · rw [if_neg mark]
    exact exists_positional_mem _

theorem magnitudeText_zero (zero : Binary64.mantissa x = 0) :
    magnitudeText x .exp = ['0', 'e', '0'] := by
  rw [magnitudeText, if_pos rfl, Shortest.shortest, if_pos zero]
  decide

theorem tokens_zero_exponent (negative : Prop) [Decidable negative] :
    (Lexer.reading ((if negative then ['-'] else []) ++ ['0', 'e', '0']) 1 false).tokens =
      (if negative then [⟨.minus, "-", 1⟩] else []) ++
        [⟨.int, "0", 1⟩, ⟨.error, "unexpected character 'e'", 1⟩, .eof 1] := by
  have tokens : (Lexer.reading ['0', 'e', '0'] 1 false).tokens =
      [⟨.int, "0", 1⟩, ⟨.error, "unexpected character 'e'", 1⟩, .eof 1] :=
    Lexer.tokens_behind_zero rfl (by decide) rfl 1
  by_cases sign : negative
  · rw [if_pos sign, if_pos sign, List.singleton_append,
      Lexer.tokens_minus (by decide) (by decide), tokens]
    rfl
  · rw [if_neg sign, if_neg sign]
    exact tokens

/-- What a finite float is shown as is scanned as a minus sign, if there is one, and one number with
the digits that are shown, without the quotes between them. It is not if the float is a zero that is
shown with an exponent, and not otherwise. -/
theorem tokens_float {source : Utf8.Source} {programmer : Bool}
    (finite : Binary64.isFinite x = true)
    (isText : source.IsText ((Value.float x flavor).render programmer)) :
    ∃ (kind : Kind) (word : List Char), (kind = .int ∨ kind = .real) ∧
      (Value.float x flavor).render programmer =
        String.ofList ((if Binary64.signBit x then ['-'] else []) ++ word) ∧
      (Lexer.ofSource source).tokens =
        (if Binary64.signBit x then [⟨.minus, "-", 1⟩] else []) ++
          if flavor = .exp ∧ Binary64.mantissa x = 0 then
            [⟨.int, "0", 1⟩, ⟨.error, "unexpected character 'e'", 1⟩, .eof 1]
          else [⟨kind, String.ofList (unquoted word), 1⟩, .eof 1] := by
  have shown : (Value.float x flavor).render programmer =
      String.ofList ((if Binary64.signBit x then ['-'] else []) ++ magnitudeText x flavor) :=
    congrArg String.ofList (floatText_of_finite finite flavor)
  rw [shown] at isText ⊢
  rw [Lexer.ofSource_of_text isText, String.toList_ofList]
  by_cases exception : flavor = .exp ∧ Binary64.mantissa x = 0
  · obtain ⟨rfl, zero⟩ := exception
    refine ⟨.int, _, .inl rfl, rfl, ?_⟩
    have here : Flavor.exp = .exp ∧ Binary64.mantissa x = 0 := ⟨rfl, zero⟩
    rw [if_pos here, magnitudeText_zero zero]
    exact tokens_zero_exponent _
  · obtain ⟨kind, isNumber, mem⟩ := exists_magnitudeText_mem exception
    have isWord : kind.isWord = true := by rcases isNumber with rfl | rfl <;> rfl
    have notDate : kind ≠ .date := by rcases isNumber with rfl | rfl <;> simp
    refine ⟨kind, _, isNumber, rfl, ?_⟩
    rw [if_neg exception]
    have tokens := Lexer.tokens_signed (Binary64.signBit x = true) mem isWord 1
    rwa [Kind.textOf, if_neg notDate] at tokens

/-- A negative number with a quote and a point. -/
theorem tokens_float_grouped :
    let x : Float := .ofBits 13891384661583593472
    let source : Utf8.Source := .ofString ((Value.float x .dec).render false)
    Binary64.isFinite x = true ∧ ∃ (kind : Kind) (word : List Char), (kind = .int ∨ kind = .real) ∧
      (Value.float x .dec).render false =
        String.ofList ((if Binary64.signBit x then ['-'] else []) ++ word) ∧
      (Lexer.ofSource source).tokens =
        (if Binary64.signBit x then [⟨.minus, "-", 1⟩] else []) ++
          if Flavor.dec = .exp ∧ Binary64.mantissa x = 0 then
            [⟨.int, "0", 1⟩, ⟨.error, "unexpected character 'e'", 1⟩, .eof 1]
          else [⟨kind, String.ofList (unquoted word), 1⟩, .eof 1] := by
  intro x source
  have finite : Binary64.isFinite x = true := by decide +kernel
  exact ⟨finite, tokens_float finite (.ofString _)⟩

/-- Zero with an exponent is shown as no number that could be read. -/
theorem zero_exponent_not_number :
    let x : Float := .ofBits 0
    let source : Utf8.Source := .ofString ((Value.float x .exp).render false)
    Binary64.isFinite x = true ∧
      ¬∃ (sign : List Token) (kind : Kind) (text : String),
        (sign = [] ∨ sign = [⟨.minus, "-", 1⟩]) ∧ (kind = .int ∨ kind = .real) ∧
          (Lexer.ofSource source).tokens = sign ++ [⟨kind, text, 1⟩, .eof 1] := by
  intro x source
  have tokens : (Lexer.ofSource source).tokens =
      [⟨.int, "0", 1⟩, ⟨.error, "unexpected character 'e'", 1⟩, .eof 1] := by decide +kernel
  refine ⟨by decide +kernel, ?_⟩
  rintro ⟨sign, kind, text, rfl | rfl, -, same⟩
  · cases tokens.symm.trans same
  · cases tokens.symm.trans same

end Value

end Calculator
