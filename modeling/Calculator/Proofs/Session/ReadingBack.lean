import Calculator.Proofs.Token.Single
import Calculator.Proofs.Tree.Acceptance
import Calculator.Proofs.Tree.Refusal
import Calculator.Proofs.Value.Truncation
import Calculator.Session
import Mathlib.Tactic.IntervalCases

set_option autoImplicit false

namespace Calculator

open Grammar

namespace Lexer

theorem lexeme?_colon (l : List Char) : lexeme? ':' l = some ⟨.colon, [':'], l⟩ := by
  have noWord : word? ':' l = none :=
    Option.isNone_iff_eq_none.mp (Option.isSome_eq_false_iff.mp (word?_isSome ':' l))
  have single : Table.standard.byLexeme (String.singleton ':') = some .colon :=
    Table.standard_byLexeme_eq_some_iff.mpr rfl
  have longer : Kind.colon.follow = [] := (Kind.follow_eq rfl).trans (by decide +kernel)
  rw [lexeme?, noWord, Option.none_or, operator?, single]
  cases l <;> simp only [Option.map_some, longer, List.find?_nil]

theorem tokens_octal {digit : Nat} (octal : digit < 8) (l : List Char) (line : Position) :
    (reading ('0' :: Nat.digitChar digit :: ':' :: l) line false).tokens =
      ⟨.oct, String.ofList ['0', Nat.digitChar digit], line⟩ :: ⟨.colon, ":", line⟩ ::
        (reading l line false).tokens := by
  have found : lexeme? '0' (Nat.digitChar digit :: ':' :: l) =
      some ⟨.oct, ['0', Nat.digitChar digit], ':' :: l⟩ := by
    interval_cases digit <;> rfl
  rw [tokens_eq, next_of_lexeme? rfl (by decide) found rfl]
  dsimp only
  rw [if_neg (by simp), tokens_eq, next_of_lexeme? rfl (by decide) (lexeme?_colon l) rfl]
  rfl

theorem tokens_clash {digit : Nat} (above : 8 ≤ digit) (below : digit < 10) (l : List Char)
    (line : Position) : (reading ('0' :: Nat.digitChar digit :: l) line false).tokens =
      [⟨.int, String.ofList ['0'], line⟩, (unexpected (Nat.digitChar digit) line).1,
        .eof line] := by
  refine tokens_behind_zero ?_ ?_ ?_ line
  · interval_cases digit <;> rfl
  · interval_cases digit <;> decide
  · interval_cases digit <;> rfl

theorem tokens_padded {digit : Nat} (below : digit < 10) (l : List Char) (line : Position) :
    ∃ t v next rest, t.kind.isLiteral = true ∧ (∀ mode, Literal.value mode t = .ok v) ∧
      followsOperand next.kind = false ∧
      (reading ('0' :: Nat.digitChar digit :: ':' :: l) line false).tokens = t :: next :: rest := by
  by_cases octal : digit < 8
  · have value : Literal.integer (String.ofList ['0', Nat.digitChar digit]) 8
        [Nat.digitChar digit] .oct = .ok (.int digit .oct) := by
      interval_cases digit <;> rfl
    refine ⟨_, .int digit .oct, _, _, rfl, fun mode => ?_, rfl, tokens_octal octal l line⟩
    simp only [Literal.value, String.toList_ofList]
    exact value
  · have value : Literal.integer (String.ofList ['0']) 10 ['0'] .dec = .ok (.int 0 .dec) := rfl
    refine ⟨_, .int 0 .dec, _, _, rfl, fun mode => ?_, rfl,
      tokens_clash (Nat.not_lt.mp octal) below (':' :: l) line⟩
    simp only [Literal.value, String.toList_ofList]
    exact value

end Lexer

namespace Tree

variable {mode : NumericMode} {t : Token} {ts : List Token} {v : Value}

theorem ofTokens_literal (isLiteral : t.kind.isLiteral = true)
    (value : Literal.value mode t = .ok v) :
    ofTokens [t, .eof t.line] mode = .ok (.body t.line [.constant t.line v]) := by
  have read : StatementsOf true mode [t] [.constant t.line v] mode :=
    .unclosed (.expression (.plain (.single (.literal isLiteral value) rfl)))
  exact read.ofTokens_eq rfl rfl

theorem ofTokens_negated (isLiteral : t.kind.isLiteral = true)
    (value : Literal.value mode t = .ok v) (line : Position) :
    ofTokens [⟨.minus, "-", line⟩, t, .eof t.line] mode =
      .ok (.body line [.unary line .minus (.constant t.line v)]) := by
  have read : StatementsOf true mode [⟨.minus, "-", line⟩, t]
      [.unary line .minus (.constant t.line v)] mode :=
    .unclosed (.expression (.plain (.single (.unary (.inl rfl) (.literal isLiteral value)) rfl)))
  exact read.ofTokens_eq rfl rfl

theorem ofTokens_literal_refused {next : Token} (isLiteral : t.kind.isLiteral = true)
    (value : Literal.value mode t = .ok v) (stray : followsOperand next.kind = false) :
    ∃ e, ofTokens (t :: next :: ts) mode = .error e := by
  refine ofTokens_refused ?_ ?_ (fun fuel => Parser.reads_operand_literal isLiteral value) stray
  · rw [startsOperand, isLiteral, Bool.true_or]
  · exact ne_of_apply_ne Kind.isLiteral (isLiteral.trans_ne (by decide))

theorem ofTokens_negated_refused {next sign : Token} (isSign : sign.kind = .minus)
    (isLiteral : t.kind.isLiteral = true) (value : Literal.value mode t = .ok v)
    (stray : followsOperand next.kind = false) :
    ∃ e, ofTokens (sign :: t :: next :: ts) mode = .error e := by
  refine ofTokens_refused ?_ (isSign.trans_ne (by simp)) (fun fuel => reads_operand_unary
    (.inl isSign) (Parser.reads_operand_literal isLiteral value)) stray
  rw [isSign]
  rfl

end Tree

namespace Session

/-- With enough fuel a session answers the source with the value. -/
def Answers (m : Machine) (source : Utf8.Source) (v : Value) : Prop :=
  ∃ least, ∀ fuel, least ≤ fuel → ∃ m', eval m fuel source = .ok v m'

section
variable {m : Machine} {source : Utf8.Source} {kind : Kind} {word : List Char} {v : Value}

theorem answers_of_writesIn (writes : kind.WritesIn m.mode word v)
    (isText : source.IsText (String.ofList word)) : Answers m source v := by
  have read : Tree.parse source m.mode = .ok (.body 1 [.constant 1 v]) := by
    rw [Tree.parse, Lexer.ofSource_of_text isText, String.toList_ofList,
      Lexer.tokens_lexeme writes.mem]
    exact Tree.ofTokens_literal writes.isLiteral (writes.value _)
  refine ⟨3, fun fuel enough => ?_⟩
  obtain ⟨fuel, rfl⟩ : ∃ n, fuel = n + 3 := ⟨fuel - 3, by omega⟩
  unfold eval
  rw [read]
  exact ⟨_, rfl⟩

theorem answers_of_writes (writes : kind.Writes word v)
    (isText : source.IsText (String.ofList word)) : Answers m source v :=
  answers_of_writesIn (writes.inMode m.mode) isText

theorem answers_of_negated {w : Value} (writes : kind.WritesIn m.mode word v)
    (negated : v.negate 1 = .ok w) (isText : source.IsText (String.ofList ('-' :: word))) :
    Answers m source w := by
  have read : Tree.parse source m.mode =
      .ok (.body 1 [.unary 1 .minus (.constant 1 v)]) := by
    have isWord : kind.isWord = true := by
      have literal := writes.isLiteral
      revert literal
      cases kind <;> decide
    have tokens := Lexer.tokens_signed True writes.mem isWord 1
    rw [if_pos trivial, if_pos trivial, List.singleton_append] at tokens
    rw [Tree.parse, Lexer.ofSource_of_text isText, String.toList_ofList, tokens]
    exact Tree.ofTokens_negated writes.isLiteral (writes.value _) 1
  refine ⟨4, fun fuel enough => ?_⟩
  obtain ⟨fuel, rfl⟩ : ∃ n, fuel = n + 4 := ⟨fuel - 4, by omega⟩
  have evaluated (m : Machine) :
      (Tree.unary 1 .minus (.constant 1 v)).eval (fuel + 2) m = .ok w m := by
    change Run.ofExcept (v.negate 1) m = _
    rw [negated]
    rfl
  have ran : (Tree.body 1 [.unary 1 .minus (.constant 1 v)]).eval (fuel + 4)
      { m with exiting := false } = .ok w { m with exiting := false } := by
    change Run.bind ((Tree.unary 1 .minus (.constant 1 v)).eval (fuel + 2))
      (fun v => evalBody (fuel + 2) v []) _ = _
    rw [Run.bind, evaluated]
    rfl
  unfold eval runTree Machine.execute
  rw [read]
  dsimp only
  rw [ran]
  exact ⟨_, rfl⟩

theorem answers_negated {n : Int} {flavor : Flavor} (writes : kind.Writes word (.int n flavor))
    (isText : source.IsText (String.ofList ('-' :: word))) :
    Answers m source (.int (-n) flavor) :=
  answers_of_negated (writes.inMode m.mode) rfl isText

theorem answers_signed {n : Int} {flavor : Flavor}
    (writes : kind.Writes word (.int n.natAbs flavor))
    (isText : source.IsText (String.ofList ((if n < 0 then ['-'] else []) ++ word))) :
    Answers m source (.int n flavor) := by
  by_cases negative : n < 0
  · rw [if_pos negative] at isText
    have answered : Answers m source (.int (-n.natAbs) flavor) := answers_negated writes isText
    rwa [show (-n.natAbs : Int) = n by omega] at answered
  · rw [if_neg negative] at isText
    have answered : Answers m source (.int n.natAbs flavor) := answers_of_writes writes isText
    rwa [show (n.natAbs : Int) = n by omega] at answered

theorem exists_answers_signed {x : Rat} (negative : Prop) [Decidable negative]
    (writes : kind.WritesIn m.mode word v) (denotes : v.Denotes x)
    (isText : source.IsText (String.ofList ((if negative then ['-'] else []) ++ word))) :
    ∃ w, Answers m source w ∧ w.Denotes (if negative then -x else x) := by
  by_cases sign : negative
  · rw [if_pos sign] at isText ⊢
    obtain ⟨w, negated, opposite⟩ := Value.negate_exact denotes 1
    exact ⟨w, answers_of_negated writes negated isText, opposite⟩
  · rw [if_neg sign] at isText ⊢
    exact ⟨v, answers_of_writesIn writes isText, denotes⟩

theorem eval_padded {n : Int} (padded : Duration.leading n.natAbs < 10)
    (isText : source.IsText ((Value.int n .time).render false)) (fuel : Nat) :
    ∃ e, eval m fuel source = .error (.syntaxError e) m := by
  obtain ⟨l, split⟩ := Duration.text_eq_cons padded
  obtain ⟨t, v, next, rest, isLiteral, value, stray, tokens⟩ := Lexer.tokens_padded padded l 1
  have refused : ∃ e, Tree.parse source m.mode = .error e := by
    rw [Tree.parse, Lexer.ofSource_of_text isText, Value.render, String.toList_ofList,
      Value.intText_time, split]
    split
    · rw [List.singleton_append, Lexer.tokens_minus (by decide) (by decide), tokens]
      exact Tree.ofTokens_negated_refused rfl isLiteral (value _) stray
    · rw [List.nil_append, tokens]
      exact Tree.ofTokens_literal_refused isLiteral (value _) stray
  obtain ⟨e, refused⟩ := refused
  unfold eval
  rw [refused]
  exact ⟨e, rfl⟩

end

/-- Integers in any base and dates with a year of four digits read back as they were, in any mode;
only a zero is always decimal. -/
theorem answers_shown (m : Machine) (source : Utf8.Source) (clean : source.failure = none) :
    (∀ (n : Int) (flavor : Flavor), flavor = .dec ∨ flavor = .oct ∨ flavor = .hex →
        Utf8.delivered source.events = ((Value.int n flavor).render false).toUTF8.toList →
        Answers m source (.int n (if n = 0 ∧ flavor = .oct then .dec else flavor))) ∧
      ∀ d : Date, 0 ≤ d.civil.year → d.civil.year ≤ 9999 →
        Utf8.delivered source.events = ((Value.date d).render false).toUTF8.toList →
        Answers m source (.date d) := by
  constructor
  · rintro n flavor (rfl | rfl | rfl) delivers
    · rw [Value.render, Value.intText_dec] at delivers
      rw [if_neg (by simp)]
      exact answers_signed (.dec n.natAbs) ⟨clean, delivers⟩
    · by_cases zero : n = 0
      · subst zero
        exact answers_of_writes (.dec 0) ⟨clean, delivers⟩
      · rw [Value.render, Value.intText_oct zero] at delivers
        rw [if_neg (fun both => zero both.1)]
        exact answers_signed (.oct n.natAbs) ⟨clean, delivers⟩
    · rw [Value.render, Value.intText_hex] at delivers
      rw [if_neg (by simp)]
      exact answers_signed (.hex n.natAbs) ⟨clean, delivers⟩
  · intro d low high delivers
    exact answers_of_writes (.date ⟨low, high⟩) ⟨clean, delivers⟩

def leapDay : Date :=
  ⟨(Civil.mk 2024 2 29).dayNumber, by decide⟩

/-- A negative number with grouped digits, and a leap day. -/
theorem answers_shown_negative :
    Answers (.initial .undefined false .accepting) (.ofBytes [45, 49, 50, 39, 51, 52, 53])
        (.int (-12345) .dec) ∧
      Answers (.initial .undefined false .accepting) (.ofBytes [36, 50, 48, 50, 52, 48, 50, 50, 57])
        (.date leapDay) :=
  ⟨(answers_shown _ _ rfl).1 (-12345) .dec (.inl rfl) (by decide +kernel),
    (answers_shown _ _ rfl).2 leapDay (by decide) (by decide) (by decide +kernel)⟩

/-- A duration reads back, in any mode, if its first field has two digits without a zero in front;
all other durations are no programs. -/
theorem answers_duration (n : Int) (m : Machine) (source : Utf8.Source)
    (clean : source.failure = none)
    (delivers : Utf8.delivered source.events =
      ((Value.int n .time).render false).toUTF8.toList) :
    (10 ≤ Duration.leading n.natAbs → Answers m source (.int n .time)) ∧
      (Duration.leading n.natAbs < 10 →
        ∀ fuel, ∃ e, eval m fuel source = .error (.syntaxError e) m) := by
  constructor
  · intro whole
    rw [Value.render, Value.intText_time] at delivers
    exact answers_signed (.time whole) ⟨clean, delivers⟩
  · exact fun padded => eval_padded padded ⟨clean, delivers⟩

/-- Twelve hours and a half read back, an hour and a half does not. -/
theorem answers_duration_hours :
    Answers (.initial .float false .accepting) (.ofBytes [49, 50, 58, 51, 48, 58, 48, 48])
        (.int 45000 .time) ∧
      ∀ fuel, ∃ e, eval (.initial .float false .accepting) fuel
        (.ofBytes [48, 49, 58, 51, 48, 58, 48, 48]) =
          .error (.syntaxError e) (.initial .float false .accepting) :=
  ⟨(answers_duration 45000 _ _ rfl (by decide +kernel)).1 (by decide),
    (answers_duration 5400 _ _ rfl (by decide +kernel)).2 (by decide)⟩

/-- Ninety seconds are shown as `01:30`, which is no program. -/
theorem duration_not_answered :
    ¬∀ (n : Int) (m : Machine) (source : Utf8.Source), source.failure = none →
      Utf8.delivered source.events = ((Value.int n .time).render false).toUTF8.toList →
      ∃ v, Answers m source v := by
  intro all
  have shown : Utf8.delivered (Utf8.Source.ofBytes [48, 49, 58, 51, 48]).events =
      ((Value.int 90 .time).render false).toUTF8.toList := by decide +kernel
  obtain ⟨v, least, answered⟩ := all 90 (.initial .undefined false .accepting) _ rfl shown
  obtain ⟨m', answered⟩ := answered least (Nat.le_refl _)
  obtain ⟨e, refused⟩ := eval_padded (m := .initial .undefined false .accepting) (n := 90)
    (by decide) ⟨rfl, shown⟩ least
  rw [refused] at answered
  cases answered

/-- The text of a rational reads, in the rational mode, as the rational cut after the digits that
are shown. That equals the rational just if no digits were cut, and there is a sign just if what is
left is negative. -/
theorem answers_truncated (q : Rat) (flavor : Flavor) (places : Nat) (programmer : Bool)
    (small : places ≤ 64) (m : Machine) (source : Utf8.Source) (rational : m.mode = .rational)
    (clean : source.failure = none)
    (delivers : Utf8.delivered source.events =
      ((Value.rational q flavor places).render programmer).toUTF8.toList) :
    ∃ v, Answers m source v ∧ v.Denotes (Decimal.truncated q places) ∧
      (∀ mode line, v.apply .equal mode (.rational q flavor places) line =
        .ok (.boolean (q * 10 ^ places).isInt)) ∧
      ('-' ∈ ((Value.rational q flavor places).render programmer).toList ↔
        Decimal.truncated q places < 0) := by
  have shown : (Value.rational q flavor places).render programmer =
      String.ofList ((if q.num < 0 ∧ Decimal.cut q places ≠ 0 then ['-'] else []) ++
        Grouping.groupUnsigned (Decimal.text (Decimal.cut q places) places)) := by
    rw [Value.render, Decimal.truncatedDecimal_eq, Grouping.groupChars_signed _
      fun c => Decimal.isDecimalDigit_or_eq_of_mem_text]
  rw [shown] at delivers ⊢
  -- The digits are read without the sign, which is an operator in front of them.
  obtain ⟨kind, word, writes, denotes⟩ :=
    Kind.exists_writesIn_rational (Decimal.cut q places) small
  rw [← rational] at writes
  obtain ⟨v, answered, number⟩ := exists_answers_signed _ writes denotes ⟨clean, delivers⟩
  rw [← Decimal.truncated_eq_cut] at number
  refine ⟨v, answered, number, fun mode line => ?_, ?_⟩
  · rw [Value.equal_exact number (Value.denotes_rational q flavor places)]
    congr 2
    exact Bool.eq_iff_iff.mpr (decide_eq_true_iff.trans Decimal.truncated_eq_iff)
  · rw [String.toList_ofList, List.mem_append, Decimal.truncated_neg_iff]
    constructor
    · rintro (sign | digit)
      · by_contra positive
        rw [if_neg positive] at sign
        cases sign
      · exact absurd digit (Decimal.minus_not_mem_groupUnsigned_text _ _)
    · intro negative
      rw [if_pos negative]
      exact .inl (List.mem_singleton_self _)

/-- A negative number with grouped digits in front of the point, from which a digit is cut and a
zero trimmed: `-1234.5505` with three places. -/
theorem answers_truncated_negative :
    ∃ v, Answers (.initial .rational false .accepting)
        (.ofBytes [45, 49, 39, 50, 51, 52, 46, 53, 53]) v ∧ v.Denotes (-24691 / 20) ∧
      v.apply .equal .rational (.rational (-2469101 / 2000) .dec 3) 1 = .ok (.boolean false) := by
  obtain ⟨v, answered, number, equal, -⟩ := answers_truncated (-2469101 / 2000) .dec 3 false
    (by decide) (.initial .rational false .accepting)
    (.ofBytes [45, 49, 39, 50, 51, 52, 46, 53, 53]) rfl rfl (by decide +kernel)
  have cut : Decimal.truncated (-2469101 / 2000) 3 = -24691 / 20 := by decide +kernel
  have inexact : ((-2469101 / 2000 : Rat) * 10 ^ 3).isInt = false := by decide +kernel
  rw [cut] at number
  refine ⟨v, answered, number, ?_⟩
  rw [equal, inexact]

end Session

end Calculator
