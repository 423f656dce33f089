import Calculator.Number.Numeral.Lemmas
import Calculator.Proofs.Tree.Spelling

set_option autoImplicit false

namespace Calculator

open Numeral (IsDigit isDigit_of_mem_digits exists_digits_eq_cons read_digits)

theorem not_mem_quote_digits {base n : Nat} (two : 2 ≤ base) (small : base ≤ 16) :
    '\'' ∉ Numeral.digits base n := by
  intro quote
  obtain ⟨d, below, same⟩ := isDigit_of_mem_digits two quote
  have noQuote : ∀ d < 16, '\'' ≠ Nat.digitChar d := by decide
  exact noQuote d (below.trans_le small) same

namespace Words

theorem decimal_mem_int (n : Nat) : Numeral.decimal n ∈ Kind.int.words := by
  have positive : ∀ d < 10, d ≠ 0 → isPositiveDigit (Nat.digitChar d) = true := by decide
  obtain ⟨d, u, same, below, zero, digits⟩ := exists_digits_eq_cons (by decide : 2 ≤ 10) n
  change Numeral.digits 10 n ∈ natural
  rw [same, mem_natural]
  by_cases first : d = 0
  · left
    rw [(zero first).2, first]
    rfl
  · refine .inr ⟨_, u, positive d below first, fun c inside => ?_, rfl⟩
    rw [Lexer.isDigitOrQuote, (digits c inside).isDecimalDigit, Bool.true_or]

theorem hexadecimal_mem_hex (n : Nat) : '0' :: 'x' :: Numeral.hexadecimal n ∈ Kind.hex.words := by
  refine mem_hex.mpr ⟨'x', _, rfl, fun c inside => ?_, rfl⟩
  exact (isDigit_of_mem_digits (by decide) inside).isHexadecimalDigit

theorem octal_mem_oct (n : Nat) : '0' :: Numeral.octal n ∈ Kind.oct.words := by
  obtain ⟨d, u, same, below, -, digits⟩ := exists_digits_eq_cons (by decide : 2 ≤ 8) n
  change '0' :: Numeral.digits 8 n ∈ Kind.oct.words
  rw [same]
  have first : IsDigit 8 (Nat.digitChar d) := ⟨d, below, rfl⟩
  exact mem_oct.mpr
    ⟨_, u, first.isOctalDigit, fun c inside => (digits c inside).isOctalDigit, rfl⟩

theorem shown_mem {kind : Kind} (fixed : kind.lexeme.isSome = true) :
    kind.shown.toList ∈ kind.words := by
  obtain ⟨text, spelled⟩ := Option.isSome_iff_exists.mp fixed
  have mem : kind.lexeme = some (String.ofList kind.shown.toList) := by
    rw [String.ofList_toList, Kind.shown, spelled, Option.getD_some]
  cases kind <;> first | exact mem | cases fixed

theorem keyword_mem {word : String} (h : word ∈ Token.keywords) :
    word.toList ∈ Kind.keyword.words := by
  have starts : ∀ word ∈ Token.keywords, word.toList.head?.any Letter.startsName = true := by
    decide +kernel
  have continues : ∀ word ∈ Token.keywords, word.toList.tail.all Letter.continuesName = true := by
    decide +kernel
  obtain ⟨c, head, first⟩ := (Option.any_eq_true _ _).mp (starts word h)
  have letters := List.all_eq_true.mp (continues word h)
  refine ⟨mem_name.mpr ⟨c, _, first, letters, (List.cons_head?_tail head).symm⟩, ?_⟩
  rw [String.ofList_toList]
  exact List.contains_iff_mem.mpr h

end Words

section
variable {n : Nat}

theorem integer_eq_decimal : Numeral.integer n = Numeral.decimal n :=
  if_neg (Int.not_lt.mpr (Int.natCast_nonneg n))

theorem hexText_eq : Value.hexText n = '0' :: 'x' :: Numeral.hexadecimal n := by
  rw [Value.hexText, if_neg (Int.not_lt.mpr (Int.natCast_nonneg n))]
  rfl

theorem octText_eq (positive : 0 < n) : Value.octText n = '0' :: Numeral.octal n := by
  rw [Value.octText, if_neg (by omega), if_neg (Int.not_lt.mpr (Int.natCast_nonneg n))]
  rfl

end

namespace Value.IsLiteral

variable {v : Value} (line : Position)

theorem isWord (h : v.IsLiteral) : (Token.literal line v).IsWord := by
  cases h with
  | dec n =>
    refine .of_no_quote ?_ ?_ (by simp [Token.literal])
    · simp only [Token.literal, String.toList_ofList, integer_eq_decimal]
      exact Words.decimal_mem_int n
    · simp only [Token.literal, String.toList_ofList, integer_eq_decimal]
      exact not_mem_quote_digits (by decide) (by decide)
  | hex n =>
    refine .of_no_quote ?_ ?_ (by simp [Token.literal])
    · simp only [Token.literal, String.toList_ofList, hexText_eq]
      exact Words.hexadecimal_mem_hex n
    · simp only [Token.literal, String.toList_ofList, hexText_eq]
      exact Words.avoids_quote (by decide) _ (Words.hexadecimal_mem_hex n)
  | oct n positive =>
    refine .of_no_quote ?_ ?_ (by simp [Token.literal])
    · simp only [Token.literal, String.toList_ofList, octText_eq positive]
      exact Words.octal_mem_oct n
    · simp only [Token.literal, String.toList_ofList, octText_eq positive]
      exact Words.avoids_quote (by decide) _ (Words.octal_mem_oct n)

theorem onLine (h : v.IsLiteral) : (Token.literal line v).line = line := by
  cases h <;> rfl

theorem isLiteral_kind (h : v.IsLiteral) : (Token.literal line v).kind.isLiteral = true := by
  cases h <;> rfl

theorem value (h : v.IsLiteral) (m : NumericMode) :
    Literal.value m (Token.literal line v) = .ok v := by
  cases h with
  | dec n =>
    simp only [Token.literal, Literal.value, String.toList_ofList, integer_eq_decimal]
    change Literal.integer _ 10 (Numeral.digits 10 n) .dec = _
    rw [Literal.integer, read_digits (by decide) (by decide)]
  | hex n =>
    simp only [Token.literal, Literal.value, String.toList_ofList, hexText_eq]
    change Literal.integer _ 16 (Numeral.digits 16 n) .hex = _
    rw [Literal.integer, read_digits (by decide) (by decide)]
  | oct n positive =>
    simp only [Token.literal, Literal.value, String.toList_ofList, octText_eq positive]
    change Literal.integer _ 8 (Numeral.digits 8 n) .oct = _
    rw [Literal.integer, read_digits (by decide) (by decide)]

end Value.IsLiteral

def AreWords (line : Position) (ts : List Token) : Prop :=
  ∀ t ∈ ts, t.IsWord ∧ t.line = line

namespace AreWords

variable {line : Position} {t : Token} {ts us : List Token}

theorem nil : AreWords line [] :=
  List.forall_mem_nil _

theorem cons (isWord : t.IsWord) (onLine : t.line = line) (rest : AreWords line ts) :
    AreWords line (t :: ts) :=
  List.forall_mem_cons.mpr ⟨⟨isWord, onLine⟩, rest⟩

theorem append (hts : AreWords line ts) (hus : AreWords line us) : AreWords line (ts ++ us) :=
  List.forall_mem_append.mpr ⟨hts, hus⟩

theorem first {right : Token} (h : AreWords line ts) (onLine : right.line = line) :
    (ts ++ [right]).head?.map Token.line = some line := by
  cases ts with
  | nil => exact congrArg some onLine
  | cons t ts => exact congrArg some (h t List.mem_cons_self).2

theorem token {kind : Kind} (fixed : kind.lexeme.isSome = true) (rest : AreWords line ts) :
    AreWords line (kind.token line :: ts) := by
  have mem := Words.shown_mem fixed
  have noQuote : '\'' ∉ kind.shown.toList := by
    refine Words.avoids_quote ?_ _ mem
    revert fixed
    cases kind <;> decide
  have notDate : kind ≠ .date := by
    rintro rfl
    cases fixed
  exact .cons (.of_no_quote mem noQuote notDate) rfl rest

theorem keyword {word : String} (isKeyword : word ∈ Token.keywords) (rest : AreWords line ts) :
    AreWords line (.keyword line word :: ts) := by
  have mem := Words.keyword_mem isKeyword
  have noQuote := Words.avoids_quote (by decide) _ mem
  exact .cons (.of_no_quote mem noQuote (by simp [Token.keyword])) rfl rest

theorem name {x : String} (isName : IsName x) (rest : AreWords line ts) :
    AreWords line (.name line x :: ts) :=
  .cons (.of_isName isName line) rfl rest

theorem parenthesized (h : AreWords line ts) : AreWords line (Token.parenthesized line ts) :=
  .token rfl (h.append (.token rfl .nil))

theorem braced (h : AreWords line ts) : AreWords line (Token.braced line ts) :=
  .token rfl (h.append (.token rfl .nil))

theorem separated {groups : List (List Token)} (h : ∀ ts ∈ groups, AreWords line ts) :
    AreWords line (Token.separated line groups) := by
  induction groups with
  | nil => exact .nil
  | cons ts groups ih =>
    obtain ⟨first, rest⟩ := List.forall_mem_cons.mp h
    cases groups with
    | nil => rwa [Token.separated_singleton]
    | cons us groups =>
      rw [Token.separated_cons_cons]
      exact first.append (.token rfl (ih rest))

theorem enclosed {t : Tree} (h : AreWords line ts) : AreWords line (t.enclosed line ts) := by
  unfold Tree.enclosed
  split
  · exact h.parenthesized
  · exact h

theorem ended {t : Tree} (h : AreWords line ts) : AreWords line (t.ended line ts) := by
  unfold Tree.ended
  split
  · exact h.append (.token rfl .nil)
  · exact h

theorem treeTokens {trees : List Tree} (h : ∀ t ∈ trees, AreWords line (t.tokens line)) :
    ∀ ts ∈ treeTokens line trees, AreWords line ts := by
  induction trees with
  | nil => exact List.forall_mem_nil _
  | cons t trees ih =>
    obtain ⟨first, rest⟩ := List.forall_mem_cons.mp h
    exact List.forall_mem_cons.mpr ⟨first, ih rest⟩

theorem statementTokens {trees : List Tree} (h : ∀ t ∈ trees, AreWords line (t.tokens line)) :
    AreWords line (statementTokens line trees) := by
  induction trees with
  | nil => exact .nil
  | cons t trees ih =>
    obtain ⟨first, rest⟩ := List.forall_mem_cons.mp h
    exact first.ended.append (ih rest)

end AreWords

namespace Tree

variable {t : Tree} (line : Position)

theorem lexeme_isSome_of_priority {op : Kind} (h : 1 ≤ op.priority.getD 0) :
    op.lexeme.isSome = true := by
  revert h
  cases op <;> decide

theorem lexeme_isSome_of_assigns {op : Kind} (h : op.assigns = true) :
    op.lexeme.isSome = true := by
  revert h
  cases op <;> decide

theorem IsExpression.words (h : t.IsExpression) : AreWords line (t.tokens line) := by
  induction h with
  | constant isLiteral => exact .cons (isLiteral.isWord line) (isLiteral.onLine line) .nil
  | reference isName => exact .name isName .nil
  | step isStep isName =>
    rw [tokens, if_pos isStep]
    refine AreWords.append (.name isName .nil) (.token ?_ .nil)
    rcases isStep with rfl | rfl <;> rfl
  | unary isSign operand ih =>
    rcases isSign with rfl | rfl
    · exact .token rfl ih.enclosed
    · exact .token rfl ih.enclosed
  | binary isOperator lhs rhs ihl ihr =>
    exact ihl.enclosed.append (.token (lexeme_isSome_of_priority isOperator) ihr.enclosed)
  | assign assigns isName value ih =>
    exact .name isName (.token (lexeme_isSome_of_assigns assigns) ih.enclosed)
  | call isName each ih => exact .name isName (.parenthesized (.separated (.treeTokens ih)))

theorem HasShape.words {clause : Grammar.Clause} (h : t.HasShape clause) :
    AreWords line (t.tokens line) := by
  have isOption : IsName "f" ∧ IsName "r" ∧ IsName "p" := by decide +kernel
  induction h with
  | expression shape => exact shape.words line
  | display shape => exact .token rfl (shape.words line)
  | setMode isMode =>
    refine .token rfl (.token rfl (.name ?_ .nil))
    rcases isMode with rfl | rfl
    · exact isOption.1
    · exact isOption.2.1
  | toggleProgrammer => exact .token rfl (.token rfl (.name isOption.2.2 .nil))
  | exit => exact .keyword (by decide) .nil
  | conditional shape ih => exact ih
  | whileLoop guard inner ih =>
    exact .keyword (by decide) ((guard.words line).parenthesized.append ih.braced)
  | forLoop start guard next inner ih =>
    exact .keyword (by decide) (((start.words line).append (.token rfl
      ((guard.words line).append (.token rfl (next.words line))))).parenthesized.append ih.braced)
  | define isName areNames inner ih =>
    refine .keyword (by decide) (.name isName ((AreWords.separated ?_).parenthesized.append
      ih.braced))
    intro ts mem
    obtain ⟨p, among, rfl⟩ := List.mem_map.mp mem
    exact .name (areNames p among) .nil
  | statements each ih => exact .statementTokens ih
  | block inner ih => exact ih
  | alone guard inner ih =>
    exact .keyword (by decide) ((guard.words line).parenthesized.append (ih.braced.append .nil))
  | otherwise guard inner isBranch last ihi ihl =>
    refine .keyword (by decide) ((guard.words line).parenthesized.append (ihi.braced.append
      (.keyword (by decide) ?_)))
    split
    · exact ihl.braced
    · exact ihl

end Tree

end Calculator
