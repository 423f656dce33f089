import Calculator.Proofs.Token.Table
import Calculator.Proofs.Token.Words

set_option autoImplicit false

namespace Calculator

open Numeral (isDecimalDigit isOctalDigit isHexadecimalDigit)
open Words

namespace Lexer

/-- A lexeme is at least as long as a word in front of `rest`, and has the kind of the word if it is
no longer. -/
structure Covers (lexeme : Lexeme) (kind : Kind) (rest : List Char) : Prop where
  length : lexeme.rest.length ≤ rest.length
  kind : lexeme.rest.length = rest.length → lexeme.kind = kind

namespace Covers

variable {lexeme : Lexeme} {kind : Kind} {rest : List Char}

theorem of_lt (h : lexeme.rest.length < rest.length) : Covers lexeme kind rest :=
  ⟨h.le, fun e => absurd e h.ne⟩

theorem of_le {l : List Char} (h : Covers lexeme kind l) (shorter : l.length ≤ rest.length) :
    Covers lexeme kind rest := by
  refine ⟨h.length.trans shorter, fun e => h.kind ?_⟩
  have := h.length
  omega

end Covers

section
variable {u rest : List Char}

theorem length_dropWhile_append {p : Char → Bool} (h : ∀ c ∈ u, p c = true) :
    ((u ++ rest).dropWhile p).length ≤ rest.length := by
  rw [List.dropWhile_append_of_pos h]
  exact (List.dropWhile_suffix p).length_le

theorem dropWhile_stop {p : Char → Bool} {c : Char} (h : ∀ c ∈ u, p c = true) (hc : p c = false) :
    (u ++ c :: rest).dropWhile p = c :: rest := by
  rw [List.dropWhile_append_of_pos h, List.dropWhile_cons_of_neg (by simp [hc])]

theorem run_covers (kind : Kind) {accept : Char → Bool} (text : List Char)
    (h : ∀ c ∈ u, accept c = true) : Covers (run kind accept text (u ++ rest)) kind rest :=
  ⟨length_dropWhile_append h, fun _ => rfl⟩

theorem exponent_kind (text l : List Char) : (exponent text l).kind = .real := by
  unfold exponent
  split <;> rfl

theorem exponent_length_le (text l : List Char) : (exponent text l).rest.length ≤ l.length := by
  unfold exponent
  split
  · exact (run_length_le _ _ _ _).trans (Nat.le_succ _)
  · exact (run_length_le _ _ _ _).trans (Nat.le_succ _)
  · exact run_length_le _ _ _ _

theorem exponent_eq_run {c : Char} (text l : List Char) (h : isDecimalDigit c = true) :
    exponent text (c :: l) = run .real isDecimalDigit text (c :: l) := by
  unfold exponent
  split
  · rename_i e
    obtain ⟨rfl, -⟩ := List.cons.inj e
    exact absurd h (by decide)
  · rename_i e
    obtain ⟨rfl, -⟩ := List.cons.inj e
    exact absurd h (by decide)
  · rfl

theorem exponent_covers (text : List Char) (h : SignedDigits u) :
    Covers (exponent text (u ++ rest)) .real rest := by
  refine ⟨?_, fun _ => exponent_kind _ _⟩
  obtain ⟨s, v, rfl | rfl | rfl, hv, rfl⟩ := h
  · cases u with
    | nil => exact exponent_length_le _ _
    | cons d v =>
      have digit := hv d List.mem_cons_self
      change (exponent text (d :: (v ++ rest))).rest.length ≤ rest.length
      rw [exponent_eq_run _ _ digit]
      exact length_dropWhile_append hv
  · exact length_dropWhile_append hv
  · exact length_dropWhile_append hv

theorem fraction_kind (text l : List Char) : (fraction text l).kind = .real := by
  unfold fraction
  split
  · exact exponent_kind _ _
  · exact exponent_kind _ _
  · rfl

theorem fraction_length_le (text l : List Char) :
    (fraction text l).rest.length ≤ (l.dropWhile isDigitOrQuote).length := by
  unfold fraction
  split
  · rename_i e
    rw [e]
    exact (exponent_length_le _ _).trans (Nat.le_succ _)
  · rename_i e
    rw [e]
    exact (exponent_length_le _ _).trans (Nat.le_succ _)
  · exact Nat.le_refl _

theorem isDigitOrQuote_of_isMark {m : Char} (h : isMark m = true) : isDigitOrQuote m = false := by
  simp only [isMark, Bool.or_eq_true, beq_iff_eq] at h
  rcases h with rfl | rfl <;> rfl

theorem fraction_covers (text : List Char) (h : Fraction u) :
    Covers (fraction text (u ++ rest)) .real rest := by
  refine ⟨?_, fun _ => fraction_kind _ _⟩
  obtain ⟨v, e, hv, he, rfl⟩ := h
  rcases he with rfl | he
  · have short := fraction_length_le text (v ++ [] ++ rest)
    rw [List.append_nil] at short ⊢
    exact short.trans (length_dropWhile_append hv)
  · obtain ⟨m, w, hm, hw, rfl⟩ := mem_exponent.mp he
    have stop : (v ++ m :: w ++ rest).dropWhile isDigitOrQuote = m :: (w ++ rest) := by
      rw [List.append_assoc]
      exact dropWhile_stop hv (isDigitOrQuote_of_isMark hm)
    simp only [isMark, Bool.or_eq_true, beq_iff_eq] at hm
    unfold fraction
    rw [stop]
    rcases hm with rfl | rfl
    · exact (exponent_covers _ hw).length
    · exact (exponent_covers _ hw).length

theorem integer_covers (first : Char) (h : ∀ c ∈ u, isDigitOrQuote c = true) :
    Covers (integer first (u ++ rest)) .int rest := by
  suffices Covers (integer first (u ++ rest)) .int ((u ++ rest).dropWhile isDigitOrQuote) from
    this.of_le (length_dropWhile_append h)
  unfold integer
  split
  · rename_i after e
    rw [e]
    exact .of_lt (Nat.lt_succ_of_le
      ((fraction_length_le _ _).trans (List.dropWhile_suffix _).length_le))
  · rename_i after e
    rw [e]
    exact .of_lt (Nat.lt_succ_of_le (exponent_length_le _ _))
  · rename_i after e
    rw [e]
    exact .of_lt (Nat.lt_succ_of_le (exponent_length_le _ _))
  · rename_i after e
    rw [e]
    exact .of_lt (Nat.lt_succ_of_le (run_length_le _ _ _ _))
  · exact ⟨Nat.le_refl _, fun _ => rfl⟩

theorem run_lt {c : Char} (kind : Kind) {accept : Char → Bool} (text : List Char)
    (h : accept c = true) (l : List Char) :
    (run kind accept text (c :: l)).rest.length < (c :: l).length := by
  change ((c :: l).dropWhile accept).length < l.length + 1
  rw [List.dropWhile_cons_of_pos h]
  exact Nat.lt_succ_of_le (List.dropWhile_suffix _).length_le

theorem zero_covers (rest : List Char) : Covers (zero rest) .int rest := by
  unfold zero
  split
  · exact .of_lt (Nat.lt_succ_of_le (run_length_le _ _ _ _))
  · exact .of_lt (Nat.lt_succ_of_le (run_length_le _ _ _ _))
  · exact .of_lt (Nat.lt_succ_of_le
      ((fraction_length_le _ _).trans (List.dropWhile_suffix _).length_le))
  · exact .of_lt (Nat.lt_succ_of_le (run_length_le _ _ _ _))
  · split
    · rename_i octal
      exact .of_lt (run_lt _ _ octal _)
    · exact ⟨Nat.le_refl _, fun _ => rfl⟩
  · exact ⟨Nat.le_refl _, fun _ => rfl⟩

theorem zero_eq_run {c : Char} (hc : isOctalDigit c = true) (l : List Char) :
    zero (c :: l) = run .oct isOctalDigit ['0'] (c :: l) := by
  have other {d : Char} (hd : isOctalDigit d = false) {after : List Char}
      (e : c :: l = d :: after) : False := by
    obtain ⟨rfl, -⟩ := List.cons.inj e
    rw [hc] at hd
    cases hd
  unfold zero
  split
  iterate 4
    · rename_i e
      exact (other (by decide) e).elim
  · rename_i e
    obtain ⟨rfl, -⟩ := List.cons.inj e
    rw [if_pos hc]
  · rename_i e
    cases e

theorem integer_of_stop (first : Char) {c : Char} (hu : ∀ x ∈ u, isDigitOrQuote x = true)
    (hc : isDigitOrQuote c = false) :
    integer first (u ++ c :: rest) =
      let text := first :: digits (u ++ c :: rest)
      match c :: rest with
      | '.' :: after => fraction (text ++ ['.']) after
      | 'e' :: after => exponent (text ++ ['e']) after
      | 'E' :: after => exponent (text ++ ['E']) after
      | ':' :: after => time (text ++ [':']) after
      | after => ⟨.int, text, after⟩ := by
  unfold integer
  generalize dropped : (u ++ c :: rest).dropWhile isDigitOrQuote = after
  obtain rfl : after = c :: rest := dropped.symm.trans (dropWhile_stop hu hc)
  rfl

theorem word?_zero (l : List Char) : word? '0' l = some (zero l) := rfl

theorem word?_point (l : List Char) : word? '.' l = some (fraction ['.'] l) := rfl

theorem word?_dollar (l : List Char) : word? '$' l = some (run .date isDecimalDigit [] l) := rfl

theorem word?_positive {c : Char} (h : isPositiveDigit c = true) (l : List Char) :
    word? c l = some (integer c l) := by
  simp only [isPositiveDigit, Bool.and_eq_true, bne_iff_ne] at h
  unfold word?
  rw [if_neg h.2, if_pos h.1]

/-- The lexer finds a number or a name that covers the word in front of the rest. -/
def Finds (w rest : List Char) (kind : Kind) : Prop :=
  ∃ first l lexeme, w ++ rest = first :: l ∧ word? first l = some lexeme ∧ Covers lexeme kind rest

theorem finds_int (h : u ∈ Kind.int.words) : Finds u rest .int := by
  rcases mem_natural.mp h with rfl | ⟨c, v, hc, hv, rfl⟩
  · exact ⟨'0', rest, _, rfl, word?_zero rest, zero_covers rest⟩
  · exact ⟨c, v ++ rest, _, rfl, word?_positive hc _, integer_covers c hv⟩

theorem finds_hex (h : u ∈ Kind.hex.words) : Finds u rest .hex := by
  obtain ⟨m, v, hm, hv, rfl⟩ := mem_hex.mp h
  refine ⟨'0', m :: v ++ rest, _, rfl, word?_zero _, ?_⟩
  simp only [isHexMark, Bool.or_eq_true, beq_iff_eq] at hm
  rcases hm with rfl | rfl
  · exact run_covers .hex ['0', 'x'] hv
  · exact run_covers .hex ['0', 'X'] hv

theorem finds_oct (h : u ∈ Kind.oct.words) : Finds u rest .oct := by
  obtain ⟨c, v, hc, hv, rfl⟩ := mem_oct.mp h
  refine ⟨'0', c :: (v ++ rest), _, rfl, word?_zero _, ?_⟩
  rw [zero_eq_run hc]
  refine run_covers (u := c :: v) .oct ['0'] fun x hx => ?_
  rcases List.mem_cons.mp hx with rfl | hx
  · exact hc
  · exact hv x hx

theorem finds_date (h : u ∈ Kind.date.words) : Finds u rest .date := by
  obtain ⟨v, hv, rfl⟩ := mem_date.mp h
  exact ⟨'$', v ++ rest, _, rfl, word?_dollar _, run_covers .date [] hv⟩

theorem finds_time (h : u ∈ Kind.time.words) : Finds u rest .time := by
  obtain ⟨n, v, hn, hv, rfl⟩ := mem_time.mp h
  rcases mem_natural.mp hn with rfl | ⟨c, d, hc, hd, rfl⟩
  · exact ⟨'0', ':' :: (v ++ rest), _, rfl, word?_zero _, run_covers .time ['0', ':'] hv⟩
  · refine ⟨c, d ++ ':' :: (v ++ rest), _, by simp, word?_positive hc _, ?_⟩
    rw [integer_of_stop c hd rfl]
    exact run_covers .time _ hv

theorem finds_real (h : u ∈ Kind.real.words) : Finds u rest .real := by
  rcases mem_real.mp h with ⟨f, hf, rfl⟩ | ⟨n, f, hn, hf, rfl⟩ | ⟨c, d, e, hc, hd, he, rfl⟩
  · exact ⟨'.', f ++ rest, _, rfl, word?_point _, fraction_covers ['.'] hf⟩
  · rcases mem_natural.mp hn with rfl | ⟨c, d, hc, hd, rfl⟩
    · exact ⟨'0', '.' :: (f ++ rest), _, rfl, word?_zero _, fraction_covers ['0', '.'] hf⟩
    · refine ⟨c, d ++ '.' :: (f ++ rest), _, by simp, word?_positive hc _, ?_⟩
      rw [integer_of_stop c hd rfl]
      exact fraction_covers _ hf
  · obtain ⟨m, v, hm, hv, rfl⟩ := mem_exponent.mp he
    refine ⟨c, d ++ m :: (v ++ rest), _, by simp, word?_positive hc _, ?_⟩
    rw [integer_of_stop c hd (isDigitOrQuote_of_isMark hm)]
    simp only [isMark, Bool.or_eq_true, beq_iff_eq] at hm
    rcases hm with rfl | rfl
    · exact exponent_covers _ hv
    · exact exponent_covers _ hv

def startsWord (c : Char) : Bool :=
  isDecimalDigit c || c == '.' || c == '$' || Letter.startsName c

theorem word?_isSome (c : Char) (l : List Char) : (word? c l).isSome = startsWord c := by
  unfold word? startsWord
  split
  · rename_i h
    subst h
    rfl
  · split
    · rename_i h
      rw [h]
      rfl
    · split
      · rename_i h
        subst h
        rfl
      · split
        · rename_i h
          subst h
          rfl
        · split <;> simp_all

theorem startsName_of_isDecimalDigit {c : Char} (h : isDecimalDigit c = true) :
    Letter.startsName c = false := by
  have range : 48 ≤ c.toNat ∧ c.toNat ≤ 57 := by
    simpa [isDecimalDigit, Char.le_def, UInt32.le_iff_toNat_le] using h
  have notUpper : ¬ c.val ≥ 65 := by
    rw [ge_iff_le, UInt32.le_iff_toNat_le]
    change ¬ 65 ≤ c.toNat
    omega
  have notLower : ¬ c.val ≥ 97 := by
    rw [ge_iff_le, UInt32.le_iff_toNat_le]
    change ¬ 97 ≤ c.toNat
    omega
  have notAlpha : c.isAlpha = false := by
    change (decide (c.val ≥ 65 ∧ c.val ≤ 90) || decide (c.val ≥ 97) && decide (c.val ≤ 122)) = false
    rw [decide_eq_false fun upper => notUpper upper.1, decide_eq_false notLower]
    rfl
  have notUnderscore : (c == '_') = false := by
    refine beq_eq_false_iff_ne.mpr ?_
    rintro rfl
    exact absurd range.2 (by decide)
  unfold Letter.startsName Letter.isAlphabetic
  rw [notUnderscore, if_pos (by omega), notAlpha]
  rfl

theorem word?_name {c : Char} (h : Letter.startsName c = true) (l : List Char) :
    word? c l = some (Lexer.name c l) := by
  have notDigit : ¬ isDecimalDigit c = true := by
    intro digit
    rw [startsName_of_isDecimalDigit digit] at h
    cases h
  have other {d : Char} (hd : Letter.startsName d = false) : c ≠ d := by
    rintro rfl
    rw [hd] at h
    cases h
  unfold word?
  rw [if_neg (other (by decide)), if_neg notDigit, if_neg (other (by decide)),
    if_neg (other (by decide)), if_pos h]

def nameKind (w : List Char) : Kind :=
  if Token.isKeyword (String.ofList w) then .keyword else .symbol

theorem name_eq (first : Char) (l : List Char) :
    Lexer.name first l =
      ⟨nameKind (first :: l.takeWhile Letter.continuesName),
        first :: l.takeWhile Letter.continuesName, l.dropWhile Letter.continuesName⟩ := by
  unfold Lexer.name nameKind
  change (if Token.isKeyword (String.ofList (first :: l.takeWhile Letter.continuesName)) then _
    else _) = _
  split <;> rfl

theorem finds_name (rest : List Char) (h : u ∈ Words.name) : Finds u rest (nameKind u) := by
  obtain ⟨c, v, hc, hv, rfl⟩ := mem_name.mp h
  refine ⟨c, v ++ rest, _, rfl, word?_name hc _, ?_⟩
  rw [name_eq, List.takeWhile_append_of_pos hv, List.dropWhile_append_of_pos hv]
  refine ⟨(List.dropWhile_suffix _).length_le, fun same => ?_⟩
  have whole := (List.dropWhile_suffix Letter.continuesName).eq_of_length same
  have none : rest.takeWhile Letter.continuesName = [] := by
    have split := List.takeWhile_append_dropWhile (p := Letter.continuesName) (l := rest)
    rw [whole] at split
    exact List.append_left_eq_self.mp split
  change nameKind _ = _
  rw [none, List.append_nil]

def isOperator : List Char → Bool
  | [c] => !startsWord c
  | [c, _] => !startsWord c && Kind.all.any fun k => k.lexeme = some (String.singleton c)
  | _ => false

theorem isOperator_lexeme (kind : Kind) :
    kind.lexeme.all (fun s => isOperator s.toList) = true := by
  cases kind <;> decide +kernel

theorem find?_follow {c d : Char} {short long : Kind}
    (first : short.lexeme = some (String.singleton c))
    (both : long.lexeme = some (String.ofList [c, d])) :
    short.follow.find? (fun k => k.lexeme = some (String.ofList [c, d])) = some long := by
  have follows : long ∈ short.follow := by
    rw [Kind.follow_eq first, List.mem_filter, both, Option.any_some, Table.properlyExtends_iff,
      String.toList_singleton, String.toList_ofList]
    refine ⟨long.mem_all, List.prefix_append [c] [d], fun same => ?_⟩
    have chars := congrArg String.toList same
    rw [String.toList_singleton, String.toList_ofList] at chars
    cases chars
  cases found : short.follow.find? fun k => k.lexeme = some (String.ofList [c, d]) with
  | none => exact absurd (decide_eq_true both) (List.find?_eq_none.mp found long follows)
  | some k =>
    have spelled := List.find?_some found
    rw [Kind.eq_of_lexeme_eq (of_decide_eq_true spelled) both]

def lexeme? (first : Char) (l : List Char) : Option Lexeme :=
  (word? first l).or (operator? first l)

section
variable {c d : Char} {short : Kind}
  (first : Table.standard.byLexeme (String.singleton c) = some short)
include first

theorem operator?_of_long {long : Kind}
    (second : short.follow.find? (fun k => k.lexeme = some (String.ofList [c, d])) = some long) :
    operator? c (d :: rest) = some ⟨long, [c, d], rest⟩ := by
  unfold operator?
  rw [first, Option.map_some]
  simp only [second]

theorem operator?_of_short
    (alone : short.follow.find? (fun k => k.lexeme = some (String.ofList [c, d])) = none) :
    operator? c (d :: rest) = some ⟨short, [c], d :: rest⟩ := by
  unfold operator?
  rw [first, Option.map_some]
  simp only [alone]

theorem operator?_nil : operator? c [] = some ⟨short, [c], []⟩ := by
  unfold operator?
  rw [first, Option.map_some]

end

theorem operator?_covers {kind : Kind} (h : kind.lexeme = some (String.ofList u)) :
    ∃ first l lexeme, u ++ rest = first :: l ∧ startsWord first = false ∧
      operator? first l = some lexeme ∧ Covers lexeme kind rest := by
  have found := isOperator_lexeme kind
  rw [h, Option.all_some, String.toList_ofList] at found
  unfold isOperator at found
  split at found
  · rename_i c
    have notWord : startsWord c = false := (Bool.not_eq_true' _).mp found
    have first := Table.standard_byLexeme_eq_some_iff.mpr h
    rw [← String.singleton_eq_ofList] at first
    cases rest with
    | nil =>
      exact ⟨c, [], _, rfl, notWord, operator?_nil first, Nat.le_refl _, fun _ => rfl⟩
    | cons d after =>
      cases second : kind.follow.find? fun k => k.lexeme = some (String.ofList [c, d]) with
      | some long =>
        exact ⟨c, d :: after, _, rfl, notWord, operator?_of_long first second,
          .of_lt (Nat.lt_succ_self _)⟩
      | none =>
        exact ⟨c, d :: after, _, rfl, notWord, operator?_of_short first second,
          Nat.le_refl _, fun _ => rfl⟩
  · rename_i c d
    simp only [Bool.and_eq_true, Bool.not_eq_true', List.any_eq_true, decide_eq_true_eq] at found
    obtain ⟨notWord, short, -, first⟩ := found
    exact ⟨c, d :: rest, _, rfl, notWord,
      operator?_of_long (Table.standard_byLexeme_eq_some_iff.mpr first) (find?_follow first h),
      Nat.le_refl _, fun _ => rfl⟩
  · cases found

/-- The lexer takes a lexeme that covers the word in front of the rest, and its first character
tells whether a number or a name is looked for. -/
def Covered (w rest : List Char) (kind : Kind) : Prop :=
  ∃ first l lexeme, w ++ rest = first :: l ∧ startsWord first = kind.isWord ∧
    lexeme? first l = some lexeme ∧ Covers lexeme kind rest

section
variable {kind : Kind}

theorem Finds.covered (found : Finds u rest kind) (isWord : kind.isWord = true) :
    Covered u rest kind := by
  obtain ⟨first, l, lexeme, split, word, covers⟩ := found
  refine ⟨first, l, lexeme, split, ?_, ?_, covers⟩
  · rw [isWord, ← word?_isSome first l, word, Option.isSome_some]
  · rw [lexeme?, word, Option.some_or]

theorem covered_of_spelling (spelling : kind.lexeme = some (String.ofList u))
    (isWord : kind.isWord = false) : Covered u rest kind := by
  obtain ⟨first, l, lexeme, split, notWord, operator, covers⟩ := operator?_covers spelling
  -- No number and no name starts like a fixed spelling, so the operators are looked through.
  have noWord : word? first l = none := by
    rw [← Option.not_isSome_iff_eq_none, word?_isSome, notWord]
    exact Bool.false_ne_true
  refine ⟨first, l, lexeme, split, ?_, ?_, covers⟩
  · rw [notWord, isWord]
  · rw [lexeme?, noWord, Option.none_or, operator]

/-- Whatever word stands in front of the input, the lexer takes one that covers it. -/
theorem lexeme?_covers (rest : List Char) (h : u ∈ kind.words) : Covered u rest kind := by
  cases kind with
  | int => exact (finds_int h).covered rfl
  | hex => exact (finds_hex h).covered rfl
  | oct => exact (finds_oct h).covered rfl
  | real => exact (finds_real h).covered rfl
  | time => exact (finds_time h).covered rfl
  | date => exact (finds_date h).covered rfl
  | symbol =>
    have found := finds_name rest h.1
    rw [show nameKind u = .symbol from if_neg (by rw [h.2]; exact Bool.false_ne_true)] at found
    exact found.covered rfl
  | keyword =>
    have found := finds_name rest h.1
    rw [show nameKind u = .keyword from if_pos h.2] at found
    exact found.covered rfl
  | _ => exact covered_of_spelling h rfl

end

end

end Lexer

end Calculator
