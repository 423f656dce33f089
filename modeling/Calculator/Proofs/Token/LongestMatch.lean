import Calculator.Proofs.Token.Covering

set_option autoImplicit false

/-!
# Longest match

The lexeme that the lexer takes from the front of the input is the longest word in front of it, and
its kind is the only one that this word has (`Lexer.longest_iff`).
-/
namespace Calculator

open Numeral (isDecimalDigit isOctalDigit isHexadecimalDigit)
open Words

def unquoted (w : List Char) : List Char :=
  w.filter (· != '\'')

/-- What a token of a kind keeps of its word: quotes do not count, nor does the sign of a date. -/
def Kind.textOf (kind : Kind) (w : List Char) : List Char :=
  unquoted (if kind = .date then w.drop 1 else w)

namespace Lexer

/-- The lexeme was taken from the front of the input as a word of its kind. -/
def Takes (lexeme : Lexeme) (input : List Char) : Prop :=
  ∃ w, input = w ++ lexeme.rest ∧ w ∈ lexeme.kind.words ∧ lexeme.text = lexeme.kind.textOf w

section
variable {first : Char} {l text : List Char}

theorem unquoted_cons {c : Char} (h : c ≠ '\'') (w : List Char) :
    unquoted (c :: w) = c :: unquoted w :=
  List.filter_cons_of_pos (bne_iff_ne.mpr h)

theorem ne_quote {p : Char → Bool} {c : Char} (h : p c = true) (quote : p '\'' = false) :
    c ≠ '\'' := by
  rintro rfl
  rw [h] at quote
  cases quote

theorem unquoted_append (u v : List Char) : unquoted (u ++ v) = unquoted u ++ unquoted v :=
  List.filter_append ..

theorem unquoted_eq_self {u : List Char} {p : Char → Bool} (h : ∀ c ∈ u, p c = true)
    (quote : p '\'' = false) : unquoted u = u := by
  exact List.filter_eq_self.mpr fun c hc => bne_iff_ne.mpr (ne_quote (h c hc) quote)

theorem unquoted_signedDigits {u : List Char} (h : SignedDigits u) : unquoted u = u := by
  obtain ⟨s, v, hs, hv, rfl⟩ := h
  rw [unquoted_append, unquoted_eq_self hv rfl]
  rcases hs with rfl | rfl | rfl <;> rfl

theorem takeWhile_all (p : Char → Bool) (l : List Char) : ∀ c ∈ l.takeWhile p, p c = true :=
  List.all_eq_true.mp List.all_takeWhile

theorem exponent_takes (text l : List Char) :
    ∃ u, l = u ++ (exponent text l).rest ∧ SignedDigits u ∧ (exponent text l).text = text ++ u := by
  have digits (l : List Char) : l = l.takeWhile isDecimalDigit ++ l.dropWhile isDecimalDigit :=
    List.takeWhile_append_dropWhile.symm
  unfold exponent
  split
  · rename_i after
    refine ⟨'+' :: after.takeWhile isDecimalDigit, congrArg (List.cons '+') (digits after), ?_, ?_⟩
    · exact ⟨['+'], _, .inr (.inl rfl), takeWhile_all _ _, rfl⟩
    · exact List.append_assoc _ _ _
  · rename_i after
    refine ⟨'-' :: after.takeWhile isDecimalDigit, congrArg (List.cons '-') (digits after), ?_, ?_⟩
    · exact ⟨['-'], _, .inr (.inr rfl), takeWhile_all _ _, rfl⟩
    · exact List.append_assoc _ _ _
  · exact ⟨l.takeWhile isDecimalDigit, digits l, ⟨[], _, .inl rfl, takeWhile_all _ _, rfl⟩, rfl⟩

theorem fraction_takes (text l : List Char) :
    ∃ u, l = u ++ (fraction text l).rest ∧ Fraction u ∧
      (fraction text l).text = text ++ unquoted u := by
  have split : l = l.takeWhile isDigitOrQuote ++ l.dropWhile isDigitOrQuote :=
    List.takeWhile_append_dropWhile.symm
  have whole := takeWhile_all isDigitOrQuote l
  have marked (m : Char) (hm : isMark m = true) (after : List Char)
      (e : l.dropWhile isDigitOrQuote = m :: after) :
      ∃ u, l = u ++ (exponent (text ++ digits l ++ [m]) after).rest ∧ Fraction u ∧
        (exponent (text ++ digits l ++ [m]) after).text = text ++ unquoted u := by
    obtain ⟨u, hu, signed, same⟩ := exponent_takes (text ++ digits l ++ [m]) after
    refine ⟨l.takeWhile isDigitOrQuote ++ m :: u, ?_, ?_, ?_⟩
    · rw [List.append_assoc, List.cons_append, ← hu, ← e]
      exact split
    · exact ⟨_, m :: u, whole, .inr (mem_exponent.mpr ⟨m, u, hm, signed, rfl⟩), rfl⟩
    · rw [same, unquoted_append, unquoted_cons (ne_quote hm rfl), unquoted_signedDigits signed]
      simp only [digits, unquoted, List.append_assoc, List.singleton_append]
  unfold fraction
  split
  · rename_i after e
    exact marked 'e' rfl after e
  · rename_i after e
    exact marked 'E' rfl after e
  · refine ⟨l.takeWhile isDigitOrQuote, split, ⟨_, [], whole, .inl rfl, ?_⟩, rfl⟩
    rw [List.append_nil]

theorem run_takes (kind : Kind) (accept : Char → Bool) (text l : List Char) :
    ∃ u, l = u ++ (run kind accept text l).rest ∧ (∀ c ∈ u, accept c = true) ∧
      (run kind accept text l).text = text ++ u :=
  ⟨l.takeWhile accept, List.takeWhile_append_dropWhile.symm, takeWhile_all _ _, rfl⟩

section
variable {n : List Char}

theorem fraction_takes_real (hn : n = [] ∨ n ∈ Words.natural) (after : List Char) :
    Takes (fraction (unquoted n ++ ['.']) after) (n ++ '.' :: after) := by
  obtain ⟨u, hu, f, text⟩ := fraction_takes (unquoted n ++ ['.']) after
  rw [Takes, fraction_kind]
  refine ⟨n ++ '.' :: u, ?_, ?_, ?_⟩
  · rw [List.append_assoc, List.cons_append, ← hu]
  · rcases hn with rfl | hn
    · exact mem_real.mpr (.inl ⟨u, f, rfl⟩)
    · exact mem_real.mpr (.inr (.inl ⟨n, u, hn, f, rfl⟩))
  · change _ = unquoted (n ++ '.' :: u)
    rw [text, unquoted_append, unquoted_cons (by decide), List.append_assoc]
    rfl

theorem exponent_takes_real {m : Char} (positive : isPositiveDigit first = true)
    (hn : ∀ c ∈ n, isDigitOrQuote c = true) (hm : isMark m = true) (after : List Char) :
    Takes (exponent (unquoted (first :: n) ++ [m]) after) (first :: n ++ m :: after) := by
  obtain ⟨u, hu, signed, text⟩ := exponent_takes (unquoted (first :: n) ++ [m]) after
  rw [Takes, exponent_kind]
  refine ⟨first :: (n ++ m :: u), ?_, ?_, ?_⟩
  · rw [List.cons_append, List.cons_append, List.append_assoc, List.cons_append, ← hu]
  · exact mem_real.mpr (.inr (.inr ⟨first, n, m :: u, positive, hn,
      mem_exponent.mpr ⟨m, u, hm, signed, rfl⟩, rfl⟩))
  · change _ = unquoted (first :: n ++ m :: u)
    rw [text, unquoted_append, unquoted_cons (ne_quote hm rfl), unquoted_signedDigits signed,
      List.append_assoc]
    rfl

theorem run_takes_time (hn : n ∈ Words.natural) (after : List Char) :
    Takes (run .time isDigitOrColon (unquoted n ++ [':']) after) (n ++ ':' :: after) := by
  obtain ⟨u, hu, colons, text⟩ := run_takes .time isDigitOrColon (unquoted n ++ [':']) after
  refine ⟨n ++ ':' :: u, ?_, mem_time.mpr ⟨n, u, hn, colons, rfl⟩, ?_⟩
  · rw [List.append_assoc, List.cons_append, ← hu]
  · change _ = unquoted (n ++ ':' :: u)
    rw [text, unquoted_append, unquoted_cons (by decide), unquoted_eq_self colons rfl,
      List.append_assoc]
    rfl

theorem run_takes_hex {m : Char} (hm : isHexMark m = true) (after : List Char) :
    Takes (run .hex isHexadecimalDigit ['0', m] after) ('0' :: m :: after) := by
  obtain ⟨u, hu, digits, text⟩ := run_takes .hex isHexadecimalDigit ['0', m] after
  refine ⟨'0' :: m :: u, ?_, mem_hex.mpr ⟨m, u, hm, digits, rfl⟩, ?_⟩
  · exact congrArg (fun r => '0' :: m :: r) hu
  · change _ = unquoted ('0' :: m :: u)
    rw [text, unquoted_cons (by decide), unquoted_cons (ne_quote hm rfl),
      unquoted_eq_self digits rfl]
    rfl

theorem run_takes_oct {c : Char} (octal : isOctalDigit c = true) (after : List Char) :
    Takes (run .oct isOctalDigit ['0'] (c :: after)) ('0' :: c :: after) := by
  obtain ⟨u, hu, digits, text⟩ := run_takes .oct isOctalDigit ['0', c] after
  have same : run .oct isOctalDigit ['0'] (c :: after) = run .oct isOctalDigit ['0', c] after := by
    unfold run
    rw [List.takeWhile_cons_of_pos octal, List.dropWhile_cons_of_pos octal]
    rfl
  rw [same]
  refine ⟨'0' :: c :: u, ?_, mem_oct.mpr ⟨c, u, octal, digits, rfl⟩, ?_⟩
  · exact congrArg (fun r => '0' :: c :: r) hu
  · change _ = unquoted ('0' :: c :: u)
    rw [text, unquoted_cons (by decide), unquoted_cons (ne_quote octal rfl),
      unquoted_eq_self digits rfl]
    rfl

end

theorem zero_takes (l : List Char) : Takes (zero l) ('0' :: l) := by
  have natural : ['0'] ∈ Words.natural := mem_natural.mpr (.inl rfl)
  unfold zero
  split
  · exact run_takes_hex rfl _
  · exact run_takes_hex rfl _
  · exact fraction_takes_real (.inr natural) _
  · exact run_takes_time natural _
  · split
    · rename_i octal
      exact run_takes_oct octal _
    · exact ⟨['0'], rfl, natural, rfl⟩
  · exact ⟨['0'], rfl, natural, rfl⟩

theorem integer_takes (positive : isPositiveDigit first = true) (l : List Char) :
    Takes (integer first l) (first :: l) := by
  have split : l = l.takeWhile isDigitOrQuote ++ l.dropWhile isDigitOrQuote :=
    List.takeWhile_append_dropWhile.symm
  have whole := takeWhile_all isDigitOrQuote l
  have natural : first :: l.takeWhile isDigitOrQuote ∈ Words.natural :=
    mem_natural.mpr (.inr ⟨first, _, positive, whole, rfl⟩)
  -- What the number goes on with is decided by the character behind its digits.
  have kept : unquoted (first :: l.takeWhile isDigitOrQuote) = first :: digits l :=
    unquoted_cons (ne_quote positive rfl) _
  have rebuilt {m : Char} {after : List Char} (e : l.dropWhile isDigitOrQuote = m :: after) :
      first :: l.takeWhile isDigitOrQuote ++ m :: after = first :: l := by
    rw [← e, List.cons_append, ← split]
  unfold integer
  split
  · rename_i after e
    rw [← rebuilt e, ← kept]
    exact fraction_takes_real (.inr natural) after
  · rename_i after e
    rw [← rebuilt e, ← kept]
    exact exponent_takes_real positive whole rfl after
  · rename_i after e
    rw [← rebuilt e, ← kept]
    exact exponent_takes_real positive whole rfl after
  · rename_i after e
    rw [← rebuilt e, ← kept]
    exact run_takes_time natural after
  · exact ⟨_, congrArg (List.cons first) split, natural, kept.symm⟩

theorem name_takes (starts : Letter.startsName first = true) (l : List Char) :
    Takes (name first l) (first :: l) := by
  have split : l = l.takeWhile Letter.continuesName ++ l.dropWhile Letter.continuesName :=
    List.takeWhile_append_dropWhile.symm
  have all := takeWhile_all Letter.continuesName l
  have word : first :: l.takeWhile Letter.continuesName ∈ Words.name :=
    mem_name.mpr ⟨first, _, starts, all, rfl⟩
  have plain : unquoted (first :: l.takeWhile Letter.continuesName) =
      first :: l.takeWhile Letter.continuesName := by
    rw [unquoted_cons (ne_quote starts (by decide)), unquoted_eq_self all (by decide)]
  rw [name_eq]
  refine ⟨first :: l.takeWhile Letter.continuesName, congrArg (List.cons first) split, ?_, ?_⟩
  · change _ ∈ (nameKind _).words
    unfold nameKind
    split_ifs with keyword
    · exact ⟨word, keyword⟩
    · exact ⟨word, Bool.eq_false_iff.mpr keyword⟩
  · change _ = (nameKind _).textOf _
    unfold nameKind
    split_ifs
    · exact plain.symm
    · exact plain.symm

theorem word?_takes {lexeme : Lexeme} (h : word? first l = some lexeme) :
    Takes lexeme (first :: l) := by
  unfold word? at h
  split_ifs at h with isZero isDigit isPoint isDollar isName
  · rw [← Option.some.inj h, isZero]
    exact zero_takes l
  · rw [← Option.some.inj h]
    refine integer_takes ?_ l
    unfold isPositiveDigit
    rw [isDigit, bne_iff_ne.mpr isZero]
    rfl
  · rw [← Option.some.inj h, isPoint]
    exact fraction_takes_real (.inl rfl) l
  · obtain ⟨u, hu, digits, text⟩ := run_takes .date isDecimalDigit [] l
    rw [← Option.some.inj h, isDollar]
    refine ⟨'$' :: u, congrArg (List.cons '$') hu, mem_date.mpr ⟨u, digits, rfl⟩, ?_⟩
    change _ = unquoted u
    rw [unquoted_eq_self digits rfl]
    exact text
  · rw [← Option.some.inj h]
    exact name_takes isName l

theorem spelled_takes {kind : Kind} {w : List Char} (h : kind.lexeme = some (String.ofList w))
    (l : List Char) : Takes ⟨kind, w, l⟩ (w ++ l) := by
  have noQuote (k : Kind) : k.lexeme.all (fun s => s.toList.all (· != '\'')) = true := by
    cases k <;> decide +kernel
  have plain : unquoted w = w := by
    have all := noQuote kind
    rw [h, Option.all_some, String.toList_ofList, List.all_eq_true] at all
    exact List.filter_eq_self.mpr all
  refine ⟨w, rfl, ?_, ?_⟩
  · cases kind <;> first | exact h | cases h
  · cases kind <;> first | exact plain.symm | cases h

theorem operator?_takes {lexeme : Lexeme} (h : operator? first l = some lexeme) :
    Takes lexeme (first :: l) := by
  obtain ⟨short, found, rfl⟩ := Option.map_eq_some_iff.mp h
  have single : short.lexeme = some (String.ofList [first]) :=
    Table.standard_byLexeme_eq_some_iff.mp found
  split
  · exact spelled_takes single []
  · rename_i second after
    dsimp only
    split
    · rename_i long follows
      have spelled := List.find?_some follows
      exact spelled_takes (of_decide_eq_true spelled) after
    · exact spelled_takes single (second :: after)

theorem lexeme?_takes {lexeme : Lexeme} (h : lexeme? first l = some lexeme) :
    Takes lexeme (first :: l) := by
  rcases Option.or_eq_some_iff.mp h with word | ⟨-, operator⟩
  · exact word?_takes word
  · exact operator?_takes operator

end

/-- The word of the kind stands in front of the input, and no word of any kind there is longer. -/
structure Longest (input : List Char) (kind : Kind) (word rest : List Char) : Prop where
  split : input = word ++ rest
  mem : word ∈ kind.words
  longest : ∀ other w after, input = w ++ after → w ∈ Kind.words other → w.length ≤ word.length

section
variable {first : Char} {l word rest : List Char} {kind : Kind}

theorem longest_of_lexeme? {lexeme : Lexeme} (h : lexeme? first l = some lexeme) :
    ∃ w, Longest (first :: l) lexeme.kind w lexeme.rest ∧ lexeme.text = lexeme.kind.textOf w := by
  obtain ⟨word, split, mem, text⟩ := lexeme?_takes h
  refine ⟨word, ⟨split, mem, fun other w after split' mem' => ?_⟩, text⟩
  obtain ⟨first', l', lexeme', same, -, found, covers⟩ := lexeme?_covers after mem'
  obtain ⟨rfl, rfl⟩ := List.cons.inj (split'.trans same)
  rw [h] at found
  obtain rfl := Option.some.inj found
  have lengths := congrArg List.length (split.symm.trans split')
  simp only [List.length_append] at lengths
  have := covers.length
  omega

theorem Longest.lexeme? (h : Longest (first :: l) kind word rest) :
    lexeme? first l = some ⟨kind, kind.textOf word, rest⟩ ∧ startsWord first = kind.isWord := by
  obtain ⟨first', l', lexeme, same, starts, found, covers⟩ := lexeme?_covers rest h.mem
  obtain ⟨rfl, rfl⟩ := List.cons.inj (h.split.trans same)
  obtain ⟨w, split, mem, text⟩ := lexeme?_takes found
  have shorter := h.longest _ w _ split mem
  have whole := split.symm.trans h.split
  have lengths := congrArg List.length whole
  simp only [List.length_append] at lengths
  have atMost := covers.length
  have sameLength : w.length = word.length := by omega
  obtain ⟨rfl, sameRest⟩ := List.append_inj whole sameLength
  have sameKind := covers.kind (congrArg List.length sameRest)
  refine ⟨?_, starts⟩
  rw [found, ← sameKind, ← sameRest, ← text]

end

end Lexer

end Calculator
