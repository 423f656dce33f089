import Calculator.Proofs.Token.Spacing

set_option autoImplicit false

namespace Calculator.Lexer

variable {kind : Kind} {word l : List Char} {first : Char}

theorem tokens_lexeme (mem : word ∈ kind.words) (line : Position) :
    (reading word line false).tokens =
      [⟨kind, String.ofList (kind.textOf word), line⟩, .eof line] := by
  have longest := longest_of_spaced mem (.inl rfl)
  rw [List.append_nil] at longest
  obtain ⟨first, l, -, split, -⟩ := lexeme?_covers [] mem
  rw [List.append_nil] at split
  rw [split] at longest mem ⊢
  obtain ⟨found, -⟩ := longest.lexeme?
  obtain ⟨notBlank, notComment⟩ := not_skipped_of_lexeme? found
  have notEof : kind ≠ .eof := by
    rintro rfl
    cases mem
  rw [tokens_eq, next_of_lexeme? notBlank notComment found rfl]
  dsimp only
  rw [if_neg notEof]
  rfl

theorem lexeme?_minus (notMinus : first ≠ '-') (notEqual : first ≠ '=') (l : List Char) :
    lexeme? '-' (first :: l) = some ⟨.minus, ['-'], first :: l⟩ := by
  have noWord : word? '-' (first :: l) = none :=
    Option.isNone_iff_eq_none.mp (Option.isSome_eq_false_iff.mp (word?_isSome '-' (first :: l)))
  have single : Table.standard.byLexeme (String.singleton '-') = some .minus :=
    Table.standard_byLexeme_eq_some_iff.mpr rfl
  have longer : Kind.minus.follow = [.minusMinus, .minusEqual] :=
    (Kind.follow_eq rfl).trans (by decide +kernel)
  have none : Kind.minus.follow.find?
      (fun k => k.lexeme = some (String.ofList ['-', first])) = none := by
    rw [longer, List.find?_eq_none]
    intro k mem spelled
    have text := of_decide_eq_true spelled
    simp only [List.mem_cons, List.not_mem_nil, or_false] at mem
    rcases mem with rfl | rfl
    · have same : "--" = String.ofList ['-', first] := Option.some.inj text
      have chars := congrArg String.toList same
      exact notMinus (by simpa using chars.symm)
    · have same : "-=" = String.ofList ['-', first] := Option.some.inj text
      have chars := congrArg String.toList same
      exact notEqual (by simpa using chars.symm)
  rw [lexeme?, noWord, Option.none_or, operator?, single]
  simp only [Option.map_some, none]

theorem tokens_minus (notMinus : first ≠ '-') (notEqual : first ≠ '=') (l : List Char)
    (line : Position) : (reading ('-' :: first :: l) line false).tokens =
      ⟨.minus, "-", line⟩ :: (reading (first :: l) line false).tokens := by
  rw [tokens_eq, next_of_lexeme? rfl (by decide) (lexeme?_minus notMinus notEqual l) rfl]
  rfl

theorem tokens_signed (negative : Prop) [Decidable negative] (mem : word ∈ kind.words)
    (isWord : kind.isWord = true) (line : Position) :
    (reading ((if negative then ['-'] else []) ++ word) line false).tokens =
      (if negative then [⟨.minus, "-", line⟩] else []) ++
        [⟨kind, String.ofList (kind.textOf word), line⟩, .eof line] := by
  obtain ⟨first, l, -, split, starts, -⟩ := lexeme?_covers [] mem
  have notSign {sign : Char} (noWord : startsWord sign = false) : first ≠ sign := by
    rintro rfl
    rw [starts, isWord] at noWord
    cases noWord
  rw [List.append_nil] at split
  by_cases sign : negative
  · rw [if_pos sign, if_pos sign, List.singleton_append, split,
      tokens_minus (notSign (by decide)) (notSign (by decide)), ← split, tokens_lexeme mem]
    rfl
  · rw [if_neg sign, if_neg sign, List.nil_append, List.nil_append, tokens_lexeme mem]

theorem tokens_behind_zero (found : lexeme? '0' (first :: l) = some ⟨.int, ['0'], first :: l⟩)
    (starts : startsWord first = true) (notBlank : isBlank first = false) (line : Position) :
    (reading ('0' :: first :: l) line false).tokens =
      [⟨.int, String.ofList ['0'], line⟩, (unexpected first line).1, .eof line] := by
  have notComment : first ≠ '#' := by
    rintro rfl
    cases starts
  have clash : (startsWord '0' && startsWord first) = true := by rw [starts]; rfl
  rw [tokens_eq, next_of_lexeme? rfl (by decide) found rfl]
  dsimp only
  rw [if_neg (by simp), tokens_eq, next_of_refused notBlank notComment (.inl clash)]
  rfl

end Calculator.Lexer
