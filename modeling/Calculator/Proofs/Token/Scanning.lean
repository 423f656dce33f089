import Calculator.Proofs.Text.Decoding
import Calculator.Proofs.Token.LongestMatch

set_option autoImplicit false

namespace Calculator.Lexer

def budget (l : Lexer) : Nat :=
  l.rest.length + if l.failure.isSome then 2 else 1

theorem skipBlanks_length_le (l : List Char) (comment glued : Bool) (line : Position) :
    (skipBlanks comment glued line l).1.length ≤ l.length := by
  induction l generalizing comment glued line with
  | nil => exact Nat.le_refl _
  | cons c l ih =>
    unfold skipBlanks
    split_ifs
    · exact (ih _ _ _).trans (Nat.le_succ _)
    · exact (ih _ _ _).trans (Nat.le_succ _)
    · exact (ih _ _ _).trans (Nat.le_succ _)
    · exact Nat.le_refl _

theorem lexeme?_length_le {first : Char} {l : List Char} {lexeme : Lexeme}
    (h : lexeme? first l = some lexeme) : lexeme.rest.length ≤ l.length := by
  obtain ⟨word, split, mem, -⟩ := lexeme?_takes h
  obtain ⟨_, _, _, nonempty, -⟩ := lexeme?_covers [] mem
  cases word with
  | nil => cases nonempty
  | cons c word =>
    have lengths := congrArg List.length split
    simp only [List.length_append, List.length_cons] at lengths
    omega

theorem ended_budget (line : Position) : (ended line).budget = 1 := rfl

theorem budget_pos (l : Lexer) : 0 < l.budget := by
  unfold budget
  split <;> omega

theorem ended_budget_lt {l : Lexer} (h : 0 < l.rest.length) (line : Position) :
    (ended line).budget < l.budget := by
  rw [ended_budget, budget]
  split <;> omega

theorem accept_budget_lt {l : Lexer} {lexeme : Lexeme}
    (shorter : lexeme.rest.length < l.rest.length) (line : Position) (isWord : Bool) :
    (l.accept line lexeme isWord).2.budget < l.budget := by
  have taken : budget ⟨lexeme.rest, l.failure, line, isWord⟩ < l.budget :=
    Nat.add_lt_add_right shorter _
  have stopped := ended_budget_lt (Nat.zero_lt_of_lt shorter) line
  unfold accept
  dsimp only
  split
  · split
    · exact stopped
    · exact taken
  · exact taken

theorem next_budget_lt (l : Lexer) (h : l.next.1.kind ≠ .eof) : l.next.2.budget < l.budget := by
  have shorter := skipBlanks_length_le l.rest false l.glued l.line
  unfold next at h ⊢
  generalize skipBlanks false l.glued l.line l.rest = skipped at shorter h ⊢
  obtain ⟨input, line, glued⟩ := skipped
  cases input with
  | nil =>
    cases failure : l.failure with
    | none => exact absurd (by rw [failure]; rfl) h
    | some e =>
      change (ended line).budget < l.budget
      rw [ended_budget, budget, failure, Option.isSome_some, if_pos rfl]
      omega
  | cons c rest =>
    rw [List.length_cons] at shorter
    -- After an error nothing is left to be read, and a lexeme has a character at least.
    have stopped := ended_budget_lt (l := l) (by omega) line
    have taken (lexeme : Lexeme) (found : lexeme? c rest = some lexeme) :
        lexeme.rest.length < l.rest.length := by
      have := lexeme?_length_le found
      omega
    dsimp only
    cases word : word? c rest with
    | some lexeme =>
      have found : lexeme? c rest = some lexeme := by
        rw [lexeme?, word, Option.some_or]
      cases glued with
      | true => exact stopped
      | false => exact accept_budget_lt (taken lexeme found) line true
    | none =>
      cases operator : operator? c rest with
      | some lexeme =>
        have found : lexeme? c rest = some lexeme := by
          rw [lexeme?, word, Option.none_or, operator]
        exact accept_budget_lt (taken lexeme found) line false
      | none => exact stopped

theorem tokensFrom_eq {m n : Nat} {l : Lexer} (hm : l.budget ≤ m) (hn : l.budget ≤ n) :
    tokensFrom m l = tokensFrom n l := by
  have positive := l.budget_pos
  induction m generalizing n l with
  | zero => omega
  | succ m ih =>
    obtain ⟨n, rfl⟩ := Nat.exists_eq_succ_of_ne_zero (Nat.ne_of_gt (positive.trans_le hn))
    unfold tokensFrom
    dsimp only
    by_cases last : l.next.1.kind = .eof
    · rw [if_pos last, if_pos last]
    · have less := next_budget_lt l last
      have here : l.next.2.budget ≤ m := by omega
      have there : l.next.2.budget ≤ n := by omega
      rw [if_neg last, if_neg last, ih here there (budget_pos _)]

theorem tokens_eq (l : Lexer) :
    l.tokens = l.next.1 :: if l.next.1.kind = .eof then [] else l.next.2.tokens := by
  have enough (l : Lexer) : l.budget ≤ l.rest.length + 2 := by
    unfold budget
    split <;> omega
  unfold tokens
  rw [tokensFrom]
  dsimp only
  by_cases last : l.next.1.kind = .eof
  · rw [if_pos last, if_pos last]
  · have less := next_budget_lt l last
    have bound := enough l
    rw [if_neg last, if_neg last, tokensFrom_eq (by omega) (enough l.next.2)]

def spellings (l : Lexer) : List (Kind × String) :=
  l.tokens.map fun t => (t.kind, t.text)

theorem spellings_eq_of_next_eq {l l' : Lexer} (h : l.next = l'.next) :
    l.spellings = l'.spellings := by
  unfold spellings
  rw [tokens_eq l, tokens_eq l', h]

theorem spellings_of_next {l l' : Lexer} {t : Token} (h : l.next = (t, l'))
    (notEof : t.kind ≠ .eof) :
    l.spellings = (t.kind, t.text) :: l'.spellings := by
  unfold spellings
  rw [tokens_eq l, h]
  dsimp only
  rw [if_neg notEof, List.map_cons]

def isBlank (c : Char) : Bool :=
  c == ' ' || c == '\t' || c == '\r' || c == '\n'

def refused (c : Char) : List (Kind × String) :=
  [(.error, "unexpected character '" ++ Escape.escape c ++ "'"), (.eof, "")]

/-- The input is spelled so. The flag says whether a number, a date, a time or a name ends right in
front of it; what is skipped keeps words apart. -/
inductive Scans : Bool → List Char → List (Kind × String) → Prop where
  | finish {glued : Bool} : Scans glued [] [(.eof, "")]
  | blank {glued : Bool} {c : Char} {rest : List Char} {out : List (Kind × String)}
      (isBlank : isBlank c = true) (more : Scans false rest out) : Scans glued (c :: rest) out
  | comment {glued : Bool} {rest : List Char} {out : List (Kind × String)}
      (more : Scans false (rest.dropWhile (· != '\n')) out) : Scans glued ('#' :: rest) out
  | token {glued : Bool} {first : Char} {l word rest : List Char} {kind : Kind}
      {out : List (Kind × String)} (longest : Longest (first :: l) kind word rest)
      (apart : (glued && startsWord first) = false) (more : Scans kind.isWord rest out) :
      Scans glued (first :: l) ((kind, String.ofList (kind.textOf word)) :: out)
  | clash {first : Char} {l : List Char} (starts : startsWord first = true) :
      Scans true (first :: l) (refused first)
  | unknown {glued : Bool} {first : Char} {l : List Char} (notBlank : isBlank first = false)
      (notComment : first ≠ '#')
      (none : ∀ kind word rest, first :: l = word ++ rest → word ∉ Kind.words kind) :
      Scans glued (first :: l) (refused first)

section
variable {glued : Bool} {line : Position} {first : Char} {l : List Char}

theorem skipBlanks_blank (h : isBlank first = true) :
    ∃ line', skipBlanks false glued line (first :: l) = skipBlanks false false line' l := by
  simp only [isBlank, Bool.or_eq_true, beq_iff_eq, or_assoc] at h
  rcases h with rfl | rfl | rfl | rfl
  · exact ⟨line, rfl⟩
  · exact ⟨line, rfl⟩
  · exact ⟨line, rfl⟩
  · exact ⟨line + 1, rfl⟩

theorem skipBlanks_comment :
    skipBlanks true glued line l =
      skipBlanks false (glued && l.isEmpty) line (l.dropWhile (· != '\n')) := by
  induction l generalizing glued line with
  | nil =>
    rw [List.isEmpty_nil, Bool.and_true]
    rfl
  | cons c l ih =>
    by_cases newline : c = '\n'
    · subst newline
      rfl
    · have inside : (c :: l).dropWhile (· != '\n') = l.dropWhile (· != '\n') :=
        List.dropWhile_cons_of_pos (bne_iff_ne.mpr newline)
      rw [inside, skipBlanks, if_neg newline, Bool.true_or, if_pos rfl, ih, Bool.false_and,
        List.isEmpty_cons, Bool.and_false]

theorem skipBlanks_stop (notBlank : isBlank first = false) (notComment : first ≠ '#') :
    skipBlanks false glued line (first :: l) = (first :: l, line, glued) := by
  simp only [isBlank, Bool.or_eq_false_iff, beq_eq_false_iff_ne] at notBlank
  obtain ⟨⟨⟨space, tab⟩, carriage⟩, newline⟩ := notBlank
  simp [skipBlanks, space, tab, carriage, newline, notComment]

theorem next_of_skipBlanks_eq {l l' : Lexer}
    (h : skipBlanks false l.glued l.line l.rest = skipBlanks false l'.glued l'.line l'.rest)
    (failure : l.failure = l'.failure) : l.next = l'.next := by
  unfold next accept
  rw [h, failure]

def reading (input : List Char) (line : Position) (glued : Bool) : Lexer :=
  ⟨input, none, line, glued⟩

theorem next_of_stop (notBlank : isBlank first = false) (notComment : first ≠ '#') :
    (reading (first :: l) line glued).next =
      match word? first l with
      | some lexeme =>
        if glued then unexpected first line
        else (reading (first :: l) line glued).accept line lexeme true
      | none =>
        match operator? first l with
        | some lexeme => (reading (first :: l) line glued).accept line lexeme false
        | none => unexpected first line := by
  unfold next
  generalize skipped : skipBlanks false (reading (first :: l) line glued).glued
    (reading (first :: l) line glued).line (reading (first :: l) line glued).rest = out
  obtain rfl : out = (first :: l, line, glued) :=
    skipped.symm.trans (skipBlanks_stop notBlank notComment)
  rfl

theorem next_of_lexeme? {lexeme : Lexeme} (notBlank : isBlank first = false)
    (notComment : first ≠ '#') (found : lexeme? first l = some lexeme)
    (apart : (glued && startsWord first) = false) :
    (reading (first :: l) line glued).next =
      (⟨lexeme.kind, String.ofList lexeme.text, line⟩,
        reading lexeme.rest line (startsWord first)) := by
  have accepted (isWord : Bool) : (reading (first :: l) line glued).accept line lexeme isWord =
      (⟨lexeme.kind, String.ofList lexeme.text, line⟩, reading lexeme.rest line isWord) :=
    ite_self _
  have isWord := word?_isSome first l
  rw [next_of_stop notBlank notComment]
  rcases Option.or_eq_some_iff.mp found with word | ⟨noWord, operator⟩
  · rw [word, Option.isSome_some] at isWord
    rw [← isWord, Bool.and_true] at apart
    rw [← isWord, word, apart]
    exact accepted true
  · rw [noWord, Option.isSome_none] at isWord
    rw [← isWord, noWord, operator]
    exact accepted false

theorem next_of_refused (notBlank : isBlank first = false) (notComment : first ≠ '#')
    (h : (glued && startsWord first) = true ∨ lexeme? first l = none) :
    (reading (first :: l) line glued).next = unexpected first line := by
  have isWord := word?_isSome first l
  rw [next_of_stop notBlank notComment]
  rcases h with clash | unknown
  · obtain ⟨rfl, starts⟩ := Bool.and_eq_true_iff.mp clash
    rw [starts] at isWord
    obtain ⟨lexeme, word⟩ := Option.isSome_iff_exists.mp isWord
    rw [word]
    rfl
  · obtain ⟨noWord, noOperator⟩ := Option.or_eq_none_iff.mp unknown
    rw [noWord, noOperator]

theorem spellings_of_unexpected {l : Lexer} (h : l.next = unexpected first line) :
    l.spellings = refused first := by
  have error : Kind.error ≠ .eof := by decide
  rw [spellings_of_next h error]
  rfl

theorem lexeme?_eq_none (h : isBlank first = true ∨ first = '#') : lexeme? first l = none := by
  have skipped {c : Char} (notWord : startsWord c = false)
      (notOperator : Table.standard.byLexeme (String.singleton c) = none) : lexeme? c l = none := by
    rw [← word?_isSome c l, Option.isSome_eq_false_iff, Option.isNone_iff_eq_none] at notWord
    rw [lexeme?, notWord, Option.none_or, operator?, notOperator]
    rfl
  simp only [isBlank, Bool.or_eq_true, beq_iff_eq, or_assoc] at h
  rcases h with rfl | rfl | rfl | rfl | rfl <;>
    exact skipped (by decide) (by decide +kernel)

theorem not_skipped_of_lexeme? {lexeme : Lexeme} (h : lexeme? first l = some lexeme) :
    isBlank first = false ∧ first ≠ '#' := by
  have started : lexeme? first l ≠ none := by
    rw [h]
    exact Option.some_ne_none lexeme
  constructor
  · exact Bool.eq_false_iff.mpr fun blank => started (lexeme?_eq_none (.inl blank))
  · exact fun comment => started (lexeme?_eq_none (.inr comment))

theorem lexeme?_eq_none_of_no_word
    (none : ∀ kind word rest, first :: l = word ++ rest → word ∉ Kind.words kind) :
    lexeme? first l = Option.none := by
  cases found : lexeme? first l with
  | none => rfl
  | some lexeme =>
    obtain ⟨word, split, mem, -⟩ := lexeme?_takes found
    exact absurd mem (none _ word _ split)

end

theorem Scans.spellings_eq {glued : Bool} {input : List Char} {out : List (Kind × String)}
    (h : Scans glued input out) (line : Position) : (reading input line glued).spellings = out := by
  induction h generalizing line with
  | finish => rfl
  | blank isBlank more ih =>
    obtain ⟨line', skip⟩ := skipBlanks_blank isBlank
    rw [← ih line']
    exact spellings_eq_of_next_eq (next_of_skipBlanks_eq skip rfl)
  | comment more ih =>
    rw [← ih line]
    exact spellings_eq_of_next_eq (next_of_skipBlanks_eq skipBlanks_comment rfl)
  | @token glued first l word rest kind out longest apart more ih =>
    obtain ⟨found, starts⟩ := longest.lexeme?
    obtain ⟨notBlank, notComment⟩ := not_skipped_of_lexeme? found
    have notEof : kind ≠ .eof := by
      rintro rfl
      cases longest.mem
    rw [spellings_of_next (next_of_lexeme? notBlank notComment found apart) notEof, starts, ih line]
  | @clash first l starts =>
    have isWord := word?_isSome first l
    rw [starts] at isWord
    obtain ⟨lexeme, word⟩ := Option.isSome_iff_exists.mp isWord
    have found : lexeme? first l = some lexeme := by
      rw [lexeme?, word, Option.some_or]
    obtain ⟨notBlank, notComment⟩ := not_skipped_of_lexeme? found
    exact spellings_of_unexpected (next_of_refused notBlank notComment (.inl starts))
  | unknown notBlank notComment none =>
    have refuses := lexeme?_eq_none_of_no_word none
    exact spellings_of_unexpected (next_of_refused notBlank notComment (.inr refuses))

theorem scans_total (glued : Bool) (input : List Char) : ∃ out, Scans glued input out := by
  induction size : input.length using Nat.strong_induction_on generalizing glued input with
  | _ n ih =>
    cases input with
    | nil => exact ⟨_, .finish⟩
    | cons first l =>
      rw [List.length_cons] at size
      by_cases blank : isBlank first = true
      · obtain ⟨out, more⟩ := ih l.length (by omega) false l rfl
        exact ⟨out, .blank blank more⟩
      by_cases comment : first = '#'
      · subst comment
        have shorter := (List.dropWhile_suffix (l := l) (· != '\n')).length_le
        obtain ⟨out, more⟩ := ih _ (by omega) false (l.dropWhile (· != '\n')) rfl
        exact ⟨out, .comment more⟩
      cases found : lexeme? first l with
      | none =>
        -- No word of any kind stands here, or the lexer would have taken one at least as long.
        have notBlank : isBlank first = false := Bool.eq_false_iff.mpr blank
        refine ⟨_, .unknown notBlank comment fun kind word rest split mem => ?_⟩
        obtain ⟨first', l', lexeme, same, -, taken, -⟩ := lexeme?_covers rest mem
        obtain ⟨rfl, rfl⟩ := List.cons.inj (split.trans same)
        rw [found] at taken
        cases taken
      | some lexeme =>
        by_cases clash : (glued && startsWord first) = true
        · obtain ⟨rfl, starts⟩ := Bool.and_eq_true_iff.mp clash
          exact ⟨_, .clash starts⟩
        · obtain ⟨word, longest, -⟩ := longest_of_lexeme? found
          have shorter := lexeme?_length_le found
          obtain ⟨out, more⟩ := ih _ (by omega) lexeme.kind.isWord lexeme.rest rfl
          exact ⟨_, .token longest (Bool.eq_false_iff.mpr clash) more⟩

/-- The kinds and texts of the tokens of a source that delivers a text are those of its reading. -/
theorem ofSource_scans_iff (source : Utf8.Source) (text : String) (clean : source.failure = none)
    (delivers : Utf8.delivered source.events = text.toUTF8.toList) (out : List (Kind × String)) :
    Scans false text.toList out ↔ (ofSource source).spellings = out := by
  have start : ofSource source = reading text.toList 1 false := by
    unfold ofSource
    rw [Utf8.Source.decode_of_text clean delivers]
    rfl
  rw [start]
  constructor
  · intro h
    exact h.spellings_eq 1
  · rintro rfl
    obtain ⟨out, h⟩ := scans_total false text.toList
    rw [h.spellings_eq 1]
    exact h

/-- A number right behind another one, and an interruption between them. -/
theorem ofSource_scans_interrupted :
    (⟨[.byte 48, .interruption, .byte 56], none⟩ : Utf8.Source).failure = none ∧
      Utf8.delivered [.byte 48, .interruption, .byte 56] = "08".toUTF8.toList ∧
      Scans false "08".toList
        [(.int, "0"), (.error, "unexpected character '8'"), (.eof, "")] := by
  have delivers : Utf8.delivered [.byte 48, .interruption, .byte 56] = "08".toUTF8.toList := by
    rw [Utf8.toList_toUTF8]
    decide
  refine ⟨rfl, delivers, (ofSource_scans_iff ⟨_, none⟩ "08" rfl delivers _).mpr ?_⟩
  decide +kernel

end Calculator.Lexer
