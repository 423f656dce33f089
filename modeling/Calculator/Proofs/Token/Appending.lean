import Calculator.Proofs.Text.Joining
import Calculator.Proofs.Token.Ending

set_option autoImplicit false

namespace Calculator

def Token.mapLine (f : Position → Position) (t : Token) : Token :=
  { t with line := f t.line }

namespace Lexer

def later (k : Position) (l : Lexer) : Lexer :=
  { l with line := l.line + k }

section
variable {k line : Position} {isWord : Bool}

theorem skipBlanks_later (comment glued : Bool) (line k : Position) (input : List Char) :
    skipBlanks comment glued (line + k) input =
      ((skipBlanks comment glued line input).1, (skipBlanks comment glued line input).2.1 + k,
        (skipBlanks comment glued line input).2.2) := by
  induction input generalizing comment glued line with
  | nil => rfl
  | cons c input ih =>
    unfold skipBlanks
    split_ifs
    · rw [UInt32.add_assoc, UInt32.add_comm k 1, ← UInt32.add_assoc, ih]
    · exact ih ..
    · exact ih ..
    · rfl

theorem accept_later (l : Lexer) (lexeme : Lexeme) :
    (later k l).accept (line + k) lexeme isWord =
      ((l.accept line lexeme isWord).1.mapLine (· + k),
        later k (l.accept line lexeme isWord).2) := by
  have failure : (later k l).failure = l.failure := rfl
  unfold accept
  rw [failure]
  dsimp only
  split
  · split <;> rfl
  · rfl

theorem next_later (l : Lexer) :
    (later k l).next = (l.next.1.mapLine (· + k), later k l.next.2) := by
  have skipped := skipBlanks_later false l.glued l.line k l.rest
  have failure : (later k l).failure = l.failure := rfl
  unfold next
  change skipBlanks false (later k l).glued (later k l).line (later k l).rest = _ at skipped
  rw [skipped, failure]
  obtain ⟨input, line, glued⟩ := skipBlanks false l.glued l.line l.rest
  cases input with
  | nil => cases l.failure <;> rfl
  | cons c rest =>
    dsimp only
    cases word? c rest with
    | some lexeme =>
      cases glued with
      | true => rfl
      | false => exact accept_later l lexeme
    | none =>
      cases operator? c rest with
      | some lexeme => exact accept_later l lexeme
      | none => rfl

theorem tokensFrom_later (fuel : Nat) (l : Lexer) :
    tokensFrom fuel (later k l) = (tokensFrom fuel l).map (Token.mapLine (· + k)) := by
  induction fuel generalizing l with
  | zero => rfl
  | succ fuel ih =>
    have kind : (l.next.1.mapLine (· + k)).kind = l.next.1.kind := rfl
    unfold tokensFrom
    rw [next_later]
    dsimp only
    rw [kind, ih]
    split <;> rfl

theorem tokens_later (l : Lexer) : (later k l).tokens = l.tokens.map (Token.mapLine (· + k)) :=
  tokensFrom_later _ l

end

/-- The lexer with the end of a line and the input of another one behind its own. -/
def joined (l b : Lexer) : Lexer :=
  ⟨l.rest ++ '\n' :: b.rest, b.failure, l.line, l.glued⟩

section
variable {l b : Lexer} {c : Char} {rest : List Char} {line : Position} {glued : Bool}
  {lexeme : Lexeme}

theorem skipBlanks_append (more : List Char) (comment glued : Bool) (line : Position)
    (input : List Char) : skipBlanks comment glued line (input ++ '\n' :: more) =
      match skipBlanks comment glued line input with
      | ([], line', _) => skipBlanks false false (line' + 1) more
      | (c :: rest, line', glued') => (c :: (rest ++ '\n' :: more), line', glued') := by
  induction input generalizing comment glued line with
  | nil => rfl
  | cons c input ih =>
    rw [List.cons_append, skipBlanks, skipBlanks]
    split_ifs
    · exact ih ..
    · exact ih ..
    · exact ih ..
    · rfl

theorem lexeme?_append (found : lexeme? c rest = some lexeme) (more : List Char) :
    lexeme? c (rest ++ '\n' :: more) =
      some ⟨lexeme.kind, lexeme.text, lexeme.rest ++ '\n' :: more⟩ := by
  obtain ⟨word, longest, text⟩ := longest_of_lexeme? found
  rw [text]
  exact (longest.append rfl more).lexeme?.1

theorem next_of_found (skipped : skipBlanks false l.glued l.line l.rest = (c :: rest, line, glued))
    (found : lexeme? c rest = some lexeme) :
    l.next = if glued && startsWord c then unexpected c line
      else l.accept line lexeme (startsWord c) := by
  have isWord := word?_isSome c rest
  unfold next
  rw [skipped]
  dsimp only
  rcases Option.or_eq_some_iff.mp found with word | ⟨noWord, operator⟩
  · rw [word, Option.isSome_some] at isWord
    rw [word, ← isWord, Bool.and_true]
  · rw [noWord, Option.isSome_none] at isWord
    rw [noWord, operator, ← isWord, Bool.and_false, if_neg Bool.false_ne_true]

theorem next_of_not_found
    (skipped : skipBlanks false l.glued l.line l.rest = (c :: rest, line, glued))
    (none : lexeme? c rest = none) : l.next = unexpected c line := by
  obtain ⟨noWord, noOperator⟩ := Option.or_eq_none_iff.mp none
  unfold next
  rw [skipped]
  dsimp only
  rw [noWord, noOperator]

theorem accept_clean (clean : l.failure = none) (isWord : Bool) : l.accept line lexeme isWord =
    (⟨lexeme.kind, String.ofList lexeme.text, line⟩, ⟨lexeme.rest, none, line, isWord⟩) := by
  unfold accept
  rw [clean]
  exact ite_self _

theorem accept_joined (isWord : Bool) : (l.joined b).accept line
      ⟨lexeme.kind, lexeme.text, lexeme.rest ++ '\n' :: b.rest⟩ isWord =
    (⟨lexeme.kind, String.ofList lexeme.text, line⟩,
      joined ⟨lexeme.rest, none, line, isWord⟩ b) := by
  have notEmpty : (lexeme.rest ++ '\n' :: b.rest).isEmpty = false := by simp
  unfold accept
  rw [notEmpty, Bool.false_and]
  rfl

/-- A token that is no error stays as it is with another input behind, and the end of the input
gives way to the first token of that one. -/
theorem next_joined (clean : l.failure = none) (notError : l.next.1.kind ≠ .error) :
    (∃ line, l.next.1 = .eof line ∧
      (l.joined b).next = next ⟨b.rest, b.failure, line + 1, false⟩) ∨
    l.next.1.kind ≠ .eof ∧ l.next.2.failure = none ∧
      (l.joined b).next = (l.next.1, l.next.2.joined b) := by
  have both := skipBlanks_append b.rest false l.glued l.line l.rest
  cases skipped : skipBlanks false l.glued l.line l.rest with
  | mk input place =>
    obtain ⟨line, glued⟩ := place
    rw [skipped] at both
    cases input with
    | nil =>
      have ended : l.next = (.eof line, Lexer.ended line) := by
        unfold next
        rw [skipped, clean]
      rw [ended]
      exact .inl ⟨line, rfl, next_of_skipBlanks_eq both rfl⟩
    | cons c rest =>
      cases found : lexeme? c rest with
      | none =>
        rw [next_of_not_found skipped found] at notError
        exact absurd rfl notError
      | some lexeme =>
        have here := next_of_found skipped found
        have there : (l.joined b).next = _ :=
          next_of_found both (lexeme?_append found b.rest)
        cases clash : glued && startsWord c with
        | true =>
          rw [clash] at here
          rw [here] at notError
          exact absurd rfl notError
        | false =>
          obtain ⟨word, longest, -⟩ := longest_of_lexeme? found
          rw [clash, if_neg Bool.false_ne_true] at here there
          rw [here, there, accept_clean clean, accept_joined]
          exact .inr ⟨(kind_ne_of_mem_words longest.mem).2, rfl, rfl⟩

theorem tokens_joined {ts : List Token} (clean : l.failure = none)
    (h : l.tokens = ts ++ [.eof line]) (words : ∀ t ∈ ts, t.kind ≠ .error ∧ t.kind ≠ .eof) :
    (l.joined b).tokens = ts ++ tokens ⟨b.rest, b.failure, line + 1, false⟩ := by
  induction ts generalizing l with
  | nil =>
    rw [tokens_eq, List.nil_append] at h
    obtain ⟨first, -⟩ := List.cons.inj h
    have notError : l.next.1.kind ≠ .error := by
      rw [first]
      nofun
    rcases next_joined (b := b) clean notError with ⟨line', eof, next⟩ | ⟨notEof, -⟩
    · obtain rfl : line' = line := congrArg Token.line (eof.symm.trans first)
      exact tokens_eq_of_next_eq next
    · rw [first] at notEof
      exact absurd rfl notEof
  | cons t ts ih =>
    obtain ⟨⟨notError, notEof⟩, inside⟩ := List.forall_mem_cons.mp words
    rw [tokens_eq, List.cons_append] at h
    obtain ⟨rfl, more⟩ := List.cons.inj h
    rw [if_neg notEof] at more
    rcases next_joined (b := b) clean notError with ⟨line', eof, -⟩ | ⟨-, clean, next⟩
    · rw [eof] at notEof
      exact absurd rfl notEof
    · rw [tokens_eq, next]
      dsimp only
      rw [if_neg notEof, ih clean more inside, List.cons_append]

end

section
variable {a b : Utf8.Source} {text : String} {ts : List Token} {line : Position}

theorem ofSource_joined (isText : a.IsText text) :
    ofSource (a.joined b) = (ofSource a).joined (ofSource b) := by
  unfold ofSource
  rw [Utf8.Source.decode_joined isText, Utf8.Source.decode_of_text isText.clean isText.delivers]
  rfl

theorem line_of_eof (isText : a.IsText text) (h : (ofSource a).tokens = ts ++ [.eof line])
    (words : ∀ t ∈ ts, t.kind ≠ .error ∧ t.kind ≠ .eof) :
    line = lineBehind a.decode.1 := by
  obtain ⟨before, reported, ts', split, -, tokens⟩ := ofSource_goesOn isText
  rw [List.nil_append] at split
  rw [Utf8.Source.decode_of_text isText.clean isText.delivers]
  rw [h] at tokens
  cases reported with
  | nil =>
    rw [List.append_nil] at split
    obtain ⟨-, last⟩ := List.append_inj' tokens rfl
    rw [split]
    exact congrArg Token.line (List.singleton_inj.mp last)
  | cons c reported =>
    have mem : Token.error _ _ ∈ ts ++ [Token.eof line] :=
      tokens ▸ List.mem_append_right ts' List.mem_cons_self
    rcases List.mem_append.mp mem with inside | last
    · exact absurd rfl (words _ inside).1
    · cases List.mem_singleton.mp last

theorem tokens_appended (isText : a.IsText text) (h : (ofSource a).tokens = ts ++ [.eof line])
    (words : ∀ t ∈ ts, t.kind ≠ .error ∧ t.kind ≠ .eof) :
    (ofSource (a.joined b)).tokens =
      ts ++ (ofSource b).tokens.map (Token.mapLine (· + lineBehind a.decode.1)) := by
  have clean : (ofSource a).failure = none := by
    rw [ofSource_of_text isText]
    rfl
  rw [ofSource_joined isText, tokens_joined clean h words, ← line_of_eof isText h words,
    ← tokens_later, UInt32.add_comm]
  rfl

end

end Lexer

end Calculator
