import Calculator.Proofs.Tree.Joining
import Calculator.Proofs.Tree.Lines
import Calculator.Proofs.Tree.Selecting

set_option autoImplicit false

namespace Calculator

/-- The program on another line, with statements in front of its own. -/
def Tree.behind (line : Position) (front : List Tree) : Tree → Tree
  | .body _ ts => .body line (front ++ ts)
  | t => t

namespace Parser

section
variable {α : Type} {p q r : Parser α} {f : Token → Parser α} {m m' m'' : NumericMode}
  {ts rest rest' : List Token} {next next' : Token}

theorem Meets.refl : Meets p m (next :: rest) p m next rest :=
  fun s here => .inl ⟨s, rfl, here⟩

theorem Meets.trans (head : Meets p m ts q m' next' rest')
    (tail : Meets q m' (next' :: rest') r m'' next rest)
    (only : next'.kind = .error → next' = next) : Meets p m ts r m'' next rest := by
  intro s here
  rcases head s here with ⟨s', same, there⟩ | ⟨isError, s', refused⟩
  · rw [same]
    exact tail s' there
  · obtain rfl := only isError
    exact .inr ⟨isError, s', refused⟩

theorem meets_peek : Meets (peek >>= f) m (next :: rest) (f next) m next rest := by
  have peek : Meets peek m (next :: rest) (pure next) m next rest :=
    meets_take fun _ => .untake .pure
  exact peek.bind f

theorem peek_error (isError : next.kind = .error) {s : ParserState} (here : s.At m (next :: rest)) :
    ∃ s', (peek >>= f) s = .error ⟨next.line, .lexical next.text⟩ s' := by
  refine ⟨{ s with stream := s.stream.get.2 }, bind_error (bind_error ?_)⟩
  rw [take_eq, (at_take here).1, if_pos isError]

theorem Meets.error (h : Meets p m ts q m' next rest) (refuses : ∀ s : ParserState,
      s.At m' (next :: rest) → ∃ s', q s = .error ⟨next.line, .lexical next.text⟩ s')
    (s : ParserState) (here : s.At m ts) :
    ∃ s', p s = .error ⟨next.line, .lexical next.text⟩ s' := by
  rcases h s here with ⟨s', same, there⟩ | ⟨-, refused⟩
  · rw [same]
    exact refuses s' there
  · exact refused

theorem Answers.map {β γ : Type} {f : Position → Position} {move : α → β} {p : Parser β}
    {s : ParserState}
    {r : EStateM.Result SyntaxError ParserState α} (h : Answers f move r (p s)) (g : β → γ) :
    Answers f (fun a => g (move a)) r ((g <$> p) s) := by
  change Answers f _ r (EStateM.map g p s)
  unfold EStateM.map
  generalize p s = r' at h
  cases h with
  | ok moves => exact .ok moves
  | error => exact .error
  | cut => exact .cut

end

theorem statements_behind (fuel : Nat) (top : Bool) (line line' : Position)
    (read front : List Tree) : statements fuel top line (read ++ front.reverse) =
      (Tree.behind line front <$> statements fuel top line' read) := by
  induction fuel generalizing read with
  | zero =>
    rw [statements, statements]
    rfl
  | succ fuel ih =>
    generalize closing : (if top then Kind.eof else .rightCurly) = kind
    rw [statements, statements, map_bind, closing]
    refine congrArg _ (funext fun t => ?_)
    split_ifs
    · rw [map_pure, List.reverse_append, List.reverse_reverse]
      rfl
    · rfl
    · rw [map_bind]
      exact congrArg _ (funext fun tree => ih (tree :: read))

end Parser

namespace Grammar

open Calculator.Parser

section
variable {m m' m'' : NumericMode} {t next next' : Token} {ts us rest rest' : List Token}
  {tree : Tree} {trees : List Tree}

theorem IsSetting.ends (h : IsSetting m ts m') :
    ∃ us t, ts = us ++ [t] ∧ closesStatement t.kind = false := by
  cases h with
  | @intro sign colon option _ isSign isColon isName after =>
    exact ⟨[sign, colon], option, rfl, by rw [isName]; rfl⟩

/-- The parser reads the statements and then goes on with what stands behind them, unless that is
another branch of the last one. -/
structure FrontOf (m : NumericMode) (ts : List Token) (trees : List Tree) (m' : NumericMode) :
    Prop where
  few : trees.length ≤ ts.length
  first : ts = [] ∨ ∃ t us, ts = t :: us ∧ startsStatement t = true
  meets : ∀ fuel line read next rest, 4 * ts.length + 4 ≤ fuel → next.hasKeyword "else" = false →
    Meets (statements (fuel + trees.length) true line read) m (ts ++ next :: rest)
      (statements fuel true line (trees.reverse ++ read)) m' next rest

theorem FrontOf.nil : FrontOf m [] [] m :=
  ⟨Nat.le_refl 0, .inl rfl, fun _ _ _ _ _ _ _ => .refl⟩

theorem meets_statements {fuel : Nat} {line : Position} {read : List Tree}
    (starts : startsStatement t = true)
    (inner : Meets (statement fuel true) m (t :: ts) (pure tree) m' next rest) :
    Meets (statements (fuel + 1) true line read) m (t :: ts)
      (statements fuel true line (tree :: read)) m' next rest := by
  have notEof : t.kind ≠ .eof := startsStatement_ne starts (by decide)
  rw [statements]
  refine (reads_peek (startsStatement_ne starts (by decide))).meets_bind ?_
  rw [if_pos rfl, if_neg notEof, if_neg notEof]
  exact inner.bind fun tree => statements fuel true line (tree :: read)

theorem FrontOf.cons {tree : Tree} (more : FrontOf m' us trees m'')
    (starts : ∃ t vs, ts = t :: vs ∧ startsStatement t = true)
    (first : ∀ fuel next rest, 4 * ts.length + 3 ≤ fuel → next.hasKeyword "else" = false →
      us = [] ∨ startsStatement next = true →
        Meets (statement fuel true) m (ts ++ next :: rest) (pure tree) m' next rest) :
    FrontOf m (ts ++ us) (tree :: trees) m'' := by
  obtain ⟨t, vs, rfl, starts⟩ := starts
  refine ⟨?_, .inr ⟨t, vs ++ us, rfl, starts⟩, fun fuel line read next rest enough notElse => ?_⟩
  · have few := more.few
    simp only [List.cons_append, List.length_cons, List.length_append]
    omega
  -- The statement ends in front of the others, or in front of `next` if there are none.
  obtain ⟨next', rest', split, only, notElse', starts'⟩ : ∃ next' rest',
      us ++ next :: rest = next' :: rest' ∧ (next'.kind = .error → next' = next) ∧
        next'.hasKeyword "else" = false ∧ (us = [] ∨ startsStatement next' = true) := by
    rcases more.first with rfl | ⟨u, ws, rfl, head⟩
    · exact ⟨next, rest, rfl, fun _ => rfl, notElse, .inl rfl⟩
    · refine ⟨u, ws ++ next :: rest, rfl, fun error => ?_, startsStatement_not_else head, .inr head⟩
      exact absurd error (startsStatement_ne head (by decide))
  rw [List.length_append] at enough
  have here := first (fuel + trees.length) next' rest' (by omega) notElse' starts'
  have there := more.meets fuel line (tree :: read) next rest (by omega) notElse
  rw [split] at there
  rw [List.append_assoc, split, List.length_cons, ← Nat.add_assoc, List.reverse_cons,
    List.append_assoc]
  exact (meets_statements starts here).trans there only

theorem IsClause.front (h : IsClause (.statements true) m ts m')
    (closed : ∀ t ∈ ts.getLast?, closesStatement t.kind = true) :
    ∃ trees, FrontOf m ts trees m' := by
  generalize same : Clause.statements true = clause at h
  induction h with
  | nil => exact ⟨[], .nil⟩
  | @cons top m m' m'' ts us first more _ ih =>
    cases same
    obtain ⟨trees, onMore⟩ := ih (closed_of_append closed) rfl
    obtain ⟨tree, onFirst, ends⟩ := first.read
    refine ⟨tree :: trees, onMore.cons first.starts fun fuel next rest enough notElse starts => ?_⟩
    rcases ends with complete | setting
    · exact complete.meets fuel next rest enough notElse
    -- A mode setting without a semicolon ends the program or stands in front of a statement.
    · rcases starts with rfl | starts
      · obtain ⟨vs, t, rfl, unclosed⟩ := setting.ends
        rw [List.append_nil] at closed
        rw [closed t List.getLast?_concat] at unclosed
        cases unclosed
      · exact (onFirst.reads fuel next rest enough (followsStatement_of_starts starts)).meets
  | unclosed last =>
    obtain ⟨us, t, rfl, unclosed⟩ := last.ends
    rw [closed t List.getLast?_concat] at unclosed
    cases unclosed
  | _ => cases same

theorem FrontOf.program (h : FrontOf m ts trees m') {fuel : Nat} (enough : 4 * ts.length + 4 ≤ fuel)
    (notElse : next.hasKeyword "else" = false) (rest : List Token) :
    ∃ line, Meets (program (fuel + trees.length)) m (ts ++ next :: rest)
      (statements fuel true line trees.reverse) m' next rest := by
  rcases h.first with rfl | ⟨t, us, rfl, starts⟩
  · have meets := h.meets fuel next.line [] next rest enough notElse
    rw [List.append_nil] at meets
    exact ⟨next.line, meets_peek.trans meets fun _ => rfl⟩
  · have meets := h.meets fuel t.line [] next rest enough notElse
    rw [List.append_nil] at meets
    refine ⟨t.line, meets_peek.trans meets fun error => ?_⟩
    exact absurd error (startsStatement_ne starts (by decide))

/-- A parser that comes to stand in front of the moved tokens with statements already read answers
as the one in front of the tokens by themselves does. -/
theorem answers_of_meets {f : Position → Position} {p : Parser Tree} {fuel fuel' : Nat}
    {line : Position} {s s' : ParserState}
    (meets : Meets p m ts (statements (fuel' + 1) true line trees.reverse) m' (next.mapLine f)
      (rest.map (Token.mapLine f)))
    (le : fuel ≤ fuel' + 1) (start : s.At m' (next :: rest)) (start' : s'.At m ts) :
    Answers f (fun t => (t.mapLines f).behind line trees) (Parser.program fuel s) (p s') := by
  by_cases error : next.kind = .error
  · have error' : (next.mapLine f).kind = .error := error
    obtain ⟨_, refused⟩ := peek_error error start
    obtain ⟨_, refused'⟩ := meets.error (fun _ here => by
      rw [statements]
      exact peek_error error' here) s' start'
    rw [Parser.program, refused, refused']
    exact .error
  · obtain ⟨t, read, here⟩ := reads_peek error s start
    obtain ⟨t', same, there⟩ := (meets s' start').resolve_right fun refused => error refused.1
    have moves : t.Moves f t' := by
      refine ⟨there.mode.trans here.mode.symm, ?_, fun none => ?_⟩
      · rw [there.upcoming, here.upcoming]
        rfl
      · cases here.upcoming.symm.trans none
    have answers := (carriesStatements f fuel).statements _ le true next.line [] t t' moves
    have behind := statements_behind (fuel' + 1) true line (f next.line) [] trees
    rw [List.nil_append] at behind
    rw [same, behind, Parser.program, bind_ok read]
    exact answers.map _

theorem FrontOf.answers (h : FrontOf m ts trees m') (f : Position → Position)
    (notElse : next.hasKeyword "else" = false) (rest : List Token) :
    ∃ line, Answers f (fun t => (t.mapLines f).behind line trees)
      (run (.ofTokens (next :: rest)) m')
      (run (.ofTokens (ts ++ (next :: rest).map (Token.mapLine f))) m) := by
  have few := h.few
  have notElse' : (next.mapLine f).hasKeyword "else" = false := notElse
  -- Each statement in front costs one of the fuel, of which there are eight for each token.
  obtain ⟨fuel, whole, enough, larger⟩ : ∃ fuel,
      fuelFor (.ofTokens (ts ++ (next :: rest).map (Token.mapLine f))) = fuel + 1 + trees.length ∧
        4 * ts.length + 4 ≤ fuel + 1 ∧ fuelFor (.ofTokens (next :: rest)) ≤ fuel + 1 := by
    simp only [fuelFor_ofTokens, List.length_append, List.length_map, List.length_cons]
    exact ⟨8 * (ts.length + (rest.length + 1) + 2) - trees.length - 1, by omega, by omega, by omega⟩
  obtain ⟨line, meets⟩ := h.program enough notElse' (rest.map (Token.mapLine f))
  refine ⟨line, ?_⟩
  unfold run
  rw [whole]
  exact answers_of_meets meets larger ⟨rfl, rfl⟩ ⟨rfl, rfl⟩

end

end Grammar

namespace Tree

open Calculator.Grammar Calculator.Parser

section
variable {m m' : NumericMode} {source a : Utf8.Source} {t ta : Tree} {ts : List Token}
  {trees : List Tree} {next : Token}

theorem ofTokens_behind (h : FrontOf m ts trees m') (f : Position → Position)
    (notElse : next.hasKeyword "else" = false) (rest : List Token) :
    ∃ line, ofTokens (ts ++ (next :: rest).map (Token.mapLine f)) m =
      match ofTokens (next :: rest) m' with
      | .ok t => .ok ((t.mapLines f).behind line trees)
      | .error e => .error ⟨f e.line, e.cause⟩ := by
  obtain ⟨line, answers⟩ := h.answers f notElse rest
  have finished := finished_ofTokens (next :: rest) m'
  refine ⟨line, ?_⟩
  unfold ofTokens ofStream
  generalize run (.ofTokens (next :: rest)) m' = r at answers finished
  generalize run (.ofTokens (ts ++ (next :: rest).map (Token.mapLine f))) m = r' at answers
  cases answers with
  | ok moves => rfl
  | error => rfl
  | cut => exact absurd rfl finished.1

theorem exists_clause_of_parse (h : parse source m = .ok t) : ∃ text ts line m',
    source.IsText text ∧ (Lexer.ofSource source).tokens = ts ++ [.eof line] ∧
      (∀ t ∈ ts, t.kind ≠ .error ∧ t.kind ≠ .eof) ∧ IsClause (.statements true) m ts m' := by
  obtain ⟨words, error, line, shape, clean⟩ := Lexer.exists_endsIn (Lexer.ofSource source)
  cases error with
  | some e =>
    have mem : e ∈ (Lexer.ofSource source).tokens := by
      rw [shape.tokens]
      simp
    obtain ⟨e', refused⟩ := refused_of_endsIn shape ⟨e, mem, shape.isError e rfl⟩ m
    cases h.symm.trans refused
  | none =>
    obtain ⟨text, isText⟩ := Lexer.exists_isText_of_failure (clean rfl)
    obtain ⟨ts, line', m', tokens, statements⟩ := exists_statements_of_parse isText h
    have whole := shape.tokens
    rw [tokens, Option.toList_none, List.append_nil] at whole
    obtain ⟨rfl, -⟩ := List.append_inj' whole rfl
    exact ⟨text, ts, line', m', isText, tokens, shape.isWord, statements⟩

theorem first_not_else_of_parse (h : parse source m = .ok t) :
    ∀ t ∈ (Lexer.ofSource source).tokens.head?, t.hasKeyword "else" = false := by
  obtain ⟨text, ts, line, m', -, tokens, -, statements⟩ := exists_clause_of_parse h
  have isEof : (Token.eof line).kind = .eof := rfl
  obtain ⟨next, after, split, follows⟩ := statements.follows isEof []
  rw [tokens, split]
  rintro _ ⟨⟩
  exact follows.notElse

theorem ofTokens_front (h : FrontOf m ts trees m') (line : Position) :
    ∃ line', ofTokens (ts ++ [.eof line]) m = .ok (.body line' trees) := by
  have notElse : (Token.eof line).hasKeyword "else" = false := rfl
  obtain ⟨line', same⟩ := ofTokens_behind h id notElse []
  have ended : ofTokens [.eof line] m' = .ok (.body line []) :=
    (StatementsOf.nil (m := m')).ofTokens_eq rfl rfl
  rw [ended] at same
  exact ⟨line', by simpa [mapLines, behind, Token.mapLine] using same⟩

theorem lines_parse (source : Utf8.Source) (m : NumericMode) :
    match parse source m with
    | .ok t => ∀ s ∈ t.nodes, Lexer.IsLineOf source.decode.1 s.line
    | .error e => Lexer.IsLineOf source.decode.1 e.line := by
  have nonempty : (Lexer.ofSource source).tokens ≠ [] := by
    rw [Lexer.tokens_eq]
    exact List.cons_ne_nil _ _
  have lines := lines_ofTokens m nonempty
  have ofToken {line : Position} (h : ∃ u ∈ (Lexer.ofSource source).tokens, u.line = line) :
      Lexer.IsLineOf source.decode.1 line := by
    obtain ⟨u, mem, rfl⟩ := h
    exact Lexer.line_of_mem_tokens source u mem
  unfold parse
  cases parsed : ofTokens (Lexer.ofSource source).tokens m with
  | ok t =>
    rw [parsed] at lines
    exact fun s mem => ofToken (lines s mem)
  | error e =>
    rw [parsed] at lines
    exact ofToken lines

/-- A program that is closed at its end leads to the mode that it selects last. A program in that
mode on the lines behind it adds its statements, and what is no program there is refused with its
own error, unless it starts with another branch. The lines are counted on in 32 bits, which is
exact as long as the lines of both are. -/
theorem parse_appended (h : parse a m = .ok ta)
    (closed : ∀ t ∈ (Lexer.ofSource a).tokens.dropLast.getLast?, closesStatement t.kind = true)
    (b : Utf8.Source) :
    let m' := lastMode m (Lexer.ofSource a).tokens
    let lines := 1 + a.decode.1.count '\n'
    let later (line : Position) : Position := line + .ofNat lines
    let IsExact (line : Position) : Prop :=
      lines + b.decode.1.count '\n' < 2 ^ 32 - 1 → (later line).toNat = line.toNat + lines
    ∃ line trees, ta = .body line trees ∧
      (∀ tb, parse b m' = .ok tb → ∃ line' trees' line'', tb = .body line' trees' ∧
        parse (a.joined b) m = .ok (.body line'' (trees ++ trees'.map (mapLines later))) ∧
        ∀ t ∈ treeNodes trees', IsExact t.line) ∧
      ((∀ t ∈ (Lexer.ofSource b).tokens.head?, t.hasKeyword "else" = false) →
        ∀ e, parse b m' = .error e →
          parse (a.joined b) m = .error ⟨later e.line, e.cause⟩ ∧ IsExact e.line) := by
  intro m' lines later IsExact
  obtain ⟨text, ts, line, m'', isText, tokens, words, statements⟩ := exists_clause_of_parse h
  rw [tokens, List.dropLast_concat] at closed
  obtain ⟨trees, front⟩ := statements.front closed
  -- The grammar of the first program leads to the mode that it selects last.
  obtain rfl : m' = m'' := by
    change lastMode m (Lexer.ofSource a).tokens = m''
    rw [tokens, statements.lastMode_eq]
  obtain ⟨line', alone⟩ := ofTokens_front front line
  rw [parse, tokens, alone] at h
  obtain rfl := Except.ok.inj h
  obtain ⟨next, rest, split⟩ : ∃ next rest, (Lexer.ofSource b).tokens = next :: rest :=
    ⟨_, _, Lexer.tokens_eq _⟩
  -- Whatever the second text is, both are parsed as it is, with other lines.
  have both (notElse : ∀ t ∈ (Lexer.ofSource b).tokens.head?, t.hasKeyword "else" = false) :
      ∃ line, parse (a.joined b) m =
        match parse b m' with
        | .ok t => .ok ((t.mapLines later).behind line trees)
        | .error e => .error ⟨later e.line, e.cause⟩ := by
    rw [split] at notElse
    unfold parse
    rw [Lexer.tokens_appended isText tokens words, split]
    exact ofTokens_behind front later (notElse next rfl) rest
  have exact {line : Position} (isLine : Lexer.IsLineOf b.decode.1 line) : IsExact line :=
    fun few => isLine.toNat_add (by omega)
  have ofB := lines_parse b m'
  refine ⟨line', trees, rfl, fun tb second => ?_, fun notElse e refused => ?_⟩
  · obtain ⟨line'', same⟩ := both (first_not_else_of_parse second)
    obtain ⟨at_, trees', rfl, -⟩ := topLevel_of_stream second
    rw [second] at same ofB
    refine ⟨at_, trees', line'', rfl, by simpa [mapLines, behind] using same, fun t mem => ?_⟩
    exact exact (ofB t (List.mem_cons_of_mem _ mem))
  · obtain ⟨line'', same⟩ := both notElse
    rw [refused] at same ofB
    exact ⟨same, exact ofB⟩

end

/-- The mode is selected in a function, and an operand is missing behind it. -/
theorem parse_appended_refused :
    let a : Utf8.Source := .ofString "func f() \x7b@:f;\x7d\n"
    let b : Utf8.Source := .ofString "1.5 +;"
    (∃ ta, parse a .rational = .ok ta) ∧
      (∀ t ∈ (Lexer.ofSource a).tokens.dropLast.getLast?, closesStatement t.kind = true) ∧
      parse b .float = .error ⟨1, .unexpectedToken ";" .basicExpression⟩ ∧
      parse (a.joined b) .rational = .error ⟨3, .unexpectedToken ";" .basicExpression⟩ := by
  intro a b
  have accepted : (parse a .rational).isOk = true := by decide +kernel
  have closed : ∀ t ∈ (Lexer.ofSource a).tokens.dropLast.getLast?,
      closesStatement t.kind = true := by decide +kernel
  have mode : lastMode .rational (Lexer.ofSource a).tokens = .float := by decide +kernel
  have lines : 1 + a.decode.1.count '\n' = 2 := by decide +kernel
  have notElse : ∀ t ∈ (Lexer.ofSource b).tokens.head?, t.hasKeyword "else" = false := by
    decide +kernel
  have answer : (match parse b .float with
      | .ok _ => none
      | .error e => some e) = some ⟨1, .unexpectedToken ";" .basicExpression⟩ := by
    decide +kernel
  cases second : parse b .float with
  | ok tb =>
    rw [second] at answer
    cases answer
  | error e =>
    rw [second] at answer
    obtain rfl := Option.some.inj answer
    cases first : parse a .rational with
    | error e =>
      rw [first] at accepted
      cases accepted
    | ok ta =>
      obtain ⟨line, trees, -, -, refused⟩ := parse_appended first closed b
      rw [mode, lines] at refused
      exact ⟨⟨ta, rfl⟩, closed, rfl, (refused notElse _ second).1⟩

def emptyLines (n : Nat) : Utf8.Source :=
  .ofString (String.ofList (List.replicate n '\n'))

theorem tokens_emptyLines (n : Nat) :
    ∃ line, (Lexer.ofSource (emptyLines n)).tokens = [.eof line] := by
  have reading (line : Position) (glued : Bool) : ∃ last,
      (Lexer.reading (List.replicate n '\n') line glued).tokens = [.eof last] := by
    induction n generalizing line glued with
    | zero => exact ⟨line, rfl⟩
    | succ n ih =>
      rw [List.replicate_succ, Lexer.tokens_blank rfl]
      exact ih _ false
  rw [emptyLines, Lexer.ofSource_of_text (.ofString _), String.toList_ofList]
  exact reading 1 false

theorem count_emptyLines (n : Nat) : (emptyLines n).decode.1.count '\n' = n := by
  have isText := Utf8.Source.IsText.ofString (String.ofList (List.replicate n '\n'))
  rw [emptyLines, Utf8.Source.decode_of_text isText.clean isText.delivers]
  dsimp only
  rw [String.toList_ofList, List.count_replicate_self]

/-- Behind empty lines without end no statement is further down than there are numbers. -/
theorem not_parse_appended_exactly : ¬∀ (a b : Utf8.Source) (m : NumericMode) (ta tb : Tree),
    parse a m = .ok ta →
      (∀ t ∈ (Lexer.ofSource a).tokens.dropLast.getLast?, closesStatement t.kind = true) →
      parse b (lastMode m (Lexer.ofSource a).tokens) = .ok tb →
      ∃ t, parse (a.joined b) m = .ok t ∧
        t.nodes.tail.map (·.line.toNat) = ta.nodes.tail.map (·.line.toNat) ++
          tb.nodes.tail.map (·.line.toNat + (1 + a.decode.1.count '\n')) := by
  intro every
  obtain ⟨line, tokens⟩ := tokens_emptyLines (2 ^ 32)
  have first : parse (emptyLines (2 ^ 32)) .rational = .ok (.body line []) := by
    rw [parse, tokens]
    exact (StatementsOf.nil (m := .rational)).ofTokens_eq rfl rfl
  have isOne : (parse (.ofString "1") .rational).toOption.map (·.nodes.tail.length) = some 1 := by
    decide +kernel
  cases second : parse (.ofString "1") .rational with
  | error e =>
    rw [second] at isOne
    cases isOne
  | ok tb =>
    rw [second] at isOne
    obtain ⟨s, statements⟩ := List.length_eq_one_iff.mp (Option.some.inj isOne)
    have appended := every (emptyLines (2 ^ 32)) (.ofString "1") .rational _ tb first
    rw [tokens, count_emptyLines] at appended
    obtain ⟨t, -, lines⟩ := appended (fun _ none => by cases none) second
    have far : s.line.toNat + (1 + 2 ^ 32) ∈ t.nodes.tail.map (·.line.toNat) := by
      rw [lines, statements]
      exact List.mem_append_right _ (List.mem_singleton_self _)
    obtain ⟨u, -, same⟩ := List.mem_map.mp far
    have small := u.line.toNat_lt
    omega

end Tree

end Calculator
