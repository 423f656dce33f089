import Calculator.Proofs.Token.Joining
import Calculator.Proofs.Tree.Acceptance
import Calculator.Proofs.Tree.Bare

set_option autoImplicit false

namespace Calculator

namespace Grammar

open Calculator.Parser

section
variable {m m' m'' : NumericMode} {ts us : List Token} {trees trees' : List Tree}

def closesStatement (kind : Kind) : Bool :=
  kind = .semicolon || kind = .rightCurly

theorem IsPhrase.ends {phrase : Phrase} (h : IsPhrase m phrase ts) :
    ∃ us t, ts = us ++ [t] ∧ closesStatement t.kind = false := by
  have literal {kind : Kind} (isLiteral : kind.isLiteral = true) :
      closesStatement kind = false := by
    cases kind <;> first | rfl | cases isLiteral
  have behind {us : List Token} (front : List Token)
      (inner : ∃ vs t, us = vs ++ [t] ∧ closesStatement t.kind = false) :
      ∃ vs t, front ++ us = vs ++ [t] ∧ closesStatement t.kind = false := by
    obtain ⟨vs, t, rfl, open_⟩ := inner
    exact ⟨front ++ vs, t, (List.append_assoc ..).symm, open_⟩
  induction h with
  | literal isLiteral => exact ⟨[], _, rfl, literal isLiteral⟩
  | @step name op isName isStep =>
    exact ⟨[name], op, rfl, by rcases isStep with kind | kind <;> rw [kind] <;> rfl⟩
  | @call name left right isName opens closes =>
    exact ⟨[name, left], right, rfl, by rw [closes]; rfl⟩
  | @callWith name left right ts isName opens inner closes =>
    exact ⟨name :: left :: ts, right, rfl, by rw [closes]; rfl⟩
  | name isName => exact ⟨[], _, rfl, by rw [isName]; rfl⟩
  | @plus sign ts isPlus inner ih => exact behind [sign] ih
  | @unary sign ts isSign inner ih => exact behind [sign] ih
  | @parentheses left right ts opens inner closes =>
    exact ⟨left :: ts, right, rfl, by rw [closes]; rfl⟩
  | single only ih => exact ih
  | @link op ts us first isOperator more _ ih =>
    rw [List.append_cons]
    exact behind _ ih
  | @assignment name op ts isName assigns value ih => exact behind [name, op] ih
  | plain inner ih => exact ih
  | argument only ih => exact ih
  | @arguments comma ts us first isComma more _ ih =>
    rw [List.append_cons]
    exact behind _ ih

theorem IsSimple.ends (h : IsSimple m ts) :
    ∃ us t, ts = us ++ [t] ∧ closesStatement t.kind = false := by
  cases h with
  | expression inner => exact inner.ends
  | @display sign ts isSign inner =>
    obtain ⟨us, t, rfl, unclosed⟩ := inner.ends
    exact ⟨sign :: us, t, rfl, unclosed⟩
  | last isSign => exact ⟨[], _, rfl, by rw [isSign]; rfl⟩
  | exit isExit => exact ⟨[], _, rfl, by rw [kind_of_hasKeyword isExit]; rfl⟩

/-- Statements of the top level behind each other, the last one as complete as the others. -/
inductive Row : NumericMode → List Token → List Tree → NumericMode → Prop where
  | nil {m : NumericMode} : Row m [] [] m
  | cons {m m' m'' : NumericMode} {ts us : List Token} {tree : Tree} {trees : List Tree}
      (first : StatementOf true m ts tree m') (more : Row m' us trees m'') :
      Row m (ts ++ us) (tree :: trees) m''

theorem Row.append (h : Row m ts trees m') (more : StatementsOf true m' us trees' m'') :
    StatementsOf true m (ts ++ us) (trees ++ trees') m'' := by
  induction h with
  | nil => exact more
  | cons first _ ih =>
    rw [List.append_assoc]
    exact .cons first (ih more)

theorem Row.statements (h : Row m ts trees m') : StatementsOf true m ts trees m' := by
  have whole := h.append .nil
  rwa [List.append_nil, List.append_nil] at whole

theorem closed_of_append (closed : ∀ t ∈ (ts ++ us).getLast?, closesStatement t.kind = true) :
    ∀ t ∈ us.getLast?, closesStatement t.kind = true := by
  intro t mem
  refine closed t ?_
  rw [List.getLast?_append, mem]
  rfl

theorem IsClause.row (h : IsClause (.statements true) m ts m')
    (closed : ∀ t ∈ ts.getLast?, closesStatement t.kind = true) : ∃ trees, Row m ts trees m' := by
  generalize same : Clause.statements true = clause at h
  induction h with
  | nil => exact ⟨[], .nil⟩
  | @cons top m m' m'' ts us first more _ ih =>
    cases same
    obtain ⟨tree, onFirst, -⟩ := first.read
    obtain ⟨trees, onMore⟩ := ih (closed_of_append closed) rfl
    exact ⟨tree :: trees, .cons onFirst onMore⟩
  | unclosed last =>
    obtain ⟨us, t, rfl, unclosed⟩ := last.ends
    rw [closed t List.getLast?_concat] at unclosed
    cases unclosed
  | _ => cases same

theorem StatementOf.leaves {tree : Tree} (h : StatementOf true m ts tree m') :
    Leaves m tree m' := by
  have follows : FollowsStatement (.eof 0) := ⟨nofun, nofun, rfl⟩
  obtain ⟨s, run, there⟩ := h.reads _ (.eof 0) [] (Nat.le_refl _) follows
    ⟨.ofTokens (ts ++ [.eof 0]), m, 0⟩ ⟨rfl, rfl⟩
  obtain ⟨_, _, -, -, -, leaves⟩ :=
    (agreesStatements _).statement m true _ _ tree s rfl ⟨rfl, rfl⟩ run
  rwa [there.mode] at leaves

end

end Grammar

namespace Tree

open Grammar

section
variable {m m' : NumericMode} {source a b ab : Utf8.Source} {text first second : String}
  {t ta : Tree} {ts : List Token} {trees : List Tree} {line : Position}

theorem exists_statements_of_parse (isText : source.IsText text) (h : parse source m = .ok t) :
    ∃ ts line m', (Lexer.ofSource source).tokens = ts ++ [.eof line] ∧
      IsClause (.statements true) m ts m' := by
  obtain ⟨ts, line, tokens, inside⟩ := Lexer.exists_eof_of_text isText
  rw [parse, tokens] at h
  have program := isProgram_of_accepted (ended_of_last rfl inside) h
  generalize same : ts ++ [.eof line] = all at program
  cases program with
  | @intro m' last ts' statements _ =>
    obtain ⟨rfl, -⟩ := List.append_inj' same rfl
    exact ⟨ts, line, m', tokens, statements⟩

theorem ofTokens_statements (read : StatementsOf true m ts trees m') (line : Position) :
    ∃ line', ofTokens (ts ++ [.eof line]) m = .ok (.body line' trees) := by
  have isEof : (Token.eof line).kind = .eof := rfl
  obtain ⟨next, after, split, -⟩ := read.clause.follows isEof []
  exact ⟨next.line, read.ofTokens_eq rfl (by rw [split]; rfl)⟩

theorem eq_body_of_statements (tokens : (Lexer.ofSource source).tokens = ts ++ [.eof line])
    (read : StatementsOf true m ts trees m') (h : parse source m = .ok t) :
    ∃ line', t = .body line' trees := by
  obtain ⟨line', same⟩ := ofTokens_statements read line
  rw [parse, tokens, same] at h
  cases h
  exact ⟨line', rfl⟩

theorem bare_tokens_eq (l : Lexer) :
    l.tokens.map Token.bare = l.spellings.map fun s => ⟨s.1, s.2, 0⟩ := by
  rw [Lexer.spellings, List.map_map]
  rfl

/-- A program that is closed at its end leads to a mode in which another one can be read behind it,
and the text of both has the statements of both. -/
theorem parse_joined (isFirst : a.IsText first) (isSecond : b.IsText second)
    (isBoth : ab.IsText (first ++ "\n" ++ second))
    (closed : ∀ t ∈ (Lexer.ofSource a).tokens.dropLast.getLast?, closesStatement t.kind = true)
    (h : parse a m = .ok ta) :
    ∃ line trees ts m', ta = .body line trees ∧ Row m ts trees m' ∧
      ∀ tb, parse b m' = .ok tb → ∃ line trees' line' all, tb = .body line trees' ∧
        parse ab m = .ok (.body line' all) ∧ all.map bare = (trees ++ trees').map bare := by
  obtain ⟨ts, last, m', tokens, statements⟩ := exists_statements_of_parse isFirst h
  rw [tokens, List.dropLast_concat] at closed
  obtain ⟨trees, row⟩ := statements.row closed
  obtain ⟨line, rfl⟩ := eq_body_of_statements tokens row.statements h
  refine ⟨line, trees, ts, m', rfl, row, fun tb h' => ?_⟩
  obtain ⟨us, last', m'', tokens', statements'⟩ := exists_statements_of_parse isSecond h'
  obtain ⟨trees', read⟩ := statements'.read
  obtain ⟨line', rfl⟩ := eq_body_of_statements tokens' read h'
  have clean : ∀ t ∈ ts.getLast?, t.kind ≠ .error := by
    intro t mem error
    have closes := closed t mem
    rw [error] at closes
    cases closes
  have bares : (ts ++ us ++ [Token.eof last']).map Token.bare =
      (Lexer.ofSource ab).tokens.map Token.bare := by
    rw [bare_tokens_eq, Lexer.spellings_joined isFirst isSecond isBoth tokens clean, List.map_map,
      tokens', List.append_assoc]
    rfl
  obtain ⟨line'', both⟩ := ofTokens_statements (row.append read) last'
  obtain ⟨t', joined, bare⟩ := ofTokens_bare bares both
  obtain ⟨at_, all, rfl, -⟩ := topLevel_of_stream joined
  refine ⟨line', trees', at_, all, rfl, joined, ?_⟩
  rw [Tree.bare, Tree.bare, bareTrees_eq_map, bareTrees_eq_map] at bare
  exact (Tree.body.inj bare).2.symm

end

end Tree

end Calculator
