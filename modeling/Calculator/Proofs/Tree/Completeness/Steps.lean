import Calculator.Proofs.Tree.Completeness.Expressions

set_option autoImplicit false

namespace Calculator.Grammar

open Calculator.Parser

theorem startsStatement_ne {t : Token} (h : startsStatement t = true) {kind : Kind}
    (mem : kind ∈ [.error, .eof, .comma, .semicolon, .rightParen, .rightCurly]) :
    t.kind ≠ kind := by
  simp only [startsStatement, Bool.or_eq_true, decide_eq_true_eq, List.any_eq_true] at h
  rcases h with (operand | sign) | ⟨word, -, isWord⟩
  · refine startsOperand_ne operand ?_
    revert mem
    cases kind <;> decide
  · rw [sign]
    rintro rfl
    revert mem
    decide
  · rw [kind_of_hasKeyword isWord]
    rintro rfl
    revert mem
    decide

theorem startsStatement_not_else {t : Token} (h : startsStatement t = true) :
    t.hasKeyword "else" = false := by
  refine Bool.eq_false_iff.mpr fun isElse => ?_
  have kind := kind_of_hasKeyword isElse
  have text := text_of_hasKeyword isElse
  simp only [startsStatement, Bool.or_eq_true, decide_eq_true_eq, List.any_eq_true] at h
  rcases h with (operand | sign) | ⟨word, mem, isWord⟩
  · exact absurd kind (startsOperand_ne operand (by decide))
  · rw [sign] at kind
    cases kind
  · rw [← text_of_hasKeyword isWord, text] at mem
    revert mem
    decide

section
variable {m m' : NumericMode} {fuel : Nat} {line : Position} {top : Bool}
  {t sign colon option word next : Token} {ts us rest : List Token} {tree : Tree}

theorem reads_semicolon (isSemi : t.kind = .semicolon) :
    Reads (semicolon top) m (t :: ts) () m ts := by
  unfold semicolon
  refine .take (isSemi.trans_ne (by simp)) ?_
  rw [if_neg (not_not_intro isSemi)]
  exact .pure

theorem reads_no_semicolon (notError : t.kind ≠ .error) (notSemi : t.kind ≠ .semicolon) :
    Reads (semicolon true) m (t :: ts) () m (t :: ts) := by
  unfold semicolon
  refine .take notError ?_
  rw [if_pos notSemi]
  exact .untake .pure

theorem reads_display_last (ends : t.kind = .semicolon ∨ t.kind = .eof) :
    Reads (display fuel line) m (t :: ts) (.display line (.reference line "_")) m (t :: ts) := by
  unfold display
  rcases ends with semi | eof
  · refine .take (semi.trans_ne (by simp)) ?_
    rw [semi]
    exact .untake .pure
  · refine .take (eof.trans_ne (by simp)) ?_
    rw [eof]
    exact .untake .pure

theorem reads_display_expression (starts : startsOperand t.kind = true)
    (inner : Reads (expression fuel) m (t :: ts) tree m rest) :
    Reads (display fuel line) m (t :: ts) (.display line tree) m rest := by
  unfold display
  refine .take (startsOperand_ne starts (by decide)) ?_
  split
  · rename_i kind
    exact absurd kind (startsOperand_ne starts (by decide))
  · rename_i kind
    exact absurd kind (startsOperand_ne starts (by decide))
  · rename_i kind
    exact absurd kind (startsOperand_ne starts (by decide))
  · exact .untake (inner.bind .pure)

theorem reads_switchMode : Reads (switchMode line m') m ts (.setMode line m') m' ts :=
  fun s here => ⟨{ s with mode := m' }, rfl, rfl, here.upcoming⟩

def setOption (line : Position) (option : Token) : Parser Tree :=
  if option.text = "p" then return .toggleProgrammer line
  else if option.text = "f" then switchMode line .float
  else if option.text = "r" then switchMode line .rational
  else unexpected option .displayStatement

theorem reads_setOption_toggle (isToggle : option.text = "p") :
    Reads (setOption line option) m ts (.toggleProgrammer line) m ts := by
  unfold setOption
  rw [if_pos isToggle]
  exact .pure

theorem reads_setOption_float (isFloat : option.text = "f") :
    Reads (setOption line option) m ts (.setMode line .float) .float ts := by
  unfold setOption
  rw [isFloat, if_neg (by decide), if_pos rfl]
  exact reads_switchMode

theorem reads_setOption_rational (isRational : option.text = "r") :
    Reads (setOption line option) m ts (.setMode line .rational) .rational ts := by
  unfold setOption
  rw [isRational, if_neg (by decide), if_neg (by decide), if_pos rfl]
  exact reads_switchMode

theorem exists_setOption (after : modeAfter m option.text = some m') :
    ∃ tree, ∀ ts, Reads (setOption line option) m ts tree m' ts := by
  unfold modeAfter at after
  split_ifs at after with isP isF isR
  · obtain rfl := Option.some.inj after
    exact ⟨_, fun _ => reads_setOption_toggle isP⟩
  · obtain rfl := Option.some.inj after
    exact ⟨_, fun _ => reads_setOption_float isF⟩
  · obtain rfl := Option.some.inj after
    exact ⟨_, fun _ => reads_setOption_rational isR⟩

theorem reads_display_option (isColon : colon.kind = .colon) (isName : option.kind = .symbol)
    (inner : Reads (setOption line option) m ts tree m' rest) :
    Reads (display fuel line) m (colon :: option :: ts) tree m' rest := by
  unfold display
  refine .take (isColon.trans_ne (by simp)) ?_
  rw [isColon]
  refine .take (isName.trans_ne (by simp)) ?_
  rw [if_neg (not_not_intro isName)]
  exact inner

theorem reads_exit (ends : t.kind = .semicolon ∨ t.kind = .eof) :
    Reads (exit line) m (t :: ts) (.exit line) m (t :: ts) := by
  have notError : t.kind ≠ .error := by
    rcases ends with kind | kind <;> rw [kind] <;> decide
  unfold exit
  refine (reads_peek notError).bind ?_
  rw [if_pos ends]
  exact .pure

theorem reads_statement_display (isSign : sign.kind = .at)
    (inner : Reads (display fuel sign.line) m ts tree m' us)
    (close : Reads (semicolon top) m' us () m' rest) :
    Reads (statement (fuel + 1) top) m (sign :: ts) tree m' rest := by
  unfold statement
  refine .take (isSign.trans_ne (by simp)) ?_
  rw [if_pos isSign]
  exact inner.bind (close.bind .pure)

theorem reads_statement_expression (starts : startsOperand t.kind = true)
    (inner : Reads (expression fuel) m (t :: ts) tree m us)
    (close : Reads (semicolon top) m us () m rest) :
    Reads (statement (fuel + 1) top) m (t :: ts) tree m rest := by
  unfold statement
  refine .take (startsOperand_ne starts (by decide)) ?_
  rw [if_neg (startsOperand_ne starts (by decide)), if_pos (startsOperand_ne starts (by decide))]
  exact .untake (inner.bind (close.bind .pure))

def keywordStatement (fuel : Nat) (top : Bool) (word : Token) : Parser Tree :=
  if word.text = "func" then
    if top then functionDefinition fuel word.line else unexpected word .nestedFunction
  else if word.text = "if" then ifStatement fuel word.line
  else if word.text = "while" then whileStatement fuel word.line
  else if word.text = "for" then forStatement fuel word.line
  else if word.text = "exit" then do
    let tree ← exit word.line
    semicolon top
    return tree
  else unexpected word .statement

theorem reads_statement_keyword (isWord : word.kind = .keyword)
    (inner : Reads (keywordStatement fuel top word) m ts tree m' rest) :
    Reads (statement (fuel + 1) top) m (word :: ts) tree m' rest := by
  have notSign : word.kind ≠ .at := isWord.trans_ne (by simp)
  unfold statement
  refine .take (isWord.trans_ne (by simp)) ?_
  rw [if_neg notSign, if_neg (not_not_intro isWord)]
  exact inner

theorem reads_statement_exit (isExit : word.hasKeyword "exit" = true)
    (ends : next.kind = .semicolon ∨ next.kind = .eof)
    (close : Reads (semicolon top) m (next :: ts) () m rest) :
    Reads (statement (fuel + 1) top) m (word :: next :: ts) (.exit word.line) m rest := by
  refine reads_statement_keyword (kind_of_hasKeyword isExit) ?_
  unfold keywordStatement
  rw [text_of_hasKeyword isExit, if_neg (by decide), if_neg (by decide), if_neg (by decide),
    if_neg (by decide), if_pos rfl]
  exact (reads_exit ends).bind (close.bind .pure)

theorem meets_statement_if (isIf : word.hasKeyword "if" = true)
    (inner : Meets (ifStatement fuel word.line) m ts (pure tree) m' next rest) :
    Meets (statement (fuel + 1) top) m (word :: ts) (pure tree) m' next rest := by
  have isWord := kind_of_hasKeyword isIf
  have notSign : word.kind ≠ .at := isWord.trans_ne (by simp)
  unfold statement
  refine (reads_take (isWord.trans_ne (by simp))).meets_bind ?_
  rw [if_neg notSign, if_neg (not_not_intro isWord), text_of_hasKeyword isIf, if_neg (by decide),
    if_pos rfl]
  exact inner

theorem reads_statement_while (isWhile : word.hasKeyword "while" = true)
    (inner : Reads (whileStatement fuel word.line) m ts tree m' rest) :
    Reads (statement (fuel + 1) top) m (word :: ts) tree m' rest := by
  refine reads_statement_keyword (kind_of_hasKeyword isWhile) ?_
  unfold keywordStatement
  rw [text_of_hasKeyword isWhile, if_neg (by decide), if_neg (by decide), if_pos rfl]
  exact inner

theorem reads_statement_for (isFor : word.hasKeyword "for" = true)
    (inner : Reads (forStatement fuel word.line) m ts tree m' rest) :
    Reads (statement (fuel + 1) top) m (word :: ts) tree m' rest := by
  refine reads_statement_keyword (kind_of_hasKeyword isFor) ?_
  unfold keywordStatement
  rw [text_of_hasKeyword isFor, if_neg (by decide), if_neg (by decide), if_neg (by decide),
    if_pos rfl]
  exact inner

theorem reads_statement_func (isFunc : word.hasKeyword "func" = true)
    (inner : Reads (functionDefinition fuel word.line) m ts tree m' rest) :
    Reads (statement (fuel + 1) true) m (word :: ts) tree m' rest := by
  refine reads_statement_keyword (kind_of_hasKeyword isFunc) ?_
  unfold keywordStatement
  rw [text_of_hasKeyword isFunc, if_pos rfl, if_pos rfl]
  exact inner

end

section
variable {m m' m'' : NumericMode} {fuel : Nat} {line : Position} {top : Bool}
  {t name left right semi semi' word next : Token} {ts us vs ws rest : List Token}
  {tree guard body init step : Tree} {context : Context}

theorem reads_block (opens : left.kind = .leftCurly) (notError : t.kind ≠ .error)
    (inner : Reads (statements fuel false t.line []) m (t :: ts) tree m' (right :: rest))
    (closes : right.kind = .rightCurly) :
    Reads (block (fuel + 1) context) m (left :: t :: ts) tree m' rest := by
  unfold block
  exact (reads_expect opens (by simp)).bind ((reads_peek notError).bind
    (inner.bind ((reads_expect closes (by simp)).bind .pure)))

theorem reads_while (opens : left.kind = .leftParen)
    (condition : Reads (expression fuel) m ts guard m (right :: us))
    (closes : right.kind = .rightParen)
    (inner : Reads (block fuel .whileStatement) m us body m' rest) :
    Reads (whileStatement (fuel + 1) line) m (left :: ts) (.whileLoop line guard body) m' rest := by
  unfold whileStatement
  exact (reads_expect opens (by simp)).bind (condition.bind
    ((reads_expect closes (by simp)).bind (inner.bind .pure)))

theorem reads_for (opens : left.kind = .leftParen)
    (start : Reads (expression fuel) m ts init m (semi :: us)) (isSemi : semi.kind = .semicolon)
    (condition : Reads (expression fuel) m us guard m (semi' :: vs))
    (isSemi' : semi'.kind = .semicolon)
    (next : Reads (expression fuel) m vs step m (right :: ws)) (closes : right.kind = .rightParen)
    (inner : Reads (block fuel .forStatement) m ws body m' rest) :
    Reads (forStatement (fuel + 1) line) m (left :: ts) (.forLoop line init guard step body) m'
      rest := by
  unfold forStatement
  exact (reads_expect opens (by simp)).bind (start.bind
    ((reads_expect isSemi (by simp)).bind (condition.bind
      ((reads_expect isSemi' (by simp)).bind (next.bind
        ((reads_expect closes (by simp)).bind (inner.bind .pure)))))))

def branches (fuel : Nat) (line : Position) (guard positive : Tree) : Parser Tree := do
  let token ← take
  if token.hasKeyword "else" then
    let next ← take
    if next.kind = .leftCurly then
      untake next
      return .conditional line guard positive (some (← block fuel .elseBranch))
    else if next.hasKeyword "if" then
      return .conditional line guard positive (some (← ifStatement fuel next.line))
    else unexpected next .elseStart
  else
    untake token
    return .conditional line guard positive none

theorem meets_if (opens : left.kind = .leftParen)
    (condition : Reads (expression fuel) m ts guard m (right :: us))
    (closes : right.kind = .rightParen)
    (inner : Reads (block fuel .ifStatement) m us body m' vs)
    (after : Meets (branches fuel line guard body) m' vs (pure tree) m'' next rest) :
    Meets (ifStatement (fuel + 1) line) m (left :: ts) (pure tree) m'' next rest := by
  unfold ifStatement
  exact (reads_expect opens (by simp)).meets_bind (condition.meets_bind
    ((reads_expect closes (by simp)).meets_bind (inner.meets_bind after)))

theorem meets_branches_none (notElse : t.hasKeyword "else" = false) :
    Meets (branches fuel line guard body) m (t :: ts) (pure (.conditional line guard body none)) m t
      ts := by
  unfold branches
  refine meets_take fun _ => ?_
  rw [notElse, if_neg Bool.false_ne_true]
  exact .untake .pure

theorem reads_branches_block (isElse : word.hasKeyword "else" = true)
    (opens : left.kind = .leftCurly)
    (inner : Reads (block fuel .elseBranch) m (left :: ts) tree m' rest) :
    Reads (branches fuel line guard body) m (word :: left :: ts)
      (.conditional line guard body (some tree)) m' rest := by
  unfold branches
  refine .take ((kind_of_hasKeyword isElse).trans_ne (by simp)) ?_
  rw [if_pos isElse]
  refine .take (opens.trans_ne (by simp)) ?_
  rw [if_pos opens]
  exact .untake (inner.bind .pure)

theorem meets_branches_if (isElse : word.hasKeyword "else" = true)
    (isIf : t.hasKeyword "if" = true)
    (inner : Meets (ifStatement fuel t.line) m ts (pure tree) m' next rest) :
    Meets (branches fuel line guard body) m (word :: t :: ts)
      (pure (.conditional line guard body (some tree))) m' next rest := by
  have kind := kind_of_hasKeyword isIf
  have notOpen : t.kind ≠ .leftCurly := kind.trans_ne (by simp)
  unfold branches
  refine (reads_take ((kind_of_hasKeyword isElse).trans_ne (by simp))).meets_bind ?_
  rw [if_pos isElse]
  refine (reads_take (kind.trans_ne (by simp))).meets_bind ?_
  rw [if_neg notOpen, if_pos isIf]
  exact inner.bind _

theorem reads_parameters_close {names : List String} (closes : right.kind = .rightParen) :
    Reads (parameters (fuel + 1) names) m (right :: ts) names.reverse m ts := by
  unfold parameters
  refine .take (closes.trans_ne (by simp)) ?_
  rw [if_pos closes]
  exact .pure

theorem reads_parameters_first {params : List String} (isName : name.kind = .symbol)
    (more : Reads (parameters fuel [name.text]) m ts params m rest) :
    Reads (parameters (fuel + 1) []) m (name :: ts) params m rest := by
  have notClose : name.kind ≠ .rightParen := isName.trans_ne (by simp)
  unfold parameters
  refine .take (isName.trans_ne (by simp)) ?_
  rw [if_neg notClose]
  refine Reads.bind .pure ?_
  dsimp only
  rw [if_neg (not_not_intro isName)]
  exact more

theorem reads_parameters_next {names params : List String} (nonempty : names ≠ [])
    (isComma : t.kind = .comma) (isName : name.kind = .symbol)
    (more : Reads (parameters fuel (name.text :: names)) m ts params m rest) :
    Reads (parameters (fuel + 1) names) m (t :: name :: ts) params m rest := by
  have notEmpty : names.isEmpty = false := List.isEmpty_eq_false_iff.mpr nonempty
  have notClose : t.kind ≠ .rightParen := isComma.trans_ne (by simp)
  unfold parameters
  refine .take (isComma.trans_ne (by simp)) ?_
  rw [if_neg notClose, notEmpty, if_neg Bool.false_ne_true,
    if_neg (not_not_intro isComma)]
  refine .take (isName.trans_ne (by simp)) ?_
  dsimp only
  rw [if_neg (not_not_intro isName)]
  exact more

def namesOf (ts : List Token) : List String :=
  (ts.filter (·.kind = .symbol)).map Token.text

theorem namesOf_cons (isName : name.kind = .symbol) (ts : List Token) :
    namesOf (name :: ts) = name.text :: namesOf ts := by
  simp [namesOf, isName]

theorem namesOf_comma {comma : Token} (isComma : comma.kind = .comma) (ts : List Token) :
    namesOf (comma :: ts) = namesOf ts := by
  simp [namesOf, isComma]

theorem IsNames.read (h : IsNames ts) : ∃ name us, ts = name :: us ∧ name.kind = .symbol ∧
    ∀ (m : NumericMode) fuel names right rest, us.length + 1 ≤ fuel → right.kind = .rightParen →
      Reads (parameters fuel (name.text :: names)) m (us ++ right :: rest)
        (names.reverse ++ namesOf ts) m rest := by
  induction h with
  | @name name isName =>
    refine ⟨name, [], rfl, isName, fun m fuel names right rest enough closes => ?_⟩
    obtain ⟨fuel, rfl⟩ := Nat.exists_eq_succ_of_ne_zero (Nat.ne_zero_of_lt enough)
    rw [namesOf_cons isName]
    exact List.reverse_cons ▸ reads_parameters_close closes
  | @names name comma ts isName isComma more ih =>
    obtain ⟨next, us, rfl, isNext, read⟩ := ih
    refine ⟨name, comma :: next :: us, rfl, isName, fun m fuel names right rest enough closes => ?_⟩
    simp only [List.length_cons] at enough
    obtain ⟨fuel, rfl⟩ : ∃ n, fuel = n + 1 := ⟨fuel - 1, by omega⟩
    have reads := read m fuel (name.text :: names) right rest (by omega) closes
    rw [List.reverse_cons, List.append_assoc, List.singleton_append] at reads
    rw [namesOf_cons isName, namesOf_comma isComma]
    exact reads_parameters_next (List.cons_ne_nil _ _) isComma isNext reads

theorem reads_names (names : ts = [] ∨ IsNames ts) (enough : ts.length + 2 ≤ fuel)
    (closes : right.kind = .rightParen) :
    Reads (parameters fuel []) m (ts ++ right :: rest) (namesOf ts) m rest := by
  obtain ⟨fuel, rfl⟩ : ∃ n, fuel = n + 1 := ⟨fuel - 1, by omega⟩
  rcases names with rfl | names
  · exact reads_parameters_close closes
  · obtain ⟨name, us, rfl, isName, read⟩ := names.read
    rw [List.length_cons] at enough
    exact reads_parameters_first isName (read m fuel [] right rest (by omega) closes)

theorem reads_function {params : List String} (isName : name.kind = .symbol)
    (opens : left.kind = .leftParen) (names : Reads (parameters fuel []) m ts params m us)
    (inner : Reads (block fuel .functionDefinition) m us body m' rest) :
    Reads (functionDefinition (fuel + 1) line) m (name :: left :: ts)
      (.define line name.text params body) m' rest := by
  unfold functionDefinition
  refine .take (isName.trans_ne (by simp)) ?_
  rw [if_neg (not_not_intro isName)]
  exact (reads_expect opens (by simp)).bind (names.bind (inner.bind .pure))

theorem reads_statements_nil {read : List Tree}
    (closes : right.kind = if top then .eof else .rightCurly) :
    Reads (statements (fuel + 1) top line read) m (right :: rest) (.body line read.reverse) m
      (right :: rest) := by
  have notError : right.kind ≠ .error := by
    rw [closes]
    cases top <;> decide
  unfold statements
  refine (reads_peek notError).bind ?_
  rw [if_pos closes]
  exact .pure

theorem reads_statements_cons {read : List Tree} (starts : startsStatement t = true)
    (first : Reads (statement fuel top) m (t :: ts) tree m' us)
    (more : Reads (statements fuel top line (tree :: read)) m' us body m'' rest) :
    Reads (statements (fuel + 1) top line read) m (t :: ts) body m'' rest := by
  have goesOn : t.kind ≠ if top then .eof else .rightCurly := by
    cases top with
    | true => exact startsStatement_ne starts (by decide)
    | false => exact startsStatement_ne starts (by decide)
  unfold statements
  refine (reads_peek (startsStatement_ne starts (by decide))).bind ?_
  rw [if_neg goesOn, if_neg (startsStatement_ne starts (by decide))]
  exact first.bind more

end

end Calculator.Grammar
