import Calculator.Proofs.Tree.Completeness.Steps

set_option autoImplicit false

namespace Calculator.Grammar

open Calculator.Parser

structure FollowsStatement (t : Token) : Prop where
  notError : t.kind ≠ .error
  notSemi : t.kind ≠ .semicolon
  notElse : t.hasKeyword "else" = false

theorem followsStatement_of_starts {t : Token} (h : startsStatement t = true) :
    FollowsStatement t :=
  ⟨startsStatement_ne h (by decide), startsStatement_ne h (by decide), startsStatement_not_else h⟩

theorem followsStatement_of_closes {t : Token} {top : Bool}
    (h : t.kind = if top then .eof else .rightCurly) : FollowsStatement t := by
  have notElse (kind : t.kind ≠ .keyword) : t.hasKeyword "else" = false := by
    rw [Token.hasKeyword, decide_eq_false kind, Bool.false_and]
  cases top with
  | true =>
    rw [if_pos rfl] at h
    exact ⟨h.trans_ne (by simp), h.trans_ne (by simp), notElse (h.trans_ne (by simp))⟩
  | false =>
    rw [if_neg Bool.false_ne_true] at h
    exact ⟨h.trans_ne (by simp), h.trans_ne (by simp), notElse (h.trans_ne (by simp))⟩

theorem IsClause.follows {top : Bool} {m m' : NumericMode} {ts : List Token} {right : Token}
    (h : IsClause (.statements top) m ts m')
    (closes : right.kind = if top then .eof else .rightCurly) (rest : List Token) :
    ∃ next after, ts ++ right :: rest = next :: after ∧ FollowsStatement next := by
  rcases h.nil_or_starts with rfl | ⟨t, us, rfl, starts⟩
  · exact ⟨right, rest, rfl, followsStatement_of_closes closes⟩
  · exact ⟨t, _, rfl, followsStatement_of_starts starts⟩

theorem line_of_first {ts rest after : List Token} {right next : Token} {line : Position}
    (split : ts ++ right :: rest = next :: after)
    (first : (ts ++ [right]).head?.map Token.line = some line) : next.line = line := by
  cases ts with
  | nil =>
    obtain ⟨rfl, -⟩ := List.cons.inj split
    exact Option.some.inj first
  | cons t ts =>
    obtain ⟨rfl, -⟩ := List.cons.inj split
    exact Option.some.inj first

theorem endsChain_of_ends {t : Token} (h : t.kind = .semicolon ∨ t.kind = .eof) :
    endsChain t.kind = true := by
  rcases h with kind | kind <;> rw [kind] <;> rfl

theorem IsClause.opens {m m' : NumericMode} {ts : List Token} (h : IsClause .block m ts m') :
    ∃ left us, ts = left :: us ∧ left.kind = .leftCurly := by
  cases h with
  | block opens inner closes => exact ⟨_, _, rfl, opens⟩

/-- The tokens are a statement that a semicolon ends and read as the tree. -/
structure SimpleOf (m : NumericMode) (ts : List Token) (tree : Tree) : Prop where
  simple : IsSimple m ts
  reads : ∀ fuel top next us rest, 4 * ts.length + 2 ≤ fuel →
    next.kind = .semicolon ∨ next.kind = .eof → Reads (semicolon top) m (next :: us) () m rest →
    Reads (statement (fuel + 1) top) m (ts ++ next :: us) tree m rest

structure SettingOf (m : NumericMode) (ts : List Token) (tree : Tree) (m' : NumericMode) :
    Prop where
  setting : IsSetting m ts m'
  reads : ∀ fuel top us rest, Reads (semicolon top) m' us () m' rest →
    Reads (statement (fuel + 1) top) m (ts ++ us) tree m' rest

structure StatementOf (top : Bool) (m : NumericMode) (ts : List Token) (tree : Tree)
    (m' : NumericMode) : Prop where
  clause : IsClause (.statement top) m ts m'
  reads : ∀ fuel next rest, 4 * ts.length + 3 ≤ fuel → FollowsStatement next →
    Reads (statement fuel top) m (ts ++ next :: rest) tree m' (next :: rest)

/-- The tokens are a statement and read as the tree, whatever stands behind them but another
branch. -/
structure CompleteOf (top : Bool) (m : NumericMode) (ts : List Token) (tree : Tree)
    (m' : NumericMode) : Prop where
  clause : IsClause (.statement top) m ts m'
  meets : ∀ fuel next rest, 4 * ts.length + 3 ≤ fuel → next.hasKeyword "else" = false →
    Meets (statement fuel top) m (ts ++ next :: rest) (pure tree) m' next rest

structure StatementsOf (top : Bool) (m : NumericMode) (ts : List Token) (trees : List Tree)
    (m' : NumericMode) : Prop where
  clause : IsClause (.statements top) m ts m'
  reads : ∀ fuel line read right rest, 4 * ts.length + 4 ≤ fuel →
    (right.kind = if top then .eof else .rightCurly) →
    Reads (statements fuel top line read) m (ts ++ right :: rest)
      (.body line (read.reverse ++ trees)) m' (right :: rest)

structure BlockOf (m : NumericMode) (ts : List Token) (tree : Tree) (m' : NumericMode) : Prop where
  clause : IsClause .block m ts m'
  reads : ∀ fuel context rest, 4 * ts.length ≤ fuel →
    Reads (block fuel context) m (ts ++ rest) tree m' rest

/-- Behind its keyword the conditional is read as the tree. Only another branch belongs to it. -/
structure ConditionalOf (m : NumericMode) (word : Token) (ts : List Token) (tree : Tree)
    (m' : NumericMode) : Prop where
  clause : IsClause .conditional m (word :: ts) m'
  meets : ∀ fuel next rest, 4 * ts.length + 4 ≤ fuel → next.hasKeyword "else" = false →
    Meets (ifStatement fuel word.line) m (ts ++ next :: rest) (pure tree) m' next rest

section
variable {m m' m'' : NumericMode} {top : Bool} {word sign colon option name left right semi semi'
  other : Token} {ts us vs ws rest : List Token} {tree guard init step body alternative : Tree}
  {trees : List Tree} {line : Position}

theorem SimpleOf.expression (inner : ExpressionOf m ts tree) : SimpleOf m ts tree := by
  refine ⟨.expression inner.phrase, fun fuel top next us rest enough ends close => ?_⟩
  have reads := inner.reads fuel next us enough (endsChain_of_ends ends)
  obtain ⟨t, ts, rfl, starts⟩ := inner.phrase.starts
  exact reads_statement_expression starts reads close

theorem SimpleOf.display (isSign : sign.kind = .at) (inner : ExpressionOf m ts tree) :
    SimpleOf m (sign :: ts) (.display sign.line tree) := by
  refine ⟨.display isSign inner.phrase, fun fuel top next us rest enough ends close => ?_⟩
  rw [List.length_cons] at enough
  have reads := inner.reads fuel next us (by omega) (endsChain_of_ends ends)
  obtain ⟨t, ts, rfl, starts⟩ := inner.phrase.starts
  exact reads_statement_display isSign (reads_display_expression starts reads) close

theorem SimpleOf.last (isSign : sign.kind = .at) :
    SimpleOf m [sign] (.display sign.line (.reference sign.line "_")) := by
  refine ⟨.last isSign, fun fuel top next us rest _ ends close => ?_⟩
  exact reads_statement_display isSign (reads_display_last ends) close

theorem SimpleOf.exit (isExit : word.hasKeyword "exit" = true) :
    SimpleOf m [word] (.exit word.line) :=
  ⟨.exit isExit, fun _ _ _ _ _ _ ends close => reads_statement_exit isExit ends close⟩

theorem SettingOf.intro (isSign : sign.kind = .at) (isColon : colon.kind = .colon)
    (isName : option.kind = .symbol) (after : modeAfter m option.text = some m')
    (reads : ∀ us, Reads (setOption sign.line option) m us tree m' us) :
    SettingOf m [sign, colon, option] tree m' := by
  refine ⟨.intro isSign isColon isName after, fun fuel top us rest close => ?_⟩
  exact reads_statement_display isSign (reads_display_option isColon isName (reads us)) close

theorem CompleteOf.statement (h : CompleteOf top m ts tree m') : StatementOf top m ts tree m' :=
  ⟨h.clause, fun fuel next rest enough follows =>
    (h.meets fuel next rest enough follows.notElse).reads follows.notError⟩

namespace CompleteOf

theorem simple (inner : SimpleOf m ts tree) (isSemi : semi.kind = .semicolon) :
    CompleteOf top m (ts ++ [semi]) tree m := by
  refine ⟨.simple inner.simple isSemi, fun fuel next rest enough _ => ?_⟩
  rw [List.length_append] at enough
  obtain ⟨fuel, rfl⟩ : ∃ n, fuel = n + 1 := ⟨fuel - 1, by omega⟩
  rw [← List.append_cons]
  have close : Reads (semicolon top) m (semi :: next :: rest) () m (next :: rest) :=
    reads_semicolon isSemi
  exact (inner.reads fuel top semi (next :: rest) _ (by omega) (.inl isSemi) close).meets

theorem setting (inner : SettingOf m ts tree m') (isSemi : semi.kind = .semicolon) :
    CompleteOf top m (ts ++ [semi]) tree m' := by
  refine ⟨.setting inner.setting isSemi, fun fuel next rest enough _ => ?_⟩
  obtain ⟨fuel, rfl⟩ : ∃ n, fuel = n + 1 := ⟨fuel - 1, by omega⟩
  rw [← List.append_cons]
  exact (inner.reads fuel top _ _ (reads_semicolon isSemi)).meets

theorem conditional (inner : ConditionalOf m word ts tree m')
    (isIf : word.hasKeyword "if" = true) : CompleteOf top m (word :: ts) tree m' := by
  refine ⟨.conditional inner.clause, fun fuel next rest enough notElse => ?_⟩
  rw [List.length_cons] at enough
  obtain ⟨fuel, rfl⟩ : ∃ n, fuel = n + 1 := ⟨fuel - 1, by omega⟩
  exact meets_statement_if isIf (inner.meets fuel next rest (by omega) notElse)

theorem whileLoop (isWhile : word.hasKeyword "while" = true) (opens : left.kind = .leftParen)
    (condition : ExpressionOf m ts guard) (closes : right.kind = .rightParen)
    (inner : BlockOf m us body m') :
    CompleteOf top m (word :: left :: (ts ++ right :: us)) (.whileLoop word.line guard body)
      m' := by
  refine ⟨.whileLoop isWhile opens condition.phrase closes inner.clause,
    fun fuel next rest enough _ => ?_⟩
  simp only [List.length_cons, List.length_append] at enough
  simp only [List.cons_append, List.append_assoc]
  obtain ⟨fuel, rfl⟩ : ∃ n, fuel = n + 2 := ⟨fuel - 2, by omega⟩
  have onGuard := condition.reads fuel right (us ++ next :: rest) (by omega) (by rw [closes]; rfl)
  have onBody := inner.reads fuel .whileStatement (next :: rest) (by omega)
  exact (reads_statement_while isWhile (reads_while opens onGuard closes onBody)).meets

theorem forLoop (isFor : word.hasKeyword "for" = true) (opens : left.kind = .leftParen)
    (start : ExpressionOf m ts init) (isSemi : semi.kind = .semicolon)
    (condition : ExpressionOf m us guard) (isSemi' : semi'.kind = .semicolon)
    (next : ExpressionOf m vs step) (closes : right.kind = .rightParen)
    (inner : BlockOf m ws body m') :
    CompleteOf top m (word :: left :: (ts ++ semi :: (us ++ semi' :: (vs ++ right :: ws))))
      (.forLoop word.line init guard step body) m' := by
  refine ⟨.forLoop isFor opens start.phrase isSemi condition.phrase isSemi' next.phrase closes
    inner.clause, fun fuel behind rest enough _ => ?_⟩
  simp only [List.length_cons, List.length_append] at enough
  simp only [List.cons_append, List.append_assoc]
  obtain ⟨fuel, rfl⟩ : ∃ n, fuel = n + 2 := ⟨fuel - 2, by omega⟩
  have onInit := start.reads fuel semi (us ++ semi' :: (vs ++ right :: (ws ++ behind :: rest)))
    (by omega) (by rw [isSemi]; rfl)
  have onGuard := condition.reads fuel semi' (vs ++ right :: (ws ++ behind :: rest)) (by omega)
    (by rw [isSemi']; rfl)
  have onStep := next.reads fuel right (ws ++ behind :: rest) (by omega) (by rw [closes]; rfl)
  have onBody := inner.reads fuel .forStatement (behind :: rest) (by omega)
  exact (reads_statement_for isFor
    (reads_for opens onInit isSemi onGuard isSemi' onStep closes onBody)).meets

theorem function {params : List String} (isFunc : word.hasKeyword "func" = true)
    (isName : name.kind = .symbol) (opens : left.kind = .leftParen)
    (names : ts = [] ∨ IsNames ts) (texts : namesOf ts = params)
    (closes : right.kind = .rightParen) (inner : BlockOf m us body m') :
    CompleteOf true m (word :: name :: left :: (ts ++ right :: us))
      (.define word.line name.text params body) m' := by
  subst texts
  refine ⟨.function isFunc isName opens names closes inner.clause,
    fun fuel next rest enough _ => ?_⟩
  simp only [List.length_cons, List.length_append] at enough
  simp only [List.cons_append, List.append_assoc]
  obtain ⟨fuel, rfl⟩ : ∃ n, fuel = n + 2 := ⟨fuel - 2, by omega⟩
  have onNames : Reads (parameters fuel []) m (ts ++ right :: (us ++ next :: rest)) (namesOf ts) m
      (us ++ next :: rest) := reads_names names (by omega) closes
  have onBody := inner.reads fuel .functionDefinition (next :: rest) (by omega)
  exact (reads_statement_func isFunc (reads_function isName opens onNames onBody)).meets

end CompleteOf

theorem StatementOf.openSetting (inner : SettingOf m ts tree m') :
    StatementOf true m ts tree m' := by
  refine ⟨.openSetting inner.setting, fun fuel next rest enough follows => ?_⟩
  obtain ⟨fuel, rfl⟩ : ∃ n, fuel = n + 1 := ⟨fuel - 1, by omega⟩
  exact inner.reads fuel true _ _ (reads_no_semicolon follows.notError follows.notSemi)

theorem StatementsOf.nil : StatementsOf top m [] [] m := by
  refine ⟨.nil, fun fuel line read right rest enough closes => ?_⟩
  obtain ⟨fuel, rfl⟩ : ∃ n, fuel = n + 1 := ⟨fuel - 1, by omega⟩
  rw [List.append_nil]
  exact reads_statements_nil closes

theorem StatementsOf.cons (first : StatementOf top m ts tree m')
    (more : StatementsOf top m' us trees m'') :
    StatementsOf top m (ts ++ us) (tree :: trees) m'' := by
  refine ⟨.cons first.clause more.clause, fun fuel line read right rest enough closes => ?_⟩
  rw [List.length_append] at enough
  obtain ⟨next, after, split, follows⟩ := more.clause.follows closes rest
  obtain ⟨t, ts, rfl, starts⟩ := first.clause.starts
  rw [List.length_cons] at enough
  obtain ⟨fuel, rfl⟩ : ∃ n, fuel = n + 1 := ⟨fuel - 1, by omega⟩
  have onFirst := first.reads fuel next after (by rw [List.length_cons]; omega) follows
  have onMore := more.reads fuel line (tree :: read) right rest (by omega) closes
  rw [split, List.reverse_cons, List.append_assoc, List.singleton_append] at onMore
  rw [List.append_assoc, split]
  exact reads_statements_cons starts onFirst onMore

theorem StatementsOf.unclosed (last : SimpleOf m ts tree) : StatementsOf true m ts [tree] m := by
  refine ⟨.unclosed last.simple, fun fuel line read right rest enough closes => ?_⟩
  -- What closes the statements of the top level is the end of the input, so no semicolon is missed.
  have isEof : right.kind = .eof := closes
  have missing : Reads (semicolon true) m (right :: rest) () m (right :: rest) :=
    reads_no_semicolon (isEof.trans_ne (by simp)) (isEof.trans_ne (by simp))
  obtain ⟨fuel, rfl⟩ : ∃ n, fuel = n + 3 := ⟨fuel - 3, by omega⟩
  have onLast := last.reads (fuel + 1) true right rest _ (by omega) (.inr isEof) missing
  obtain ⟨t, ts, rfl, starts⟩ := last.simple.starts
  rw [← List.reverse_cons]
  exact reads_statements_cons starts onLast (reads_statements_nil closes)

theorem BlockOf.braces (opens : left.kind = .leftCurly)
    (inner : StatementsOf false m ts trees m') (closes : right.kind = .rightCurly)
    (first : (ts ++ [right]).head?.map Token.line = some line) :
    BlockOf m (left :: (ts ++ [right])) (.body line trees) m' := by
  refine ⟨.block opens inner.clause closes, fun fuel context rest enough => ?_⟩
  simp only [List.length_cons, List.length_append] at enough
  obtain ⟨fuel, rfl⟩ : ∃ n, fuel = n + 1 := ⟨fuel - 1, by omega⟩
  have reads := inner.reads fuel line [] right rest (by omega) closes
  obtain ⟨next, after, split, follows⟩ := inner.clause.follows closes rest
  obtain rfl := line_of_first split first
  simp only [List.cons_append, ← List.append_cons, split] at reads ⊢
  exact reads_block opens follows.notError reads closes

theorem ConditionalOf.alone (isIf : word.hasKeyword "if" = true) (opens : left.kind = .leftParen)
    (condition : ExpressionOf m ts guard) (closes : right.kind = .rightParen)
    (inner : BlockOf m us body m') :
    ConditionalOf m word (left :: (ts ++ right :: us)) (.conditional word.line guard body none)
      m' := by
  refine ⟨.alone isIf opens condition.phrase closes inner.clause,
    fun fuel next rest enough notElse => ?_⟩
  simp only [List.length_cons, List.length_append] at enough
  simp only [List.cons_append, List.append_assoc]
  obtain ⟨fuel, rfl⟩ : ∃ n, fuel = n + 1 := ⟨fuel - 1, by omega⟩
  have onGuard := condition.reads fuel right (us ++ next :: rest) (by omega) (by rw [closes]; rfl)
  have onBody := inner.reads fuel .ifStatement (next :: rest) (by omega)
  exact meets_if opens onGuard closes onBody (meets_branches_none notElse)

theorem ConditionalOf.elseBlock (isIf : word.hasKeyword "if" = true)
    (opens : left.kind = .leftParen) (condition : ExpressionOf m ts guard)
    (closes : right.kind = .rightParen) (inner : BlockOf m us body m')
    (isElse : other.hasKeyword "else" = true) (branch : BlockOf m' vs alternative m'') :
    ConditionalOf m word (left :: (ts ++ right :: (us ++ other :: vs)))
      (.conditional word.line guard body (some alternative)) m'' := by
  refine ⟨.otherwise isIf opens condition.phrase closes inner.clause isElse (.inl rfl)
    branch.clause, fun fuel next rest enough notElse => ?_⟩
  simp only [List.length_cons, List.length_append] at enough
  simp only [List.cons_append, List.append_assoc]
  obtain ⟨fuel, rfl⟩ : ∃ n, fuel = n + 1 := ⟨fuel - 1, by omega⟩
  have onGuard := condition.reads fuel right (us ++ other :: (vs ++ next :: rest)) (by omega)
    (by rw [closes]; rfl)
  have onBody := inner.reads fuel .ifStatement (other :: (vs ++ next :: rest)) (by omega)
  have onLast := branch.reads fuel .elseBranch (next :: rest) (by omega)
  obtain ⟨left', vs', rfl, opens'⟩ := branch.clause.opens
  exact meets_if opens onGuard closes onBody (reads_branches_block isElse opens' onLast).meets

theorem ConditionalOf.elseIf {word' : Token} (isIf : word.hasKeyword "if" = true)
    (opens : left.kind = .leftParen) (condition : ExpressionOf m ts guard)
    (closes : right.kind = .rightParen) (inner : BlockOf m us body m')
    (isElse : other.hasKeyword "else" = true) (isIf' : word'.hasKeyword "if" = true)
    (branch : ConditionalOf m' word' vs alternative m'') :
    ConditionalOf m word (left :: (ts ++ right :: (us ++ other :: word' :: vs)))
      (.conditional word.line guard body (some alternative)) m'' := by
  refine ⟨.otherwise isIf opens condition.phrase closes inner.clause isElse (.inr rfl)
    branch.clause, fun fuel next rest enough notElse => ?_⟩
  simp only [List.length_cons, List.length_append] at enough
  simp only [List.cons_append, List.append_assoc]
  obtain ⟨fuel, rfl⟩ : ∃ n, fuel = n + 1 := ⟨fuel - 1, by omega⟩
  have onGuard := condition.reads fuel right (us ++ other :: word' :: (vs ++ next :: rest))
    (by omega) (by rw [closes]; rfl)
  have onBody := inner.reads fuel .ifStatement (other :: word' :: (vs ++ next :: rest)) (by omega)
  have onLast := branch.meets fuel next rest (by omega) notElse
  exact meets_if opens onGuard closes onBody (meets_branches_if isElse isIf' onLast)

end

theorem IsSimple.read {m : NumericMode} {ts : List Token} (h : IsSimple m ts) :
    ∃ tree, SimpleOf m ts tree := by
  cases h with
  | expression inner =>
    obtain ⟨tree, read⟩ := inner.read
    exact ⟨tree, .expression read⟩
  | display isSign inner =>
    obtain ⟨tree, read⟩ := inner.read
    exact ⟨_, .display isSign read⟩
  | last isSign => exact ⟨_, .last isSign⟩
  | exit isExit => exact ⟨_, .exit isExit⟩

theorem IsSetting.read {m m' : NumericMode} {ts : List Token} (h : IsSetting m ts m') :
    ∃ tree, SettingOf m ts tree m' := by
  cases h with
  | intro isSign isColon isName after =>
    obtain ⟨tree, read⟩ := exists_setOption after
    exact ⟨tree, .intro isSign isColon isName after read⟩

def Clause.Read : Clause → NumericMode → List Token → NumericMode → Prop
  | statement top, m, ts, m' => ∃ tree, StatementOf top m ts tree m' ∧
      (CompleteOf top m ts tree m' ∨ IsSetting m ts m')
  | statements top, m, ts, m' => ∃ trees, StatementsOf top m ts trees m'
  | block, m, ts, m' => ∃ tree, BlockOf m ts tree m'
  | conditional, m, ts, m' => ∃ word us tree, ts = word :: us ∧ word.hasKeyword "if" = true ∧
      ConditionalOf m word us tree m'

theorem CompleteOf.read {top : Bool} {m m' : NumericMode} {ts : List Token} {tree : Tree}
    (h : CompleteOf top m ts tree m') : (Clause.statement top).Read m ts m' :=
  ⟨tree, h.statement, .inl h⟩

theorem IsClause.read {clause : Clause} {m m' : NumericMode} {ts : List Token}
    (h : IsClause clause m ts m') : clause.Read m ts m' := by
  induction h with
  | simple inner isSemi =>
    obtain ⟨tree, read⟩ := inner.read
    exact (CompleteOf.simple read isSemi).read
  | setting inner isSemi =>
    obtain ⟨tree, read⟩ := inner.read
    exact (CompleteOf.setting read isSemi).read
  | openSetting inner =>
    obtain ⟨tree, read⟩ := inner.read
    exact ⟨tree, .openSetting read, .inr inner⟩
  | conditional inner ih =>
    obtain ⟨word, us, tree, rfl, isIf, read⟩ := ih
    exact (CompleteOf.conditional read isIf).read
  | whileLoop isWhile opens condition closes inner ih =>
    obtain ⟨guard, onGuard⟩ := condition.read
    obtain ⟨body, onBody⟩ := ih
    exact (CompleteOf.whileLoop isWhile opens onGuard closes onBody).read
  | forLoop isFor opens start isSemi condition isSemi' last closes inner ih =>
    obtain ⟨init, onInit⟩ := start.read
    obtain ⟨guard, onGuard⟩ := condition.read
    obtain ⟨step, onStep⟩ := last.read
    obtain ⟨body, onBody⟩ := ih
    exact (CompleteOf.forLoop isFor opens onInit isSemi onGuard isSemi' onStep closes
      onBody).read
  | function isFunc isName opens names closes inner ih =>
    obtain ⟨body, onBody⟩ := ih
    exact (CompleteOf.function isFunc isName opens names rfl closes onBody).read
  | nil => exact ⟨_, .nil⟩
  | cons first more ihf ihm =>
    obtain ⟨tree, onFirst, -⟩ := ihf
    obtain ⟨trees, onMore⟩ := ihm
    exact ⟨_, .cons onFirst onMore⟩
  | unclosed last =>
    obtain ⟨tree, read⟩ := last.read
    exact ⟨_, .unclosed read⟩
  | @block m m' left right ts opens inner closes ih =>
    obtain ⟨trees, read⟩ := ih
    cases ts with
    | nil => exact ⟨_, .braces opens read closes rfl⟩
    | cons t ts => exact ⟨_, .braces opens read closes rfl⟩
  | alone isIf opens condition closes inner ih =>
    obtain ⟨guard, onGuard⟩ := condition.read
    obtain ⟨body, onBody⟩ := ih
    exact ⟨_, _, _, rfl, isIf, .alone isIf opens onGuard closes onBody⟩
  | otherwise isIf opens condition closes inner isElse isBranch last ihi ihl =>
    obtain ⟨guard, onGuard⟩ := condition.read
    obtain ⟨body, onBody⟩ := ihi
    rcases isBranch with rfl | rfl
    · obtain ⟨tree, onLast⟩ := ihl
      exact ⟨_, _, _, rfl, isIf, .elseBlock isIf opens onGuard closes onBody isElse onLast⟩
    · obtain ⟨word, us, tree, rfl, isIf', onLast⟩ := ihl
      exact ⟨_, _, _, rfl, isIf, .elseIf isIf opens onGuard closes onBody isElse isIf' onLast⟩

end Calculator.Grammar
