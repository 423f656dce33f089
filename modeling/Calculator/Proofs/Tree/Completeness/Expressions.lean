import Calculator.Proofs.Tree.Grammar

set_option autoImplicit false

namespace Calculator.Grammar

open Calculator.Parser
open Chain (leaf level toTree Pending reduceAll_stacked reduceBefore_stacked pending_nil)

def followsOperand (kind : Kind) : Bool :=
  kind.priority.isSome || endsChain kind

def followsName (kind : Kind) : Bool :=
  followsOperand kind || [.plusPlus, .minusMinus, .leftParen].contains kind

theorem startsOperand_ne {kind other : Kind} (h : startsOperand kind = true)
    (mem : other ∈ [.error, .eof, .keyword, .at, .colon, .comma, .semicolon, .rightParen,
      .rightCurly]) : kind ≠ other := by
  rintro rfl
  revert h mem
  cases kind <;> decide

theorem followsName_ne {kind : Kind} (h : followsName kind = true) :
    kind ≠ .error ∧ kind.assigns = false := by
  revert h
  cases kind <;> decide

theorem followsOperand_ne {kind other : Kind} (h : followsOperand kind = true)
    (mem : other ∈ [.error, .plusPlus, .minusMinus, .leftParen]) : kind ≠ other := by
  rintro rfl
  revert h mem
  cases kind <;> decide

theorem isSome_priority {kind : Kind} (h : 1 ≤ kind.priority.getD 0) :
    kind.priority.isSome = true := by
  revert h
  cases kind <;> decide

theorem one_le_priority {kind : Kind} (h : kind.priority.isSome = true) :
    1 ≤ kind.priority.getD 0 := by
  revert h
  cases kind <;> decide

section
variable {m : NumericMode} {ts : List Token}

theorem IsPhrase.second {phrase : Phrase} {name next : Token} (h : IsPhrase m phrase (name :: ts))
    (inChain : phrase = .operand ∨ phrase = .chain) (isName : name.kind = .symbol)
    (follows : followsOperand next.kind = true) :
    ∃ u us, ts ++ [next] = u :: us ∧ followsName u.kind = true := by
  -- Only a step, a call and a name alone start with a name; a chain starts with one of them.
  generalize whole : name :: ts = tokens at h
  induction h generalizing ts next with
  | literal isLiteral value =>
    obtain ⟨rfl, rfl⟩ := List.cons.inj whole
    rw [isName] at isLiteral
    cases isLiteral
  | step _ isStep =>
    obtain ⟨rfl, rfl⟩ := List.cons.inj whole
    rcases isStep with step | step <;> exact ⟨_, _, rfl, by rw [step]; rfl⟩
  | call _ opens closes =>
    obtain ⟨rfl, rfl⟩ := List.cons.inj whole
    exact ⟨_, _, rfl, by rw [opens]; rfl⟩
  | callWith _ opens inner closes _ =>
    obtain ⟨rfl, rfl⟩ := List.cons.inj whole
    exact ⟨_, _, rfl, by rw [opens]; rfl⟩
  | name _ =>
    obtain ⟨rfl, rfl⟩ := List.cons.inj whole
    exact ⟨next, [], rfl, by rw [followsName, follows, Bool.true_or]⟩
  | plus isPlus inner _ =>
    obtain ⟨rfl, rfl⟩ := List.cons.inj whole
    rw [isName] at isPlus
    cases isPlus
  | unary isSign inner _ =>
    obtain ⟨rfl, rfl⟩ := List.cons.inj whole
    rw [isName] at isSign
    rcases isSign with sign | sign <;> cases sign
  | parentheses opens inner closes _ =>
    obtain ⟨rfl, rfl⟩ := List.cons.inj whole
    rw [isName] at opens
    cases opens
  | single only ih => exact ih (.inl rfl) follows whole
  | @link op part us first isOperator more ih _ =>
    obtain ⟨t, part', rfl, _⟩ := first.starts
    obtain ⟨rfl, rfl⟩ := List.cons.inj whole
    have opFollows : followsOperand op.kind = true := by
      rw [followsOperand, isSome_priority isOperator, Bool.true_or]
    obtain ⟨u, rest, split, starts⟩ := ih (.inl rfl) opFollows rfl
    refine ⟨u, rest ++ (us ++ [next]), ?_, starts⟩
    change (part' ++ op :: us) ++ [next] = _
    rw [← List.cons_append, ← split]
    simp only [List.append_assoc, List.cons_append, List.nil_append]
  | assignment _ _ _ _ => rcases inChain with none | none <;> cases none
  | plain _ _ => rcases inChain with none | none <;> cases none
  | argument _ _ => rcases inChain with none | none <;> cases none
  | arguments _ _ _ _ _ => rcases inChain with none | none <;> cases none

end

section
variable {m : NumericMode} {fuel : Nat} {t name op left right sign next : Token}
  {ts us rest : List Token} {tree : Tree} {trees args : List Tree}

def nameOperand (fuel : Nat) (name : Token) : Parser Tree := do
  let next ← take
  match next.kind with
  | .plusPlus | .minusMinus =>
    return .unary name.line next.kind (.reference name.line name.text)
  | .leftParen => return .call name.line name.text (← Parser.arguments fuel [])
  | _ =>
    untake next
    return .reference name.line name.text

theorem reads_operand_symbol (isName : name.kind = .symbol)
    (inner : Reads (nameOperand fuel name) m ts tree m rest) :
    Reads (operand (fuel + 1)) m (name :: ts) tree m rest := by
  unfold operand
  refine .take (isName.trans_ne (by simp)) ?_
  rw [isName]
  exact inner

theorem reads_operand_name (isName : name.kind = .symbol)
    (follows : followsOperand next.kind = true) :
    Reads (operand (fuel + 1)) m (name :: next :: rest) (.reference name.line name.text) m
      (next :: rest) := by
  refine reads_operand_symbol isName ?_
  unfold nameOperand
  refine .take (followsOperand_ne follows (by decide)) ?_
  split
  · rename_i kind
    exact absurd kind (followsOperand_ne follows (by decide))
  · rename_i kind
    exact absurd kind (followsOperand_ne follows (by decide))
  · rename_i kind
    exact absurd kind (followsOperand_ne follows (by decide))
  · exact .untake .pure

theorem reads_operand_step (isName : name.kind = .symbol)
    (isStep : op.kind = .plusPlus ∨ op.kind = .minusMinus) :
    Reads (operand (fuel + 1)) m (name :: op :: rest)
      (.unary name.line op.kind (.reference name.line name.text)) m rest := by
  refine reads_operand_symbol isName ?_
  unfold nameOperand
  rcases isStep with step | step
  · refine .take (step.trans_ne (by simp)) ?_
    rw [step]
    exact .pure
  · refine .take (step.trans_ne (by simp)) ?_
    rw [step]
    exact .pure

theorem reads_operand_call (isName : name.kind = .symbol) (opens : left.kind = .leftParen)
    (inner : Reads (arguments fuel []) m ts trees m rest) :
    Reads (operand (fuel + 1)) m (name :: left :: ts) (.call name.line name.text trees) m rest := by
  refine reads_operand_symbol isName ?_
  unfold nameOperand
  refine .take (opens.trans_ne (by simp)) ?_
  rw [opens]
  exact inner.bind .pure

theorem reads_operand_plus (isPlus : sign.kind = .plus)
    (inner : Reads (operand fuel) m ts tree m rest) :
    Reads (operand (fuel + 1)) m (sign :: ts) tree m rest := by
  rw [operand]
  refine .take (isPlus.trans_ne (by simp)) ?_
  rw [isPlus]
  exact inner

theorem reads_operand_unary (isSign : sign.kind = .minus ∨ sign.kind = .bang)
    (inner : Reads (operand fuel) m ts tree m rest) :
    Reads (operand (fuel + 1)) m (sign :: ts) (.unary sign.line sign.kind tree) m rest := by
  rw [operand]
  rcases isSign with minus | bang
  · refine .take (minus.trans_ne (by simp)) ?_
    rw [minus]
    exact inner.bind .pure
  · refine .take (bang.trans_ne (by simp)) ?_
    rw [bang]
    exact inner.bind .pure

theorem reads_operand_parentheses (opens : left.kind = .leftParen)
    (inner : Reads (expression fuel) m ts tree m (right :: rest))
    (closes : right.kind = .rightParen) :
    Reads (operand (fuel + 1)) m (left :: ts) tree m rest := by
  unfold operand
  refine .take (opens.trans_ne (by simp)) ?_
  rw [opens]
  exact inner.bind ((reads_expect closes (by simp)).bind .pure)

theorem reads_expression_assignment (isName : name.kind = .symbol)
    (assigns : op.kind.assigns = true) (value : Reads (chain fuel [] []) m ts tree m rest) :
    Reads (expression (fuel + 1)) m (name :: op :: ts)
      (.assign name.line op.kind name.text tree) m rest := by
  have notError : op.kind ≠ .error := ne_of_apply_ne Kind.assigns (assigns.trans_ne (by decide))
  unfold expression
  refine .take (isName.trans_ne (by simp)) ?_
  rw [if_neg (not_not_intro isName)]
  refine .take notError ?_
  rw [if_pos assigns]
  exact value.bind .pure

theorem reads_expression_chain (notError : t.kind ≠ .error)
    (second : t.kind = .symbol →
      ∃ u us, ts = u :: us ∧ u.kind ≠ .error ∧ u.kind.assigns = false)
    (inner : Reads (chain fuel [] []) m (t :: ts) tree m rest) :
    Reads (expression (fuel + 1)) m (t :: ts) tree m rest := by
  unfold expression
  refine .take notError ?_
  by_cases isName : t.kind = .symbol
  · obtain ⟨u, us, rfl, notError', noAssignment⟩ := second isName
    rw [if_neg (not_not_intro isName)]
    refine .take notError' ?_
    rw [noAssignment, if_neg Bool.false_ne_true]
    exact .untake (.untake inner)
  · rw [if_pos isName]
    exact .untake inner

theorem reads_arguments_close (closes : right.kind = .rightParen) :
    Reads (arguments (fuel + 1) args) m (right :: rest) args.reverse m rest := by
  unfold arguments
  refine .take (closes.trans_ne (by simp)) ?_
  rw [if_pos closes]
  exact .pure

def argumentsFrom (fuel : Nat) (args : List Tree) : Parser (List Tree) := do
  let tree ← expression fuel
  arguments fuel (tree :: args)

theorem reads_arguments_first (notError : t.kind ≠ .error) (notClose : t.kind ≠ .rightParen)
    (inner : Reads (argumentsFrom fuel []) m (t :: ts) trees m rest) :
    Reads (arguments (fuel + 1) []) m (t :: ts) trees m rest := by
  unfold arguments
  refine .take notError ?_
  rw [if_neg notClose]
  exact .untake inner

theorem reads_arguments_next (isComma : t.kind = .comma) (nonempty : args ≠ [])
    (inner : Reads (argumentsFrom fuel args) m ts trees m rest) :
    Reads (arguments (fuel + 1) args) m (t :: ts) trees m rest := by
  have notEmpty : args.isEmpty = false := List.isEmpty_eq_false_iff.mpr nonempty
  have notClose : t.kind ≠ .rightParen := isComma.trans_ne (by simp)
  unfold arguments
  refine .take (isComma.trans_ne (by simp)) ?_
  rw [if_neg notClose, notEmpty, if_neg Bool.false_ne_true,
    if_neg (not_not_intro isComma)]
  exact inner

end

theorem followsOperand_of_endsChain {kind : Kind} (h : endsChain kind = true) :
    followsOperand kind = true := by
  rw [followsOperand, h, Bool.or_true]

theorem reads_expression_plain {m : NumericMode} {fuel : Nat} {next : Token} {ts rest : List Token}
    {tree : Tree} (inner : IsPhrase m .chain ts) (ends : endsChain next.kind = true)
    (reads : Reads (chain fuel [] []) m (ts ++ next :: rest) tree m (next :: rest)) :
    Reads (expression (fuel + 1)) m (ts ++ next :: rest) tree m (next :: rest) := by
  obtain ⟨t, us, rfl, starts⟩ := inner.starts
  have notError : t.kind ≠ .error := startsOperand_ne starts (by decide)
  refine reads_expression_chain notError (fun isName => ?_) reads
  -- Behind a name as the first token the parser looks for an assignment, and finds none.
  obtain ⟨u, more, split, follows⟩ :=
    inner.second (.inr rfl) isName (followsOperand_of_endsChain ends)
  obtain ⟨notError, noAssignment⟩ := followsName_ne follows
  refine ⟨u, more ++ rest, ?_, notError, noAssignment⟩
  change us ++ next :: rest = u :: (more ++ rest)
  rw [List.append_cons, split]
  rfl

structure OperandOf (m : NumericMode) (ts : List Token) (tree : Tree) : Prop where
  phrase : IsPhrase m .operand ts
  reads : ∀ fuel next rest, 4 * ts.length ≤ fuel → followsOperand next.kind = true →
    Reads (operand fuel) m (ts ++ next :: rest) tree m (next :: rest)

/-- The tokens are a chain and read as the tree behind what is on the stacks. -/
structure ChainOf (m : NumericMode) (operands : List Tree) (operators ts : List Token)
    (tree : Tree) : Prop where
  phrase : IsPhrase m .chain ts
  reads : ∀ fuel next rest, 4 * ts.length + 1 ≤ fuel → endsChain next.kind = true →
    Reads (chain fuel operands operators) m (ts ++ next :: rest) tree m (next :: rest)

structure ExpressionOf (m : NumericMode) (ts : List Token) (tree : Tree) : Prop where
  phrase : IsPhrase m .expression ts
  reads : ∀ fuel next rest, 4 * ts.length + 2 ≤ fuel → endsChain next.kind = true →
    Reads (expression fuel) m (ts ++ next :: rest) tree m (next :: rest)

structure ArgumentsOf (m : NumericMode) (ts : List Token) (trees : List Tree) : Prop where
  phrase : IsPhrase m .arguments ts
  reads : ∀ fuel right rest args, 4 * ts.length + 3 ≤ fuel → right.kind = .rightParen →
    Reads (argumentsFrom fuel args) m (ts ++ right :: rest) (args.reverse ++ trees) m rest

section
variable {m : NumericMode} {name op sign left right comma t : Token} {ts us : List Token}
  {tree lhs rhs : Tree} {trees : List Tree}

namespace OperandOf

theorem literal {v : Value} (isLiteral : t.kind.isLiteral = true)
    (value : Literal.value m t = .ok v) : OperandOf m [t] (.constant t.line v) := by
  refine ⟨.literal isLiteral value, fun fuel next rest enough _ => ?_⟩
  obtain ⟨fuel, rfl⟩ := Nat.exists_eq_succ_of_ne_zero (Nat.ne_zero_of_lt enough)
  exact reads_operand_literal isLiteral value

theorem reference (isName : name.kind = .symbol) :
    OperandOf m [name] (.reference name.line name.text) := by
  refine ⟨.name isName, fun fuel next rest enough follows => ?_⟩
  obtain ⟨fuel, rfl⟩ := Nat.exists_eq_succ_of_ne_zero (Nat.ne_zero_of_lt enough)
  exact reads_operand_name isName follows

theorem step (isName : name.kind = .symbol) (isStep : op.kind = .plusPlus ∨ op.kind = .minusMinus) :
    OperandOf m [name, op] (.unary name.line op.kind (.reference name.line name.text)) := by
  refine ⟨.step isName isStep, fun fuel next rest enough _ => ?_⟩
  obtain ⟨fuel, rfl⟩ := Nat.exists_eq_succ_of_ne_zero (Nat.ne_zero_of_lt enough)
  exact reads_operand_step isName isStep

theorem plus (isPlus : sign.kind = .plus) (inner : OperandOf m ts tree) :
    OperandOf m (sign :: ts) tree := by
  refine ⟨.plus isPlus inner.phrase, fun fuel next rest enough follows => ?_⟩
  rw [List.length_cons] at enough
  obtain ⟨fuel, rfl⟩ : ∃ n, fuel = n + 1 := ⟨fuel - 1, by omega⟩
  exact reads_operand_plus isPlus (inner.reads fuel next rest (by omega) follows)

theorem unary (isSign : sign.kind = .minus ∨ sign.kind = .bang) (inner : OperandOf m ts tree) :
    OperandOf m (sign :: ts) (.unary sign.line sign.kind tree) := by
  refine ⟨.unary isSign inner.phrase, fun fuel next rest enough follows => ?_⟩
  rw [List.length_cons] at enough
  obtain ⟨fuel, rfl⟩ : ∃ n, fuel = n + 1 := ⟨fuel - 1, by omega⟩
  exact reads_operand_unary isSign (inner.reads fuel next rest (by omega) follows)

theorem parentheses (opens : left.kind = .leftParen) (inner : ExpressionOf m ts tree)
    (closes : right.kind = .rightParen) : OperandOf m (left :: (ts ++ [right])) tree := by
  refine ⟨.parentheses opens inner.phrase closes, fun fuel next rest enough _ => ?_⟩
  simp only [List.length_cons, List.length_append] at enough
  obtain ⟨fuel, rfl⟩ : ∃ n, fuel = n + 1 := ⟨fuel - 1, by omega⟩
  have reads := inner.reads fuel right (next :: rest) (by omega) (by rw [closes]; rfl)
  rw [List.append_cons] at reads
  exact reads_operand_parentheses opens reads closes

theorem call (isName : name.kind = .symbol) (opens : left.kind = .leftParen)
    (closes : right.kind = .rightParen) :
    OperandOf m [name, left, right] (.call name.line name.text []) := by
  refine ⟨.call isName opens closes, fun fuel next rest enough _ => ?_⟩
  simp only [List.length_cons] at enough
  obtain ⟨fuel, rfl⟩ : ∃ n, fuel = n + 2 := ⟨fuel - 2, by omega⟩
  exact reads_operand_call isName opens (reads_arguments_close closes)

theorem callWith (isName : name.kind = .symbol) (opens : left.kind = .leftParen)
    (inner : ArgumentsOf m ts trees) (closes : right.kind = .rightParen) :
    OperandOf m (name :: left :: (ts ++ [right])) (.call name.line name.text trees) := by
  refine ⟨.callWith isName opens inner.phrase closes, fun fuel next rest enough _ => ?_⟩
  simp only [List.length_cons, List.length_append] at enough
  obtain ⟨fuel, rfl⟩ : ∃ n, fuel = n + 2 := ⟨fuel - 2, by omega⟩
  have reads := inner.reads fuel right (next :: rest) [] (by omega) closes
  obtain ⟨t, us, rfl, starts⟩ := inner.phrase.starts
  have notError : t.kind ≠ .error := startsOperand_ne starts (by decide)
  have notClose : t.kind ≠ .rightParen := startsOperand_ne starts (by decide)
  rw [List.append_cons] at reads
  exact reads_operand_call isName opens (reads_arguments_first notError notClose reads)

end OperandOf

section
variable {operands operands' : List Tree} {operators operators' : List Token} {whole : Tree}

theorem ChainOf.single (only : OperandOf m ts tree)
    (reduced : reduceAll (tree :: operands) operators = some whole) :
    ChainOf m operands operators ts whole := by
  refine ⟨.single only.phrase, fun fuel next rest enough ends => ?_⟩
  obtain ⟨fuel, rfl⟩ : ∃ n, fuel = n + 1 := ⟨fuel - 1, by omega⟩
  have reads := only.reads fuel next rest (by omega) (followsOperand_of_endsChain ends)
  exact reads_chain_last reads ends reduced

theorem ChainOf.link (isOperator : 1 ≤ op.kind.priority.getD 0) (first : OperandOf m ts tree)
    (reduced : reduceBefore (level op) (tree :: operands) operators = some (operands', operators'))
    (more : ChainOf m operands' (op :: operators') us whole) :
    ChainOf m operands operators (ts ++ op :: us) whole := by
  refine ⟨.link first.phrase isOperator more.phrase, fun fuel next rest enough ends => ?_⟩
  simp only [List.length_cons, List.length_append] at enough
  obtain ⟨fuel, rfl⟩ : ∃ n, fuel = n + 1 := ⟨fuel - 1, by omega⟩
  have binary := isSome_priority isOperator
  have follows : followsOperand op.kind = true := by
    rw [followsOperand, binary, Bool.true_or]
  have onFirst := first.reads fuel op (us ++ next :: rest) (by omega) follows
  have onMore := more.reads fuel next rest (by omega) ends
  rw [List.append_assoc]
  exact reads_chain_link onFirst binary reduced onMore

end

theorem ExpressionOf.plain (inner : ChainOf m [] [] ts tree) : ExpressionOf m ts tree := by
  refine ⟨.plain inner.phrase, fun fuel next rest enough ends => ?_⟩
  obtain ⟨fuel, rfl⟩ : ∃ n, fuel = n + 1 := ⟨fuel - 1, by omega⟩
  have reads := inner.reads fuel next rest (by omega) ends
  exact reads_expression_plain inner.phrase ends reads

theorem ExpressionOf.assignment (isName : name.kind = .symbol) (assigns : op.kind.assigns = true)
    (value : ChainOf m [] [] ts tree) :
    ExpressionOf m (name :: op :: ts) (.assign name.line op.kind name.text tree) := by
  refine ⟨.assignment isName assigns value.phrase, fun fuel next rest enough ends => ?_⟩
  simp only [List.length_cons] at enough
  obtain ⟨fuel, rfl⟩ : ∃ n, fuel = n + 1 := ⟨fuel - 1, by omega⟩
  exact reads_expression_assignment isName assigns (value.reads fuel next rest (by omega) ends)

theorem ArgumentsOf.single (only : ExpressionOf m ts tree) : ArgumentsOf m ts [tree] := by
  refine ⟨.argument only.phrase, fun fuel right rest args enough closes => ?_⟩
  have reads := only.reads fuel right rest (by omega) (by rw [closes]; rfl)
  obtain ⟨fuel, rfl⟩ : ∃ n, fuel = n + 1 := ⟨fuel - 1, by omega⟩
  rw [← List.reverse_cons]
  exact reads.bind (reads_arguments_close closes)

theorem ArgumentsOf.cons (first : ExpressionOf m ts tree) (isComma : comma.kind = .comma)
    (more : ArgumentsOf m us trees) : ArgumentsOf m (ts ++ comma :: us) (tree :: trees) := by
  refine ⟨.arguments first.phrase isComma more.phrase, fun fuel right rest args enough closes => ?_⟩
  simp only [List.length_cons, List.length_append] at enough
  have reads := first.reads fuel comma (us ++ right :: rest) (by omega) (by rw [isComma]; rfl)
  obtain ⟨fuel, rfl⟩ : ∃ n, fuel = n + 1 := ⟨fuel - 1, by omega⟩
  have others := more.reads fuel right rest (tree :: args) (by omega) closes
  rw [List.reverse_cons, List.append_assoc, List.singleton_append] at others
  rw [List.append_assoc]
  exact reads.bind (reads_arguments_next isComma (List.cons_ne_nil _ _) others)

end

def Phrase.Read (m : NumericMode) : Phrase → List Token → Prop
  | operand, ts => ∃ tree, OperandOf m ts tree
  | chain, ts => ∀ operands operators, Pending operands operators →
      ∃ tree, ChainOf m (operands.map toTree) operators ts tree
  | expression, ts => ∃ tree, ExpressionOf m ts tree
  | arguments, ts => ∃ trees, ArgumentsOf m ts trees

section
variable {m : NumericMode} {ts us : List Token} {op : Token}

theorem Phrase.Read.single (read : Read m .operand ts) : Read m .chain ts := by
  intro operands operators pending
  obtain ⟨tree, only⟩ := read
  obtain ⟨c, reduced, -, -⟩ := reduceAll_stacked (pending tree)
  exact ⟨_, .single only reduced⟩

theorem Phrase.Read.link (isOperator : 1 ≤ op.kind.priority.getD 0) (first : Read m .operand ts)
    (more : Read m .chain us) : Read m .chain (ts ++ op :: us) := by
  intro operands operators pending
  obtain ⟨tree, first⟩ := first
  -- The operand and the operator behind it are pending for the rest of the chain.
  obtain ⟨top, operands', operators', reduced, stacked, ready, -⟩ :=
    reduceBefore_stacked (level op) (pending tree) trivial
  obtain ⟨whole, chained⟩ := more (top :: operands') (op :: operators') (stacked.pending ready)
  exact ⟨whole, .link isOperator first reduced chained⟩

end

theorem IsPhrase.read {m : NumericMode} {phrase : Phrase} {ts : List Token}
    (h : IsPhrase m phrase ts) : phrase.Read m ts := by
  induction h with
  | literal isLiteral value => exact ⟨_, .literal isLiteral value⟩
  | step isName isStep => exact ⟨_, .step isName isStep⟩
  | call isName opens closes => exact ⟨_, .call isName opens closes⟩
  | callWith isName opens inner closes ih =>
    obtain ⟨trees, args⟩ := ih
    exact ⟨_, .callWith isName opens args closes⟩
  | name isName => exact ⟨_, .reference isName⟩
  | plus isPlus inner ih =>
    obtain ⟨tree, operand⟩ := ih
    exact ⟨tree, .plus isPlus operand⟩
  | unary isSign inner ih =>
    obtain ⟨tree, operand⟩ := ih
    exact ⟨_, .unary isSign operand⟩
  | parentheses opens inner closes ih =>
    obtain ⟨tree, expression⟩ := ih
    exact ⟨tree, .parentheses opens expression closes⟩
  | single only ih => exact .single ih
  | link first isOperator more ihf ihm => exact .link isOperator ihf ihm
  | assignment isName assigns value ih =>
    obtain ⟨tree, chain⟩ := ih [] [] pending_nil
    exact ⟨_, .assignment isName assigns chain⟩
  | plain inner ih =>
    obtain ⟨tree, chain⟩ := ih [] [] pending_nil
    exact ⟨tree, .plain chain⟩
  | argument only ih =>
    obtain ⟨tree, expression⟩ := ih
    exact ⟨_, .single expression⟩
  | arguments first isComma more ihf ihm =>
    obtain ⟨tree, expression⟩ := ihf
    obtain ⟨trees, others⟩ := ihm
    exact ⟨_, .cons expression isComma others⟩

end Calculator.Grammar
