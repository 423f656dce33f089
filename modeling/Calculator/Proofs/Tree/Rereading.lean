import Calculator.Proofs.Tree.Acceptance
import Calculator.Proofs.Tree.Writing

set_option autoImplicit false

namespace Calculator.Grammar

open Calculator.Parser

structure Rereads (m : NumericMode) (line : Position) (t : Tree) : Prop where
  operand : OperandOf m (t.enclosed line (t.tokens line)) (t.onLine line)
  expression : ExpressionOf m (t.tokens line) (t.onLine line)

namespace Rereads

variable {m : NumericMode} {line : Position} {t : Tree}

theorem of_operand (closed : t.isCompound = false)
    (operand : OperandOf m (t.tokens line) (t.onLine line)) : Rereads m line t := by
  refine ⟨?_, .plain (.single operand rfl)⟩
  rwa [Tree.enclosed_of_not_isCompound closed]

theorem of_expression (compound : t.isCompound = true)
    (expression : ExpressionOf m (t.tokens line) (t.onLine line)) : Rereads m line t := by
  refine ⟨?_, expression⟩
  rw [Tree.enclosed_of_isCompound compound]
  exact .parentheses rfl expression rfl

theorem arguments {args : List Tree} (each : ∀ t ∈ args, Rereads m line t) (nonempty : args ≠ []) :
    ArgumentsOf m (Token.separated line (treeTokens line args)) (treesOnLine line args) := by
  induction args with
  | nil => exact absurd rfl nonempty
  | cons t args ih =>
    obtain ⟨first, rest⟩ := List.forall_mem_cons.mp each
    cases args with
    | nil =>
      rw [treeTokens, treeTokens, Token.separated_singleton]
      exact .single first.expression
    | cons u args =>
      have more := ih rest (List.cons_ne_nil u args)
      rw [treeTokens, treeTokens, Token.separated_cons_cons]
      exact .cons first.expression rfl more

end Rereads

end Calculator.Grammar

namespace Calculator

open Grammar in
theorem Tree.IsExpression.rereads {t : Tree} (h : t.IsExpression) (m : NumericMode)
    (line : Position) : Rereads m line t := by
  induction h with
  | @constant line' v isLiteral =>
    have operand := OperandOf.literal (isLiteral.isLiteral_kind line) (isLiteral.value line m)
    rw [isLiteral.onLine line] at operand
    exact .of_operand rfl operand
  | reference isName => exact .of_operand rfl (.reference rfl)
  | step isStep isName =>
    refine .of_operand rfl ?_
    rw [Tree.tokens, if_pos isStep]
    exact .step rfl isStep
  | unary isSign operand ih =>
    refine .of_operand rfl ?_
    rcases isSign with rfl | rfl
    · exact .unary (.inl rfl) ih.operand
    · exact .unary (.inr rfl) ih.operand
  | binary isOperator lhs rhs ihl ihr =>
    -- No operand is a chain itself, so nothing else is pending when the operator is read.
    exact .of_expression rfl (.plain (.link isOperator ihl.operand rfl (.single ihr.operand rfl)))
  | assign assigns isName value ih =>
    exact .of_expression rfl (.assignment rfl assigns (.single ih.operand rfl))
  | @call line' x args isName each ih =>
    refine .of_operand rfl ?_
    cases args with
    | nil => exact .call rfl rfl rfl
    | cons t args => exact .callWith rfl rfl (Rereads.arguments ih (List.cons_ne_nil t args)) rfl

namespace Grammar

section
variable {line : Position}

theorem separated_names {params : List String} (nonempty : params ≠ []) :
    IsNames (Token.separated line (params.map fun p => [.name line p])) := by
  induction params with
  | nil => exact absurd rfl nonempty
  | cons p params ih =>
    cases params with
    | nil =>
      rw [List.map_cons, List.map_nil, Token.separated_singleton]
      exact .name rfl
    | cons q params =>
      rw [List.map_cons, List.map_cons, Token.separated_cons_cons]
      exact .names rfl rfl (ih (List.cons_ne_nil q params))

theorem namesOf_separated (params : List String) :
    namesOf (Token.separated line (params.map fun p => [.name line p])) = params := by
  induction params with
  | nil => rfl
  | cons p params ih =>
    cases params with
    | nil =>
      rw [List.map_cons, List.map_nil, Token.separated_singleton]
      rfl
    | cons q params =>
      rw [List.map_cons, List.map_cons, Token.separated_cons_cons]
      exact congrArg (List.cons p) ih

def Clause.Rereads (line : Position) (t : Tree) : Clause → Prop
  | statement top => ∀ m, ∃ m', StatementOf top m (t.ended line (t.tokens line)) (t.onLine line) m'
  | statements top => ∃ trees, t.onLine line = .body line trees ∧
      ∀ m, ∃ m', StatementsOf top m (t.tokens line) trees m'
  | block => ∀ m, ∃ m', BlockOf m (Token.braced line (t.tokens line)) (t.onLine line) m'
  | conditional => ∃ ts, t.tokens line = .keyword line "if" :: ts ∧
      ∀ m, ∃ m', ConditionalOf m (.keyword line "if") ts (t.onLine line) m'

namespace Clause.Rereads

theorem statements_body {top : Bool} {line' : Position} {ts : List Tree}
    (each : ∀ t ∈ ts, Rereads line t (.statement top)) :
    Rereads line (.body line' ts) (.statements top) := by
  refine ⟨treesOnLine line ts, rfl, ?_⟩
  induction ts with
  | nil => exact fun m => ⟨m, .nil⟩
  | cons t ts ih =>
    obtain ⟨first, rest⟩ := List.forall_mem_cons.mp each
    intro m
    obtain ⟨m', onFirst⟩ := first m
    obtain ⟨m'', onRest⟩ := ih rest m'
    exact ⟨m'', .cons onFirst onRest⟩

theorem conditional {top : Bool} {t : Tree} (shape : t.HasShape .conditional)
    (read : Rereads line t .conditional) : Rereads line t (.statement top) := by
  intro m
  obtain ⟨ts, tokens, reads⟩ := read
  obtain ⟨m', of⟩ := reads m
  refine ⟨m', ?_⟩
  rw [Tree.ended_of_not_isSimple shape.isSimple_eq_false, tokens]
  exact (CompleteOf.conditional of rfl).statement

theorem whileLoop {top : Bool} {line' : Position} {g b : Tree} (guard : g.IsExpression)
    (read : Rereads line b .block) : Rereads line (.whileLoop line' g b) (.statement top) := by
  intro m
  obtain ⟨m', onBody⟩ := read m
  refine ⟨m', ?_⟩
  rw [Tree.ended_of_not_isSimple rfl, Tree.tokens, Token.parenthesized_append]
  exact (CompleteOf.whileLoop rfl rfl (guard.rereads m line).expression rfl onBody).statement

theorem forLoop {top : Bool} {line' : Position} {i g s b : Tree} (start : i.IsExpression)
    (guard : g.IsExpression) (next : s.IsExpression) (read : Rereads line b .block) :
    Rereads line (.forLoop line' i g s b) (.statement top) := by
  intro m
  obtain ⟨m', onBody⟩ := read m
  refine ⟨m', ?_⟩
  rw [Tree.ended_of_not_isSimple rfl, Tree.tokens, Token.parenthesized_append]
  simp only [List.append_assoc, List.cons_append]
  exact (CompleteOf.forLoop rfl rfl (start.rereads m line).expression rfl
    (guard.rereads m line).expression rfl (next.rereads m line).expression rfl onBody).statement

theorem define {line' : Position} {x : String} {params : List String} {b : Tree}
    (read : Rereads line b .block) : Rereads line (.define line' x params b) (.statement true) := by
  intro m
  obtain ⟨m', onBody⟩ := read m
  have names : Token.separated line (params.map fun p => [.name line p]) = [] ∨
      IsNames (Token.separated line (params.map fun p => [.name line p])) := by
    by_cases empty : params = []
    · subst empty
      exact .inl rfl
    · exact .inr (separated_names empty)
  refine ⟨m', ?_⟩
  rw [Tree.ended_of_not_isSimple rfl, Tree.tokens, Token.parenthesized_append]
  exact (CompleteOf.function rfl rfl rfl names (namesOf_separated params) rfl onBody).statement

theorem block {t : Tree} (shape : t.HasShape (.statements false))
    (read : Rereads line t (.statements false)) : Rereads line t .block := by
  intro m
  obtain ⟨trees, same, reads⟩ := read
  obtain ⟨m', onBody⟩ := reads m
  refine ⟨m', ?_⟩
  rw [same]
  exact .braces rfl onBody rfl ((shape.words line).first rfl)

theorem alone {line' : Position} {g b : Tree} (guard : g.IsExpression)
    (read : Rereads line b .block) : Rereads line (.conditional line' g b none) .conditional := by
  refine ⟨_, rfl, fun m => ?_⟩
  obtain ⟨m', onBody⟩ := read m
  refine ⟨m', ?_⟩
  rw [Token.parenthesized_append, alternativeTokens, List.append_nil]
  exact .alone rfl rfl (guard.rereads m line).expression rfl onBody

theorem elseBlock {line' : Position} {g b t : Tree} (guard : g.IsExpression)
    (read : Rereads line b .block) (isBody : t.isBody = true) (last : Rereads line t .block) :
    Rereads line (.conditional line' g b (some t)) .conditional := by
  refine ⟨_, rfl, fun m => ?_⟩
  obtain ⟨m', onBody⟩ := read m
  obtain ⟨m'', onLast⟩ := last m'
  refine ⟨m'', ?_⟩
  rw [Token.parenthesized_append, alternativeTokens, if_pos isBody]
  exact .elseBlock rfl rfl (guard.rereads m line).expression rfl onBody rfl onLast

theorem elseIf {line' : Position} {g b t : Tree} (guard : g.IsExpression)
    (read : Rereads line b .block) (notBody : t.isBody = false)
    (last : Rereads line t .conditional) :
    Rereads line (.conditional line' g b (some t)) .conditional := by
  refine ⟨_, rfl, fun m => ?_⟩
  obtain ⟨ts, tokens, reads⟩ := last
  obtain ⟨m', onBody⟩ := read m
  obtain ⟨m'', onLast⟩ := reads m'
  refine ⟨m'', ?_⟩
  rw [Token.parenthesized_append, alternativeTokens, notBody, if_neg Bool.false_ne_true, tokens]
  exact .elseIf rfl rfl (guard.rereads m line).expression rfl onBody rfl rfl onLast

end Clause.Rereads

end

end Grammar

namespace Tree

open Grammar

theorem HasShape.rereads {t : Tree} {clause : Clause} (h : t.HasShape clause) (line : Position) :
    clause.Rereads line t := by
  -- The mode is arbitrary throughout, since the settings in front of a statement change it.
  induction h with
  | expression shape =>
    intro m
    refine ⟨m, ?_⟩
    rw [ended_of_isSimple shape.isSimple]
    exact (CompleteOf.simple (.expression (shape.rereads m line).expression) rfl).statement
  | display shape =>
    intro m
    refine ⟨m, ?_⟩
    rw [ended_of_isSimple rfl]
    exact (CompleteOf.simple (.display rfl (shape.rereads m line).expression) rfl).statement
  | setMode isMode =>
    intro m
    rw [ended_of_isSimple rfl]
    rcases isMode with rfl | rfl
    · exact ⟨_, (CompleteOf.setting
        (.intro rfl rfl rfl rfl fun _ => reads_setOption_float rfl) rfl).statement⟩
    · exact ⟨_, (CompleteOf.setting
        (.intro rfl rfl rfl rfl fun _ => reads_setOption_rational rfl) rfl).statement⟩
  | toggleProgrammer =>
    intro m
    rw [ended_of_isSimple rfl]
    exact ⟨m, (CompleteOf.setting
      (.intro rfl rfl rfl rfl fun _ => reads_setOption_toggle rfl) rfl).statement⟩
  | exit =>
    intro m
    rw [ended_of_isSimple rfl]
    exact ⟨m, (CompleteOf.simple (.exit rfl) rfl).statement⟩
  | conditional shape ih => exact .conditional shape ih
  | whileLoop guard inner ih => exact .whileLoop guard ih
  | forLoop start guard next inner ih => exact .forLoop start guard next ih
  | define isName areNames inner ih => exact .define ih
  | statements each ih => exact .statements_body ih
  | block inner ih => exact .block inner ih
  | alone guard inner ih => exact .alone guard ih
  | otherwise guard inner isBranch last ihi ihl =>
    rcases isBranch with rfl | rfl
    · exact .elseBlock guard ihi last.isBody ihl
    · exact .elseIf guard ihi last.isBody_eq_false ihl

/-- The canonical source of a program is parsed as that program, with all nodes on its one line. -/
theorem parse_canonical {t : Tree} (shape : t.HasShape (.statements true)) (source : Utf8.Source)
    (clean : source.failure = none)
    (delivers : Utf8.delivered source.events = t.canonical.toUTF8.toList) (mode : NumericMode) :
    parse source mode = .ok (t.onLine 1) := by
  have words := shape.words 1
  have scanned : (Lexer.ofSource source).tokens = t.tokens 1 ++ [.eof 1] :=
    Lexer.tokens_ofSource_written clean delivers words
  obtain ⟨trees, same, reads⟩ := shape.rereads 1
  obtain ⟨m', program⟩ := reads mode
  rw [parse, scanned, same]
  exact program.ofTokens_eq rfl (words.first rfl)

/-- The program `func f ( n ) { if ( n > 1 ) { - ( n - 1 ) ; } else { exit ; } } @ f ( 0x10 ) ;` on
three lines. -/
def definesAndCalls : Tree :=
  .body 1 [
    .define 1 "f" ["n"] (.body 2 [
      .conditional 2 (.binary 2 .greater (.reference 2 "n") (.constant 2 (.int 1 .dec)))
        (.body 2 [.unary 2 .minus
          (.binary 2 .minus (.reference 2 "n") (.constant 2 (.int 1 .dec)))])
        (some (.body 2 [.exit 2]))]),
    .display 3 (.call 3 "f" [.constant 3 (.int 16 .hex)])]

theorem parse_canonical_definesAndCalls :
    definesAndCalls.HasShape (.statements true) ∧
      definesAndCalls.canonical =
        "func f ( n ) \x7b if ( n > 1 ) \x7b - ( n - 1 ) ; \x7d else \x7b exit ; \x7d \x7d " ++
          "@ f ( 0x10 ) ;" ∧
      parse ⟨definesAndCalls.canonical.toUTF8.toList.map .byte, none⟩ .undefined =
        .ok (definesAndCalls.onLine 1) := by
  have names : IsName "f" ∧ IsName "n" := by decide +kernel
  have one (line : Position) : (constant line (.int 1 .dec)).IsExpression := .constant (.dec 1)
  have argument : (reference 2 "n").IsExpression := .reference names.2
  have shape : definesAndCalls.HasShape (.statements true) := by
    refine .statements (List.forall_mem_cons.mpr ⟨.define names.1 ?_ ?_,
      List.forall_mem_singleton.mpr (.display (.call names.1 ?_))⟩)
    · exact List.forall_mem_singleton.mpr names.2
    · refine .block (.statements (List.forall_mem_singleton.mpr (.conditional (.otherwise
        (.binary (by decide) argument (one 2)) ?_ (.inl rfl) ?_))))
      · exact .block (.statements (List.forall_mem_singleton.mpr
          (.expression (.unary (.inl rfl) (.binary (by decide) argument (one 2))))))
      · exact .block (.statements (List.forall_mem_singleton.mpr .exit))
    · exact List.forall_mem_singleton.mpr (.constant (.hex 16))
  refine ⟨shape, by decide +kernel, ?_⟩
  exact parse_canonical shape _ rfl (Utf8.delivered_bytes _) .undefined

end Tree

end Calculator
