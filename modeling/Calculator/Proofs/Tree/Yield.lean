import Calculator.Proofs.Tree.Completeness.Expressions
import Calculator.Proofs.Tree.Shape
import Calculator.Proofs.Value.Results

set_option autoImplicit false

namespace Calculator

namespace Kind

theorem operation_isSome_of_priority {k : Kind} {p : Nat} (h : k.priority = some p) :
    k.operation.isSome = true := by
  revert h
  cases k <;> first | exact fun _ => rfl | exact fun h => nomatch h

end Kind

theorem Literal.isCallable_of_value {mode : NumericMode} {token : Token} {v : Value}
    (h : Literal.value mode token = .ok v) : v.isCallable = false := by
  have isValue := isValue_value mode token
  rw [h] at isValue
  exact isValue.isDatum

/-- There are a display sign, a colon and this name in a row. -/
def Token.Sets (option : String) (ts : List Token) : Prop :=
  ∃ sign colon name : Token, [sign, colon, name] <:+: ts ∧ sign.kind = .at ∧ colon.kind = .colon ∧
    name.kind = .symbol ∧ name.text = option

structure Token.SetsOnly (M : NumericMode → Prop) (ts : List Token) : Prop where
  float : Sets "f" ts → M .float
  rational : Sets "r" ts → M .rational

section
variable {M : NumericMode → Prop} {option : String} {ts us : List Token}

theorem Token.Sets.of_infix (h : Sets option ts) (inside : ts <:+: us) : Sets option us := by
  obtain ⟨sign, colon, name, row, kinds⟩ := h
  exact ⟨sign, colon, name, row.trans inside, kinds⟩

theorem Token.SetsOnly.of_infix (h : SetsOnly M us) (inside : ts <:+: us) : SetsOnly M ts :=
  ⟨fun sets => h.float (sets.of_infix inside), fun sets => h.rational (sets.of_infix inside)⟩

theorem Token.SetsOnly.concat_eof (h : SetsOnly M ts) (line : Position) :
    SetsOnly M (ts ++ [.eof line]) := by
  have before {option : String} (sets : Sets option (ts ++ [.eof line])) : Sets option ts := by
    obtain ⟨sign, colon, name, row, isSign, isColon, isName, text⟩ := sets
    rcases List.infix_concat_iff.mp row with ⟨us, row⟩ | row
    · have last := congrArg List.getLast? row
      simp only [List.getLast?_append, List.getLast?_cons_cons, List.getLast?_singleton,
        Option.some_or] at last
      cases last
      cases isName
    · exact ⟨sign, colon, name, row, isSign, isColon, isName, text⟩
  exact ⟨fun sets => h.float (before sets), fun sets => h.rational (before sets)⟩

end

namespace Tree

def RootReadIn (M : NumericMode → Prop) : Tree → Prop
  | .constant _ v => ∃ mode token, M mode ∧ Literal.value mode token = .ok v
  | .setMode _ mode => M mode ∧ mode ≠ .undefined
  | _ => True

structure IsFormulaIn (M : NumericMode → Prop) (t : Tree) : Prop where
  formula : t.IsFormula
  read : t.All (RootReadIn M)

def NestedIn (M : NumericMode → Prop) (t : Tree) : Prop :=
  t.All fun s => s.Inner ∧ s.RootReadIn M

structure TopLevelIn (M : NumericMode → Prop) (t : Tree) : Prop where
  top : t.TopLevel
  read : t.All (RootReadIn M)

def AllowedIn (M : NumericMode → Prop) (top : Bool) (t : Tree) : Prop :=
  if top then t.TopLevelIn M else t.NestedIn M

section
variable {M : NumericMode → Prop} {line : Position} {op : Kind} {x : String} {t u : Tree}

namespace IsFormulaIn

theorem constant {mode : NumericMode} {token : Token} {v : Value} (allowed : M mode)
    (value : Literal.value mode token = .ok v) : (Tree.constant line v).IsFormulaIn M :=
  ⟨.constant (Literal.isCallable_of_value value), all_constant.mpr ⟨mode, token, allowed, value⟩⟩

theorem reference : (Tree.reference line x).IsFormulaIn M :=
  ⟨.reference, all_reference.mpr trivial⟩

theorem unary (applies : AppliesTo op t) (operand : t.IsFormulaIn M) :
    (Tree.unary line op t).IsFormulaIn M :=
  ⟨.unary applies operand.formula, all_unary.mpr ⟨trivial, operand.read⟩⟩

theorem binary (isOperator : op.operation.isSome = true) (lhs : t.IsFormulaIn M)
    (rhs : u.IsFormulaIn M) : (Tree.binary line op t u).IsFormulaIn M :=
  ⟨.binary isOperator lhs.formula rhs.formula, all_binary.mpr ⟨trivial, lhs.read, rhs.read⟩⟩

theorem assign (assigns : op.assigns = true) (value : t.IsFormulaIn M) :
    (Tree.assign line op x t).IsFormulaIn M :=
  ⟨.assign assigns value.formula, all_assign.mpr ⟨trivial, value.read⟩⟩

theorem call {args : List Tree} (each : ∀ t ∈ args, t.IsFormulaIn M) :
    (Tree.call line x args).IsFormulaIn M :=
  ⟨.call fun t mem => (each t mem).formula, all_call.mpr ⟨trivial, fun t mem => (each t mem).read⟩⟩

theorem nested (h : t.IsFormulaIn M) : t.NestedIn M :=
  fun s mem => ⟨h.formula.nested s mem, h.read s mem⟩

end IsFormulaIn

theorem NestedIn.allowed (h : t.NestedIn M) (top : Bool) : t.AllowedIn M top := by
  cases top with
  | false => exact h
  | true =>
    have nested : t.Nested := h.mono fun _ both => both.1
    exact ⟨nested.allowed true, h.mono fun _ both => both.2⟩

theorem topLevelIn_define {params : List String} (isBody : t.isBody = true) (inner : t.NestedIn M) :
    (define line x params t).TopLevelIn M :=
  ⟨topLevel_define isBody (inner.mono fun _ both => both.1),
    all_define.mpr ⟨trivial, inner.mono fun _ both => both.2⟩⟩

end

end Tree

namespace Parser

/-- Behind the tokens `pre`, the parser is in an allowed mode, and what it took and what is in front
of it sets allowed modes only. -/
structure Ready (M : NumericMode → Prop) (pre : List Token) (s : ParserState) : Prop where
  mode : M s.mode
  settings : Token.SetsOnly M (pre ++ s.stream.upcoming)

/-- Where it is ready, the parser answers something of this form and is ready again, or refuses the
tokens, for the sake of the undefined mode only if that is allowed. -/
def Yields {α : Type} (M : NumericMode → Prop) (pre : List Token) (p : Parser α) (Q : α → Prop) :
    Prop :=
  ∀ s, Ready M pre s →
    match p s with
    | .ok a s' => Q a ∧ Ready M [] s'
    | .error e _ => e.cause = .realInUndefinedMode → M .undefined

section
variable {M : NumericMode → Prop} {pre : List Token} {α β : Type} {p : Parser α}
  {f : α → Parser β} {Q : β → Prop} {R : α → Prop}

theorem Ready.drop {s : ParserState} (h : Ready M pre s) : Ready M [] s :=
  ⟨h.mode, h.settings.of_infix (List.suffix_append pre _).isInfix⟩

theorem Yields.drop {q : Parser β} (h : Yields M [] q Q) : Yields M pre q Q :=
  fun s ready => h s ready.drop

theorem Yields.answer (h : Yields (fun _ => True) [] p R) {s s' : ParserState} {a : α}
    (run : p s = .ok a s') : R a := by
  have found := h s ⟨trivial, fun _ => trivial, fun _ => trivial⟩
  rw [run] at found
  exact found.1

theorem Yields.bind (head : Yields M pre p R) (tail : ∀ a, R a → Yields M [] (f a) Q) :
    Yields M pre (p >>= f) Q := by
  intro s ready
  have first := head s ready
  change match EStateM.bind p f s with | .ok b s' => _ | .error e s' => _
  unfold EStateM.bind
  cases e : p s with
  | ok a s' =>
    rw [e] at first
    exact tail a first.1 s' first.2
  | error e' s' =>
    rw [e] at first
    exact first

theorem Yields.pure {b : β} (h : Q b) : Yields M pre (pure b) Q :=
  fun _ ready => ⟨h, ready.drop⟩

theorem Yields.fail {line : Position} {cause : SyntaxCause} (other : cause ≠ .realInUndefinedMode) :
    Yields M pre (fail line cause) Q :=
  fun _ _ same => absurd same other

theorem Yields.malformed {line : Position} : Yields M pre (Parser.fail line .malformed) Q :=
  .fail nofun

theorem Yields.unexpected {token : Token} {context : Context} :
    Yields M pre (unexpected token context) Q := by
  refine .fail ?_
  split
  · exact nofun
  · exact nofun

theorem Yields.mono {Q' : β → Prop} {q : Parser β} (h : Yields M pre q Q)
    (implies : ∀ b, Q b → Q' b) : Yields M pre q Q' := by
  intro s ready
  have found := h s ready
  cases e : q s with
  | ok b s' =>
    rw [e] at found
    exact ⟨implies b found.1, found.2⟩
  | error e' s' =>
    rw [e] at found
    exact found

theorem Yields.ite {c : Prop} [Decidable c] {q r : Parser β} (yes : c → Yields M pre q Q)
    (no : ¬c → Yields M pre r Q) : Yields M pre (if c then q else r) Q := by
  split
  · exact yes ‹c›
  · exact no ‹¬c›

theorem Yields.settings {q : Parser β} (h : Token.SetsOnly M pre → Yields M pre q Q) :
    Yields M pre q Q :=
  fun s ready => h (ready.settings.of_infix (List.prefix_append pre _).isInfix) s ready

theorem ready_get {s : ParserState} (h : Ready M pre s) :
    Ready M (pre ++ [s.stream.get.1]) { s with stream := s.stream.get.2 } := by
  refine ⟨h.mode, ?_⟩
  have settings := h.settings
  cases here : s.stream.upcoming with
  | nil =>
    obtain ⟨eof, rest⟩ := s.stream.get_of_nil here
    rw [here, List.append_nil] at settings
    change Token.SetsOnly M (pre ++ [s.stream.get.1] ++ s.stream.get.2.upcoming)
    rw [eof, rest, List.append_nil]
    exact settings.concat_eof _
  | cons t ts =>
    obtain ⟨same, rest⟩ := s.stream.get_eq here
    change Token.SetsOnly M (pre ++ [s.stream.get.1] ++ s.stream.get.2.upcoming)
    rw [same, rest, ← List.append_cons, ← here]
    exact settings

theorem Yields.take {f : Token → Parser β} (tail : ∀ t, Yields M (pre ++ [t]) (f t) Q) :
    Yields M pre (Parser.take >>= f) Q := by
  intro s ready
  change match EStateM.bind Parser.take f s with | .ok b s' => _ | .error e s' => _
  unfold EStateM.bind
  rw [take_eq]
  by_cases error : s.stream.get.1.kind = .error
  · rw [if_pos error]
    exact nofun
  · rw [if_neg error]
    exact tail s.stream.get.1 _ (ready_get ready)

theorem Yields.untake {t : Token} {f : Unit → Parser β} (tail : Yields M pre (f ()) Q) :
    Yields M (pre ++ [t]) (Parser.untake t >>= f) Q := by
  intro s ready
  refine tail { s with
    stream := s.stream.rewind t
    lookahead := max s.lookahead (s.stream.rewind t).returned.length } ⟨ready.mode, ?_⟩
  have settings := ready.settings
  rw [← List.append_cons] at settings
  exact settings

theorem Yields.peek {f : Token → Parser β} (tail : ∀ t, Yields M [] (f t) Q) :
    Yields M pre (Parser.peek >>= f) Q :=
  .bind (R := fun _ => True) (.take fun _ => .untake (.pure trivial)) fun t _ => tail t

theorem Yields.expect {kind : Kind} {context : Context} {f : Token → Parser β}
    (tail : ∀ t, Yields M [] (f t) Q) : Yields M pre (Parser.expect kind context >>= f) Q := by
  refine .bind (R := fun _ => True) (.take fun t => ?_) fun t _ => tail t
  refine .ite (fun _ => .pure trivial) fun _ => .ite (fun _ => ?_) fun _ => ?_
  · exact .fail nofun
  · exact .fail nofun

end

section
variable {M : NumericMode → Prop} {pre : List Token}

theorem yields_literal (token : Token) : Yields M pre (literal token) (Tree.IsFormulaIn M) := by
  intro s ready
  have isValue := Literal.isValue_value s.mode token
  rw [literal_eq]
  cases value : Literal.value s.mode token with
  | ok v => exact ⟨.constant ready.mode value, ready.drop⟩
  | error cause =>
    rw [value] at isValue
    exact fun same => isValue same ▸ ready.mode

/-- Operands are expressions, and so are the nodes of the operators that wait for them. -/
structure Waiting (M : NumericMode → Prop) (operands : List Tree) (operators : List Token) :
    Prop where
  operands : ∀ t ∈ operands, t.IsFormulaIn M
  operators : ∀ op ∈ operators, op.kind.operation.isSome = true

theorem Waiting.reduceBefore {p : Nat} {operands operands' : List Tree}
    {operators operators' : List Token} (h : Waiting M operands operators)
    (reduced : reduceBefore p operands operators = some (operands', operators')) :
    Waiting M operands' operators' := by
  induction operators generalizing operands with
  | nil =>
    cases reduced
    exact h
  | cons op operators ih =>
    unfold Parser.reduceBefore at reduced
    split at reduced
    · cases reduced
      exact h
    · split at reduced
      · rename_i rhs lhs rest
        refine ih ⟨List.forall_mem_cons.mpr ⟨?_, ?_⟩, ?_⟩ reduced
        · exact .binary (h.operators op List.mem_cons_self) (h.operands lhs (by simp))
            (h.operands rhs (by simp))
        · exact fun t mem => h.operands t (by simp [mem])
        · exact fun o mem => h.operators o (List.mem_cons_of_mem _ mem)
      · cases reduced

theorem Waiting.reduceAll {operands : List Tree} {operators : List Token} {t : Tree}
    (h : Waiting M operands operators) (reduced : reduceAll operands operators = some t) :
    t.IsFormulaIn M := by
  unfold Parser.reduceAll at reduced
  split at reduced
  · rename_i same
    cases reduced
    exact (h.reduceBefore same).operands t List.mem_cons_self
  · cases reduced

end

structure ShapesExpressions (M : NumericMode → Prop) (fuel : Nat) : Prop where
  operand : Yields M [] (operand fuel) (Tree.IsFormulaIn M)
  chain : ∀ operands operators, Waiting M operands operators →
    Yields M [] (chain fuel operands operators) (Tree.IsFormulaIn M)
  expression : Yields M [] (expression fuel) (Tree.IsFormulaIn M)
  arguments : ∀ args : List Tree, (∀ t ∈ args, t.IsFormulaIn M) →
    Yields M [] (arguments fuel args) fun ts => ∀ t ∈ ts, t.IsFormulaIn M

namespace ShapesExpressions

variable {M : NumericMode → Prop} {pre : List Token} {fuel : Nat}

theorem name (h : ShapesExpressions M fuel) (token : Token) :
    Yields M pre (Grammar.nameOperand fuel token) (Tree.IsFormulaIn M) := by
  unfold Grammar.nameOperand
  refine .take fun next => ?_
  have step (h : next.kind = .plusPlus ∨ next.kind = .minusMinus) :
      Tree.AppliesTo next.kind (.reference token.line token.text) := by
    rcases h with h | h <;> rw [h] <;> rfl
  split
  · rename_i kind
    exact .pure (.unary (step (.inl kind)) .reference)
  · rename_i kind
    exact .pure (.unary (step (.inr kind)) .reference)
  · exact .bind (h.arguments [] (by simp)).drop fun args each => .pure (.call each)
  · exact .untake (.pure .reference)

theorem operand_succ (h : ShapesExpressions M fuel) :
    Yields M [] (Parser.operand (fuel + 1)) (Tree.IsFormulaIn M) := by
  unfold Parser.operand
  refine .take fun token => ?_
  split
  iterate 6 exact yields_literal token
  · exact h.name token
  · exact h.operand.drop
  · rename_i kind
    exact .bind h.operand.drop fun t inner => .pure (.unary (by rw [kind]; trivial) inner)
  · rename_i kind
    exact .bind h.operand.drop fun t inner => .pure (.unary (by rw [kind]; trivial) inner)
  · exact .bind h.expression.drop fun t inner => .expect fun _ => .pure inner
  · exact .unexpected

theorem chain_succ (h : ShapesExpressions M fuel) {operands : List Tree} {operators : List Token}
    (waiting : Waiting M operands operators) :
    Yields M [] (Parser.chain (fuel + 1) operands operators) (Tree.IsFormulaIn M) := by
  unfold Parser.chain
  refine .bind h.operand fun t inner => .take fun op => ?_
  have more : Waiting M (t :: operands) operators :=
    ⟨List.forall_mem_cons.mpr ⟨inner, waiting.operands⟩, waiting.operators⟩
  refine .ite (fun _ => .untake ?_) fun _ => ?_
  · split
    · rename_i chained reduced
      exact .pure (more.reduceAll reduced)
    · exact .malformed
  · split
    · exact .unexpected
    · rename_i p priority
      split
      · rename_i operands' operators' reduced
        have rest := more.reduceBefore reduced
        exact (h.chain operands' (op :: operators') ⟨rest.operands, List.forall_mem_cons.mpr
          ⟨Kind.operation_isSome_of_priority priority, rest.operators⟩⟩).drop
      · exact .malformed

theorem expression_succ (h : ShapesExpressions M fuel) :
    Yields M [] (Parser.expression (fuel + 1)) (Tree.IsFormulaIn M) := by
  have whole : Yields M [] (Parser.chain fuel [] []) (Tree.IsFormulaIn M) :=
    h.chain [] [] ⟨by simp, by simp⟩
  unfold Parser.expression
  refine .take fun first => .ite (fun _ => .untake whole) fun _ => .take fun second => ?_
  refine .ite (fun assigns => ?_) fun _ => .untake (.untake whole)
  exact .bind whole.drop fun value inner => .pure (.assign assigns inner)

theorem arguments_succ (h : ShapesExpressions M fuel) {args : List Tree}
    (formulas : ∀ t ∈ args, t.IsFormulaIn M) :
    Yields M [] (Parser.arguments (fuel + 1) args) fun ts => ∀ t ∈ ts, t.IsFormulaIn M := by
  have next : Yields M [] (Grammar.argumentsFrom fuel args) fun ts => ∀ t ∈ ts, t.IsFormulaIn M :=
    .bind h.expression fun t inner => h.arguments (t :: args)
      (List.forall_mem_cons.mpr ⟨inner, formulas⟩)
  unfold Parser.arguments
  refine .take fun token => .ite (fun _ => ?_) fun _ => .ite (fun _ => ?_) fun _ => ?_
  · exact .pure fun t mem => formulas t (List.mem_reverse.mp mem)
  · exact .untake next
  · exact .ite (fun _ => .bind .unexpected fun _ (_ : True) => next) fun _ => next.drop

end ShapesExpressions

theorem shapesExpressions (M : NumericMode → Prop) (fuel : Nat) : ShapesExpressions M fuel := by
  induction fuel with
  | zero => exact ⟨.malformed, fun _ _ _ => .malformed, .malformed, fun _ _ => .malformed⟩
  | succ fuel ih =>
    exact ⟨ih.operand_succ, fun _ _ => ih.chain_succ, ih.expression_succ,
      fun _ => ih.arguments_succ⟩

section
variable {M : NumericMode → Prop} {pre : List Token}

theorem yields_expression (fuel : Nat) : Yields M pre (expression fuel) (Tree.IsFormulaIn M) :=
  (shapesExpressions M fuel).expression.drop

theorem yields_display (fuel : Nat) (line : Position) {sign : Token} (isSign : sign.kind = .at) :
    Yields M [sign] (display fuel line) (Tree.NestedIn M) := by
  unfold display
  refine .take fun token => ?_
  have last : (Tree.reference line "_").IsFormula := .reference
  have bare : (Tree.display line (.reference line "_")).NestedIn M :=
    Tree.all_display.mpr ⟨⟨⟨trivial, rfl, last⟩, trivial⟩, Tree.IsFormulaIn.reference.nested⟩
  split
  · exact .untake (.pure bare)
  · exact .untake (.pure bare)
  · rename_i isColon
    refine .take fun option => .ite (fun _ => .unexpected) fun isName => ?_
    have sets (text : String) (same : option.text = text) :
        Token.Sets text ([sign] ++ [token] ++ [option]) :=
      ⟨sign, token, option, List.infix_rfl, isSign, isColon, not_not.mp isName, same⟩
    have mode (m : NumericMode) (allowed : M m) (isDefined : m ≠ .undefined) :
        Yields M ([sign] ++ [token] ++ [option]) (switchMode line m) (Tree.NestedIn M) :=
      fun s ready => ⟨Tree.all_setMode.mpr ⟨⟨trivial, rfl, trivial⟩, allowed, isDefined⟩,
        allowed, ready.drop.settings⟩
    refine .settings fun only => .ite (fun _ => .pure ?_) fun _ => ?_
    · exact Tree.all_toggleProgrammer.mpr ⟨⟨trivial, rfl, trivial⟩, trivial⟩
    · refine .ite (fun text => mode .float (only.float (sets _ text)) nofun) fun _ => ?_
      exact .ite (fun text => mode .rational (only.rational (sets _ text)) nofun) fun _ =>
        .unexpected
  · exact .untake (.bind (yields_expression fuel) fun t formula =>
      .pure (Tree.all_display.mpr ⟨⟨⟨trivial, rfl, formula.formula⟩, trivial⟩, formula.nested⟩))

theorem yields_exit (line : Position) : Yields M pre (exit line) (Tree.NestedIn M) :=
  .peek fun _ => .ite (fun _ => .pure (Tree.all_exit.mpr ⟨⟨trivial, rfl, trivial⟩, trivial⟩))
    fun _ => .unexpected

theorem yields_semicolon (top : Bool) : Yields M pre (semicolon top) fun _ => True := by
  unfold semicolon
  refine .take fun token => .ite (fun _ => .untake (.ite (fun _ => ?_) fun _ => ?_)) fun _ => ?_
  · exact .expect fun _ => .pure trivial
  · exact .pure trivial
  · exact .pure trivial

theorem yields_parameters (fuel : Nat) (names : List String) :
    Yields M pre (parameters fuel names) fun _ => True := by
  induction fuel generalizing pre names with
  | zero => exact .malformed
  | succ fuel ih =>
    unfold parameters
    have name (token : Token) {pre : List Token} : Yields M pre
        (if token.kind ≠ .symbol then unexpected token .parameterName
        else parameters fuel (token.text :: names)) fun _ => True :=
      .ite (fun _ => .unexpected) fun _ => ih _
    refine .take fun token => .ite (fun _ => .pure trivial) fun _ => .ite (fun _ => ?_) fun _ => ?_
    · exact .bind (R := fun _ => True) (.pure trivial) fun token _ => name token
    · refine .ite (fun _ => .bind .unexpected fun token (_ : True) => name token) fun _ => ?_
      exact .take fun token => name token

def IsSequence (M : NumericMode → Prop) (top : Bool) (t : Tree) : Prop :=
  ∃ line ts, t = .body line ts ∧ ∀ s ∈ ts, s.AllowedIn M top

def IsBlock (M : NumericMode → Prop) (t : Tree) : Prop :=
  t.isBody = true ∧ t.NestedIn M

theorem IsSequence.isBlock {t : Tree} (h : IsSequence M false t) : IsBlock M t := by
  obtain ⟨line, ts, rfl, nested⟩ := h
  exact ⟨rfl, Tree.all_body.mpr ⟨⟨⟨trivial, rfl, trivial⟩, trivial⟩, nested⟩⟩

end

/-- With this bound the parsers of statements make well formed trees. -/
structure ShapesStatements (M : NumericMode → Prop) (fuel : Nat) : Prop where
  statements : ∀ top line (read : List Tree), (∀ t ∈ read, t.AllowedIn M top) →
    Yields M [] (statements fuel top line read) (IsSequence M top)
  statement : ∀ top, Yields M [] (statement fuel top) (Tree.AllowedIn M top)
  block : ∀ context, Yields M [] (block fuel context) (IsBlock M)
  functionDefinition : ∀ line, Yields M [] (functionDefinition fuel line) (Tree.TopLevelIn M)
  ifStatement : ∀ line, Yields M [] (ifStatement fuel line) fun t =>
    t.isConditional = true ∧ t.NestedIn M
  whileStatement : ∀ line, Yields M [] (whileStatement fuel line) (Tree.NestedIn M)
  forStatement : ∀ line, Yields M [] (forStatement fuel line) (Tree.NestedIn M)

namespace ShapesStatements

variable {M : NumericMode → Prop} {fuel : Nat}

theorem statements_succ (h : ShapesStatements M fuel) (top : Bool) (line : Position)
    {read : List Tree} (allowed : ∀ t ∈ read, t.AllowedIn M top) :
    Yields M [] (Parser.statements (fuel + 1) top line read) (IsSequence M top) := by
  unfold Parser.statements
  refine .peek fun token => .ite (fun _ => ?_) fun _ => .ite (fun _ => .unexpected) fun _ => ?_
  · exact .pure ⟨line, _, rfl, fun t mem => allowed t (List.mem_reverse.mp mem)⟩
  · exact .bind (h.statement top) fun t first =>
      h.statements top line _ (List.forall_mem_cons.mpr ⟨first, allowed⟩)

theorem statement_succ (h : ShapesStatements M fuel) (top : Bool) :
    Yields M [] (Parser.statement (fuel + 1) top) (Tree.AllowedIn M top) := by
  have nested {pre : List Token} {p : Parser Tree} (h : Yields M pre p (Tree.NestedIn M)) :
      Yields M pre p (Tree.AllowedIn M top) :=
    h.mono fun t nested => nested.allowed top
  have simple {pre : List Token} {p : Parser Tree} (h : Yields M pre p (Tree.NestedIn M)) :
      Yields M pre (do
        let tree ← p
        semicolon top
        return tree) (Tree.AllowedIn M top) :=
    .bind h fun t inner => .bind (yields_semicolon top) fun _ _ => .pure (inner.allowed top)
  have formula : Yields M [] (expression fuel) (Tree.NestedIn M) :=
    (yields_expression fuel).mono fun t formula => formula.nested
  unfold Parser.statement
  refine .take fun token => .ite (fun isSign => simple (yields_display _ _ isSign)) fun _ => ?_
  refine .ite (fun _ => .untake (simple formula)) fun _ => ?_
  refine .ite (fun _ => ?_) fun _ => ?_
  · cases top with
    | true => exact (h.functionDefinition _).drop
    | false => exact .unexpected
  · refine .ite (fun _ => nested ((h.ifStatement _).mono fun t inner => inner.2).drop) fun _ => ?_
    refine .ite (fun _ => nested (h.whileStatement _).drop) fun _ => ?_
    refine .ite (fun _ => nested (h.forStatement _).drop) fun _ => ?_
    exact .ite (fun _ => simple (yields_exit _)) fun _ => .unexpected

theorem block_succ (h : ShapesStatements M fuel) (context : Context) :
    Yields M [] (Parser.block (fuel + 1) context) (IsBlock M) := by
  unfold Parser.block
  refine .expect fun _ => .peek fun first => ?_
  exact .bind (h.statements false first.line [] (by simp)) fun t inner =>
    .expect fun _ => .pure inner.isBlock

theorem functionDefinition_succ (h : ShapesStatements M fuel) (line : Position) :
    Yields M [] (Parser.functionDefinition (fuel + 1) line) (Tree.TopLevelIn M) := by
  unfold Parser.functionDefinition
  refine .take fun name => .ite (fun _ => .unexpected) fun _ => ?_
  refine .expect fun _ => .bind (yields_parameters fuel []) fun params _ => ?_
  exact .bind (h.block _) fun body inner => .pure (Tree.topLevelIn_define inner.1 inner.2)

theorem ifStatement_succ (h : ShapesStatements M fuel) (line : Position) :
    Yields M [] (Parser.ifStatement (fuel + 1) line) fun t =>
      t.isConditional = true ∧ t.NestedIn M := by
  unfold Parser.ifStatement
  refine .expect fun _ => .bind (yields_expression fuel) fun guard test => .expect fun _ => ?_
  refine .bind (h.block _) fun positive inner => .take fun token => ?_
  have conditional {otherwise : Option Tree}
      (h : ∀ s ∈ otherwise, (s.isBody = true ∨ s.isConditional = true) ∧ s.NestedIn M) :
      (Tree.conditional line guard positive otherwise).isConditional = true ∧
        (Tree.conditional line guard positive otherwise).NestedIn M :=
    ⟨rfl, Tree.all_conditional.mpr
      ⟨⟨⟨⟨inner.1, fun s mem => (h s mem).1⟩, rfl, test.formula⟩, trivial⟩, test.nested, inner.2,
        fun s mem => (h s mem).2⟩⟩
  refine .ite (fun _ => .take fun next => .ite (fun _ => .untake ?_) fun _ => ?_) fun _ => ?_
  · exact .bind (h.block _).drop fun negative inner => .pure <| conditional fun s mem => by
      cases mem
      exact ⟨.inl inner.1, inner.2⟩
  · refine .ite (fun _ => ?_) fun _ => .unexpected
    exact .bind (h.ifStatement _).drop fun negative inner => .pure <| conditional fun s mem => by
      cases mem
      exact ⟨.inr inner.1, inner.2⟩
  · exact .untake (.pure (conditional fun s mem => nomatch mem))

theorem whileStatement_succ (h : ShapesStatements M fuel) (line : Position) :
    Yields M [] (Parser.whileStatement (fuel + 1) line) (Tree.NestedIn M) := by
  unfold Parser.whileStatement
  refine .expect fun _ => .bind (yields_expression fuel) fun guard test => .expect fun _ => ?_
  exact .bind (h.block _) fun body inner => .pure (Tree.all_whileLoop.mpr
    ⟨⟨⟨inner.1, rfl, test.formula⟩, trivial⟩, test.nested, inner.2⟩)

theorem forStatement_succ (h : ShapesStatements M fuel) (line : Position) :
    Yields M [] (Parser.forStatement (fuel + 1) line) (Tree.NestedIn M) := by
  unfold Parser.forStatement
  refine .expect fun _ => .bind (yields_expression fuel) fun init first => .expect fun _ => ?_
  refine .bind (yields_expression fuel) fun guard test => .expect fun _ => ?_
  refine .bind (yields_expression fuel) fun step last => .expect fun _ => ?_
  exact .bind (h.block _) fun body inner => .pure (Tree.all_forLoop.mpr
    ⟨⟨⟨inner.1, rfl, first.formula, test.formula, last.formula⟩, trivial⟩, first.nested,
      test.nested, last.nested, inner.2⟩)

end ShapesStatements

theorem shapesStatements (M : NumericMode → Prop) (fuel : Nat) : ShapesStatements M fuel := by
  induction fuel with
  | zero =>
    constructor <;> intros <;>
      simp only [Parser.statements, Parser.statement, Parser.block, Parser.functionDefinition,
        Parser.ifStatement, Parser.whileStatement, Parser.forStatement] <;> exact .malformed
  | succ fuel ih =>
    exact ⟨fun top line _ => ih.statements_succ top line, ih.statement_succ, ih.block_succ,
      ih.functionDefinition_succ, ih.ifStatement_succ, ih.whileStatement_succ, ih.forStatement_succ⟩

theorem yields_program (M : NumericMode → Prop) (fuel : Nat) :
    Yields M [] (program fuel) (IsSequence M true) :=
  .peek fun first => (shapesStatements M fuel).statements true first.line [] (by simp)

end Parser

namespace Tree

def FoundIn (M : NumericMode → Prop) : Except SyntaxError Tree → Prop
  | .ok t => ∃ line ts, t = .body line ts ∧ ∀ s ∈ ts, s.TopLevelIn M
  | .error e => e.cause = .realInUndefinedMode → M .undefined

variable {M : NumericMode → Prop} {mode : NumericMode}

theorem foundIn_of_stream (stream : TokenStream) (mode : NumericMode) (allowed : M mode)
    (settings : Token.SetsOnly M stream.upcoming) : FoundIn M (ofStream stream mode) := by
  have yields := Parser.yields_program M (Parser.fuelFor stream) ⟨stream, mode, 0⟩
    ⟨allowed, settings⟩
  unfold ofStream Parser.run
  split
  · rename_i run
    rw [run] at yields
    exact yields.1
  · rename_i run
    rw [run] at yields
    exact yields

theorem topLevel_of_stream {stream : TokenStream} {t : Tree} (h : ofStream stream mode = .ok t) :
    ∃ line ts, t = .body line ts ∧ ∀ s ∈ ts, s.TopLevel := by
  have settings : Token.SetsOnly (fun _ => True) stream.upcoming :=
    ⟨fun _ => trivial, fun _ => trivial⟩
  have found := foundIn_of_stream stream mode trivial settings
  rw [h] at found
  obtain ⟨line, ts, rfl, top⟩ := found
  exact ⟨line, ts, rfl, fun s mem => (top s mem).top⟩

theorem isProgram_of_parse {source : Utf8.Source} {t : Tree} (h : parse source mode = .ok t) :
    t.IsProgram := by
  obtain ⟨line, ts, rfl, top⟩ := topLevel_of_stream h
  exact isProgram_body top

section
variable {source : Utf8.Source} (allowed : M mode)
  (settings : Token.SetsOnly M (Lexer.ofSource source).tokens)

include allowed settings

theorem foundIn_of_source : FoundIn M (parse source mode) :=
  foundIn_of_stream (.ofTokens (Lexer.ofSource source).tokens) mode allowed settings

/-- All literals are read in the mode at the start or in one that the tokens set, and these are the
modes that the program sets. -/
theorem readIn_of_parse {t : Tree} (h : parse source mode = .ok t) : t.All (RootReadIn M) := by
  have found := foundIn_of_source allowed settings
  rw [h] at found
  obtain ⟨line, ts, rfl, top⟩ := found
  exact all_body.mpr ⟨trivial, fun s mem => (top s mem).read⟩

theorem undefined_of_refused {e : SyntaxError} (h : parse source mode = .error e)
    (cause : e.cause = .realInUndefinedMode) : M .undefined := by
  have found := foundIn_of_source allowed settings
  rw [h] at found
  exact found cause

end

end Tree

end Calculator
