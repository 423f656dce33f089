import Calculator.Proofs.Token.Placing
import Calculator.Proofs.Tree.Completeness.Expressions

set_option autoImplicit false

/-!
# Parsing finishes

The bound of the recursion is never met: between two tokens that a parser takes for good it calls at
most four others. The operands on the stacks are always one more than the operators when a chain is
reduced, every error has the line of a token, and at most two tokens are given back at once
(`Tree.parse_finishes`).
-/
namespace Calculator

theorem Literal.ne_malformed_of_value {mode : NumericMode} {token : Token} {cause : SyntaxCause}
    (h : value mode token = .error cause) : cause ≠ .malformed := by
  rintro rfl
  unfold value integer real date time at h
  grind

namespace Parser

section
variable {operands operands' : List Tree} {operators operators' : List Token} {p : Nat}

/-- While there is one operand more than there are operators, operators can be applied, and that
stays so. -/
theorem exists_reduceBefore (p : Nat) (inStep : operands.length = operators.length + 1) :
    ∃ operands' operators', reduceBefore p operands operators = some (operands', operators') ∧
      operands'.length = operators'.length + 1 := by
  induction operators generalizing operands with
  | nil => exact ⟨operands, [], by rw [reduceBefore], inStep⟩
  | cons op operators ih =>
    unfold reduceBefore
    split
    · exact ⟨operands, op :: operators, rfl, inStep⟩
    · match operands, inStep with
      | rhs :: lhs :: rest, inStep => exact ih (by simpa using inStep)

theorem reduceBefore_zero_operators
    (reduced : reduceBefore 0 operands operators = some (operands', operators')) :
    operators' = [] := by
  induction operators generalizing operands with
  | nil =>
    cases reduced
    rfl
  | cons op operators ih =>
    unfold reduceBefore at reduced
    rw [if_neg (Nat.not_lt_zero _)] at reduced
    split at reduced
    · exact ih reduced
    · cases reduced

theorem exists_reduceAll (inStep : operands.length = operators.length + 1) :
    ∃ tree, reduceAll operands operators = some tree := by
  obtain ⟨operands', operators', reduced, inStep'⟩ := exists_reduceBefore 0 inStep
  obtain rfl := reduceBefore_zero_operators reduced
  obtain ⟨tree, rfl⟩ := List.length_eq_one_iff.mp inStep'
  exact ⟨tree, by rw [reduceAll, reduced]⟩

end

def ahead : List Token → Nat
  | [] => 0
  | t :: ts => if t.kind = .eof then 0 else ahead ts + 1

section
variable {t : Token} {pre ts : List Token}

theorem ahead_append (notEof : ∀ t ∈ pre, t.kind ≠ .eof) :
    ahead (pre ++ ts) = pre.length + ahead ts := by
  induction pre with
  | nil => simp
  | cons t pre ih =>
    obtain ⟨here, more⟩ := List.forall_mem_cons.mp notEof
    rw [List.cons_append, ahead, if_neg here, ih more, List.length_cons]
    omega

theorem ahead_concat_eof (isEof : t.kind = .eof) : ahead (pre ++ [t]) = ahead pre := by
  induction pre with
  | nil => simp [ahead, isEof]
  | cons u pre ih => simp [ahead, ih]

theorem ahead_le_length (ts : List Token) : ahead ts ≤ ts.length := by
  induction ts with
  | nil => exact Nat.le_refl _
  | cons t ts ih =>
    rw [ahead, List.length_cons]
    split <;> omega

end

/-- Behind the tokens `pre`, which it can give back, the parser has at most `n` tokens in front of
the end. They are on lines in `L`, and so is an end past the last of them. -/
structure Tidy (L : Position → Prop) (n : Nat) (pre : List Token) (s : ParserState) : Prop where
  ahead : ahead (pre ++ s.stream.upcoming) ≤ n
  lines : ∀ t ∈ pre ++ s.stream.upcoming, L t.line
  last : s.stream.upcoming = [] → L s.stream.lastLine
  returned : s.stream.returned.length ≤ 2 - pre.length
  lookahead : s.lookahead ≤ 2

/-- The parser succeeds with less than `m` tokens left in front of the end, or it fails on a line in
`L` for the sake of a token; it never gives back more than two tokens at once. -/
def Finishes {α : Type} (L : Position → Prop) (n : Nat) (pre : List Token) (p : Parser α)
    (m : Nat) : Prop :=
  ∀ s, Tidy L n pre s →
    match p s with
    | .ok _ s' => ∃ k < m, Tidy L k [] s'
    | .error e s' => e.cause ≠ .malformed ∧ L e.line ∧ s'.lookahead ≤ 2

section
variable {L : Position → Prop} {n m k : Nat} {pre : List Token} {α β : Type} {p : Parser α}
  {q : Parser β} {f : α → Parser β}

theorem Finishes.bind (head : Finishes L n pre p k)
    (tail : ∀ a, ∀ k' < k, Finishes L k' [] (f a) m) : Finishes L n pre (p >>= f) m := by
  intro s tidy
  have first := head s tidy
  change match EStateM.bind p f s with | .ok b s' => _ | .error e s' => _
  unfold EStateM.bind
  cases e : p s with
  | ok a s' =>
    rw [e] at first
    obtain ⟨k', less, tidy'⟩ := first
    exact tail a k' less s' tidy'
  | error e' s' =>
    rw [e] at first
    exact first

theorem Finishes.pure {b : β} (h : n < m) : Finishes L n [] (pure b) m :=
  fun _ tidy => ⟨n, h, tidy⟩

theorem Finishes.fail {line : Position} {cause : SyntaxCause} (ofToken : cause ≠ .malformed)
    (inside : L line) : Finishes L n pre (fail line cause : Parser β) m :=
  fun _ tidy => ⟨ofToken, inside, tidy.lookahead⟩

theorem Finishes.unexpected {t : Token} {context : Context} (inside : L t.line) :
    Finishes L n pre (unexpected t context : Parser β) m := by
  refine .fail ?_ inside
  split <;> exact nofun

theorem Finishes.unexpected_bind {t : Token} {context : Context} (inside : L t.line) :
    Finishes L n pre (Parser.unexpected t context >>= f) m :=
  .bind (k := 0) (.unexpected inside) fun _ _ less => absurd less (Nat.not_lt_zero _)

theorem Finishes.mono {m' : Nat} (h : Finishes L n pre q m) (le : m ≤ m') :
    Finishes L n pre q m' := by
  intro s tidy
  have found := h s tidy
  cases e : q s with
  | ok b s' =>
    rw [e] at found
    obtain ⟨k, less, tidy'⟩ := found
    exact ⟨k, by omega, tidy'⟩
  | error e' s' =>
    rw [e] at found
    exact found

theorem Finishes.ite {c : Prop} [Decidable c] {r : Parser β} (yes : c → Finishes L n pre q m)
    (no : ¬c → Finishes L n pre r m) : Finishes L n pre (if c then q else r) m := by
  split
  · exact yes ‹c›
  · exact no ‹¬c›

theorem Finishes.drop {t : Token} (notEof : ∀ u ∈ t :: pre, u.kind ≠ .eof)
    (tail : ∀ k < n, Finishes L k [] q m) : Finishes L n (t :: pre) q m := by
  intro s tidy
  have before := tidy.ahead
  rw [ahead_append notEof, List.length_cons] at before
  refine tail (ahead s.stream.upcoming) (by omega) s
    ⟨Nat.le_refl _, fun u mem => tidy.lines u (List.mem_append_right _ mem), tidy.last, ?_,
      tidy.lookahead⟩
  exact tidy.returned.trans (Nat.sub_le _ _)

theorem tidy_get {s : ParserState} (h : Tidy L n pre s) :
    L s.stream.get.1.line ∧
      Tidy L n (pre ++ [s.stream.get.1]) { s with stream := s.stream.get.2 } := by
  have returned : s.stream.get.2.returned.length ≤ 2 - (pre ++ [s.stream.get.1]).length := by
    have := h.returned
    rw [s.stream.get_returned, List.length_append, List.length_singleton]
    omega
  have before := h.ahead
  have lines := h.lines
  rcases s.stream.get_cases with next | ⟨none, rest, eof⟩
  · rw [next, List.append_cons] at before lines
    have line : L s.stream.get.1.line := lines _ (by simp)
    exact ⟨line, before, lines, fun _ => s.stream.get_lastLine ▸ line, returned, h.lookahead⟩
  · have line : L s.stream.get.1.line := by
      rw [eof]
      exact h.last none
    rw [none, List.append_nil] at before lines
    refine ⟨line, ?_, ?_, fun _ => s.stream.get_lastLine ▸ line, returned, h.lookahead⟩
    · rw [rest, List.append_nil, ahead_concat_eof (by rw [eof]; rfl)]
      exact before
    · rw [rest, List.append_nil]
      exact List.forall_mem_append.mpr ⟨lines, by simpa using line⟩

theorem Finishes.take {f : Token → Parser β}
    (tail : ∀ t, L t.line → Finishes L n (pre ++ [t]) (f t) m) :
    Finishes L n pre (Parser.take >>= f) m := by
  intro s tidy
  obtain ⟨line, tidy'⟩ := tidy_get tidy
  change match EStateM.bind Parser.take f s with | .ok b s' => _ | .error e s' => _
  unfold EStateM.bind
  rw [take_eq]
  by_cases error : s.stream.get.1.kind = .error
  · rw [if_pos error]
    exact ⟨nofun, line, tidy.lookahead⟩
  · rw [if_neg error]
    exact tail s.stream.get.1 line _ tidy'

theorem Finishes.untake {t : Token} {f : Unit → Parser β} (room : pre.length ≤ 1)
    (tail : Finishes L n pre (f ()) m) : Finishes L n (pre ++ [t]) (Parser.untake t >>= f) m := by
  intro s tidy
  have returned : (s.stream.rewind t).returned.length ≤ 2 - pre.length := by
    have := tidy.returned
    simp only [List.length_append, List.length_singleton] at this
    simp only [TokenStream.rewind, List.length_cons]
    omega
  have lookahead : max s.lookahead (s.stream.rewind t).returned.length ≤ 2 :=
    Nat.max_le.mpr ⟨tidy.lookahead, returned.trans (Nat.sub_le _ _)⟩
  have before := tidy.ahead
  have lines := tidy.lines
  rw [← List.append_cons] at before lines
  exact tail { s with
    stream := s.stream.rewind t
    lookahead := max s.lookahead (s.stream.rewind t).returned.length }
    ⟨before, lines, nofun, returned, lookahead⟩

theorem Finishes.peek {f : Token → Parser β} (tail : ∀ t, L t.line → Finishes L n [] (f t) m) :
    Finishes L n [] (Parser.peek >>= f) m := by
  unfold Parser.peek
  simp only [bind_assoc, pure_bind]
  exact .take fun t line => .untake (Nat.zero_le 1) (tail t line)

theorem Finishes.expect {kind : Kind} {context : Context} {f : Token → Parser β}
    (notEof : kind ≠ .eof)
    (tail : ∀ t, ∀ k < n, Finishes L k [] (f t) m) :
    Finishes L n [] (Parser.expect kind context >>= f) m := by
  refine .bind (k := n) (.take fun t line => .ite (fun same => ?_) fun _ => ?_) tail
  · exact .drop (by simp [same, notEof]) fun k less => .pure less
  · exact .ite (fun _ => .fail nofun line) fun _ => .fail nofun line

theorem finishes_literal (token : Token) (line : L token.line) (h : n < m) :
    Finishes L n [] (literal token) m := by
  intro s tidy
  rw [literal_eq]
  cases value : Literal.value s.mode token with
  | ok v => exact ⟨n, h, tidy⟩
  | error cause => exact ⟨Literal.ne_malformed_of_value value, line, tidy.lookahead⟩

end

/-- With four calls for each token in front of the end, the parsers of expressions finish, and they
take a token at least. Each calls the one above it before it takes a token, which is why they need
one call more than that. -/
structure FinishesExpressions (L : Position → Prop) (fuel : Nat) : Prop where
  operand : ∀ n, 4 * n + 1 ≤ fuel → Finishes L n [] (operand fuel) n
  chain : ∀ n (operands : List Tree) (operators : List Token),
    operands.length = operators.length → 4 * n + 2 ≤ fuel →
      Finishes L n [] (chain fuel operands operators) n
  expression : ∀ n, 4 * n + 3 ≤ fuel → Finishes L n [] (expression fuel) n
  arguments : ∀ n (args : List Tree), 4 * n + 4 ≤ fuel → Finishes L n [] (arguments fuel args) n

namespace FinishesExpressions

variable {L : Position → Prop} {n fuel : Nat}

theorem name (h : FinishesExpressions L fuel) {token : Token} (isName : token.kind = .symbol)
    (enough : 4 * n ≤ fuel) : Finishes L n [token] (Grammar.nameOperand fuel token) n := by
  unfold Grammar.nameOperand
  refine .take fun next line => ?_
  split
  · rename_i kind
    exact .drop (by simp [isName, kind]) fun k less => .pure less
  · rename_i kind
    exact .drop (by simp [isName, kind]) fun k less => .pure less
  · rename_i kind
    exact .drop (by simp [isName, kind]) fun k less =>
      .bind (h.arguments k [] (by omega)) fun args k' less' => .pure (by omega)
  · exact .untake (Nat.le_refl 1) (.drop (by simp [isName]) fun k less => .pure less)

theorem operand_succ (h : FinishesExpressions L fuel) (enough : 4 * n + 1 ≤ fuel + 1) :
    Finishes L n [] (Parser.operand (fuel + 1)) n := by
  unfold Parser.operand
  refine .take fun token line => ?_
  split
  iterate 6
    rename_i kind
    exact .drop (by simp [kind]) fun k less => finishes_literal token line less
  · rename_i kind
    exact h.name kind (by omega)
  · rename_i kind
    exact .drop (by simp [kind]) fun k less => (h.operand k (by omega)).mono (by omega)
  iterate 2
    rename_i kind
    exact .drop (by simp [kind]) fun k less =>
      .bind (h.operand k (by omega)) fun tree k' less' => .pure (by omega)
  · rename_i kind
    exact .drop (by simp [kind]) fun k less =>
      .bind (h.expression k (by omega)) fun tree k' less' =>
        .expect nofun fun _ k'' less'' => .pure (by omega)
  · exact .unexpected line

theorem chain_succ (h : FinishesExpressions L fuel) {operands : List Tree} {operators : List Token}
    (inStep : operands.length = operators.length) (enough : 4 * n + 2 ≤ fuel + 1) :
    Finishes L n [] (Parser.chain (fuel + 1) operands operators) n := by
  unfold Parser.chain
  refine .bind (h.operand n (by omega)) fun tree k less => .take fun op line => ?_
  have more : (tree :: operands).length = operators.length + 1 := congrArg (· + 1) inStep
  refine .ite (fun _ => .untake (Nat.zero_le 1) ?_) fun goesOn => ?_
  · obtain ⟨chained, reduced⟩ := exists_reduceAll more
    rw [reduced]
    exact .pure less
  · split
    · exact .unexpected line
    · rename_i p priority
      obtain ⟨operands', operators', reduced, inStep'⟩ := exists_reduceBefore p more
      have notEof : op.kind ≠ .eof := by
        intro isEof
        rw [isEof] at goesOn
        exact goesOn rfl
      rw [reduced]
      exact .drop (by simp [notEof]) fun k' less' =>
        (h.chain k' _ _ inStep' (by omega)).mono (by omega)

theorem expression_succ (h : FinishesExpressions L fuel) (enough : 4 * n + 3 ≤ fuel + 1) :
    Finishes L n [] (Parser.expression (fuel + 1)) n := by
  have whole (k : Nat) (le : k ≤ n) : Finishes L k [] (Parser.chain fuel [] []) k :=
    h.chain k [] [] rfl (by omega)
  unfold Parser.expression
  refine .take fun first line => .ite (fun _ => ?_) fun isName => ?_
  · exact .untake (Nat.zero_le 1) (whole n (Nat.le_refl n))
  refine .take fun second line' => .ite (fun assigns => ?_) fun _ => ?_
  · have notEof : second.kind ≠ .eof := by
      intro isEof
      rw [isEof] at assigns
      cases assigns
    refine .drop (by simp [not_not.mp isName, notEof]) fun k less => ?_
    exact .bind (whole k (by omega)) fun value k' less' => .pure (by omega)
  · exact .untake (Nat.le_refl 1) (.untake (Nat.zero_le 1) (whole n (Nat.le_refl n)))

theorem arguments_succ (h : FinishesExpressions L fuel) {args : List Tree}
    (enough : 4 * n + 4 ≤ fuel + 1) : Finishes L n [] (Parser.arguments (fuel + 1) args) n := by
  have next (k : Nat) (le : k ≤ n) : Finishes L k [] (Grammar.argumentsFrom fuel args) n :=
    .bind (h.expression k (by omega)) fun tree k' less =>
      (h.arguments k' (tree :: args) (by omega)).mono (by omega)
  unfold Parser.arguments
  refine .take fun token line => .ite (fun closes => ?_) fun _ => .ite (fun _ => ?_) fun _ => ?_
  · exact .drop (by simp [closes]) fun k less => .pure less
  · exact .untake (Nat.zero_le 1) (next n (Nat.le_refl n))
  · refine .ite (fun _ => .unexpected_bind line) fun isComma => ?_
    exact .drop (by simp [not_not.mp isComma]) fun k less => next k (by omega)

end FinishesExpressions

theorem finishesExpressions (L : Position → Prop) (fuel : Nat) : FinishesExpressions L fuel := by
  induction fuel with
  | zero => constructor <;> intros <;> omega
  | succ fuel ih =>
    exact ⟨fun _ => ih.operand_succ, fun _ _ _ => ih.chain_succ, fun _ => ih.expression_succ,
      fun _ _ => ih.arguments_succ⟩

section
variable {L : Position → Prop} {n m fuel : Nat}

theorem finishes_expression (enough : 4 * n + 3 ≤ fuel) :
    Finishes L n [] (expression fuel) n :=
  (finishesExpressions L fuel).expression n enough

theorem finishes_semicolon (top : Bool) (h : n < m) : Finishes L n [] (semicolon top) m := by
  unfold semicolon
  refine .take fun token line => .ite (fun _ => .untake (Nat.zero_le 1) ?_) fun isSemi => ?_
  · exact .ite (fun _ => .expect nofun fun _ k less => .pure (by omega)) fun _ => .pure h
  · exact .drop (by simp [not_not.mp isSemi]) fun k less => .pure (by omega)

theorem finishes_display (line : Position) (enough : 4 * n + 3 ≤ fuel) :
    Finishes L n [] (display fuel line) (n + 1) := by
  unfold display
  refine .take fun token inside => ?_
  split
  · exact .untake (Nat.zero_le 1) (.pure (by omega))
  · exact .untake (Nat.zero_le 1) (.pure (by omega))
  · rename_i isColon
    refine .take fun option inside' => .ite (fun _ => .unexpected inside') fun isName => ?_
    have mode (m : NumericMode) {k : Nat} (less : k < n) :
        Finishes L k [] (switchMode line m) (n + 1) :=
      fun s tidy => ⟨k, by omega, tidy.ahead, tidy.lines, tidy.last, tidy.returned, tidy.lookahead⟩
    have dropped {q : Parser Tree} (tail : ∀ k < n, Finishes L k [] q (n + 1)) :
        Finishes L n [token, option] q (n + 1) :=
      .drop (by simp [isColon, not_not.mp isName]) tail
    refine .ite (fun _ => dropped fun k less => .pure (by omega)) fun _ => ?_
    refine .ite (fun _ => dropped fun k less => mode .float less) fun _ => ?_
    exact .ite (fun _ => dropped fun k less => mode .rational less) fun _ => .unexpected inside'
  · exact .untake (Nat.zero_le 1) (.bind (finishes_expression enough) fun tree k less =>
      .pure (by omega))

theorem finishes_exit (line : Position) (h : n < m) : Finishes L n [] (exit line) m :=
  .peek fun _ inside => .ite (fun _ => .pure h) fun _ => .unexpected inside

theorem finishes_parameters (names : List String) (enough : n + 1 ≤ fuel) :
    Finishes L n [] (parameters fuel names) n := by
  induction fuel generalizing n names with
  | zero => omega
  | succ fuel ih =>
    unfold parameters
    have name {t token : Token} {us : List Token} (inside : L token.line)
        (notEof : token.kind = .symbol → ∀ u ∈ t :: us, u.kind ≠ .eof) :
        Finishes L n (t :: us) (if token.kind ≠ .symbol then unexpected token .parameterName
          else parameters fuel (token.text :: names)) n :=
      .ite (fun _ => .unexpected inside) fun isName => .drop (notEof (not_not.mp isName))
        fun k less => (ih _ (by omega)).mono (by omega)
    refine .take fun token inside => .ite (fun closes => ?_) fun _ => .ite (fun _ => ?_) fun _ => ?_
    · exact .drop (by simp [closes]) fun k less => .pure less
    · rw [pure_bind]
      exact name inside (by simp +contextual)
    · refine .ite (fun _ => .unexpected_bind inside) fun isComma => ?_
      exact .take fun next inside' => name inside' (by simp +contextual [not_not.mp isComma])

end

/-- With four calls for each token in front of the end, the parsers of statements finish, and all
but that of statements in a row take a token at least. -/
structure FinishesStatements (L : Position → Prop) (fuel : Nat) : Prop where
  statements : ∀ n top line (read : List Tree), 4 * n + 5 ≤ fuel →
    Finishes L n [] (statements fuel top line read) (n + 1)
  statement : ∀ n top, 4 * n + 4 ≤ fuel → Finishes L n [] (statement fuel top) n
  block : ∀ n context, 4 * n + 2 ≤ fuel → Finishes L n [] (block fuel context) n
  functionDefinition : ∀ n line, 4 * n + 4 ≤ fuel →
    Finishes L n [] (functionDefinition fuel line) n
  ifStatement : ∀ n line, 4 * n + 4 ≤ fuel → Finishes L n [] (ifStatement fuel line) n
  whileStatement : ∀ n line, 4 * n + 4 ≤ fuel → Finishes L n [] (whileStatement fuel line) n
  forStatement : ∀ n line, 4 * n + 4 ≤ fuel → Finishes L n [] (forStatement fuel line) n

namespace FinishesStatements

variable {L : Position → Prop} {n fuel : Nat}

theorem statements_succ (h : FinishesStatements L fuel) (top : Bool) (line : Position)
    (read : List Tree) (enough : 4 * n + 5 ≤ fuel + 1) :
    Finishes L n [] (Parser.statements (fuel + 1) top line read) (n + 1) := by
  unfold Parser.statements
  refine .peek fun token inside => .ite (fun _ => .pure (by omega)) fun _ => ?_
  refine .ite (fun _ => .unexpected inside) fun _ => ?_
  exact .bind (h.statement n top (by omega)) fun tree k less =>
    (h.statements k top line _ (by omega)).mono (by omega)

theorem statement_succ (h : FinishesStatements L fuel) (top : Bool)
    (enough : 4 * n + 4 ≤ fuel + 1) : Finishes L n [] (Parser.statement (fuel + 1) top) n := by
  have simple {p : Parser Tree} {k : Nat} (h : Finishes L k [] p n) :
      Finishes L k [] (do
        let tree ← p
        semicolon top
        return tree) n :=
    .bind h fun tree k less => .bind (finishes_semicolon top less) fun _ k less => .pure less
  unfold Parser.statement
  refine .take fun token inside => .ite (fun isSign => ?_) fun _ => ?_
  · exact .drop (by simp [isSign]) fun k less =>
      simple ((finishes_display _ (by omega)).mono less)
  refine .ite (fun _ => .untake (Nat.zero_le 1) (simple (finishes_expression (by omega)))) ?_
  intro isKeyword
  have dropped {q : Parser Tree} (tail : ∀ k < n, Finishes L k [] q n) :
      Finishes L n [token] q n :=
    .drop (by simp [not_not.mp isKeyword]) tail
  refine .ite (fun _ => ?_) fun _ => ?_
  · cases top with
    | true => exact dropped fun k less => (h.functionDefinition k _ (by omega)).mono (by omega)
    | false => exact .unexpected inside
  refine .ite (fun _ => dropped fun k less => ?_) fun _ => ?_
  · exact (h.ifStatement k _ (by omega)).mono (by omega)
  refine .ite (fun _ => dropped fun k less => ?_) fun _ => ?_
  · exact (h.whileStatement k _ (by omega)).mono (by omega)
  refine .ite (fun _ => dropped fun k less => ?_) fun _ => ?_
  · exact (h.forStatement k _ (by omega)).mono (by omega)
  exact .ite (fun _ => dropped fun k less => simple (finishes_exit _ less)) fun _ =>
    .unexpected inside

theorem block_succ (h : FinishesStatements L fuel) (context : Context)
    (enough : 4 * n + 2 ≤ fuel + 1) : Finishes L n [] (Parser.block (fuel + 1) context) n := by
  unfold Parser.block
  refine .expect nofun fun _ k less => .peek fun first _ => ?_
  exact .bind (h.statements k false first.line [] (by omega)) fun tree k less =>
    .expect nofun fun _ k less => .pure (by omega)

theorem functionDefinition_succ (h : FinishesStatements L fuel) (line : Position)
    (enough : 4 * n + 4 ≤ fuel + 1) :
    Finishes L n [] (Parser.functionDefinition (fuel + 1) line) n := by
  unfold Parser.functionDefinition
  refine .take fun name inside => .ite (fun _ => .unexpected inside) fun isName => ?_
  refine .drop (by simp [not_not.mp isName]) fun k less => .expect nofun fun _ k less => ?_
  refine .bind (finishes_parameters [] (by omega)) fun params k less => ?_
  exact .bind (h.block k _ (by omega)) fun body k less => .pure (by omega)

theorem ifStatement_succ (h : FinishesStatements L fuel) (line : Position)
    (enough : 4 * n + 4 ≤ fuel + 1) : Finishes L n [] (Parser.ifStatement (fuel + 1) line) n := by
  unfold Parser.ifStatement
  refine .expect nofun fun _ k less => .bind (finishes_expression (by omega)) fun guard k less => ?_
  refine .expect nofun fun _ k less => .bind (h.block k _ (by omega)) fun positive k less => ?_
  refine .take fun token inside => .ite (fun isElse => ?_) fun _ => ?_
  · have notEnd : token.kind ≠ .eof := by simp [Grammar.kind_of_hasKeyword isElse]
    refine .take fun next inside' => .ite (fun _ => .untake (Nat.le_refl 1) ?_) fun _ => ?_
    · exact .drop (by simp [notEnd]) fun k less =>
        .bind (h.block k _ (by omega)) fun negative k less => .pure (by omega)
    · refine .ite (fun isIf => ?_) fun _ => .unexpected inside'
      exact .drop (by simp [notEnd, Grammar.kind_of_hasKeyword isIf]) fun k less =>
        .bind (h.ifStatement k _ (by omega)) fun negative k less => .pure (by omega)
  · exact .untake (Nat.zero_le 1) (.pure (by omega))

theorem whileStatement_succ (h : FinishesStatements L fuel) (line : Position)
    (enough : 4 * n + 4 ≤ fuel + 1) :
    Finishes L n [] (Parser.whileStatement (fuel + 1) line) n := by
  unfold Parser.whileStatement
  refine .expect nofun fun _ k less => .bind (finishes_expression (by omega)) fun guard k less => ?_
  refine .expect nofun fun _ k less => ?_
  exact .bind (h.block k _ (by omega)) fun body k less => .pure (by omega)

theorem forStatement_succ (h : FinishesStatements L fuel) (line : Position)
    (enough : 4 * n + 4 ≤ fuel + 1) : Finishes L n [] (Parser.forStatement (fuel + 1) line) n := by
  unfold Parser.forStatement
  refine .expect nofun fun _ k less => .bind (finishes_expression (by omega)) fun init k less => ?_
  refine .expect nofun fun _ k less => .bind (finishes_expression (by omega)) fun guard k less => ?_
  refine .expect nofun fun _ k less => .bind (finishes_expression (by omega)) fun step k less => ?_
  refine .expect nofun fun _ k less => ?_
  exact .bind (h.block k _ (by omega)) fun body k less => .pure (by omega)

end FinishesStatements

theorem finishesStatements (L : Position → Prop) (fuel : Nat) : FinishesStatements L fuel := by
  induction fuel with
  | zero => constructor <;> intros <;> omega
  | succ fuel ih =>
    exact ⟨fun _ => ih.statements_succ, fun _ => ih.statement_succ, fun _ => ih.block_succ,
      fun _ => ih.functionDefinition_succ, fun _ => ih.ifStatement_succ,
      fun _ => ih.whileStatement_succ, fun _ => ih.forStatement_succ⟩

/-- A token is on the line, or there are no tokens and it is the first one. -/
def IsLineOf (ts : List Token) (line : Position) : Prop :=
  (∃ t ∈ ts, t.line = line) ∨ ts = [] ∧ line = 1

/-- How a parse of these tokens ends: with a tree, or for the sake of a token on the line of one of
them. No more than two tokens are given back at once in either case. -/
def Finished (ts : List Token) : EStateM.Result SyntaxError ParserState Tree → Prop
  | .ok _ s => s.lookahead ≤ 2
  | .error e s => e.cause ≠ .malformed ∧ IsLineOf ts e.line ∧ s.lookahead ≤ 2

section
variable {mode : NumericMode} {stream : TokenStream}

theorem tidy_start (fresh : stream.returned = []) (line : stream.lastLine = 1) :
    Tidy (IsLineOf stream.upcoming) (ahead stream.upcoming) [] ⟨stream, mode, 0⟩ where
  ahead := Nat.le_refl _
  lines := fun t mem => .inl ⟨t, mem, rfl⟩
  last := fun none => .inr ⟨none, line⟩
  returned := by simp [fresh]
  lookahead := Nat.zero_le 2

theorem finished_run (fresh : stream.returned = []) (line : stream.lastLine = 1)
    (sized : stream.upcoming.length ≤ stream.size) :
    Finished stream.upcoming (run stream mode) := by
  have bound := ahead_le_length stream.upcoming
  have finishes : Finishes (IsLineOf stream.upcoming) (ahead stream.upcoming) []
      (program (fuelFor stream)) (ahead stream.upcoming + 1) :=
    .peek fun first _ => (finishesStatements _ _).statements _ true first.line []
      (by unfold fuelFor; omega)
  have finished := finishes ⟨stream, mode, 0⟩ (tidy_start fresh line)
  unfold run
  cases ends : program (fuelFor stream) ⟨stream, mode, 0⟩ with
  | ok tree s =>
    rw [ends] at finished
    obtain ⟨k, -, tidy⟩ := finished
    exact tidy.lookahead
  | error e s =>
    rw [ends] at finished
    exact finished

end

end Parser

theorem Lexer.length_tokensFrom_le (fuel : Nat) (l : Lexer) :
    (tokensFrom fuel l).length ≤ fuel := by
  induction fuel generalizing l with
  | zero => exact Nat.le_refl _
  | succ fuel ih =>
    unfold tokensFrom
    dsimp only
    split
    · simp
    · exact Nat.succ_le_succ (ih _)

namespace Tree

open Calculator.Parser

theorem finished_ofTokens (tokens : List Token) (mode : NumericMode) :
    Finished tokens (run (.ofTokens tokens) mode) :=
  finished_run rfl rfl (by simp [TokenStream.upcoming, TokenStream.ofTokens, Supply.tokens,
    TokenStream.size, Supply.size])

/-- Whether the tokens are given in a list, with or without an end, or are scanned when they are
needed, every parse ends with a tree or with an error of a token, on its line, and at most two
tokens are ever given back at once. The line of an error is one of the text that was read, and lies
between the first and the last one as long as their numbers fit. -/
theorem parse_finishes (mode : NumericMode) :
    (∀ tokens, Finished tokens (run (.ofTokens tokens) mode)) ∧
      (∀ lexer : Lexer, Finished lexer.tokens (run (.ofLexer lexer) mode)) ∧
        ∀ source text, source.IsText text → ∀ e, parse source mode = .error e →
          Lexer.IsLineOf text.toList e.line ∧ (text.toList.count '\n' + 1 < 2 ^ 32 →
            1 ≤ e.line.toNat ∧ e.line.toNat ≤ 1 + text.toList.count '\n') := by
  refine ⟨fun tokens => finished_ofTokens tokens mode, fun lexer => finished_run rfl rfl ?_,
    fun source text isText e refused => ?_⟩
  -- A lexer has at most one token for each character, an error and the end.
  · change lexer.tokens.length ≤ 0 + (lexer.rest.length + 2)
    rw [Nat.zero_add]
    exact Lexer.length_tokensFrom_le _ lexer
  · have finished := finished_ofTokens (Lexer.ofSource source).tokens mode
    unfold parse ofTokens ofStream at refused
    cases ends : run (.ofTokens (Lexer.ofSource source).tokens) mode with
    | ok tree s =>
      rw [ends] at refused
      cases refused
    | error e' s =>
      rw [ends] at refused finished
      cases refused
      obtain ⟨-, ⟨t, mem, same⟩ | ⟨none, -⟩, -⟩ := finished
      · have line := Lexer.line_of_mem_tokens source t mem
        rw [same, Utf8.Source.decode_of_text isText.clean isText.delivers] at line
        exact ⟨line, line.bounds⟩
      · cases (Lexer.tokens_eq _).symm.trans none

/-- An operand is missing at the end of the second line. -/
theorem parse_finishes_missing :
    ∃ e, parse ⟨[.byte 45, .byte 10], none⟩ .rational = .error e ∧
      1 ≤ e.line.toNat ∧ e.line.toNat ≤ 2 := by
  have isText : Utf8.Source.IsText ⟨[.byte 45, .byte 10], none⟩ "-\n" := by
    refine ⟨rfl, ?_⟩
    rw [Utf8.toList_toUTF8]
    decide
  have refused : (parse ⟨[.byte 45, .byte 10], none⟩ .rational).isOk = false := by
    decide +kernel
  cases parsed : parse ⟨[.byte 45, .byte 10], none⟩ .rational with
  | ok tree =>
    rw [parsed] at refused
    cases refused
  | error e =>
    exact ⟨e, rfl, ((parse_finishes .rational).2.2 _ "-\n" isText e parsed).2 (by decide)⟩

end Tree

end Calculator
