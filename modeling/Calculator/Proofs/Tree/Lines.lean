import Calculator.Proofs.Token.Appending
import Calculator.Proofs.Tree.Finishing
import Calculator.Proofs.Value.Bare

set_option autoImplicit false

namespace Calculator

/-- The parser is in the same mode and in front of the same tokens on other lines. -/
structure ParserState.Moves (f : Position → Position) (s s' : ParserState) : Prop where
  mode : s'.mode = s.mode
  upcoming : s'.stream.upcoming = s.stream.upcoming.map (Token.mapLine f)
  last : s.stream.upcoming = [] → s'.stream.lastLine = f s.stream.lastLine

namespace Parser

/-- How the answers to the same tokens on other lines are related, unless the first one was cut
short. -/
inductive Answers {α β : Type} (f : Position → Position) (move : α → β) :
    EStateM.Result SyntaxError ParserState α → EStateM.Result SyntaxError ParserState β → Prop where
  | ok {a : α} {s s' : ParserState} (moves : s.Moves f s') :
      Answers f move (.ok a s) (.ok (move a) s')
  | error {line : Position} {cause : SyntaxCause} {s s' : ParserState} :
      Answers f move (.error ⟨line, cause⟩ s) (.error ⟨f line, cause⟩ s')
  | cut {line : Position} {s : ParserState} {r : EStateM.Result SyntaxError ParserState β} :
      Answers f move (.error ⟨line, .malformed⟩ s) r

/-- The second parser does on other lines what the first one does, unless that is cut short. -/
def Carries {α β : Type} (f : Position → Position) (move : α → β) (p : Parser α) (p' : Parser β) :
    Prop :=
  ∀ s s' : ParserState, s.Moves f s' → Answers f move (p s) (p' s')

section
variable {α β γ δ : Type} {f : Position → Position} {move : α → β} {move' : γ → δ} {p : Parser α}
  {p' : Parser β} {g : α → Parser γ} {g' : β → Parser δ} {k : Token → Parser γ}
  {k' : Token → Parser δ}

theorem Carries.bind (head : Carries f move p p')
    (tail : ∀ a, Carries f move' (g a) (g' (move a))) :
    Carries f move' (p >>= g) (p' >>= g') := by
  intro s s' moves
  have first := head s s' moves
  change Answers f move' (EStateM.bind p g s) (EStateM.bind p' g' s')
  unfold EStateM.bind
  generalize p s = r, p' s' = r' at first
  cases first with
  | ok moves => exact tail _ _ _ moves
  | error => exact .error
  | cut => exact .cut

theorem Carries.pure {a : α} {b : β} (same : move a = b) :
    Carries f move (pure a) (pure b) := by
  intro s s' moves
  subst same
  exact .ok moves

theorem Carries.fail {line : Position} {cause : SyntaxCause} :
    Carries f move (fail line cause) (fail (f line) cause) :=
  fun _ _ _ => .error

theorem Carries.cut {line : Position} : Carries f move (Parser.fail line .malformed) p' :=
  fun _ _ _ => .cut

theorem Carries.unexpected {kind : Kind} {text : String} {line : Position} {context : Context} :
    Carries f move (unexpected ⟨kind, text, line⟩ context)
      (Parser.unexpected ⟨kind, text, f line⟩ context) :=
  .fail

theorem Carries.ite {c : Prop} [Decidable c] {q : Parser α} {q' : Parser β}
    (yes : c → Carries f move p p') (no : ¬c → Carries f move q q') :
    Carries f move (if c then p else q) (if c then p' else q') := by
  by_cases h : c
  · rw [if_pos h, if_pos h]
    exact yes h
  · rw [if_neg h, if_neg h]
    exact no h

theorem carries_take : Carries f (Token.mapLine f) take take := by
  intro s s' moves
  have next : s'.stream.get.1 = s.stream.get.1.mapLine f ∧
      s'.stream.get.2.upcoming = s.stream.get.2.upcoming.map (Token.mapLine f) := by
    have same := moves.upcoming
    cases here : s.stream.upcoming with
    | nil =>
      -- Past the last token both streams give ends, on the lines they have come to.
      rw [here] at same
      obtain ⟨eof, rest⟩ := TokenStream.get_of_nil here
      obtain ⟨eof', rest'⟩ := TokenStream.get_of_nil same
      rw [eof, eof', rest, rest', moves.last here]
      exact ⟨rfl, rfl⟩
    | cons t ts =>
      rw [here] at same
      obtain ⟨token, tokens⟩ := s.stream.get_eq here
      obtain ⟨token', tokens'⟩ := s'.stream.get_eq same
      rw [token, tokens, token', tokens']
      exact ⟨rfl, rfl⟩
  obtain ⟨token, tokens⟩ := next
  have kind : (s.stream.get.1.mapLine f).kind = s.stream.get.1.kind := rfl
  rw [take_eq, take_eq, token, kind]
  split
  · exact .error
  · refine .ok ⟨moves.mode, tokens, fun _ => ?_⟩
    change s'.stream.get.2.lastLine = f s.stream.get.2.lastLine
    rw [TokenStream.get_lastLine, TokenStream.get_lastLine, token]
    rfl

theorem carries_untake (t : Token) : Carries f id (untake t) (untake (t.mapLine f)) :=
  fun _ _ moves => .ok ⟨moves.mode, congrArg (List.cons _) moves.upcoming, nofun⟩

theorem Carries.take (tail : ∀ kind text line,
    Carries f move' (k ⟨kind, text, line⟩) (k' ⟨kind, text, f line⟩)) :
    Carries f move' (Parser.take >>= k) (Parser.take >>= k') :=
  carries_take.bind fun ⟨kind, text, line⟩ => tail kind text line

theorem Carries.untake {kind : Kind} {text : String} {line : Position} {q : Unit → Parser γ}
    {q' : Unit → Parser δ} (tail : Carries f move' (q ()) (q' ())) :
    Carries f move' (Parser.untake ⟨kind, text, line⟩ >>= q)
      (Parser.untake ⟨kind, text, f line⟩ >>= q') :=
  (carries_untake ⟨kind, text, line⟩).bind fun _ => tail

theorem Carries.peek (tail : ∀ kind text line,
    Carries f move' (k ⟨kind, text, line⟩) (k' ⟨kind, text, f line⟩)) :
    Carries f move' (Parser.peek >>= k) (Parser.peek >>= k') := by
  have peek : Carries f (Token.mapLine f) Parser.peek Parser.peek :=
    .take fun _ _ _ => .untake (.pure rfl)
  exact peek.bind fun ⟨kind, text, line⟩ => tail kind text line

theorem Carries.expect {kind : Kind} {context : Context} {q : Token → Parser γ}
    {q' : Token → Parser δ}
    (tail : ∀ kind text line, Carries f move' (q ⟨kind, text, line⟩) (q' ⟨kind, text, f line⟩)) :
    Carries f move' (Parser.expect kind context >>= q) (Parser.expect kind context >>= q') := by
  have expect : Carries f (Token.mapLine f) (Parser.expect kind context)
      (Parser.expect kind context) :=
    .take fun _ _ _ => .ite (fun _ => .pure rfl) fun _ => .ite (fun _ => .fail) fun _ => .fail
  exact expect.bind fun ⟨kind, text, line⟩ => tail kind text line

end

section
variable {f : Position → Position}

theorem carries_literal {kind : Kind} {text : String} {line : Position} :
    Carries f (Tree.mapLines f) (literal ⟨kind, text, line⟩) (literal ⟨kind, text, f line⟩) := by
  intro s s' moves
  have same : Literal.value s'.mode ⟨kind, text, f line⟩ =
      Literal.value s.mode ⟨kind, text, line⟩ := by
    rw [moves.mode]
    rfl
  rw [literal_eq, literal_eq, same]
  cases Literal.value s.mode ⟨kind, text, line⟩ with
  | error cause => exact .error
  | ok v => exact .ok moves

theorem reduceBefore_mapLines (p : Nat) (ts : List Tree) (os : List Token) :
    reduceBefore p (ts.map (Tree.mapLines f)) (os.map (Token.mapLine f)) =
      (reduceBefore p ts os).map fun (ts, os) =>
        (ts.map (Tree.mapLines f), os.map (Token.mapLine f)) := by
  induction os generalizing ts with
  | nil => rfl
  | cons op os ih =>
    have kind : (op.mapLine f).kind = op.kind := rfl
    by_cases before : op.kind.priority.getD 0 < p
    · simp [reduceBefore, kind, before]
    · rcases ts with _ | ⟨r, _ | ⟨l, ts⟩⟩
      · simp [reduceBefore, kind, before]
      · simp [reduceBefore, kind, before]
      · simp only [List.map_cons, reduceBefore, kind, if_neg before]
        exact ih (.binary op.line op.kind l r :: ts)

theorem reduceAll_mapLines (ts : List Tree) (os : List Token) :
    reduceAll (ts.map (Tree.mapLines f)) (os.map (Token.mapLine f)) =
      (reduceAll ts os).map (Tree.mapLines f) := by
  unfold reduceAll
  rw [reduceBefore_mapLines]
  rcases reduceBefore 0 ts os with _ | ⟨_ | ⟨t, _ | ⟨u, ts⟩⟩, _ | ⟨op, os⟩⟩ <;> rfl

end

/-- With this bound, all functions that read expressions are carried to other lines and to any
larger bound. -/
structure CarriesExpressions (f : Position → Position) (n : Nat) : Prop where
  expression : ∀ n' ≥ n, Carries f (Tree.mapLines f) (expression n) (expression n')
  chain : ∀ n' ≥ n, ∀ ts os, Carries f (Tree.mapLines f) (chain n ts os)
    (chain n' (ts.map (Tree.mapLines f)) (os.map (Token.mapLine f)))
  operand : ∀ n' ≥ n, Carries f (Tree.mapLines f) (operand n) (operand n')
  arguments : ∀ n' ≥ n, ∀ ts, Carries f (List.map (Tree.mapLines f)) (arguments n ts)
    (arguments n' (ts.map (Tree.mapLines f)))

namespace CarriesExpressions

variable {f : Position → Position} {n n' : Nat}

theorem expression_succ (h : CarriesExpressions f n) (le : n ≤ n') :
    Carries f (Tree.mapLines f) (Parser.expression (n + 1)) (Parser.expression (n' + 1)) := by
  unfold Parser.expression
  refine .take fun kind text line => .ite (fun _ => .untake (h.chain n' le [] [])) fun _ => ?_
  refine .take fun kind' text' line' => .ite (fun _ => ?_) fun _ => ?_
  · exact (h.chain n' le [] []).bind fun t => .pure (by simp only [Tree.mapLines])
  · exact .untake (.untake (h.chain n' le [] []))

theorem chain_succ (h : CarriesExpressions f n) (le : n ≤ n') (ts : List Tree) (os : List Token) :
    Carries f (Tree.mapLines f) (Parser.chain (n + 1) ts os)
      (Parser.chain (n' + 1) (ts.map (Tree.mapLines f)) (os.map (Token.mapLine f))) := by
  unfold Parser.chain
  refine (h.operand n' le).bind fun t => .take fun kind text line => ?_
  rw [← List.map_cons (f := Tree.mapLines f), reduceAll_mapLines]
  refine .ite (fun _ => .untake ?_) fun _ => ?_
  · cases reduceAll (t :: ts) os with
    | none => exact .cut
    | some u => exact .pure rfl
  · dsimp only
    cases kind.priority with
    | none => exact .unexpected
    | some p =>
      dsimp only
      rw [reduceBefore_mapLines]
      cases reduceBefore p (t :: ts) os with
      | none => exact .cut
      | some both => exact h.chain n' le both.1 (⟨kind, text, line⟩ :: both.2)

theorem operand_succ (h : CarriesExpressions f n) (le : n ≤ n') :
    Carries f (Tree.mapLines f) (Parser.operand (n + 1)) (Parser.operand (n' + 1)) := by
  have prefixed (kind : Kind) (line : Position) : Carries f (Tree.mapLines f)
      (do return .unary line kind (← Parser.operand n))
      (do return .unary (f line) kind (← Parser.operand n')) :=
    (h.operand n' le).bind fun t => .pure (by simp only [Tree.mapLines])
  unfold Parser.operand
  refine .take fun kind text line => ?_
  cases kind with
  | real | int | hex | oct | date | time => exact carries_literal
  | symbol =>
    refine .take fun next text' line' => ?_
    cases next with
    | plusPlus | minusMinus => exact .pure (by simp only [Tree.mapLines])
    | leftParen =>
      exact (h.arguments n' le []).bind fun us =>
        .pure (by simp only [Tree.mapLines, mapTreeLines_eq_map])
    | _ => exact .untake (.pure (by simp only [Tree.mapLines]))
  | plus => exact h.operand n' le
  | minus | bang => exact prefixed _ line
  | leftParen => exact (h.expression n' le).bind fun t => .expect fun _ _ _ => .pure rfl
  | _ => exact .unexpected

theorem arguments_succ (h : CarriesExpressions f n) (le : n ≤ n') (ts : List Tree) :
    Carries f (List.map (Tree.mapLines f)) (Parser.arguments (n + 1) ts)
      (Parser.arguments (n' + 1) (ts.map (Tree.mapLines f))) := by
  have next : Carries f (List.map (Tree.mapLines f))
      (do
        let tree ← Parser.expression n
        Parser.arguments n (tree :: ts))
      (do
        let tree ← Parser.expression n'
        Parser.arguments n' (tree :: ts.map (Tree.mapLines f))) :=
    (h.expression n' le).bind fun t => h.arguments n' le (t :: ts)
  unfold Parser.arguments
  refine .take fun kind text line => .ite (fun _ => .pure List.map_reverse) fun _ => ?_
  rw [List.isEmpty_map]
  refine .ite (fun _ => .untake next) fun _ => .ite (fun _ => ?_) fun _ => next
  have refused : Carries f id (unexpected (α := Unit) ⟨kind, text, line⟩ .functionCall)
      (unexpected ⟨kind, text, f line⟩ .functionCall) := .unexpected
  exact refused.bind fun _ => next

end CarriesExpressions

theorem carriesExpressions (f : Position → Position) (n : Nat) : CarriesExpressions f n := by
  induction n with
  | zero =>
    exact ⟨fun _ _ => .cut, fun _ _ _ _ => .cut, fun _ _ => .cut, fun _ _ _ => .cut⟩
  | succ n ih =>
    constructor <;> intro n' le <;>
      obtain ⟨n', rfl⟩ : ∃ k, n' = k + 1 := ⟨n' - 1, by omega⟩ <;>
      have le := Nat.le_of_succ_le_succ le
    · exact ih.expression_succ le
    · exact ih.chain_succ le
    · exact ih.operand_succ le
    · exact ih.arguments_succ le

section
variable {f : Position → Position} {n n' : Nat} {top : Bool}

theorem carries_expression (le : n ≤ n') :
    Carries f (Tree.mapLines f) (expression n) (expression n') :=
  (carriesExpressions f n).expression n' le

theorem carries_semicolon : Carries f id (semicolon top) (semicolon top) := by
  unfold semicolon
  refine .take fun kind text line => .ite (fun _ => .untake ?_) fun _ => .pure rfl
  exact .ite (fun _ => .expect fun _ _ _ => .pure rfl) fun _ => .pure rfl

theorem Carries.closed {p p' : Parser Tree} (h : Carries f (Tree.mapLines f) p p') :
    Carries f (Tree.mapLines f)
      (do
        let tree ← p
        semicolon top
        return tree)
      (do
        let tree ← p'
        semicolon top
        return tree) :=
  h.bind fun _ => carries_semicolon.bind fun _ => .pure rfl

theorem carries_switchMode (line : Position) (mode : NumericMode) :
    Carries f (Tree.mapLines f) (switchMode line mode) (switchMode (f line) mode) := by
  intro s s' moves
  have answers : Answers f (Tree.mapLines f) (.ok (.setMode line mode) { s with mode := mode })
      (.ok (Tree.mapLines f (.setMode line mode)) { s' with mode := mode }) :=
    .ok ⟨rfl, moves.upcoming, moves.last⟩
  rwa [Tree.mapLines] at answers

theorem carries_display (le : n ≤ n') (line : Position) :
    Carries f (Tree.mapLines f) (display n line) (display n' (f line)) := by
  unfold display
  refine .take fun kind text line' => ?_
  cases kind with
  | semicolon | eof => exact .untake (.pure (by simp only [Tree.mapLines]))
  | colon =>
    refine .take fun kind text line' => .ite (fun _ => .unexpected) fun _ => ?_
    refine .ite (fun _ => .pure (by simp only [Tree.mapLines])) fun _ => ?_
    refine .ite (fun _ => carries_switchMode _ _) fun _ => ?_
    exact .ite (fun _ => carries_switchMode _ _) fun _ => .unexpected
  | _ =>
    exact .untake ((carries_expression le).bind fun t => .pure (by simp only [Tree.mapLines]))

theorem carries_exit (line : Position) :
    Carries f (Tree.mapLines f) (exit line) (exit (f line)) := by
  unfold exit
  refine .peek fun kind text line' => .ite (fun _ => .pure ?_) fun _ => .unexpected
  simp only [Tree.mapLines]

theorem carries_parameters (le : n ≤ n') (names : List String) :
    Carries f id (parameters n names) (parameters n' names) := by
  induction n generalizing n' names with
  | zero => exact .cut
  | succ n ih =>
    obtain ⟨n', rfl⟩ : ∃ k, n' = k + 1 := ⟨n' - 1, by omega⟩
    have goOn (t : Token) : Carries f id
        (if t.kind ≠ .symbol then unexpected t .parameterName else parameters n (t.text :: names))
        (if (t.mapLine f).kind ≠ .symbol then unexpected (t.mapLine f) .parameterName
          else parameters n' ((t.mapLine f).text :: names)) :=
      .ite (fun _ => .unexpected) fun _ => ih (Nat.le_of_succ_le_succ le) _
    unfold parameters
    refine .take fun kind text line => .ite (fun _ => .pure rfl) fun _ => ?_
    refine .ite (fun _ => ?_) fun _ => .ite (fun _ => ?_) fun _ => carries_take.bind goOn
    · exact goOn ⟨kind, text, line⟩
    · have refused : Carries f (Token.mapLine f)
          (unexpected (α := Token) ⟨kind, text, line⟩ .parameterSeparator)
          (unexpected ⟨kind, text, f line⟩ .parameterSeparator) := .unexpected
      exact refused.bind goOn

end

/-- With this bound, all functions that read statements are carried to other lines and to any
larger bound. -/
structure CarriesStatements (f : Position → Position) (n : Nat) : Prop where
  statements : ∀ n' ≥ n, ∀ top line read, Carries f (Tree.mapLines f) (statements n top line read)
    (statements n' top (f line) (read.map (Tree.mapLines f)))
  statement : ∀ n' ≥ n, ∀ top, Carries f (Tree.mapLines f) (statement n top) (statement n' top)
  block : ∀ n' ≥ n, ∀ context, Carries f (Tree.mapLines f) (block n context) (block n' context)
  functionDefinition : ∀ n' ≥ n, ∀ line, Carries f (Tree.mapLines f) (functionDefinition n line)
    (functionDefinition n' (f line))
  ifStatement : ∀ n' ≥ n, ∀ line, Carries f (Tree.mapLines f) (ifStatement n line)
    (ifStatement n' (f line))
  whileStatement : ∀ n' ≥ n, ∀ line, Carries f (Tree.mapLines f) (whileStatement n line)
    (whileStatement n' (f line))
  forStatement : ∀ n' ≥ n, ∀ line, Carries f (Tree.mapLines f) (forStatement n line)
    (forStatement n' (f line))

namespace CarriesStatements

variable {f : Position → Position} {n n' : Nat}

theorem statements_succ (h : CarriesStatements f n) (le : n ≤ n') (top : Bool) (line : Position)
    (read : List Tree) : Carries f (Tree.mapLines f) (Parser.statements (n + 1) top line read)
      (Parser.statements (n' + 1) top (f line) (read.map (Tree.mapLines f))) := by
  unfold Parser.statements
  refine .peek fun kind text _ => .ite (fun _ => .pure ?_) fun _ => ?_
  · simp only [Tree.mapLines, mapTreeLines_eq_map, List.map_reverse]
  · refine .ite (fun _ => .unexpected) fun _ => ?_
    exact (h.statement n' le top).bind fun t => h.statements n' le top line (t :: read)

theorem statement_succ (h : CarriesStatements f n) (le : n ≤ n') (top : Bool) :
    Carries f (Tree.mapLines f) (Parser.statement (n + 1) top) (Parser.statement (n' + 1) top) := by
  unfold Parser.statement
  refine .take fun kind text line => .ite (fun _ => (carries_display le line).closed) fun _ => ?_
  refine .ite (fun _ => .untake (carries_expression le).closed) fun _ => ?_
  refine .ite (fun _ => ?_) fun _ => ?_
  · cases top with
    | true => exact h.functionDefinition n' le line
    | false => exact .unexpected
  · refine .ite (fun _ => h.ifStatement n' le line) fun _ => ?_
    refine .ite (fun _ => h.whileStatement n' le line) fun _ => ?_
    refine .ite (fun _ => h.forStatement n' le line) fun _ => ?_
    exact .ite (fun _ => (carries_exit line).closed) fun _ => .unexpected

theorem block_succ (h : CarriesStatements f n) (le : n ≤ n') (context : Context) :
    Carries f (Tree.mapLines f) (Parser.block (n + 1) context) (Parser.block (n' + 1) context) := by
  unfold Parser.block
  refine .expect fun _ _ _ => .peek fun _ _ line => ?_
  exact (h.statements n' le false line []).bind fun _ => .expect fun _ _ _ => .pure rfl

theorem functionDefinition_succ (h : CarriesStatements f n) (le : n ≤ n') (line : Position) :
    Carries f (Tree.mapLines f) (Parser.functionDefinition (n + 1) line)
      (Parser.functionDefinition (n' + 1) (f line)) := by
  unfold Parser.functionDefinition
  refine .take fun kind name _ => .ite (fun _ => .unexpected) fun _ => .expect fun _ _ _ => ?_
  refine (carries_parameters le []).bind fun params => (h.block n' le _).bind fun body => .pure ?_
  simp only [Tree.mapLines, id]

theorem whileStatement_succ (h : CarriesStatements f n) (le : n ≤ n') (line : Position) :
    Carries f (Tree.mapLines f) (Parser.whileStatement (n + 1) line)
      (Parser.whileStatement (n' + 1) (f line)) := by
  unfold Parser.whileStatement
  refine .expect fun _ _ _ => (carries_expression le).bind fun guard => .expect fun _ _ _ => ?_
  exact (h.block n' le _).bind fun body => .pure (by simp only [Tree.mapLines])

theorem forStatement_succ (h : CarriesStatements f n) (le : n ≤ n') (line : Position) :
    Carries f (Tree.mapLines f) (Parser.forStatement (n + 1) line)
      (Parser.forStatement (n' + 1) (f line)) := by
  unfold Parser.forStatement
  refine .expect fun _ _ _ => (carries_expression le).bind fun init => .expect fun _ _ _ => ?_
  refine (carries_expression le).bind fun guard => .expect fun _ _ _ => ?_
  refine (carries_expression le).bind fun step => .expect fun _ _ _ => ?_
  exact (h.block n' le _).bind fun body => .pure (by simp only [Tree.mapLines])

theorem ifStatement_succ (h : CarriesStatements f n) (le : n ≤ n') (line : Position) :
    Carries f (Tree.mapLines f) (Parser.ifStatement (n + 1) line)
      (Parser.ifStatement (n' + 1) (f line)) := by
  have branch {p p' : Parser Tree} (g t : Tree) (h : Carries f (Tree.mapLines f) p p') :
      Carries f (Tree.mapLines f) (do return .conditional line g t (some (← p)))
        (do return .conditional (f line) (g.mapLines f) (t.mapLines f) (some (← p'))) :=
    h.bind fun o => .pure (by simp only [Tree.mapLines, mapOptionLines])
  unfold Parser.ifStatement
  refine .expect fun _ _ _ => (carries_expression le).bind fun guard => .expect fun _ _ _ => ?_
  refine (h.block n' le _).bind fun positive => .take fun kind text line' => .ite (fun _ => ?_) ?_
  · refine .take fun kind text line => .ite (fun _ => .untake (branch _ _ (h.block n' le _))) ?_
    exact fun _ => .ite (fun _ => branch _ _ (h.ifStatement n' le line)) fun _ => .unexpected
  · exact fun _ => .untake (.pure (by simp only [Tree.mapLines, mapOptionLines]))

end CarriesStatements

theorem carriesStatements (f : Position → Position) (n : Nat) : CarriesStatements f n := by
  induction n with
  | zero =>
    constructor <;> intros <;>
      simp only [statements, statement, block, functionDefinition, ifStatement, whileStatement,
        forStatement] <;> exact .cut
  | succ n ih =>
    constructor <;> intro n' le <;>
      obtain ⟨n', rfl⟩ : ∃ k, n' = k + 1 := ⟨n' - 1, by omega⟩ <;>
      have le := Nat.le_of_succ_le_succ le
    · exact ih.statements_succ le
    · exact ih.statement_succ le
    · exact ih.block_succ le
    · exact ih.functionDefinition_succ le
    · exact ih.ifStatement_succ le
    · exact ih.whileStatement_succ le
    · exact ih.forStatement_succ le

theorem carries_program (f : Position → Position) (n : Nat) :
    Carries f (Tree.mapLines f) (program n) (program n) :=
  .peek fun _ _ line => (carriesStatements f n).statements n (Nat.le_refl n) true line []

theorem fuelFor_ofTokens (ts : List Token) : fuelFor (.ofTokens ts) = 8 * (ts.length + 2) := by
  simp [fuelFor, TokenStream.ofTokens, TokenStream.size, Supply.size]

end Parser

namespace Tree

open Calculator.Parser

/-- The tokens of a program on other lines are this program on these lines, or have its error. -/
theorem ofTokens_mapLine (f : Position → Position) (mode : NumericMode) {ts : List Token}
    (nonempty : ts ≠ []) :
    ofTokens (ts.map (Token.mapLine f)) mode =
      match ofTokens ts mode with
      | .ok t => .ok (t.mapLines f)
      | .error e => .error ⟨f e.line, e.cause⟩ := by
  have moves : ParserState.Moves f ⟨.ofTokens ts, mode, 0⟩
      ⟨.ofTokens (ts.map (Token.mapLine f)), mode, 0⟩ :=
    ⟨rfl, rfl, fun none => absurd none nonempty⟩
  have answers := carries_program f (fuelFor (.ofTokens ts)) _ _ moves
  have finished := finished_ofTokens ts mode
  unfold ofTokens ofStream run at *
  rw [fuelFor_ofTokens] at *
  rw [fuelFor_ofTokens, List.length_map]
  generalize program _ ⟨.ofTokens ts, mode, 0⟩ = r at answers finished
  generalize program _ ⟨.ofTokens (ts.map (Token.mapLine f)), mode, 0⟩ = r' at answers
  cases answers with
  | ok => rfl
  | error => rfl
  | cut => exact absurd rfl finished.1

theorem lines_ofTokens (mode : NumericMode) {ts : List Token} (nonempty : ts ≠ []) :
    match ofTokens ts mode with
    | .ok t => ∀ s ∈ t.nodes, ∃ u ∈ ts, u.line = s.line
    | .error e => ∃ u ∈ ts, u.line = e.line := by
  -- Nothing changes if all other lines are moved to the line of the first token.
  let f (line : Position) : Position :=
    if ∃ u ∈ ts, u.line = line then line else (ts.head nonempty).line
  have moved (line : Position) : ∃ u ∈ ts, u.line = f line := by
    by_cases mem : ∃ u ∈ ts, u.line = line
    · rwa [show f line = line from if_pos mem]
    · exact ⟨_, List.head_mem nonempty, (if_neg mem).symm⟩
  have kept : ts.map (Token.mapLine f) = ts := by
    refine List.map_congr_left (g := id) (fun u mem => ?_) |>.trans (List.map_id ts)
    rw [Token.mapLine, show f u.line = u.line from if_pos ⟨u, mem, rfl⟩, id]
  have same := ofTokens_mapLine f mode nonempty
  rw [kept] at same
  cases parsed : ofTokens ts mode with
  | ok t =>
    rw [parsed] at same
    have same : t = t.mapLines f := Except.ok.inj same
    intro s mem
    rw [same, nodes_mapLines] at mem
    obtain ⟨s', -, rfl⟩ := List.mem_map.mp mem
    rw [line_mapLines]
    exact moved s'.line
  | error e =>
    rw [parsed] at same
    have same : e = ⟨f e.line, e.cause⟩ := Except.error.inj same
    dsimp only
    rw [same]
    exact moved e.line

end Tree

end Calculator
