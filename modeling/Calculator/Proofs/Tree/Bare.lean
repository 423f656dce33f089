import Calculator.Proofs.Tree.Reading
import Calculator.Proofs.Tree.Yield
import Calculator.Proofs.Value.Bare

set_option autoImplicit false

namespace Calculator

def Token.bare (t : Token) : Token :=
  { t with line := 0 }

/-- The parser is in the same mode and in front of the same tokens but for their lines. -/
structure ParserState.Matches (s s' : ParserState) : Prop where
  mode : s.mode = s'.mode
  upcoming : s.stream.upcoming.map Token.bare = s'.stream.upcoming.map Token.bare

namespace Parser

/-- Where the first parser succeeds from this mode on, the second one succeeds on the same tokens
but for their lines, with a related result. -/
def Agrees {α β : Type} (k : NumericMode) (Q : α → β → NumericMode → Prop) (p : Parser α)
    (p' : Parser β) : Prop :=
  ∀ s s' a t, s.mode = k → s.Matches s' → p s = .ok a t →
    ∃ b t', p' s' = .ok b t' ∧ t.Matches t' ∧ Q a b t.mode

section
variable {α β γ δ : Type} {k : NumericMode} {Q : α → β → NumericMode → Prop}
  {S : γ → δ → NumericMode → Prop} {p : Parser α} {p' : Parser β} {f : α → Parser γ}
  {f' : β → Parser δ}

theorem Agrees.bind (head : Agrees k Q p p')
    (tail : ∀ a b k', Q a b k' → Agrees k' S (f a) (f' b)) : Agrees k S (p >>= f) (p' >>= f') := by
  intro s s' c u mode alike run
  change EStateM.bind p f s = _ at run
  unfold EStateM.bind at run
  cases first : p s with
  | error e t =>
    rw [first] at run
    cases run
  | ok a t =>
    rw [first] at run
    obtain ⟨b, t', first', after, related⟩ := head s s' a t mode alike first
    obtain ⟨d, u', last', ended, result⟩ := tail a b t.mode related t t' c u rfl after run
    refine ⟨d, u', ?_, ended, result⟩
    change EStateM.bind p' f' s' = _
    unfold EStateM.bind
    rw [first']
    exact last'

theorem Agrees.bindSame {R : α → β → Prop} (head : Agrees k (fun a b k' => R a b ∧ k' = k) p p')
    (tail : ∀ a b, R a b → Agrees k S (f a) (f' b)) : Agrees k S (p >>= f) (p' >>= f') := by
  refine head.bind ?_
  rintro a b _ ⟨related, rfl⟩
  exact tail a b related

theorem Agrees.pure {a : α} {b : β} (h : Q a b k) : Agrees k Q (pure a) (pure b) := by
  intro s s' c t mode alike run
  cases run
  exact ⟨b, s', rfl, alike, mode ▸ h⟩

theorem Agrees.fail {line : Position} {cause : SyntaxCause} : Agrees k Q (fail line cause) p' :=
  fun _ _ _ _ _ _ run => nomatch run

theorem Agrees.unexpected {t : Token} {context : Context} : Agrees k Q (unexpected t context) p' :=
  .fail

theorem Agrees.ite {c : Prop} [Decidable c] {q : Parser α} {q' : Parser β}
    (yes : c → Agrees k Q p p') (no : ¬c → Agrees k Q q q') :
    Agrees k Q (if c then p else q) (if c then p' else q') := by
  by_cases h : c
  · rw [if_pos h, if_pos h]
    exact yes h
  · rw [if_neg h, if_neg h]
    exact no h

theorem Agrees.mono {R : α → β → NumericMode → Prop} (h : Agrees k Q p p')
    (implies : ∀ a b k', Q a b k' → R a b k') : Agrees k R p p' := by
  intro s s' a t mode alike run
  obtain ⟨b, t', run', after, related⟩ := h s s' a t mode alike run
  exact ⟨b, t', run', after, implies a b t.mode related⟩

theorem Agrees.yields {P : α → Prop} (h : Agrees k Q p p')
    (yields : Yields (fun _ => True) [] p P) :
    Agrees k (fun a b k' => Q a b k' ∧ P a) p p' := by
  intro s s' a t mode alike run
  obtain ⟨b, t', run', after, related⟩ := h s s' a t mode alike run
  exact ⟨b, t', run', after, related, yields.answer run⟩

theorem Agrees.get {f : ParserState → Parser γ} {f' : ParserState → Parser δ}
    (h : ∀ s s', s.mode = k → s'.mode = k → Agrees k S (f s) (f' s')) :
    Agrees k S (EStateM.get >>= f) (EStateM.get >>= f') :=
  fun s s' a t mode alike run => h s s' mode (alike.mode ▸ mode) s s' a t mode alike run

theorem agrees_take :
    Agrees k (fun t t' k' => t.bare = t'.bare ∧ t.kind ≠ .error ∧ k' = k) take take := by
  intro s s' t u mode alike run
  have next : s.stream.get.1.bare = s'.stream.get.1.bare ∧
      s.stream.get.2.upcoming.map Token.bare = s'.stream.get.2.upcoming.map Token.bare := by
    have same := alike.upcoming
    cases here : s.stream.upcoming with
    | nil =>
      -- Both streams are used up and give their ends, which differ in their lines only.
      rw [here] at same
      obtain ⟨eof, rest⟩ := TokenStream.get_of_nil here
      obtain ⟨eof', rest'⟩ := TokenStream.get_of_nil (List.map_eq_nil_iff.mp same.symm)
      rw [eof, eof', rest, rest']
      exact ⟨rfl, rfl⟩
    | cons t ts =>
      rw [here] at same
      obtain ⟨t', ts', here', first, rest⟩ := List.map_eq_cons_iff.mp same.symm
      obtain ⟨token, tokens⟩ := s.stream.get_eq here
      obtain ⟨token', tokens'⟩ := s'.stream.get_eq here'
      rw [token, tokens, token', tokens']
      exact ⟨first.symm, rest.symm⟩
  have kind : s.stream.get.1.bare.kind = s'.stream.get.1.bare.kind := congrArg Token.kind next.1
  change s.stream.get.1.kind = s'.stream.get.1.kind at kind
  rw [take_eq] at run
  split at run
  · cases run
  · rename_i notError
    cases run
    refine ⟨_, { s' with stream := s'.stream.get.2 }, ?_, ⟨alike.mode, next.2⟩, next.1, notError,
      mode⟩
    rw [take_eq, if_neg (kind ▸ notError)]

theorem agrees_untake {t t' : Token} (same : t.bare = t'.bare) :
    Agrees k (fun _ _ k' => k' = k) (untake t) (untake t') := by
  intro s s' u v mode alike run
  cases run
  refine ⟨(), _, rfl, ⟨alike.mode, ?_⟩, mode⟩
  exact congrArg₂ List.cons same alike.upcoming

theorem Agrees.take {f : Token → Parser γ} {f' : Token → Parser δ}
    (tail : ∀ kind text line line', kind ≠ .error →
      Agrees k S (f ⟨kind, text, line⟩) (f' ⟨kind, text, line'⟩)) :
    Agrees k S (Parser.take >>= f) (Parser.take >>= f') := by
  refine agrees_take.bind ?_
  rintro ⟨kind, text, line⟩ ⟨_, _, line'⟩ _ ⟨⟨⟩, notError, rfl⟩
  exact tail kind text line line' notError

theorem Agrees.untake {kind : Kind} {text : String} {line line' : Position} {f : Unit → Parser γ}
    {f' : Unit → Parser δ} (tail : Agrees k S (f ()) (f' ())) :
    Agrees k S (Parser.untake ⟨kind, text, line⟩ >>= f)
      (Parser.untake ⟨kind, text, line'⟩ >>= f') := by
  have same : Token.bare ⟨kind, text, line⟩ = Token.bare ⟨kind, text, line'⟩ := rfl
  refine (agrees_untake same).bind ?_
  rintro _ _ _ rfl
  exact tail

theorem Agrees.peek {f : Token → Parser γ} {f' : Token → Parser δ}
    (tail : ∀ kind text line line', kind ≠ .error →
      Agrees k S (f ⟨kind, text, line⟩) (f' ⟨kind, text, line'⟩)) :
    Agrees k S (Parser.peek >>= f) (Parser.peek >>= f') := by
  refine Agrees.bind
    (Q := fun t t' k' => t.bare = t'.bare ∧ t.kind ≠ .error ∧ k' = k) ?_ ?_
  · exact .take fun _ _ _ _ notError => .untake (.pure ⟨rfl, notError, rfl⟩)
  · rintro ⟨kind, text, line⟩ ⟨_, _, line'⟩ _ ⟨⟨⟩, notError, rfl⟩
    exact tail kind text line line' notError

theorem Agrees.expect {kind : Kind} {context : Context} {f : Token → Parser γ}
    {f' : Token → Parser δ}
    (tail : ∀ text line line', Agrees k S (f ⟨kind, text, line⟩) (f' ⟨kind, text, line'⟩)) :
    Agrees k S (Parser.expect kind context >>= f) (Parser.expect kind context >>= f') := by
  refine Agrees.bind (Q := fun t t' k' => t.bare = t'.bare ∧ t.kind = kind ∧ k' = k) ?_ ?_
  · refine .take fun kind' text line line' _ => .ite (fun same => ?_) fun _ => ?_
    · exact .pure ⟨rfl, same, rfl⟩
    · exact .ite (fun _ => .fail) fun _ => .fail
  · rintro ⟨_, text, line⟩ ⟨_, _, line'⟩ _ ⟨⟨⟩, rfl, rfl⟩
    exact tail text line line'

end

/-- The same trees but for their lines, read without a change of the mode. -/
def Same (k : NumericMode) (t t' : Tree) (k' : NumericMode) : Prop :=
  t.bare = t'.bare ∧ k' = k

theorem agrees_literal {k : NumericMode} {kind : Kind} {text : String} {line line' : Position} :
    Agrees k (Same k) (literal ⟨kind, text, line⟩) (literal ⟨kind, text, line'⟩) := by
  unfold literal
  refine .get fun s s' mode mode' => ?_
  have same : Literal.value s'.mode ⟨kind, text, line'⟩ =
      Literal.value s.mode ⟨kind, text, line⟩ := by
    rw [mode, mode']
    rfl
  rw [same]
  cases Literal.value s.mode ⟨kind, text, line⟩ with
  | error cause => exact .fail
  | ok v => exact .pure ⟨rfl, rfl⟩

def bareStacks (both : List Tree × List Token) : List Tree × List Token :=
  (both.1.map Tree.bare, both.2.map Token.bare)

theorem reduceBefore_bare (p : Nat) (ts : List Tree) (os : List Token) :
    reduceBefore p (ts.map Tree.bare) (os.map Token.bare) =
      (reduceBefore p ts os).map bareStacks := by
  induction os generalizing ts with
  | nil => rfl
  | cons op os ih =>
    have kind : op.bare.kind = op.kind := rfl
    by_cases before : op.kind.priority.getD 0 < p
    · simp [reduceBefore, kind, before, bareStacks]
    · rcases ts with _ | ⟨r, _ | ⟨l, ts⟩⟩
      · simp [reduceBefore, kind, before]
      · simp [reduceBefore, kind, before]
      · simp only [List.map_cons, reduceBefore, kind, if_neg before]
        exact ih (.binary op.line op.kind l r :: ts)

theorem reduceAll_bare (ts : List Tree) (os : List Token) :
    reduceAll (ts.map Tree.bare) (os.map Token.bare) = (reduceAll ts os).map Tree.bare := by
  unfold reduceAll
  rw [reduceBefore_bare]
  rcases reduceBefore 0 ts os with _ | ⟨_ | ⟨t, _ | ⟨u, ts⟩⟩, _ | ⟨op, os⟩⟩ <;> rfl

structure AgreesExpressions (n : Nat) : Prop where
  expression : ∀ k, Agrees k (Same k) (expression n) (expression n)
  chain : ∀ k ts ts' os os', ts.map Tree.bare = ts'.map Tree.bare →
    os.map Token.bare = os'.map Token.bare → Agrees k (Same k) (chain n ts os) (chain n ts' os')
  operand : ∀ k, Agrees k (Same k) (operand n) (operand n)
  arguments : ∀ k ts ts', ts.map Tree.bare = ts'.map Tree.bare →
    Agrees k (fun us us' k' => us.map Tree.bare = us'.map Tree.bare ∧ k' = k) (arguments n ts)
      (arguments n ts')

namespace AgreesExpressions

variable {n : Nat} {k : NumericMode}

theorem expression_succ (h : AgreesExpressions n) :
    Agrees k (Same k) (Parser.expression (n + 1)) (Parser.expression (n + 1)) := by
  unfold Parser.expression
  refine .take fun kind text line line' _ => .ite (fun _ => ?_) fun _ => ?_
  · exact .untake (h.chain k [] [] [] [] rfl rfl)
  · refine .take fun kind' text' _ _ _ => .ite (fun _ => ?_) fun _ => ?_
    · refine (h.chain k [] [] [] [] rfl rfl).bindSame fun t t' same => .pure ⟨?_, rfl⟩
      simp only [Tree.bare, same]
    · exact .untake (.untake (h.chain k [] [] [] [] rfl rfl))

theorem chain_succ (h : AgreesExpressions n) {ts ts' : List Tree} {os os' : List Token}
    (trees : ts.map Tree.bare = ts'.map Tree.bare)
    (operators : os.map Token.bare = os'.map Token.bare) :
    Agrees k (Same k) (Parser.chain (n + 1) ts os) (Parser.chain (n + 1) ts' os') := by
  unfold Parser.chain
  refine (h.operand k).bindSame fun t t' first => ?_
  have all : (t :: ts).map Tree.bare = (t' :: ts').map Tree.bare := by
    rw [List.map_cons, List.map_cons, first, trees]
  refine .take fun kind text line line' _ => .ite (fun _ => .untake ?_) fun _ => ?_
  · have same := congrArg₂ reduceAll all operators
    rw [reduceAll_bare, reduceAll_bare] at same
    cases whole : reduceAll (t :: ts) os with
    | none => exact .fail
    | some u =>
      rw [whole] at same
      obtain ⟨u', whole', bare⟩ := Option.map_eq_some_iff.mp same.symm
      rw [whole']
      exact .pure ⟨bare.symm, rfl⟩
  · dsimp only
    cases kind.priority with
    | none => exact .unexpected
    | some p =>
      have same := congrArg₂ (reduceBefore p) all operators
      rw [reduceBefore_bare, reduceBefore_bare] at same
      dsimp only
      cases reduced : reduceBefore p (t :: ts) os with
      | none => exact .fail
      | some both =>
        rw [reduced] at same
        obtain ⟨both', reduced', bare⟩ := Option.map_eq_some_iff.mp same.symm
        obtain ⟨left, right⟩ := Prod.mk.inj bare
        rw [reduced']
        refine h.chain k _ _ _ _ left.symm ?_
        rw [List.map_cons, List.map_cons, right]
        rfl

theorem operand_succ (h : AgreesExpressions n) :
    Agrees k (Same k) (Parser.operand (n + 1)) (Parser.operand (n + 1)) := by
  have prefixed (kind : Kind) (line line' : Position) : Agrees k (Same k)
      (do return .unary line kind (← Parser.operand n))
      (do return .unary line' kind (← Parser.operand n)) := by
    refine (h.operand k).bindSame fun t t' same => .pure ⟨?_, rfl⟩
    simp only [Tree.bare, same]
  unfold Parser.operand
  refine .take fun kind text line line' _ => ?_
  cases kind with
  | real | int | hex | oct | date | time => exact agrees_literal
  | symbol =>
    refine .take fun next text' at_ at' _ => ?_
    cases next with
    | plusPlus | minusMinus => exact .pure ⟨rfl, rfl⟩
    | leftParen =>
      refine (h.arguments k [] [] rfl).bindSame fun us us' same => .pure ⟨?_, rfl⟩
      simp only [Tree.bare, bareTrees_eq_map, same]
    | _ => exact .untake (.pure ⟨rfl, rfl⟩)
  | plus => exact h.operand k
  | minus | bang => exact prefixed _ line line'
  | leftParen =>
    exact (h.expression k).bindSame fun t t' same => .expect fun _ _ _ => .pure ⟨same, rfl⟩
  | _ => exact .unexpected

theorem arguments_succ (h : AgreesExpressions n) {ts ts' : List Tree}
    (trees : ts.map Tree.bare = ts'.map Tree.bare) :
    Agrees k (fun us us' k' => us.map Tree.bare = us'.map Tree.bare ∧ k' = k)
      (Parser.arguments (n + 1) ts) (Parser.arguments (n + 1) ts') := by
  have next : Agrees k (fun us us' k' => us.map Tree.bare = us'.map Tree.bare ∧ k' = k)
      (do
        let tree ← Parser.expression n
        Parser.arguments n (tree :: ts))
      (do
        let tree ← Parser.expression n
        Parser.arguments n (tree :: ts')) := by
    refine (h.expression k).bindSame fun t t' same => h.arguments k _ _ ?_
    rw [List.map_cons, List.map_cons, same, trees]
  have empty : ts'.isEmpty = ts.isEmpty := by
    rw [← List.isEmpty_map (f := Tree.bare), ← trees, List.isEmpty_map]
  unfold Parser.arguments
  refine .take fun kind text line line' _ => .ite (fun _ => ?_) fun _ => ?_
  · exact .pure ⟨by rw [List.map_reverse, List.map_reverse, trees], rfl⟩
  · rw [empty]
    refine .ite (fun _ => .untake next) fun _ => .ite (fun _ => ?_) fun _ => next
    exact Agrees.unexpected.bind (Q := fun _ _ k' => k' = k) fun _ _ _ same => same ▸ next

end AgreesExpressions

theorem agreesExpressions (n : Nat) : AgreesExpressions n := by
  induction n with
  | zero => exact ⟨fun _ => .fail, fun _ _ _ _ _ _ _ => .fail, fun _ => .fail, fun _ _ _ _ => .fail⟩
  | succ n ih =>
    exact ⟨fun _ => ih.expression_succ, fun _ _ _ _ _ => ih.chain_succ, fun _ => ih.operand_succ,
      fun _ _ _ => ih.arguments_succ⟩

def Settled (t : Tree) : Prop :=
  t.All fun s => s.isSetting = false

/-- A setting leads to its own mode, and what has no setting in it keeps the mode. -/
structure Leaves (k : NumericMode) (t : Tree) (k' : NumericMode) : Prop where
  settled : Settled t → k' = k
  setting : ∀ line mode, t = .setMode line mode → k' = mode

theorem Leaves.of_not_isSetting {k k' : NumericMode} {t : Tree} (other : t.isSetting = false)
    (settled : Settled t → k' = k) : Leaves k t k' := by
  refine ⟨settled, ?_⟩
  rintro _ _ rfl
  cases other

def SameStatement (k : NumericMode) (t t' : Tree) (k' : NumericMode) : Prop :=
  t.bare = t'.bare ∧ Leaves k t k'

section
variable {k : NumericMode} {n : Nat} {line line' : Position} {top : Bool}

theorem agrees_semicolon :
    Agrees k (fun _ _ k' => k' = k) (semicolon top) (semicolon top) := by
  unfold semicolon
  refine .take fun kind text line line' _ => .ite (fun _ => .untake ?_) fun _ => .pure rfl
  refine .ite (fun _ => ?_) fun _ => ?_
  · exact .expect fun _ _ _ => .pure rfl
  · exact .pure rfl

theorem Agrees.closed {p p' : Parser Tree} (h : Agrees k (SameStatement k) p p') :
    Agrees k (SameStatement k)
      (do
        let tree ← p
        semicolon top
        return tree)
      (do
        let tree ← p'
        semicolon top
        return tree) :=
  h.bind fun _ _ _ same => agrees_semicolon.bind fun _ _ _ mode => .pure (mode ▸ same)

theorem agrees_switchMode (mode : NumericMode) :
    Agrees k (SameStatement k) (switchMode line mode) (switchMode line' mode) := by
  intro s s' t u before alike run
  cases run
  refine ⟨_, { s' with mode := mode }, rfl, ⟨rfl, alike.upcoming⟩, rfl, ?_, ?_⟩
  · intro settled
    cases settled.root
  · rintro _ _ ⟨⟩
    rfl

theorem agrees_display :
    Agrees k (SameStatement k) (display n line) (display n line') := by
  have last : SameStatement k (.display line (.reference line "_"))
      (.display line' (.reference line' "_")) k :=
    ⟨rfl, .of_not_isSetting rfl fun _ => rfl⟩
  unfold display
  refine .take fun kind text at_ at' _ => ?_
  cases kind with
  | semicolon | eof => exact .untake (.pure last)
  | colon =>
    refine .take fun kind text _ _ _ => .ite (fun _ => .unexpected) fun _ => ?_
    refine .ite (fun _ => .pure ⟨rfl, .of_not_isSetting rfl fun _ => rfl⟩) fun _ => ?_
    refine .ite (fun _ => agrees_switchMode _) fun _ => ?_
    exact .ite (fun _ => agrees_switchMode _) fun _ => .unexpected
  | _ =>
    refine .untake (((agreesExpressions n).expression k).bindSame fun t t' same => .pure ?_)
    refine ⟨?_, .of_not_isSetting rfl fun _ => rfl⟩
    simp only [Tree.bare, same]

theorem agrees_exit : Agrees k (SameStatement k) (exit line) (exit line') := by
  unfold exit
  refine .peek fun kind text _ _ _ => .ite (fun _ => .pure ?_) fun _ => .unexpected
  exact ⟨rfl, .of_not_isSetting rfl fun _ => rfl⟩

theorem agrees_parameters (names : List String) :
    Agrees k (fun xs xs' k' => xs = xs' ∧ k' = k) (parameters n names) (parameters n names) := by
  induction n generalizing names with
  | zero => exact .fail
  | succ n ih =>
    have name : Agrees k (fun t t' k' => t.bare = t'.bare ∧ k' = k) take take :=
      agrees_take.mono fun _ _ _ same => ⟨same.1, same.2.2⟩
    have goOn (t t' : Token) (k' : NumericMode) (same : t.bare = t'.bare ∧ k' = k) :
        Agrees k' (fun xs xs' k' => xs = xs' ∧ k' = k)
          (if t.kind ≠ .symbol then unexpected t .parameterName
            else parameters n (t.text :: names))
          (if t'.kind ≠ .symbol then unexpected t' .parameterName
            else parameters n (t'.text :: names)) := by
      obtain ⟨kind, text, line⟩ := t
      obtain ⟨_, _, line'⟩ := t'
      obtain ⟨⟨⟩, rfl⟩ := same
      exact .ite (fun _ => .unexpected) fun _ => ih _
    unfold parameters
    refine .take fun kind text line line' _ => .ite (fun _ => .pure ⟨rfl, rfl⟩) fun _ => ?_
    refine .ite (fun _ => ?_) fun _ => .ite (fun _ => ?_) fun _ => name.bind goOn
    · exact Agrees.bind (Q := fun t t' k' => t.bare = t'.bare ∧ k' = k) (.pure ⟨rfl, rfl⟩) goOn
    · exact Agrees.unexpected.bind goOn

end

/-- With this fuel all functions that read statements agree. The statements of a row stay among
those read. -/
structure AgreesStatements (n : Nat) : Prop where
  statements : ∀ k top line line' ts ts', ts.map Tree.bare = ts'.map Tree.bare →
    Agrees k
      (fun t t' k' => SameStatement k t t' k' ∧ ∃ us, t = .body line us ∧ ∀ s ∈ ts, s ∈ us)
      (statements n top line ts) (statements n top line' ts')
  statement : ∀ k top, Agrees k (SameStatement k) (statement n top) (statement n top)
  block : ∀ k context, Agrees k (SameStatement k) (block n context) (block n context)
  functionDefinition : ∀ k line line',
    Agrees k (SameStatement k) (functionDefinition n line) (functionDefinition n line')
  ifStatement : ∀ k line line',
    Agrees k (SameStatement k) (ifStatement n line) (ifStatement n line')
  whileStatement : ∀ k line line',
    Agrees k (SameStatement k) (whileStatement n line) (whileStatement n line')
  forStatement : ∀ k line line',
    Agrees k (SameStatement k) (forStatement n line) (forStatement n line')

namespace AgreesStatements

variable {n : Nat} {k : NumericMode}

theorem statements_succ (h : AgreesStatements n) (top : Bool) (line line' : Position)
    {ts ts' : List Tree} (trees : ts.map Tree.bare = ts'.map Tree.bare) :
    Agrees k
      (fun t t' k' => SameStatement k t t' k' ∧ ∃ us, t = .body line us ∧ ∀ s ∈ ts, s ∈ us)
      (Parser.statements (n + 1) top line ts) (Parser.statements (n + 1) top line' ts') := by
  unfold Parser.statements
  refine .peek fun kind text _ _ _ => .ite (fun _ => .pure ?_) fun _ => ?_
  · refine ⟨⟨?_, .of_not_isSetting rfl fun _ => rfl⟩, ts.reverse, rfl,
      fun s mem => List.mem_reverse.mpr mem⟩
    simp only [Tree.bare, bareTrees_eq_map, List.map_reverse, trees]
  · refine .ite (fun _ => .unexpected) fun _ => ?_
    refine (h.statement k top).bind ?_
    rintro t t' k₁ ⟨first, leaves⟩
    have read : (t :: ts).map Tree.bare = (t' :: ts').map Tree.bare := by
      rw [List.map_cons, List.map_cons, first, trees]
    refine (h.statements k₁ top line line' _ _ read).mono ?_
    rintro u u' k₂ ⟨⟨same, rest⟩, us, rfl, all⟩
    obtain ⟨mem, others⟩ := List.forall_mem_cons.mp all
    refine ⟨⟨same, .of_not_isSetting rfl fun settled => ?_⟩, us, rfl, others⟩
    exact (rest.settled settled).trans (leaves.settled ((Tree.all_body.mp settled).2 t mem))

theorem block_succ (h : AgreesStatements n) (context : Context) :
    Agrees k (SameStatement k) (Parser.block (n + 1) context) (Parser.block (n + 1) context) := by
  unfold Parser.block
  refine .expect fun _ _ _ => .peek fun _ _ line line' _ => ?_
  exact (h.statements k false line line' [] [] rfl).bind fun _ _ _ same =>
    .expect fun _ _ _ => .pure same.1

theorem statement_succ (h : AgreesStatements n) (top : Bool) :
    Agrees k (SameStatement k) (Parser.statement (n + 1) top) (Parser.statement (n + 1) top) := by
  have formula : Agrees k (SameStatement k) (expression n) (expression n) := by
    refine (((agreesExpressions n).expression k).yields (yields_expression n)).mono ?_
    rintro t t' k' ⟨⟨same, mode⟩, formula⟩
    refine ⟨same, fun _ => mode, ?_⟩
    rintro _ _ rfl
    cases formula.formula
  unfold Parser.statement
  refine .take fun kind text line line' _ => .ite (fun _ => agrees_display.closed) fun _ => ?_
  refine .ite (fun _ => .untake formula.closed) fun _ => ?_
  refine .ite (fun _ => ?_) fun _ => ?_
  · cases top with
    | true => exact h.functionDefinition k line line'
    | false => exact .unexpected
  · refine .ite (fun _ => h.ifStatement k line line') fun _ => ?_
    refine .ite (fun _ => h.whileStatement k line line') fun _ => ?_
    refine .ite (fun _ => h.forStatement k line line') fun _ => ?_
    exact .ite (fun _ => agrees_exit.closed) fun _ => .unexpected

theorem functionDefinition_succ (h : AgreesStatements n) (line line' : Position) :
    Agrees k (SameStatement k) (Parser.functionDefinition (n + 1) line)
      (Parser.functionDefinition (n + 1) line') := by
  unfold Parser.functionDefinition
  refine .take fun kind name _ _ _ => .ite (fun _ => .unexpected) fun _ => .expect fun _ _ _ => ?_
  refine (agrees_parameters []).bindSame ?_
  rintro params _ rfl
  refine (h.block k _).bind ?_
  rintro b b' _ ⟨same, leaves⟩
  refine .pure ⟨?_, .of_not_isSetting rfl fun settled => ?_⟩
  · simp only [Tree.bare, same]
  · exact leaves.settled (Tree.all_define.mp settled).2

theorem whileStatement_succ (h : AgreesStatements n) (line line' : Position) :
    Agrees k (SameStatement k) (Parser.whileStatement (n + 1) line)
      (Parser.whileStatement (n + 1) line') := by
  unfold Parser.whileStatement
  refine .expect fun _ _ _ => ((agreesExpressions n).expression k).bindSame fun g g' test => ?_
  refine .expect fun _ _ _ => (h.block k _).bind ?_
  rintro b b' _ ⟨same, leaves⟩
  refine .pure ⟨?_, .of_not_isSetting rfl fun settled => ?_⟩
  · simp only [Tree.bare, test, same]
  · exact leaves.settled (Tree.all_whileLoop.mp settled).2.2

theorem forStatement_succ (h : AgreesStatements n) (line line' : Position) :
    Agrees k (SameStatement k) (Parser.forStatement (n + 1) line)
      (Parser.forStatement (n + 1) line') := by
  have expression := (agreesExpressions n).expression k
  unfold Parser.forStatement
  refine .expect fun _ _ _ => expression.bindSame fun i i' first => ?_
  refine .expect fun _ _ _ => expression.bindSame fun g g' test => ?_
  refine .expect fun _ _ _ => expression.bindSame fun s s' step => ?_
  refine .expect fun _ _ _ => (h.block k _).bind ?_
  rintro b b' _ ⟨same, leaves⟩
  refine .pure ⟨?_, .of_not_isSetting rfl fun settled => ?_⟩
  · simp only [Tree.bare, first, test, step, same]
  · exact leaves.settled (Tree.all_forLoop.mp settled).2.2.2.2

theorem ifStatement_succ (h : AgreesStatements n) (line line' : Position) :
    Agrees k (SameStatement k) (Parser.ifStatement (n + 1) line)
      (Parser.ifStatement (n + 1) line') := by
  unfold Parser.ifStatement
  refine .expect fun _ _ _ => ((agreesExpressions n).expression k).bindSame fun g g' test => ?_
  refine .expect fun _ _ _ => (h.block k _).bind ?_
  rintro b b' k₁ ⟨same, leaves⟩
  have conditional {o o' : Option Tree} {k₂ : NumericMode}
      (alternatives : o.map Tree.bare = o'.map Tree.bare)
      (mode : (∀ s ∈ o, Settled s) → k₂ = k₁) :
      SameStatement k (.conditional line g b o) (.conditional line' g' b' o') k₂ := by
    refine ⟨?_, .of_not_isSetting rfl fun settled => ?_⟩
    · simp only [Tree.bare, bareOption_eq_map, test, same, alternatives]
    · obtain ⟨-, -, positive, otherwise⟩ := Tree.all_conditional.mp settled
      exact (mode otherwise).trans (leaves.settled positive)
  have branch {p p' : Parser Tree} (h : Agrees k₁ (SameStatement k₁) p p') :
      Agrees k₁ (SameStatement k) (do return .conditional line g b (some (← p)))
        (do return .conditional line' g' b' (some (← p'))) :=
    h.bind fun t _ _ same =>
      .pure (conditional (congrArg some same.1) fun all => same.2.settled (all t rfl))
  refine .take fun kind text _ _ _ => .ite (fun _ => ?_) fun _ => ?_
  · refine .take fun kind text line line' _ => .ite (fun _ => .untake (branch (h.block k₁ _))) ?_
    exact fun _ => .ite (fun _ => branch (h.ifStatement k₁ line line')) fun _ => .unexpected
  · exact .untake (.pure (conditional rfl fun _ => rfl))

end AgreesStatements

theorem agreesStatements (n : Nat) : AgreesStatements n := by
  induction n with
  | zero =>
    -- Without fuel all of them fail.
    constructor <;> intros <;>
      simp only [statements, statement, block, functionDefinition, ifStatement, whileStatement,
        forStatement] <;> exact .fail
  | succ n ih =>
    exact ⟨fun _ top line line' _ _ => ih.statements_succ top line line',
      fun _ => ih.statement_succ, fun _ => ih.block_succ, fun _ => ih.functionDefinition_succ,
      fun _ => ih.ifStatement_succ, fun _ => ih.whileStatement_succ, fun _ => ih.forStatement_succ⟩

theorem agrees_program (k : NumericMode) (n : Nat) :
    Agrees k (fun t t' _ => t.bare = t'.bare) (program n) (program n) :=
  .peek fun _ _ line line' _ =>
    ((agreesStatements n).statements k true line line' [] [] rfl).mono fun _ _ _ same => same.1.1

end Parser

namespace Tree

theorem ofTokens_bare {ts ts' : List Token} {mode : NumericMode} {t : Tree}
    (same : ts.map Token.bare = ts'.map Token.bare) (h : ofTokens ts mode = .ok t) :
    ∃ t', ofTokens ts' mode = .ok t' ∧ t.bare = t'.bare := by
  have size : Parser.fuelFor (.ofTokens ts') = Parser.fuelFor (.ofTokens ts) := by
    have lengths := congrArg List.length same
    rw [List.length_map, List.length_map] at lengths
    change 8 * (0 + ts'.length + 2) = 8 * (0 + ts.length + 2)
    rw [lengths]
  unfold ofTokens ofStream Parser.run at h ⊢
  rw [size]
  cases run : Parser.program (Parser.fuelFor (.ofTokens ts)) ⟨.ofTokens ts, mode, 0⟩ with
  | error e s =>
    rw [run] at h
    cases h
  | ok u s =>
    rw [run] at h
    cases h
    obtain ⟨t', s', run', -, bare⟩ := Parser.agrees_program mode _ ⟨.ofTokens ts, mode, 0⟩
      ⟨.ofTokens ts', mode, 0⟩ t s rfl ⟨rfl, same⟩ run
    rw [run']
    exact ⟨t', rfl, bare⟩

end Tree

end Calculator
