import Calculator.Proofs.Token.Stream
import Calculator.Tree.Parser

set_option autoImplicit false

namespace Calculator

structure ParserState.At (s : ParserState) (m : NumericMode) (ts : List Token) : Prop where
  mode : s.mode = m
  upcoming : s.stream.upcoming = ts

namespace Parser

/-- On these tokens the parser succeeds, and comes to stand in front of the rest. -/
def Reads {α : Type} (p : Parser α) (m : NumericMode) (ts : List Token) (a : α)
    (m' : NumericMode) (rest : List Token) : Prop :=
  ∀ s : ParserState, s.At m ts → ∃ s', p s = .ok a s' ∧ s'.At m' rest

/-- On these tokens the first parser comes to stand in front of `next` and goes on as the second
one. If `next` is an error, it may look at it and fail. -/
def Meets {α : Type} (p : Parser α) (m : NumericMode) (ts : List Token) (q : Parser α)
    (m' : NumericMode) (next : Token) (rest : List Token) : Prop :=
  ∀ s : ParserState, s.At m ts → (∃ s', p s = q s' ∧ s'.At m' (next :: rest)) ∨
    next.kind = .error ∧ ∃ s', p s = .error ⟨next.line, .lexical next.text⟩ s'

/-- If the parser succeeds on these tokens, then with what the predicate allows. -/
def Ensures {α : Type} (p : Parser α) (m : NumericMode) (ts : List Token)
    (Q : α → NumericMode → List Token → Prop) : Prop :=
  ∀ (s s' : ParserState) (a : α), s.At m ts → p s = .ok a s' →
    ∃ m' rest, s'.At m' rest ∧ Q a m' rest

section
variable {α β : Type} {p : Parser α} {f : α → Parser β} {a : α} {b : β} {m m' m'' : NumericMode}
  {t : Token} {ts us rest : List Token}

theorem take_eq (s : ParserState) : take s =
    if s.stream.get.1.kind = .error then
      .error ⟨s.stream.get.1.line, .lexical s.stream.get.1.text⟩ { s with stream := s.stream.get.2 }
    else .ok s.stream.get.1 { s with stream := s.stream.get.2 } := by
  change (if s.stream.get.1.kind = .error then _ else _ : Parser Token)
    { s with stream := s.stream.get.2 } = _
  by_cases error : s.stream.get.1.kind = .error
  · rw [if_pos error, if_pos error]
    rfl
  · rw [if_neg error, if_neg error]
    rfl

theorem literal_eq (token : Token) (s : ParserState) : literal token s =
    match Literal.value s.mode token with
    | .ok v => .ok (.constant token.line v) s
    | .error cause => .error ⟨token.line, cause⟩ s := by
  change (match Literal.value s.mode token with
    | .ok v => _
    | .error cause => _ : Parser Tree) s = _
  cases Literal.value s.mode token <;> rfl

theorem at_take {s : ParserState} (h : s.At m (t :: ts)) :
    s.stream.get.1 = t ∧ ParserState.At { s with stream := s.stream.get.2 } m ts :=
  ⟨(s.stream.get_eq h.upcoming).1, h.mode, (s.stream.get_eq h.upcoming).2⟩

theorem bind_ok {s s' : ParserState} (h : p s = .ok a s') : (p >>= f) s = f a s' := by
  change EStateM.bind p f s = _
  unfold EStateM.bind
  rw [h]

theorem bind_error {s s' : ParserState} {e : SyntaxError} (h : p s = .error e s') :
    (p >>= f) s = .error e s' := by
  change EStateM.bind p f s = _
  unfold EStateM.bind
  rw [h]

theorem Reads.pure : Reads (pure a) m ts a m ts :=
  fun s at_ => ⟨s, rfl, at_⟩

theorem Reads.bind (head : Reads p m ts a m' us) (tail : Reads (f a) m' us b m'' rest) :
    Reads (p >>= f) m ts b m'' rest := by
  intro s here
  obtain ⟨s', first, there⟩ := head s here
  obtain ⟨s'', last, after⟩ := tail s' there
  exact ⟨s'', (bind_ok first).trans last, after⟩

theorem reads_take (h : t.kind ≠ .error) : Reads take m (t :: ts) t m ts := by
  intro s here
  obtain ⟨same, after⟩ := at_take here
  refine ⟨_, ?_, after⟩
  rw [take_eq, same, if_neg h]

theorem reads_untake : Reads (untake t) m ts () m (t :: ts) :=
  fun _ here => ⟨_, rfl, here.mode, congrArg (List.cons t) here.upcoming⟩

theorem Reads.take (h : t.kind ≠ .error) {f : Token → Parser β}
    (tail : Reads (f t) m ts b m' rest) : Reads (Parser.take >>= f) m (t :: ts) b m' rest :=
  (reads_take h).bind tail

theorem Reads.untake {f : Unit → Parser β} (tail : Reads (f ()) m (t :: ts) b m' rest) :
    Reads (Parser.untake t >>= f) m ts b m' rest :=
  reads_untake.bind tail

theorem reads_peek (h : t.kind ≠ .error) : Reads peek m (t :: ts) t m (t :: ts) :=
  .take h (.untake .pure)

theorem reads_expect {kind : Kind} {context : Context} (h : t.kind = kind) (hk : kind ≠ .error) :
    Reads (expect kind context) m (t :: ts) t m ts := by
  subst h
  refine .take hk ?_
  rw [if_pos rfl]
  exact .pure

theorem Reads.get {f : ParserState → Parser β}
    (tail : ∀ s, s.mode = m → Reads (f s) m ts b m' rest) :
    Reads (EStateM.get >>= f) m ts b m' rest :=
  fun s here => tail s here.mode s here

theorem reads_literal {v : Value} (h : Literal.value m t = .ok v) :
    Reads (literal t) m ts (.constant t.line v) m ts := by
  refine .get fun s mode => ?_
  rw [mode, h]
  exact .pure

section
variable {next : Token} {q : Parser α}

theorem Reads.meets (h : Reads p m ts a m' (next :: rest)) :
    Meets p m ts (Pure.pure a) m' next rest :=
  fun s here => .inl (h s here)

theorem Meets.reads (h : Meets p m ts (pure a) m' next rest) (notError : next.kind ≠ .error) :
    Reads p m ts a m' (next :: rest) :=
  fun s here => (h s here).resolve_right fun refused => notError refused.1

theorem Reads.meets_bind {q : Parser β} (head : Reads p m ts a m' us)
    (tail : Meets (f a) m' us q m'' next rest) : Meets (p >>= f) m ts q m'' next rest := by
  intro s here
  obtain ⟨s', first, there⟩ := head s here
  rw [bind_ok first]
  exact tail s' there

theorem Meets.bind (h : Meets p m ts q m' next rest) (f : α → Parser β) :
    Meets (p >>= f) m ts (q >>= f) m' next rest := by
  intro s here
  rcases h s here with ⟨s', same, there⟩ | ⟨isError, s', refused⟩
  · refine .inl ⟨s', ?_, there⟩
    change EStateM.bind p f s = EStateM.bind q f s'
    unfold EStateM.bind
    rw [same]
  · exact .inr ⟨isError, s', bind_error refused⟩

theorem meets_take {f : Token → Parser β}
    (tail : next.kind ≠ .error → Reads (f next) m ts b m' (next :: rest)) :
    Meets (Parser.take >>= f) m (next :: ts) (pure b) m' next rest := by
  by_cases error : next.kind = .error
  · refine fun s here => .inr ⟨error, { s with stream := s.stream.get.2 }, bind_error ?_⟩
    rw [take_eq, (at_take here).1, if_pos error]
  · exact ((reads_take error).bind (tail error)).meets

end

variable {Q : β → NumericMode → List Token → Prop} {R : α → NumericMode → List Token → Prop}

theorem Ensures.bind (head : Ensures p m ts R)
    (tail : ∀ a m' rest, R a m' rest → Ensures (f a) m' rest Q) : Ensures (p >>= f) m ts Q := by
  intro s s'' b here run
  cases first : p s with
  | error e s' =>
    rw [bind_error first] at run
    cases run
  | ok a s' =>
    rw [bind_ok first] at run
    obtain ⟨m', us, there, found⟩ := head s s' a here first
    exact tail a m' us found s' s'' b there run

theorem Ensures.pure (h : Q b m ts) : Ensures (pure b) m ts Q := by
  intro s s' a here run
  cases run
  exact ⟨m, ts, here, h⟩

theorem Ensures.fail {line : Position} {cause : SyntaxCause} : Ensures (fail line cause) m ts Q :=
  fun _ _ _ _ run => nomatch run

theorem Ensures.unexpected {context : Context} : Ensures (unexpected t context) m ts Q :=
  .fail

theorem Ensures.mono {Q' : β → NumericMode → List Token → Prop} {p : Parser β}
    (h : Ensures p m ts Q) (implies : ∀ b m' rest, Q b m' rest → Q' b m' rest) :
    Ensures p m ts Q' := by
  intro s s' b here run
  obtain ⟨m', rest, there, found⟩ := h s s' b here run
  exact ⟨m', rest, there, implies b m' rest found⟩

theorem Ensures.take {f : Token → Parser β} (tail : t.kind ≠ .error → Ensures (f t) m ts Q) :
    Ensures (Parser.take >>= f) m (t :: ts) Q := by
  refine Ensures.bind (R := fun a m' rest => a = t ∧ t.kind ≠ .error ∧ m' = m ∧ rest = ts) ?_ ?_
  · intro s s' a here run
    obtain ⟨same, after⟩ := at_take here
    rw [take_eq, same] at run
    split at run
    · cases run
    · rename_i notError
      cases run
      exact ⟨m, ts, after, rfl, notError, rfl, rfl⟩
  · rintro a m' us ⟨rfl, notError, rfl, rfl⟩
    exact tail notError

theorem Ensures.untake {f : Unit → Parser β} (tail : Ensures (f ()) m (t :: ts) Q) :
    Ensures (Parser.untake t >>= f) m ts Q := by
  refine Ensures.bind (R := fun _ m' rest => m' = m ∧ rest = t :: ts) ?_ ?_
  · intro s s' a here run
    cases run
    exact ⟨m, t :: ts, ⟨here.mode, congrArg (List.cons t) here.upcoming⟩, rfl, rfl⟩
  · rintro a m' us ⟨rfl, rfl⟩
    exact tail

theorem Ensures.peek {f : Token → Parser β} (tail : t.kind ≠ .error → Ensures (f t) m (t :: ts) Q) :
    Ensures (Parser.peek >>= f) m (t :: ts) Q := by
  refine Ensures.bind
    (R := fun a m' rest => a = t ∧ t.kind ≠ .error ∧ m' = m ∧ rest = t :: ts) ?_ ?_
  · exact .take fun notError => .untake (.pure ⟨rfl, notError, rfl, rfl⟩)
  · rintro a m' us ⟨rfl, notError, rfl, rfl⟩
    exact tail notError

theorem Ensures.expect {kind : Kind} {context : Context} {f : Token → Parser β}
    (tail : t.kind = kind → Ensures (f t) m ts Q) :
    Ensures (Parser.expect kind context >>= f) m (t :: ts) Q := by
  refine Ensures.bind (R := fun a m' rest => a = t ∧ t.kind = kind ∧ m' = m ∧ rest = ts) ?_ ?_
  · refine .take fun _ => ?_
    by_cases same : t.kind = kind
    · rw [if_pos same]
      exact .pure ⟨rfl, same, rfl, rfl⟩
    · rw [if_neg same]
      split
      · exact .fail
      · exact .fail
  · rintro a m' us ⟨rfl, same, rfl, rfl⟩
    exact tail same

theorem Ensures.get {f : ParserState → Parser β} (tail : ∀ s, s.mode = m → Ensures (f s) m ts Q) :
    Ensures (EStateM.get >>= f) m ts Q :=
  fun s s' b here run => tail s here.mode s s' b here run

theorem ensures_literal : Ensures (literal t) m ts fun _ m' rest =>
    (∃ v, Literal.value m t = .ok v) ∧ m' = m ∧ rest = ts := by
  refine .get fun s mode => ?_
  rw [mode]
  cases value : Literal.value m t with
  | error cause => exact .fail
  | ok v => exact .pure ⟨⟨v, rfl⟩, rfl, rfl⟩

end

end Parser

end Calculator
