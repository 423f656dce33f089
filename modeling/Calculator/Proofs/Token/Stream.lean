import Calculator.Proofs.Token.Scanning
import Calculator.Token.Stream

set_option autoImplicit false

namespace Calculator

def Supply.tokens : Supply → List Token
  | list ts => ts
  | lexer l => l.tokens

def TokenStream.upcoming (s : TokenStream) : List Token :=
  s.returned ++ s.supply.tokens

section
variable {t : Token} {ts : List Token}

theorem Supply.next?_eq {s : Supply} (h : s.tokens = t :: ts) :
    ∃ s', s.next? = some (t, s') ∧ s'.tokens = ts := by
  cases s with
  | list us =>
    obtain rfl : us = t :: ts := h
    exact ⟨list ts, rfl, rfl⟩
  | lexer l =>
    obtain ⟨first, rest⟩ := List.cons.inj ((Lexer.tokens_eq l).symm.trans h)
    refine ⟨if l.next.1.kind = .eof then list [] else lexer l.next.2, ?_, ?_⟩
    · rw [← first]
      rfl
    · rw [← rest]
      by_cases last : l.next.1.kind = .eof
      · rw [if_pos last, if_pos last]
        rfl
      · rw [if_neg last, if_neg last]
        rfl

theorem Supply.next?_of_nil {s : Supply} (h : s.tokens = []) : s.next? = none := by
  cases s with
  | lexer l => cases (Lexer.tokens_eq l).symm.trans h
  | list ts =>
    obtain rfl : ts = [] := h
    rfl

namespace TokenStream

theorem next?_eq {s : TokenStream} (h : s.upcoming = t :: ts) :
    ∃ s', s.next? = (some t, s') ∧ s'.upcoming = ts ∧ s'.lastLine = t.line := by
  obtain ⟨returned, supply, line⟩ := s
  cases returned with
  | cons u us =>
    obtain ⟨rfl, rest⟩ := List.cons.inj h
    exact ⟨⟨us, supply, u.line⟩, rfl, rest, rfl⟩
  | nil =>
    obtain ⟨supply', next, rest⟩ := Supply.next?_eq h
    refine ⟨⟨[], supply', t.line⟩, ?_, rest, rfl⟩
    unfold next?
    simp only [next]

theorem next?_of_nil {s : TokenStream} (h : s.upcoming = []) : s.next? = (none, s) := by
  obtain ⟨returned, supply, line⟩ := s
  obtain ⟨rfl, empty⟩ := List.append_eq_nil_iff.mp h
  unfold next?
  simp only [Supply.next?_of_nil empty]

theorem get_eq {s : TokenStream} (h : s.upcoming = t :: ts) :
    s.get.1 = t ∧ s.get.2.upcoming = ts := by
  obtain ⟨s', next, rest, -⟩ := next?_eq h
  unfold get
  rw [next]
  exact ⟨rfl, rest⟩

theorem get_of_nil {s : TokenStream} (h : s.upcoming = []) :
    s.get.1 = .eof s.lastLine ∧ s.get.2.upcoming = [] := by
  unfold get
  rw [next?_of_nil h]
  exact ⟨rfl, h⟩

theorem get_cases (s : TokenStream) : s.upcoming = s.get.1 :: s.get.2.upcoming ∨
    s.upcoming = [] ∧ s.get.2.upcoming = [] ∧ s.get.1 = .eof s.lastLine := by
  cases here : s.upcoming with
  | nil =>
    obtain ⟨eof, rest⟩ := s.get_of_nil here
    exact .inr ⟨rfl, rest, eof⟩
  | cons t ts =>
    obtain ⟨same, rest⟩ := s.get_eq here
    exact .inl (by rw [same, rest])

theorem get_lastLine (s : TokenStream) : s.get.2.lastLine = s.get.1.line := by
  unfold get
  cases here : s.upcoming with
  | nil =>
    rw [next?_of_nil here]
    rfl
  | cons t ts =>
    obtain ⟨s', next, -, line⟩ := next?_eq here
    rw [next]
    exact line

theorem get_returned (s : TokenStream) :
    s.get.2.returned.length = s.returned.length - 1 := by
  obtain ⟨returned, supply, line⟩ := s
  cases returned with
  | cons u us => rfl
  | nil =>
    unfold get next?
    cases supply.next? <;> rfl

end TokenStream

end

namespace TokenStream

inductive Request where
  | get
  | next
  | rewind (token : Token)

/-- What it answers: a token, a token if there is one, or only that a token was taken back. -/
inductive Answer where
  | token (t : Token)
  | next (t : Option Token)
  | rewound
  deriving DecidableEq

/-- The answers to requests in a row, each in the state that the one before led to. -/
def answers {σ : Type} (answer : σ → Request → Answer × σ) : σ → List Request → List Answer
  | _, [] => []
  | s, request :: requests =>
    (answer s request).1 :: answers answer (answer s request).2 requests

def answer (s : TokenStream) : Request → Answer × TokenStream
  | .get => (.token s.get.1, s.get.2)
  | .next => (.next s.next?.1, s.next?.2)
  | .rewind token => (.rewound, s.rewind token)

end TokenStream

/-- A plain list of tokens, and the tokens that were handed out from it, the last one first. -/
structure TokenList where
  tokens : List Token
  handedOut : List Token

namespace TokenList

open TokenStream (Request Answer)

/-- The line of the token handed out last; the first line if there is none. -/
def line (l : TokenList) : Position :=
  (l.handedOut.head?.map Token.line).getD 1

/-- Tokens are taken at the front, and given back there. -/
def answer (l : TokenList) : Request → Answer × TokenList
  | .get =>
    match l.tokens with
    | [] => (.token (.eof l.line), l)
    | t :: ts => (.token t, ⟨ts, t :: l.handedOut⟩)
  | .next =>
    match l.tokens with
    | [] => (.next none, l)
    | t :: ts => (.next (some t), ⟨ts, t :: l.handedOut⟩)
  | .rewind token => (.rewound, ⟨token :: l.tokens, l.handedOut⟩)

end TokenList

namespace TokenStream

/-- The stream has the tokens of the list to hand out, and remembers the same line. -/
structure Holds (s : TokenStream) (l : TokenList) : Prop where
  tokens : s.upcoming = l.tokens
  line : s.lastLine = l.line

variable {s : TokenStream} {l : TokenList}

/-- The stream answers one request as the list does, and still holds the list afterwards. -/
theorem Holds.answer (h : s.Holds l) (request : Request) :
    (s.answer request).1 = (l.answer request).1 ∧
      (s.answer request).2.Holds (l.answer request).2 := by
  obtain ⟨tokens, handedOut⟩ := l
  cases request with
  | rewind token => exact ⟨rfl, congrArg (List.cons token) h.tokens, h.line⟩
  | get =>
    -- At the end of the tokens an end is made up on the line of the last one.
    cases tokens with
    | nil =>
      unfold TokenStream.answer get
      rw [next?_of_nil h.tokens]
      exact ⟨congrArg (Answer.token ∘ Token.eof) h.line, h⟩
    | cons t ts =>
      obtain ⟨s', next, rest, line⟩ := next?_eq h.tokens
      unfold TokenStream.answer get
      rw [next]
      exact ⟨rfl, rest, line⟩
  | next =>
    cases tokens with
    | nil =>
      unfold TokenStream.answer
      rw [next?_of_nil h.tokens]
      exact ⟨rfl, h⟩
    | cons t ts =>
      obtain ⟨s', next, rest, line⟩ := next?_eq h.tokens
      unfold TokenStream.answer
      rw [next]
      exact ⟨rfl, rest, line⟩

theorem Holds.answers (h : s.Holds l) (requests : List Request) :
    TokenStream.answers TokenStream.answer s requests =
      TokenStream.answers TokenList.answer l requests := by
  induction requests generalizing s l with
  | nil => rfl
  | cons request requests ih =>
    obtain ⟨same, holds⟩ := h.answer request
    rw [TokenStream.answers, TokenStream.answers, same, ih holds]

theorem holds_supply (supply : Supply) : Holds ⟨[], supply, 1⟩ ⟨supply.tokens, []⟩ :=
  ⟨rfl, rfl⟩

/-- Asked for tokens of a source, with others given back in between, a stream from the lexer and a
stream from the list of all tokens answer the same: what the plain list answers. -/
theorem answers_as_list (source : Utf8.Source) (requests : List Request) :
    let tokens := (Lexer.ofSource source).tokens
    answers answer (ofLexer (.ofSource source)) requests =
        answers answer (ofTokens tokens) requests ∧
      answers answer (ofTokens tokens) requests =
        answers TokenList.answer ⟨tokens, []⟩ requests := by
  intro tokens
  have fromLexer := (holds_supply (.lexer (.ofSource source))).answers requests
  have fromList := (holds_supply (.list tokens)).answers requests
  exact ⟨fromLexer.trans fromList.symm, fromList⟩

/-- Past its end a stream stays on the line of the last token, also of one that was given back. -/
example : answers answer (ofTokens [⟨.symbol, "a", 3⟩])
    [.get, .next, .get, .rewind ⟨.int, "1", 7⟩, .next, .get] =
      [.token ⟨.symbol, "a", 3⟩, .next none, .token (.eof 3), .rewound,
        .next (some ⟨.int, "1", 7⟩), .token (.eof 7)] := by decide

end TokenStream

end Calculator
