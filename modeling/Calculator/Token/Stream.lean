import Calculator.Token.Lexer

set_option autoImplicit false

namespace Calculator

/-- Where tokens come from. -/
inductive Supply where
  | list (tokens : List Token)
  | lexer (l : Lexer)

namespace Supply

/-- The next token. A lexer is not asked again after the end of its input. -/
def next? : Supply → Option (Token × Supply)
  | .list [] => none
  | .list (token :: rest) => some (token, .list rest)
  | .lexer l =>
    let (token, l') := l.next
    some (token, if token.kind = .eof then .list [] else .lexer l')

def size : Supply → Nat
  | .list tokens => tokens.length
  | .lexer l => l.rest.length + 2

end Supply

structure TokenStream where
  /-- The tokens taken back, the last one first. -/
  returned : List Token
  supply : Supply
  lastLine : Position

namespace TokenStream

def ofTokens (tokens : List Token) : TokenStream :=
  ⟨[], .list tokens, 1⟩

def ofLexer (lexer : Lexer) : TokenStream :=
  ⟨[], .lexer lexer, 1⟩

/-- The next token, if there is one. -/
def next? (s : TokenStream) : Option Token × TokenStream :=
  match s.returned with
  | token :: rest => (some token, ⟨rest, s.supply, token.line⟩)
  | [] =>
    match s.supply.next? with
    | none => (none, s)
    | some (token, supply) => (some token, ⟨[], supply, token.line⟩)

def get (s : TokenStream) : Token × TokenStream :=
  match s.next? with
  | (some token, s') => (token, s')
  | (none, s') => (Token.eof s'.lastLine, s')

/-- Takes a token back, to be handed out first. -/
def rewind (s : TokenStream) (token : Token) : TokenStream :=
  { s with returned := token :: s.returned }

def size (s : TokenStream) : Nat :=
  s.returned.length + s.supply.size

end TokenStream

end Calculator
