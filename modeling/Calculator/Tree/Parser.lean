import Calculator.Token.Stream
import Calculator.Tree.Literal

set_option autoImplicit false

/-!
# From tokens to trees

Statements are read by recursive descent. A chain of operands and binary operators is read with two
stacks: before an operator is pushed, all operators on the stack whose priority is not lower are
applied, so that every operator is left associative. The recursion is bounded by a number that
grows with the number of tokens.
-/
namespace Calculator

structure ParserState where
  stream : TokenStream
  /-- The mode that decides what decimal literals mean; `@:f` and `@:r` change it for the literals
  behind them. -/
  mode : NumericMode
  /-- The largest number of tokens that were taken back at once. -/
  lookahead : Nat

abbrev Parser := EStateM SyntaxError ParserState

namespace Parser

def fail {α : Type} (line : Position) (cause : SyntaxCause) : Parser α :=
  throw ⟨line, cause⟩

def unexpected {α : Type} (token : Token) (context : Context) : Parser α :=
  fail token.line <|
    if token.kind = .eof then .unexpectedEnd context else .unexpectedToken token.text context

/-- The next token; an error among the tokens ends the parse. -/
def take : Parser Token := do
  let s ← get
  let (token, stream) := s.stream.get
  set { s with stream := stream }
  if token.kind = .error then fail token.line (.lexical token.text)
  else return token

def untake (token : Token) : Parser Unit :=
  modify fun s =>
    let stream := s.stream.rewind token
    { s with stream := stream, lookahead := max s.lookahead stream.returned.length }

def peek : Parser Token := do
  let token ← take
  untake token
  return token

def expect (kind : Kind) (context : Context) : Parser Token := do
  let token ← take
  if token.kind = kind then return token
  else if token.kind = .eof then fail token.line (.unexpectedEnd context)
  else fail token.line (.expected token.text kind context)

def literal (token : Token) : Parser Tree := do
  match Literal.value (← get).mode token with
  | .ok v => return .constant token.line v
  | .error cause => fail token.line cause

/-- Applies the operators on the stack that come before one of priority `p`. -/
def reduceBefore (p : Nat) : List Tree → List Token → Option (List Tree × List Token)
  | operands, [] => some (operands, [])
  | operands, op :: operators =>
    if op.kind.priority.getD 0 < p then some (operands, op :: operators)
    else
      match operands with
      | rhs :: lhs :: rest => reduceBefore p (.binary op.line op.kind lhs rhs :: rest) operators
      | _ => none

def reduceAll (operands : List Tree) (operators : List Token) : Option Tree :=
  match reduceBefore 0 operands operators with
  | some ([tree], []) => some tree
  | _ => none

/-- The kinds of tokens that a chain stops before. -/
def endsChain (kind : Kind) : Bool :=
  kind = .eof || kind = .rightParen || kind = .semicolon || kind = .comma

mutual

def expression : Nat → Parser Tree
  | 0 => fail 0 .malformed
  | fuel + 1 => do
    let first ← take
    if first.kind ≠ .symbol then
      untake first
      chain fuel [] []
    else
      let second ← take
      if second.kind.assigns then
        return .assign first.line second.kind first.text (← chain fuel [] [])
      else
        untake second
        untake first
        chain fuel [] []

/-- Operands between binary operators, behind those on the stacks. -/
def chain : Nat → List Tree → List Token → Parser Tree
  | 0, _, _ => fail 0 .malformed
  | fuel + 1, operands, operators => do
    let tree ← operand fuel
    let op ← take
    if endsChain op.kind then
      untake op
      match reduceAll (tree :: operands) operators with
      | some chained => return chained
      | none => fail 0 .malformed
    else
      match op.kind.priority with
      | none => unexpected op .operator
      | some p =>
        match reduceBefore p (tree :: operands) operators with
        | some (operands', operators') => chain fuel operands' (op :: operators')
        | none => fail 0 .malformed

/-- A literal, a variable, a call, an operator with one operand, or an expression in parentheses. -/
def operand : Nat → Parser Tree
  | 0 => fail 0 .malformed
  | fuel + 1 => do
    let token ← take
    match token.kind with
    | .real | .int | .hex | .oct | .date | .time => literal token
    | .symbol =>
      let next ← take
      match next.kind with
      | .plusPlus | .minusMinus =>
        return .unary token.line next.kind (.reference token.line token.text)
      | .leftParen => return .call token.line token.text (← arguments fuel [])
      | _ =>
        untake next
        return .reference token.line token.text
    | .plus => operand fuel
    | .minus | .bang => return .unary token.line token.kind (← operand fuel)
    | .leftParen =>
      let tree ← expression fuel
      let _ ← expect .rightParen .subexpression
      return tree
    | _ => unexpected token .basicExpression

/-- The arguments of a call up to the closing parenthesis, behind those already read. -/
def arguments : Nat → List Tree → Parser (List Tree)
  | 0, _ => fail 0 .malformed
  | fuel + 1, args => do
    let token ← take
    if token.kind = .rightParen then return args.reverse
    else
      if args.isEmpty then untake token
      else if token.kind ≠ .comma then unexpected token .functionCall
      let tree ← expression fuel
      arguments fuel (tree :: args)

end

/-- The semicolon behind a statement, which may lack at the top level. -/
def semicolon (top : Bool) : Parser Unit := do
  let token ← take
  if token.kind ≠ .semicolon then
    untake token
    if !top then
      let _ ← expect .semicolon .statementEnd

/-- Changes the mode for the literals that follow. -/
def switchMode (line : Position) (mode : NumericMode) : Parser Tree := do
  modify fun s => { s with mode := mode }
  return .setMode line mode

/-- What follows a display sign: nothing for the last result, a setting, or an expression. -/
def display (fuel : Nat) (line : Position) : Parser Tree := do
  let token ← take
  match token.kind with
  | .semicolon | .eof =>
    untake token
    return .display line (.reference line "_")
  | .colon =>
    let option ← take
    if option.kind ≠ .symbol then unexpected option .displayStatement
    else if option.text = "p" then return .toggleProgrammer line
    else if option.text = "f" then switchMode line .float
    else if option.text = "r" then switchMode line .rational
    else unexpected option .displayStatement
  | _ =>
    untake token
    return .display line (← expression fuel)

def exit (line : Position) : Parser Tree := do
  let token ← peek
  if token.kind = .semicolon ∨ token.kind = .eof then return .exit line
  else unexpected token .exitStatement

def parameters : Nat → List String → Parser (List String)
  | 0, _ => fail 0 .malformed
  | fuel + 1, names => do
    let token ← take
    if token.kind = .rightParen then return names.reverse
    else
      let name ←
        if names.isEmpty then pure token
        else if token.kind ≠ .comma then unexpected token .parameterSeparator
        else take
      if name.kind ≠ .symbol then unexpected name .parameterName
      else parameters fuel (name.text :: names)

mutual

/-- Statements up to the end of the input or, in a block, up to the closing brace, behind those
already read. -/
def statements : Nat → Bool → Position → List Tree → Parser Tree
  | 0, _, _, _ => fail 0 .malformed
  | fuel + 1, top, line, read => do
    let token ← peek
    if token.kind = (if top then .eof else .rightCurly) then return .body line read.reverse
    else if token.kind = .eof then unexpected token .closingBrace
    else
      let tree ← statement fuel top
      statements fuel top line (tree :: read)

def statement : Nat → Bool → Parser Tree
  | 0, _ => fail 0 .malformed
  | fuel + 1, top => do
    let token ← take
    if token.kind = .at then
      let tree ← display fuel token.line
      semicolon top
      return tree
    else if token.kind ≠ .keyword then
      untake token
      let tree ← expression fuel
      semicolon top
      return tree
    else if token.text = "func" then
      if top then functionDefinition fuel token.line else unexpected token .nestedFunction
    else if token.text = "if" then ifStatement fuel token.line
    else if token.text = "while" then whileStatement fuel token.line
    else if token.text = "for" then forStatement fuel token.line
    else if token.text = "exit" then
      let tree ← exit token.line
      semicolon top
      return tree
    else unexpected token .statement

def block : Nat → Context → Parser Tree
  | 0, _ => fail 0 .malformed
  | fuel + 1, context => do
    let _ ← expect .leftCurly context
    let first ← peek
    let tree ← statements fuel false first.line []
    let _ ← expect .rightCurly context
    return tree

def functionDefinition : Nat → Position → Parser Tree
  | 0, _ => fail 0 .malformed
  | fuel + 1, line => do
    let name ← take
    if name.kind ≠ .symbol then unexpected name .functionDefinition
    else
      let _ ← expect .leftParen .functionDefinition
      let params ← parameters fuel []
      let body ← block fuel .functionDefinition
      return .define line name.text params body

def ifStatement : Nat → Position → Parser Tree
  | 0, _ => fail 0 .malformed
  | fuel + 1, line => do
    let _ ← expect .leftParen .ifStatement
    let guard ← expression fuel
    let _ ← expect .rightParen .ifStatement
    let positive ← block fuel .ifStatement
    let token ← take
    if token.hasKeyword "else" then
      let next ← take
      if next.kind = .leftCurly then
        untake next
        return .conditional line guard positive (some (← block fuel .elseBranch))
      else if next.hasKeyword "if" then
        return .conditional line guard positive (some (← ifStatement fuel next.line))
      else unexpected next .elseStart
    else
      untake token
      return .conditional line guard positive none

def whileStatement : Nat → Position → Parser Tree
  | 0, _ => fail 0 .malformed
  | fuel + 1, line => do
    let _ ← expect .leftParen .whileStatement
    let guard ← expression fuel
    let _ ← expect .rightParen .whileStatement
    return .whileLoop line guard (← block fuel .whileStatement)

def forStatement : Nat → Position → Parser Tree
  | 0, _ => fail 0 .malformed
  | fuel + 1, line => do
    let _ ← expect .leftParen .forStatement
    let init ← expression fuel
    let _ ← expect .semicolon .forStatement
    let guard ← expression fuel
    let _ ← expect .semicolon .forStatement
    let step ← expression fuel
    let _ ← expect .rightParen .forStatement
    return .forLoop line init guard step (← block fuel .forStatement)

end

def program (fuel : Nat) : Parser Tree := do
  let first ← peek
  statements fuel true first.line []

/-- A bound of the recursion for a stream: a few calls for each token. -/
def fuelFor (stream : TokenStream) : Nat :=
  8 * (stream.size + 2)

/-- Reads the program of a stream, with the state of the parser at its end. -/
def run (stream : TokenStream) (mode : NumericMode) :
    EStateM.Result SyntaxError ParserState Tree :=
  program (fuelFor stream) ⟨stream, mode, 0⟩

end Parser

namespace Tree

def ofStream (stream : TokenStream) (mode : NumericMode) : Except SyntaxError Tree :=
  match Parser.run stream mode with
  | .ok tree _ => .ok tree
  | .error e _ => .error e

def ofTokens (tokens : List Token) (mode : NumericMode) : Except SyntaxError Tree :=
  ofStream (.ofTokens tokens) mode

def parse (source : Utf8.Source) (mode : NumericMode) : Except SyntaxError Tree :=
  ofTokens (Lexer.ofSource source).tokens mode

end Tree

end Calculator
