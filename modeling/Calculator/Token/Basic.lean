import Calculator.Operation

set_option autoImplicit false

namespace Calculator

/-- The number of a line, one for the first. It has 32 bits, and behind the greatest one it starts
again at zero. -/
abbrev Position := UInt32

inductive Kind where
  | error
  | eof
  | real
  | int
  | hex
  | oct
  | date
  | time
  | keyword
  | symbol
  | leftParen
  | rightParen
  | leftCurly
  | rightCurly
  | at
  | colon
  | comma
  | semicolon
  | plus
  | minus
  | star
  | slash
  | percent
  | starStar
  | orOr
  | or
  | andAnd
  | and
  | plusPlus
  | minusMinus
  | bang
  | equalEqual
  | bangEqual
  | greater
  | greaterEqual
  | less
  | lessEqual
  | equal
  | plusEqual
  | minusEqual
  | starEqual
  | slashEqual
  | percentEqual
  deriving DecidableEq

/-- What is known about a token kind. Operators bind more tightly the higher their priority. -/
structure Descriptor where
  kind : Kind
  name : String
  lexeme : Option String
  priority : Option Nat
  operation : Option Operation
  unary : Option UnaryOperation
  assigns : Bool
  /-- The kinds that a longer token than one of this kind may have. A table computes them. -/
  follow : List Kind
  deriving DecidableEq

namespace Descriptor

def plain (kind : Kind) (name : String) : Descriptor :=
  ⟨kind, name, none, none, none, none, false, []⟩

def punctuation (kind : Kind) (lexeme : String) : Descriptor :=
  { plain kind lexeme with lexeme := some lexeme }

def binary (kind : Kind) (lexeme : String) (priority : Nat) (operation : Operation) :
    Descriptor :=
  { punctuation kind lexeme with priority := some priority, operation := some operation }

def unaryOperator (kind : Kind) (lexeme : String) (unary : UnaryOperation) : Descriptor :=
  { punctuation kind lexeme with unary := some unary }

/-- An assignment, which may apply an operation to the old value first. -/
def assignment (kind : Kind) (lexeme : String) (operation : Option Operation) : Descriptor :=
  { punctuation kind lexeme with operation := operation, assigns := true }

end Descriptor

namespace Kind

def all : List Kind :=
  [.error, .eof, .real, .int, .hex, .oct, .date, .time, .keyword, .symbol, .leftParen,
    .rightParen, .leftCurly, .rightCurly, .at, .colon, .comma, .semicolon, .plus, .minus, .star,
    .slash, .percent, .starStar, .orOr, .or, .andAnd, .and, .plusPlus, .minusMinus, .bang,
    .equalEqual, .bangEqual, .greater, .greaterEqual, .less, .lessEqual, .equal, .plusEqual,
    .minusEqual, .starEqual, .slashEqual, .percentEqual]

open Descriptor in
def descriptor : Kind → Descriptor
  | .error => plain .error "an error"
  | .eof => plain .eof "end of file"
  | .real => plain .real "a real number"
  | .int => plain .int "an integer number"
  | .hex => plain .hex "a hexadecimal number"
  | .oct => plain .oct "an octal number"
  | .date => plain .date "a date constant"
  | .time => plain .time "a time constant"
  | .keyword => plain .keyword "a keyword"
  | .symbol => plain .symbol "any symbol"
  | .leftParen => punctuation .leftParen "("
  | .rightParen => punctuation .rightParen ")"
  | .leftCurly => punctuation .leftCurly "\x7b"
  | .rightCurly => punctuation .rightCurly "\x7d"
  | .at => punctuation .at "@"
  | .colon => punctuation .colon ":"
  | .comma => punctuation .comma ","
  | .semicolon => punctuation .semicolon ";"
  | .plus => binary .plus "+" 6 .add
  | .minus => { binary .minus "-" 6 .subtract with unary := some (.transform .negate) }
  | .star => binary .star "*" 7 .multiply
  | .slash => binary .slash "/" 7 .divide
  | .percent => binary .percent "%" 7 .remainder
  | .starStar => binary .starStar "**" 8 .power
  | .orOr => binary .orOr "||" 1 .logicalOr
  | .or => binary .or "|" 3 .bitOr
  | .andAnd => binary .andAnd "&&" 2 .logicalAnd
  | .and => binary .and "&" 4 .bitAnd
  | .plusPlus => unaryOperator .plusPlus "++" (.step .increment)
  | .minusMinus => unaryOperator .minusMinus "--" (.step .decrement)
  | .bang => unaryOperator .bang "!" (.transform .not)
  | .equalEqual => binary .equalEqual "==" 5 .equal
  | .bangEqual => binary .bangEqual "!=" 5 .notEqual
  | .greater => { binary .greater ">" 5 .greater with name := "gt" }
  | .greaterEqual => { binary .greaterEqual ">=" 5 .greaterEqual with name := "ge" }
  | .less => { binary .less "<" 5 .less with name := "lt" }
  | .lessEqual => { binary .lessEqual "<=" 5 .lessEqual with name := "le" }
  | .equal => assignment .equal "=" none
  | .plusEqual => assignment .plusEqual "+=" (some .add)
  | .minusEqual => assignment .minusEqual "-=" (some .subtract)
  | .starEqual => assignment .starEqual "*=" (some .multiply)
  | .slashEqual => assignment .slashEqual "/=" (some .divide)
  | .percentEqual => assignment .percentEqual "%=" (some .remainder)

def name (k : Kind) : String := k.descriptor.name

def lexeme (k : Kind) : Option String := k.descriptor.lexeme

def priority (k : Kind) : Option Nat := k.descriptor.priority

def operation (k : Kind) : Option Operation := k.descriptor.operation

def unary (k : Kind) : Option UnaryOperation := k.descriptor.unary

def assigns (k : Kind) : Bool := k.descriptor.assigns

def shown (k : Kind) : String := k.lexeme.getD k.name

def le (k l : Kind) : Bool :=
  k.ctorIdx ≤ l.ctorIdx

/-- Puts a kind in front of the first one that it is not behind. -/
def insertSorted (k : Kind) : List Kind → List Kind
  | [] => [k]
  | l :: rest => if k.le l then k :: l :: rest else l :: insertSorted k rest

def sort (kinds : List Kind) : List Kind :=
  kinds.foldr insertSorted []

theorem mem_all (k : Kind) : k ∈ all := by
  cases k <;> decide

theorem descriptor_kind (k : Kind) : k.descriptor.kind = k := by
  cases k <;> rfl

end Kind

/-- A word of the input with the line where it starts. The text of an error is the message. -/
structure Token where
  kind : Kind
  text : String
  line : Position
  deriving DecidableEq

namespace Token

def shown (t : Token) : String :=
  if t.kind = .eof then "end of file" else t.text

def eof (line : Position) : Token :=
  ⟨.eof, "", line⟩

def error (message : String) (line : Position) : Token :=
  ⟨.error, message, line⟩

def keywords : List String :=
  ["if", "else", "while", "for", "func", "exit"]

def isKeyword (word : String) : Bool :=
  keywords.contains word

def hasKeyword (t : Token) (word : String) : Bool :=
  t.kind = .keyword && t.text = word

end Token

end Calculator
