set_option autoImplicit false

namespace Calculator

/-- How decimal literals and divisions are computed; both are errors in the undefined mode. -/
inductive NumericMode where
  | undefined
  | float
  | rational
  deriving DecidableEq

def NumericMode.name : NumericMode → String
  | .undefined => "undefined"
  | .float => "float"
  | .rational => "rational"

inductive Operation where
  | add
  | subtract
  | multiply
  | divide
  | remainder
  | power
  | logicalOr
  | bitOr
  | logicalAnd
  | bitAnd
  | equal
  | notEqual
  | greater
  | greaterEqual
  | less
  | lessEqual
  deriving DecidableEq

/-- The symbol that messages name the operation by. -/
def Operation.symbol : Operation → String
  | .add => "+"
  | .subtract => "-"
  | .multiply => "*"
  | .divide => "/"
  | .remainder => "%"
  | .power => "**"
  | .logicalOr => "||"
  | .bitOr => "|"
  | .logicalAnd => "&&"
  | .bitAnd => "&"
  | .equal => "=="
  | .notEqual => "!="
  | .greater => ">"
  | .greaterEqual => ">="
  | .less => "<"
  | .lessEqual => "<="

inductive Transformation where
  | negate
  | not
  deriving DecidableEq

def Transformation.symbol : Transformation → String
  | .negate => "-"
  | .not => "!"

inductive Step where
  | increment
  | decrement
  deriving DecidableEq

def Step.symbol : Step → String
  | .increment => "++"
  | .decrement => "--"

def Step.delta : Step → Int
  | .increment => 1
  | .decrement => -1

inductive UnaryOperation where
  | transform (t : Transformation)
  | step (s : Step)
  deriving DecidableEq

inductive Builtin where
  | abs
  | acos
  | asin
  | atan
  | cos
  | cosh
  | floor
  | ceil
  | ln
  | log10
  | log2
  | sin
  | sinh
  | sqrt
  | tan
  | tanh
  deriving DecidableEq

namespace Builtin

def name : Builtin → String
  | .abs => "abs"
  | .acos => "acos"
  | .asin => "asin"
  | .atan => "atan"
  | .cos => "cos"
  | .cosh => "cosh"
  | .floor => "floor"
  | .ceil => "ceil"
  | .ln => "ln"
  | .log10 => "log10"
  | .log2 => "log2"
  | .sin => "sin"
  | .sinh => "sinh"
  | .sqrt => "sqrt"
  | .tan => "tan"
  | .tanh => "tanh"

/-- All of them, in the order in which they are bound. -/
def all : List Builtin :=
  [.abs, .acos, .asin, .atan, .cos, .cosh, .floor, .ceil, .ln, .log10, .log2, .sin, .sinh, .sqrt,
    .tan, .tanh]

def arity (_ : Builtin) : Nat := 1

def find? (name : String) : Option Builtin :=
  all.find? fun b => b.name = name

end Builtin

end Calculator
