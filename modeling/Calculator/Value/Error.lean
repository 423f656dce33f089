import Calculator.Number.Decimal
import Calculator.Value.Basic

set_option autoImplicit false

namespace Calculator

/-- Why an operation has no result on operands of the right kinds. -/
inductive DomainError where
  | exponentTooLarge
  | dayOffsetOutOfRange
  | dateOutOfRange
  | notRational (x : Float)
  | notAnInteger (function : Builtin) (x : Float)

def DomainError.message : DomainError → String
  | .exponentTooLarge => "exponent too large"
  | .dayOffsetOutOfRange => "day offset out of range"
  | .dateOutOfRange => "date out of range"
  | .notRational x => String.ofList (FloatText.display x) ++ " has no rational value"
  | .notAnInteger function x =>
    function.name ++ " of " ++ String.ofList (FloatText.display x) ++ " is not an integer"

/-- Why an evaluation fails, and on which line. -/
inductive EvalError where
  | undefinedVariable (name : String) (line : Position)
  | arityMismatch (name : String) (given expected : Nat) (line : Position)
  | typeMismatch (op : String) (operand : ValueKind) (line : Position)
  | modeUndefined (op : String) (line : Position)
  | notCallable (name : String) (line : Position)
  | divisionByZero (line : Position)
  | notABoolean (operand : ValueKind) (line : Position)
  | domain (cause : DomainError) (line : Position)
  | badOperator (op : Kind) (line : Position)
  /-- A line could not be written, for this reason. -/
  | writeFailure (reason : String)

def atLine (line : Position) : String :=
  " at line " ++ String.ofList (Numeral.decimal line.toNat)

def EvalError.message : EvalError → String
  | .undefinedVariable name line => "unknown variable '" ++ name ++ "'" ++ atLine line
  | .arityMismatch name given expected line =>
    "can not call '" ++ name ++ "'" ++ atLine line ++ ": wrong number of arguments (given " ++
      String.ofList (Numeral.decimal given) ++ ", expected " ++
      String.ofList (Numeral.decimal expected) ++ ")"
  | .typeMismatch op operand line =>
    "can not apply '" ++ op ++ "' to " ++ operand.name ++ " value" ++ atLine line
  | .modeUndefined op line =>
    "can not compute '" ++ op ++ "'" ++ atLine line ++
      " in undefined numeric mode (use '@:f' for floating point or '@:r' for rational)"
  | .notCallable name line => "can not call '" ++ name ++ "'" ++ atLine line ++ ": not a function"
  | .divisionByZero line => "division by zero" ++ atLine line
  | .notABoolean operand line => operand.name ++ " value can not be used as boolean" ++ atLine line
  | .domain cause line => cause.message ++ atLine line
  | .badOperator op line => "'" ++ op.shown ++ "' can not be used there" ++ atLine line
  | .writeFailure reason => "I/O error: " ++ reason

end Calculator
