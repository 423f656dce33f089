import Calculator.Token.Basic
import Calculator.Number.Numeral

set_option autoImplicit false

namespace Calculator

/-- What was being read, or was to come, when a token did not fit. -/
inductive Context where
  | closingBrace
  | nestedFunction
  | statement
  | statementEnd
  | functionDefinition
  | parameterSeparator
  | parameterName
  | ifStatement
  | elseBranch
  | elseStart
  | whileStatement
  | forStatement
  | displayStatement
  | exitStatement
  | operator
  | subexpression
  | basicExpression
  | functionCall
  deriving DecidableEq

def Context.phrase : Context → String
  | .closingBrace => "expecting '\x7d'"
  | .nestedFunction => "can not define nested functions"
  | .statement => "while parsing a statement"
  | .statementEnd => "while reading statement"
  | .functionDefinition => "while parsing function definition"
  | .parameterSeparator => "expected ',' while parsing function definition"
  | .parameterName => "expected symbol while parsing function definition"
  | .ifStatement => "while parsing 'if' statement"
  | .elseBranch => "while parsing 'else' branch"
  | .elseStart => "expected '\x7b' or 'if' while parsing 'else' branch"
  | .whileStatement => "while parsing 'while' statement"
  | .forStatement => "while parsing 'for' statement"
  | .displayStatement => "while parsing display statement"
  | .exitStatement => "while parsing exit statement"
  | .operator => "expecting operator"
  | .subexpression => "while parsing subexpression"
  | .basicExpression => "while parsing basic expression"
  | .functionCall => "while parsing function call"

inductive SyntaxCause where
  | unexpectedToken (found : String) (context : Context)
  | expected (found : String) (kind : Kind) (context : Context)
  | unexpectedEnd (context : Context)
  /-- Operands and operators do not pair up; this does not arise. -/
  | malformed
  | lexical (message : String)
  | badNumber (text : String)
  | badDate (text : String)
  | badTime (text : String)
  | realInUndefinedMode
  deriving DecidableEq

def SyntaxCause.message : SyntaxCause → String
  | .unexpectedToken found context =>
    "unexpected token '" ++ found ++ "' (" ++ context.phrase ++ ")"
  | .expected found kind context =>
    "unexpected token '" ++ found ++ "' (expecting '" ++ kind.shown ++ "' " ++ context.phrase ++ ")"
  | .unexpectedEnd context => "unexpected end of file (" ++ context.phrase ++ ")"
  | .malformed => "could not parse expression"
  | .lexical message => message
  | .badNumber text => "wrong number format '" ++ text ++ "'"
  | .badDate text => "wrong date format '$" ++ text ++ "' (expecting $yyyymmdd)"
  | .badTime text => "wrong time format '" ++ text ++ "' (expecting mm:ss or hh:mm:ss)"
  | .realInUndefinedMode =>
    "numbers with a decimal point are not allowed in undefined numeric mode " ++
      "(use '@:f' for floating point or '@:r' for rational)"

/-- Why a text is no program, and on which line. -/
structure SyntaxError where
  line : Position
  cause : SyntaxCause
  deriving DecidableEq

def SyntaxError.message (e : SyntaxError) : String :=
  "syntax error at line " ++ String.ofList (Numeral.decimal e.line.toNat) ++ ": " ++ e.cause.message

end Calculator
