import Calculator.Text.Character
import Calculator.Text.Utf8
import Calculator.Number.Numeral
import Calculator.Token.Basic
import Calculator.Token.Table

set_option autoImplicit false

/-!
# From characters to tokens

A lexer holds the characters still to be read, the reason why no more can be read behind them, and
the line it has come to. `Lexer.next` skips blanks and comments and takes one token; no token goes
over the end of a line. Behind a number or a word another one must not start directly. The first
error ends the input, and at its end every further token is the end of the input.
-/
namespace Calculator

open Numeral (isDecimalDigit isOctalDigit isHexadecimalDigit)

structure Lexer where
  rest : List Char
  failure : Option Utf8.DecodeError
  line : Position
  /-- Whether a number or a word ends right before the rest. -/
  glued : Bool

/-- A part of the input that makes up a token, and the characters behind it. -/
structure Lexeme where
  kind : Kind
  text : List Char
  rest : List Char
  deriving DecidableEq

namespace Lexer

def ofSource (source : Utf8.Source) : Lexer :=
  let (rest, failure) := source.decode
  ⟨rest, failure, 1, false⟩

def ofString (text : String) : Lexer :=
  ⟨text.toList, none, 1, false⟩

def isDigitOrQuote (c : Char) : Bool :=
  isDecimalDigit c || c == '\''

def isDigitOrColon (c : Char) : Bool :=
  isDecimalDigit c || c == ':'

def isMark (c : Char) : Bool :=
  c == 'e' || c == 'E'

/-- A token of the characters that satisfy the test, behind those of `text`. -/
def run (kind : Kind) (accept : Char → Bool) (text rest : List Char) : Lexeme :=
  ⟨kind, text ++ rest.takeWhile accept, rest.dropWhile accept⟩

theorem run_length_le (kind : Kind) (accept : Char → Bool) (text rest : List Char) :
    (run kind accept text rest).rest.length ≤ rest.length :=
  (List.dropWhile_suffix accept).length_le

/-- The part of a real number behind its exponent mark. -/
def exponent (text : List Char) : List Char → Lexeme
  | '+' :: rest => run .real isDecimalDigit (text ++ ['+']) rest
  | '-' :: rest => run .real isDecimalDigit (text ++ ['-']) rest
  | rest => run .real isDecimalDigit text rest

/-- Digits, grouped by quotes at will, which do not count. -/
def digits (rest : List Char) : List Char :=
  (rest.takeWhile isDigitOrQuote).filter (· != '\'')

def fraction (text rest : List Char) : Lexeme :=
  let text' := text ++ digits rest
  match rest.dropWhile isDigitOrQuote with
  | 'e' :: after => exponent (text' ++ ['e']) after
  | 'E' :: after => exponent (text' ++ ['E']) after
  | after => ⟨.real, text', after⟩

def time (text rest : List Char) : Lexeme :=
  run .time isDigitOrColon text rest

def integer (first : Char) (rest : List Char) : Lexeme :=
  let text := first :: digits rest
  match rest.dropWhile isDigitOrQuote with
  | '.' :: after => fraction (text ++ ['.']) after
  | 'e' :: after => exponent (text ++ ['e']) after
  | 'E' :: after => exponent (text ++ ['E']) after
  | ':' :: after => time (text ++ [':']) after
  | after => ⟨.int, text, after⟩

/-- A number that starts with a zero. -/
def zero (rest : List Char) : Lexeme :=
  match rest with
  | 'x' :: after => run .hex isHexadecimalDigit ['0', 'x'] after
  | 'X' :: after => run .hex isHexadecimalDigit ['0', 'X'] after
  | '.' :: after => fraction ['0', '.'] after
  | ':' :: after => time ['0', ':'] after
  | c :: _ => if isOctalDigit c then run .oct isOctalDigit ['0'] rest else ⟨.int, ['0'], rest⟩
  | [] => ⟨.int, ['0'], []⟩

def name (first : Char) (rest : List Char) : Lexeme :=
  let word := run .symbol Letter.continuesName [first] rest
  if Token.isKeyword (String.ofList word.text) then { word with kind := .keyword } else word

/-- The number or word that starts with a character; none if it starts neither. -/
def word? (first : Char) (rest : List Char) : Option Lexeme :=
  if first = '0' then some (zero rest)
  else if isDecimalDigit first then some (integer first rest)
  else if first = '.' then some (fraction ['.'] rest)
  else if first = '$' then some (run .date isDecimalDigit [] rest)
  else if Letter.startsName first then some (name first rest)
  else none

/-- The token with a fixed spelling that starts with a character, as long as possible. -/
def operator? (first : Char) (rest : List Char) : Option Lexeme :=
  (Table.standard.byLexeme (String.singleton first)).map fun short =>
    match rest with
    | [] => ⟨short, [first], []⟩
    | second :: after =>
      let spelling := some (String.ofList [first, second])
      match short.follow.find? fun k => k.lexeme = spelling with
      | some long => ⟨long, [first, second], after⟩
      | none => ⟨short, [first], rest⟩

/-- Skips blanks and comments; a comment goes to the end of its line. The line counts on, and what
was skipped keeps tokens apart. -/
def skipBlanks (comment glued : Bool) (line : Position) : List Char → List Char × Position × Bool
  | [] => ([], line, glued)
  | c :: rest =>
    if c = '\n' then skipBlanks false false (line + 1) rest
    else if comment || c = '#' then skipBlanks true false line rest
    else if c = ' ' || c = '\t' || c = '\r' then skipBlanks false false line rest
    else (c :: rest, line, glued)

def ended (line : Position) : Lexer :=
  ⟨[], none, line, false⟩

/-- An error, behind which the input ends. -/
def stop (message : String) (line : Position) : Token × Lexer :=
  (Token.error message line, ended line)

def unexpected (c : Char) (line : Position) : Token × Lexer :=
  stop ("unexpected character '" ++ Escape.escape c ++ "'") line

/-- Takes a lexeme. Its end is known only with the character behind it if it could be longer, and
then the reason why there is none comes first. -/
def accept (l : Lexer) (line : Position) (lexeme : Lexeme) (isWord : Bool) : Token × Lexer :=
  let token : Token := ⟨lexeme.kind, String.ofList lexeme.text, line⟩
  let l' : Lexer := ⟨lexeme.rest, l.failure, line, isWord⟩
  if lexeme.rest.isEmpty && (isWord || !lexeme.kind.follow.isEmpty) then
    match l.failure with
    | some e => stop e.message line
    | none => (token, l')
  else (token, l')

def next (l : Lexer) : Token × Lexer :=
  match skipBlanks false l.glued l.line l.rest with
  | ([], line, _) =>
    match l.failure with
    | some e => stop e.message line
    | none => (Token.eof line, ended line)
  | (c :: rest, line, glued) =>
    match word? c rest with
    | some lexeme => if glued then unexpected c line else l.accept line lexeme true
    | none =>
      match operator? c rest with
      | some lexeme => l.accept line lexeme false
      | none => unexpected c line

def tokensFrom : Nat → Lexer → List Token
  | 0, _ => []
  | fuel + 1, l =>
    let (token, l') := l.next
    if token.kind = .eof then [token] else token :: tokensFrom fuel l'

/-- All tokens, the end of the input included. Each takes a character, but for an error and the
end. -/
def tokens (l : Lexer) : List Token :=
  tokensFrom (l.rest.length + 2) l

end Lexer

end Calculator
