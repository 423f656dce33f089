set_option autoImplicit false

namespace Calculator.Grouping

/-- A quote before every character that has a multiple of three bytes of the integral part behind
its own index, the first character apart; `width` counts those bytes. -/
def groupFrom (width : Nat) : Nat → List Char → List Char
  | _, [] => []
  | i, c :: rest =>
    if i ≠ 0 ∧ (width - i) % 3 = 0 then '\'' :: c :: groupFrom width (i + 1) rest
    else c :: groupFrom width (i + 1) rest

def splitBefore (p : Char → Bool) (text : List Char) : List Char × List Char :=
  (text.takeWhile fun c => !p c, text.dropWhile fun c => !p c)

theorem append_splitBefore (p : Char → Bool) (text : List Char) :
    (splitBefore p text).1 ++ (splitBefore p text).2 = text :=
  List.takeWhile_append_dropWhile

def isExponentMark (c : Char) : Bool :=
  c == 'e' || c == 'E'

def byteLength (text : List Char) : Nat :=
  text.foldl (fun n c => n + c.utf8Size) 0

def dropTrailingZeros (text : List Char) : List Char :=
  (text.reverse.dropWhile (· == '0')).reverse

/-- A fraction that starts with its point, without trailing zeros but with at least one digit. -/
def trimFraction (fraction : List Char) : List Char :=
  if byteLength fraction ≤ 2 then fraction
  else
    match fraction with
    | [] => []
    | point :: digits =>
      match dropTrailingZeros digits with
      | [] => point :: digits.take 1
      | kept => point :: kept

def groupUnsigned (text : List Char) : List Char :=
  let (integral, fraction) := splitBefore (· == '.') text
  groupFrom (byteLength integral) 0 integral ++ trimFraction fraction

def groupChars (text : List Char) : List Char :=
  if text.any isExponentMark then text
  else
    match text with
    | '-' :: rest => '-' :: groupUnsigned rest
    | _ => groupUnsigned text

/-- Groups the digits of a written number. -/
def group (text : String) : String :=
  String.ofList (groupChars text.toList)

end Calculator.Grouping
