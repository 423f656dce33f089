set_option autoImplicit false

/-!
# Reading characters from bytes

A source delivers bytes, may report interruptions between them, and ends cleanly or with a failure.
`Source.read` takes one character, or reports what is wrong with the bytes in front: a byte that
can not start a sequence, or a start byte with the continuation bytes collected after it. A byte
that is not a continuation byte stays in the source, so a malformed sequence never swallows the
character after it. `Source.decode` reads up to the first error.
-/
namespace Calculator.Utf8

/-- What a source reports when it is asked for the next byte. -/
inductive Event where
  | byte (b : UInt8)
  | interruption
  deriving DecidableEq

inductive ReadFailure where
  | broken
  | directory
  deriving DecidableEq

def ReadFailure.message : ReadFailure → String
  | .broken => "read failed"
  | .directory => "Is a directory (os error 21)"

/-- The reports still to come, and the failure that comes after them instead of an end. -/
structure Source where
  events : List Event
  failure : Option ReadFailure

def Source.ofBytes (bytes : List UInt8) : Source :=
  ⟨bytes.map .byte, none⟩

def Source.ofString (text : String) : Source :=
  .ofBytes text.toUTF8.toList

def Source.interrupted (s : Source) : Source :=
  ⟨s.events.flatMap fun e => [.interruption, e], s.failure⟩

def Source.failing (s : Source) : Source :=
  ⟨s.events, some .broken⟩

/-- Why a character could not be read. -/
inductive DecodeError where
  | readFailure (cause : ReadFailure)
  | startByte (b : UInt8)
  | unfinished
  | invalid (length : Nat)
  deriving DecidableEq

def binaryDigits (b : UInt8) : String :=
  String.ofList <| (List.range 8).map fun i =>
    if b.toNat / Nat.pow 2 (7 - i) % 2 = 1 then '1' else '0'

def DecodeError.message : DecodeError → String
  | .readFailure cause => "failed to read input: " ++ cause.message
  | .startByte b => "unexpected UTF-8 start byte: 0b" ++ binaryDigits b
  | .unfinished => "invalid UTF-8 sequence: incomplete utf-8 byte sequence from index 0"
  | .invalid length =>
    "invalid UTF-8 sequence: invalid utf-8 sequence of " ++ toString length ++
      " bytes from index 0"

/-- The first byte of the reports and those after it; interruptions are retried. -/
def nextByte : List Event → Option (UInt8 × List Event)
  | [] => none
  | .interruption :: rest => nextByte rest
  | .byte b :: rest => some (b, rest)

def isContinuation (b : UInt8) : Bool :=
  0x80 ≤ b && b ≤ 0xBF

def sequenceWidth (b : UInt8) : Option Nat :=
  if 0xC0 ≤ b && b ≤ 0xDF then some 2
  else if 0xE0 ≤ b && b ≤ 0xEF then some 3
  else if 0xF0 ≤ b && b ≤ 0xF7 then some 4
  else none

/-- At most so many continuation bytes, and the reports after them. -/
def takeContinuation : Nat → List Event → List UInt8 × List Event
  | 0, events => ([], events)
  | n + 1, events =>
    match nextByte events with
    | none => ([], events)
    | some (b, rest) =>
      if isContinuation b then
        let (taken, rest') := takeContinuation n rest
        (b :: taken, rest')
      else ([], events)

/-- The second bytes that may follow a start byte. -/
def secondByteAllowed (first second : UInt8) : Bool :=
  if first = 0xE0 then 0xA0 ≤ second
  else if first = 0xED then second ≤ 0x9F
  else if first = 0xF0 then 0x90 ≤ second
  else if first = 0xF4 then second ≤ 0x8F
  else true

/-- The payload of a continuation byte behind the payload of the bytes before it. -/
def pushPayload (high : Nat) (b : UInt8) : Nat :=
  high * 64 + (b.toNat - 0x80)

/-- The character that a start byte of some width and its continuation bytes encode. -/
def character (width : Nat) (first : UInt8) (rest : List UInt8) : Except DecodeError Char :=
  if first < 0xC2 || 0xF4 < first then .error (.invalid 1)
  else
    match rest with
    | [] => .error .unfinished
    | second :: _ =>
      if !secondByteAllowed first second then .error (.invalid 1)
      else if rest.length + 1 < width then .error .unfinished
      else
        let payload := first.toNat % Nat.pow 2 (7 - width)
        .ok (Char.ofNat (rest.foldl pushPayload payload))

/-- What a source reports after its last byte. -/
def Source.atEnd (s : Source) : Except DecodeError Unit :=
  match s.failure with
  | some cause => .error (.readFailure cause)
  | none => .ok ()

/-- The next character, or nothing at the end, and what is left to read. -/
def Source.read (s : Source) : Except DecodeError (Option Char) × Source :=
  match nextByte s.events with
  | none => (s.atEnd.map fun _ => none, s)
  | some (first, rest) =>
    if first < 0x80 then (.ok (some (Char.ofNat first.toNat)), ⟨rest, s.failure⟩)
    else
      match sequenceWidth first with
      | none => (.error (.startByte first), ⟨rest, s.failure⟩)
      | some width =>
        let (taken, rest') := takeContinuation (width - 1) rest
        let ended := taken.length + 1 < width && (nextByte rest').isNone
        let result :=
          match s.atEnd, ended with
          | .error e, true => .error e
          | _, _ => (character width first taken).map some
        (result, ⟨rest', s.failure⟩)

def readAll : Nat → Source → List Char × Option DecodeError
  | 0, _ => ([], none)
  | fuel + 1, s =>
    match s.read with
    | (.error e, _) => ([], some e)
    | (.ok none, _) => ([], none)
    | (.ok (some c), s') =>
      let (chars, ending) := readAll fuel s'
      (c :: chars, ending)

/-- The characters in front of the first error, and that error. -/
def Source.decode (s : Source) : List Char × Option DecodeError :=
  readAll (s.events.length + 1) s

end Calculator.Utf8
