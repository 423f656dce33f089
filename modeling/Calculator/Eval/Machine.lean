import Calculator.Eval.Frame
import Calculator.Value.Error
import Calculator.Value.Text

set_option autoImplicit false

/-!
# The state of an evaluation

An evaluation reads and changes a machine: the call stack, the settings, the request to exit, and
the output of display statements. It ends with a value, fails with an error and the calls that the
error left, or has no answer because it ran out of steps.
-/
namespace Calculator

/-- A value that was displayed, with the programmer flag of that moment. -/
structure Display where
  value : Value
  programmer : Bool

/-- The line that is written for a displayed value. -/
def Display.text (d : Display) : String :=
  d.value.describe d.programmer ++ "\n"

/-- A place that lines are written to. To a line behind those that it was given before it answers
nothing if it takes the line, and otherwise why it does not. -/
structure Writer where
  answers : List String → String → Option String

namespace Writer

def answer (w : Writer) (line : String) : Option String :=
  w.answers [] line

/-- The writer behind a line that it was given, whether it took the line or not. -/
def after (w : Writer) (line : String) : Writer :=
  ⟨fun earlier => w.answers (line :: earlier)⟩

def accepting : Writer :=
  ⟨fun _ _ => none⟩

def refusing (reason : String) : Writer :=
  ⟨fun _ _ => some reason⟩

end Writer

structure Machine where
  stack : CallStack
  mode : NumericMode
  /-- Whether integers are also shown in hexadecimal digits. -/
  programmer : Bool
  /-- Whether an exit statement was reached. -/
  exiting : Bool
  writer : Writer
  /-- What was displayed, the last one first. -/
  displays : List Display

/-- A call that an error left: the name of the function and the line of the call. -/
structure TraceEntry where
  function : String
  line : Position
  deriving DecidableEq

def TraceEntry.message (e : TraceEntry) : String :=
  "at " ++ e.function ++ " (line " ++ String.ofList (Numeral.decimal e.line.toNat) ++ ")"

/-- An error and the calls that it left, the innermost first. -/
structure Failure where
  error : EvalError
  trace : List TraceEntry

/-- How a computation on a machine ends: with an answer or an error, each with the machine it
leaves, or without either. -/
inductive Outcome (ε α : Type) where
  | ok (a : α) (m : Machine)
  | error (e : ε) (m : Machine)
  | outOfFuel

namespace Machine

def initial (mode : NumericMode) (programmer : Bool) (writer : Writer) : Machine :=
  ⟨.initial, mode, programmer, false, writer, []⟩

/-- Everything written since the output was last taken. -/
def output (m : Machine) : String :=
  String.join (m.displays.reverse.map Display.text)

def withoutOutput (m : Machine) : Machine :=
  { m with displays := [] }

end Machine

/-- A computation on a machine. -/
def Run (α : Type) : Type := Machine → Outcome Failure α

namespace Run

@[inline] protected def pure {α : Type} (a : α) : Run α :=
  fun m => .ok a m

@[inline] protected def bind {α β : Type} (x : Run α) (f : α → Run β) : Run β :=
  fun m =>
    match x m with
    | .ok a m' => f a m'
    | .error e m' => .error e m'
    | .outOfFuel => .outOfFuel

instance : Monad Run where
  pure := Run.pure
  bind := Run.bind

@[inline] def machine : Run Machine :=
  fun m => .ok m m

@[inline] def update (f : Machine → Machine) : Run Unit :=
  fun m => .ok () (f m)

@[inline] def fail {α : Type} (e : EvalError) : Run α :=
  fun m => .error ⟨e, []⟩ m

@[inline] def outOfFuel {α : Type} : Run α :=
  fun _ => .outOfFuel

@[inline] def ofExcept {α : Type} (x : Except EvalError α) : Run α :=
  fun m =>
    match x with
    | .ok a => .ok a m
    | .error e => .error ⟨e, []⟩ m

def lookup (name : String) (line : Position) : Run Value :=
  fun m =>
    match m.stack.find? name with
    | some v => .ok v m
    | none => .error ⟨.undefinedVariable name line, []⟩ m

def declare (name : String) : Run Unit :=
  update fun m => { m with stack := m.stack.declare name }

def assign (name : String) (value : Value) (line : Position) : Run Unit :=
  fun m =>
    match m.stack.assign? name value with
    | some stack => .ok () { m with stack := stack }
    | none => .error ⟨.undefinedVariable name line, []⟩ m

def bindGlobal (name : String) (value : Value) : Run Unit :=
  update fun m => { m with stack := m.stack.bindGlobal name value }

def display (value : Value) : Run Unit :=
  fun m =>
    let shown : Display := ⟨value, m.programmer⟩
    let m' := { m with writer := m.writer.after shown.text }
    match m.writer.answer shown.text with
    | none => .ok () { m' with displays := shown :: m.displays }
    | some reason => .error ⟨.writeFailure reason, []⟩ m'

theorem display_of_none {v : Value} {m : Machine}
    (taken : m.writer.answer (Display.text ⟨v, m.programmer⟩) = none) :
    display v m = .ok () { m with
      writer := m.writer.after (Display.text ⟨v, m.programmer⟩)
      displays := ⟨v, m.programmer⟩ :: m.displays } := by
  simp only [display, taken]

theorem display_of_some {v : Value} {m : Machine} {reason : String}
    (refused : m.writer.answer (Display.text ⟨v, m.programmer⟩) = some reason) :
    display v m = .error ⟨.writeFailure reason, []⟩
      { m with writer := m.writer.after (Display.text ⟨v, m.programmer⟩) } := by
  simp only [display, refused]

theorem display_cases (v : Value) (m : Machine) :
    (∃ w, display v m =
        .ok () { m with writer := w, displays := ⟨v, m.programmer⟩ :: m.displays }) ∨
      ∃ w reason, display v m = .error ⟨.writeFailure reason, []⟩ { m with writer := w } := by
  cases answer : m.writer.answer (Display.text ⟨v, m.programmer⟩) with
  | none => exact .inl ⟨_, display_of_none answer⟩
  | some reason => exact .inr ⟨_, reason, display_of_some answer⟩

/-- Runs the body of a function in a frame of its own. An error notes the call. -/
@[inline] def inCall {α : Type} (entry : TraceEntry) (frame : Frame) (x : Run α) : Run α :=
  fun m =>
    match x { m with stack := m.stack.push frame } with
    | .ok a m' => .ok a { m' with stack := m'.stack.pop }
    | .error e m' => .error ⟨e.error, e.trace ++ [entry]⟩ { m' with stack := m'.stack.pop }
    | .outOfFuel => .outOfFuel

end Run

end Calculator
