import Calculator.Eval.Basic
import Calculator.Tree.Parser

set_option autoImplicit false

/-!
# Sessions

A session runs programs one after another on one machine, so that settings, global variables and
functions survive. The name `_` is bound to the result of the last program that computed something.
-/
namespace Calculator

/-- Evaluates a whole program. The exit flag is cleared first, and a failure drops the frames of
the calls in progress. -/
def Machine.execute (m : Machine) (fuel : Nat) (tree : Tree) : Outcome Failure Value :=
  match tree.eval fuel { m with exiting := false } with
  | .ok v m' => .ok v m'
  | .error e m' => .error e { m' with stack := m'.stack.unwind }
  | .outOfFuel => .outOfFuel

/-- Why a program has no value. -/
inductive ProgramError where
  | syntaxError (e : SyntaxError)
  | failure (e : Failure)

def ProgramError.message : ProgramError → String
  | .syntaxError e => e.message
  | .failure e => "runtime error: " ++ e.error.message

namespace Session

def lastResult : String := "_"

/-- Whether a program computes a result: an empty one does not, nor does one that only looks at a
variable or displays something. -/
def computes : Tree → Bool
  | .body _ [] => false
  | .body _ [statement] =>
    match statement with
    | .reference .. | .display .. | .setMode .. | .toggleProgrammer .. => false
    | _ => true
  | _ => true

def runTree (m : Machine) (fuel : Nat) (program : Tree) : Outcome Failure Value :=
  match m.execute fuel program with
  | .ok v m' =>
    .ok v (if computes program then { m' with stack := m'.stack.bindGlobal lastResult v } else m')
  | .error e m' => .error e m'
  | .outOfFuel => .outOfFuel

/-- Reads a program in the mode of the session and runs it. -/
def eval (m : Machine) (fuel : Nat) (source : Utf8.Source) : Outcome ProgramError Value :=
  match Tree.parse source m.mode with
  | .error e => .error (.syntaxError e) m
  | .ok program =>
    match runTree m fuel program with
    | .ok v m' => .ok v m'
    | .error e m' => .error (.failure e) m'
    | .outOfFuel => .outOfFuel

end Session

end Calculator
