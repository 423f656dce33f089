import Calculator.Eval.Machine
import Calculator.Value.Arithmetic

set_option autoImplicit false

namespace Calculator

open Run

def checkArity (name : String) (given expected : Nat) (line : Position) : Run Unit :=
  if given = expected then pure () else fail (.arityMismatch name given expected line)

mutual

def Tree.eval : Nat → Tree → Run Value
  | 0, _ => outOfFuel
  | fuel + 1, tree =>
    match tree with
    | .body _ statements => evalBody fuel .zero statements
    | .constant _ v => pure v
    | .reference line name => lookup name line
    | .unary line op operand =>
      match op.unary with
      | none => fail (.badOperator op line)
      | some (.transform t) => do ofExcept ((← operand.eval fuel).transform t line)
      | some (.step s) =>
        match operand with
        | .reference _ name => do
          let v ← ofExcept ((← lookup name line).step s line)
          assign name v line
          return v
        | _ => fail (.badOperator op line)
    | .binary line op lhs rhs =>
      match op.operation with
      | none => fail (.badOperator op line)
      | some operation => do
        let a ← lhs.eval fuel
        let b ← rhs.eval fuel
        ofExcept (a.apply operation (← machine).mode b line)
    | .assign line op target value =>
      match op.operation with
      | none => do
        -- The name is there before its value is evaluated.
        declare target
        let v ← value.eval fuel
        assign target v line
        return v
      | some operation => do
        -- The variable has to be there before the value, and what it is then does not count.
        let _ ← lookup target line
        let b ← value.eval fuel
        let a ← lookup target line
        let v ← ofExcept (a.apply operation (← machine).mode b line)
        assign target v line
        return v
    | .whileLoop _ guard body => evalLoop fuel guard body none .zero
    | .forLoop _ init guard step body => do
      let _ ← init.eval fuel
      evalLoop fuel guard body (some step) .zero
    | .conditional _ guard positive otherwise => do
      if ← evalCondition fuel guard then positive.eval fuel
      else
        match otherwise with
        | some tree => tree.eval fuel
        | none => return .zero
    | .define _ name params body => do
      let f := Value.function name params body
      bindGlobal name f
      return f
    | .call line name args => do
      let callee ← lookup name line
      let values ← evalArguments fuel args
      match callee with
      | .builtin b => do
        checkArity name values.length b.arity line
        ofExcept (b.apply values line)
      | .function defined params body => do
        checkArity defined values.length params.length line
        inCall ⟨defined, line⟩ (.ofList (params.zip values)) (body.eval fuel)
      | _ => fail (.notCallable name line)
    | .display _ expression => do
      let v ← expression.eval fuel
      display v
      return v
    | .setMode _ mode => do
      update fun m => { m with mode := mode }
      return .zero
    | .toggleProgrammer _ => do
      update fun m => { m with programmer := !m.programmer }
      return .boolean (← machine).programmer
    | .exit _ => do
      update fun m => { m with exiting := true }
      return .zero

/-- Statements in a row up to an exit; `last` is the value of those before. -/
def evalBody : Nat → Value → List Tree → Run Value
  | 0, _, _ => outOfFuel
  | _ + 1, last, [] => pure last
  | fuel + 1, last, statement :: rest => do
    if (← machine).exiting then return last
    else evalBody fuel (← statement.eval fuel) rest

def evalCondition : Nat → Tree → Run Bool
  | 0, _ => outOfFuel
  | fuel + 1, guard => do ofExcept ((← guard.eval fuel).toBool guard.line)

/-- A loop, with the step after each turn of a `for` loop; `last` is the value of the turns
before. -/
def evalLoop : Nat → Tree → Tree → Option Tree → Value → Run Value
  | 0, _, _, _, _ => outOfFuel
  | fuel + 1, guard, body, step, last => do
    if (← machine).exiting then return last
    else if ← evalCondition fuel guard then
      let v ← body.eval fuel
      match step with
      | none => evalLoop fuel guard body step v
      | some tree =>
        let _ ← tree.eval fuel
        evalLoop fuel guard body step v
    else return last

def evalArguments : Nat → List Tree → Run (List Value)
  | 0, _ => outOfFuel
  | _ + 1, [] => pure []
  | fuel + 1, arg :: rest => do
    let v ← arg.eval fuel
    let vs ← evalArguments fuel rest
    return v :: vs

end

end Calculator
