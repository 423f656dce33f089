import Calculator.Eval.Basic

set_option autoImplicit false

namespace Calculator

namespace Run

def Meets {α : Type} (here : Machine → Prop) (x : Run α) (behind : α → Machine → Prop)
    (m : Machine) : Prop :=
  here m ∨ ∃ a m', x m = .ok a m' ∧ behind a m'

def Then {α : Type} (x : Run α) (behind : α → Machine → Prop) (m : Machine) : Prop :=
  ∃ a m', x m = .ok a m' ∧ behind a m'

end Run

open Run

mutual

def Tree.Reaches (E : Tree → Prop) : Nat → Tree → Machine → Prop
  | 0, _, _ => False
  | fuel + 1, tree, m =>
    E tree ∨
    match tree with
    | .body _ statements => bodyReaches E fuel statements m
    | .unary _ op operand =>
      match op.unary with
      | some (.transform _) => operand.Reaches E fuel m
      | _ => False
    | .binary _ op lhs rhs =>
      op.operation.isSome = true ∧
        Meets (lhs.Reaches E fuel) (lhs.eval fuel) (fun _ => rhs.Reaches E fuel) m
    | .assign line op target value =>
      match op.operation with
      | none => (declare target).Then (fun _ => value.Reaches E fuel) m
      | some _ => (lookup target line).Then (fun _ => value.Reaches E fuel) m
    | .whileLoop _ guard body => loopReaches E fuel guard body none m
    | .forLoop _ init guard step body =>
      Meets (init.Reaches E fuel) (init.eval fuel)
        (fun _ => loopReaches E fuel guard body (some step)) m
    | .conditional _ guard positive otherwise =>
      Meets (conditionReaches E fuel guard) (evalCondition fuel guard)
        (fun holds m =>
          if holds then positive.Reaches E fuel m
          else
            match otherwise with
            | some tree => tree.Reaches E fuel m
            | none => False) m
    | .call line name args =>
      (lookup name line).Then
        (fun callee =>
          Meets (argumentsReach E fuel args) (evalArguments fuel args) fun values m =>
            match callee with
            | .function _ params body =>
              values.length = params.length ∧
                body.Reaches E fuel
                  { m with stack := m.stack.push (.ofList (params.zip values)) }
            | _ => False) m
    | .display _ expression => expression.Reaches E fuel m
    | _ => False

def bodyReaches (E : Tree → Prop) : Nat → List Tree → Machine → Prop
  | 0, _, _ => False
  | _ + 1, [], _ => False
  | fuel + 1, statement :: rest, m =>
    m.exiting = false ∧
      Meets (statement.Reaches E fuel) (statement.eval fuel) (fun _ => bodyReaches E fuel rest) m

def conditionReaches (E : Tree → Prop) : Nat → Tree → Machine → Prop
  | 0, _, _ => False
  | fuel + 1, guard, m => guard.Reaches E fuel m

def loopReaches (E : Tree → Prop) : Nat → Tree → Tree → Option Tree → Machine → Prop
  | 0, _, _, _, _ => False
  | fuel + 1, guard, body, step, m =>
    m.exiting = false ∧
      Meets (conditionReaches E fuel guard) (evalCondition fuel guard)
        (fun holds m =>
          holds = true ∧
            Meets (body.Reaches E fuel) (body.eval fuel)
              (fun _ m =>
                match step with
                | none => loopReaches E fuel guard body step m
                | some tree =>
                  Meets (tree.Reaches E fuel) (tree.eval fuel)
                    (fun _ => loopReaches E fuel guard body step) m) m) m

def argumentsReach (E : Tree → Prop) : Nat → List Tree → Machine → Prop
  | 0, _, _ => False
  | _ + 1, [], _ => False
  | fuel + 1, arg :: rest, m =>
    Meets (arg.Reaches E fuel) (arg.eval fuel) (fun _ => argumentsReach E fuel rest) m

end

end Calculator
