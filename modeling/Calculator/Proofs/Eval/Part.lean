import Calculator.Proofs.Eval.Ending
import Calculator.Proofs.Tree.Shape

set_option autoImplicit false

/-!
# Parts of a run

In the middle of a run some part of a program is evaluated: a tree, the rest of a row of statements,
or a loop. Beside the evaluator, `Part.Next` follows the run from a part to those it is made of,
`Part.Enters` from a call to the body of the function, and `Part.ComesTo` through any number of such
steps, with the calls in progress.
-/
namespace Calculator

open Run

def Outcome.left {α : Type} (entry : TraceEntry) : Outcome Failure α → Outcome Failure α
  | .ok a m => .ok a { m with stack := m.stack.pop }
  | .error f m => .error ⟨f.error, f.trace ++ [entry]⟩ { m with stack := m.stack.pop }
  | .outOfFuel => .outOfFuel

/-- What is left of a part of a program in the middle of a run: a tree, the rest of a row of
statements, or a loop before its guard. -/
inductive Part where
  | tree (t : Tree)
  | row (ts : List Tree)
  | loop (guard body : Tree) (step : Option Tree)

namespace Part

/-- How a part ends; `last` is the value of the statements or the turns before. -/
def Ends : Part → Value → Machine → Outcome Failure Value → Prop
  | tree t, _ => t.Ends
  | row ts, last => Run.Ends fun n => evalBody n last ts
  | loop guard body step, last => Run.Ends fun n => evalLoop n guard body step last

/-- A part with some fuel; `last` is the value of the statements or the turns before. -/
def run : Part → Nat → Value → Run Value
  | tree t, n, _ => t.eval n
  | row ts, n, last => evalBody n last ts
  | loop guard body step, n, last => evalLoop n guard body step last

/-- On the machine on the left the part comes to evaluate one of its expressions, on the machine on
the right. -/
inductive Evaluates : Part → Machine → Tree → Machine → Prop where
  | operand {line : Position} {op : Kind} {t : Transformation} {operand : Tree} {m : Machine}
      (prefixed : op.unary = some (.transform t)) :
      Evaluates (tree (.unary line op operand)) m operand m
  | lhs {line : Position} {op : Kind} {lhs rhs : Tree} {m : Machine}
      (isOperator : op.operation.isSome = true) : Evaluates (tree (.binary line op lhs rhs)) m lhs m
  | rhs {line : Position} {op : Kind} {lhs rhs : Tree} {v : Value} {m m' : Machine}
      (isOperator : op.operation.isSome = true) (left : lhs.Ends m (.ok v m')) :
      Evaluates (tree (.binary line op lhs rhs)) m rhs m'
  | value {line : Position} {op : Kind} {x : String} {value : Tree} {m : Machine}
      (plain : op.operation = none) :
      Evaluates (tree (.assign line op x value)) m value { m with stack := m.stack.declare x }
  | change {line : Position} {op : Kind} {x : String} {value : Tree} {m : Machine}
      (isOperator : op.operation.isSome = true) (bound : (m.stack.find? x).isSome = true) :
      Evaluates (tree (.assign line op x value)) m value m
  | argument {line : Position} {x : String} {before after : List Tree} {arg : Tree}
      {vs : List Value} {m m' : Machine} (bound : (m.stack.find? x).isSome = true)
      (read : Run.Ends (fun n => evalArguments n before) m (.ok vs m')) :
      Evaluates (tree (.call line x (before ++ arg :: after))) m arg m'
  | init {line : Position} {init guard step body : Tree} {m : Machine} :
      Evaluates (tree (.forLoop line init guard step body)) m init m
  | condition {line : Position} {guard positive : Tree} {otherwise : Option Tree} {m : Machine} :
      Evaluates (tree (.conditional line guard positive otherwise)) m guard m
  | shown {line : Position} {t : Tree} {m : Machine} : Evaluates (tree (.display line t)) m t m
  | guard {guard body : Tree} {step : Option Tree} {m : Machine} (running : m.exiting = false) :
      Evaluates (loop guard body step) m guard m
  | step {guard body step : Tree} {v : Value} {m m' m'' : Machine} (running : m.exiting = false)
      (holds : Run.Ends (fun n => evalCondition n guard) m (.ok true m'))
      (turn : body.Ends m' (.ok v m'')) : Evaluates (loop guard body (some step)) m step m''

/-- On the machine on the left the part comes to another one, on the machine on the right. The trees
are left to be evaluated behind the other part, on whatever machine it leaves. -/
inductive Next : Part → Machine → Part → Machine → List Tree → Prop where
  | expression {part : Part} {t : Tree} {m m' : Machine} (here : part.Evaluates m t m') :
      Next part m (tree t) m' []
  | body {line : Position} {ts : List Tree} {m : Machine} :
      Next (tree (.body line ts)) m (row ts) m []
  | statement {t : Tree} {ts : List Tree} {m : Machine} (running : m.exiting = false) :
      Next (row (t :: ts)) m (tree t) m []
  | rest {t : Tree} {ts : List Tree} {v : Value} {m m' : Machine} (running : m.exiting = false)
      (first : t.Ends m (.ok v m')) : Next (row (t :: ts)) m (row ts) m' []
  | positive {line : Position} {guard positive : Tree} {otherwise : Option Tree} {m m' : Machine}
      (holds : Run.Ends (fun n => evalCondition n guard) m (.ok true m')) :
      Next (tree (.conditional line guard positive otherwise)) m (tree positive) m' []
  | otherwise {line : Position} {guard positive t : Tree} {m m' : Machine}
      (fails : Run.Ends (fun n => evalCondition n guard) m (.ok false m')) :
      Next (tree (.conditional line guard positive (some t))) m (tree t) m' []
  | whileLoop {line : Position} {guard body : Tree} {m : Machine} :
      Next (tree (.whileLoop line guard body)) m (loop guard body none) m []
  | forLoop {line : Position} {init guard step body : Tree} {v : Value} {m m' : Machine}
      (first : init.Ends m (.ok v m')) :
      Next (tree (.forLoop line init guard step body)) m (loop guard body (some step)) m' []
  | turn {guard body : Tree} {step : Option Tree} {m m' : Machine} (running : m.exiting = false)
      (holds : Run.Ends (fun n => evalCondition n guard) m (.ok true m')) :
      Next (loop guard body step) m (tree body) m' step.toList
  | again {guard body : Tree} {v : Value} {m m' m'' : Machine} (running : m.exiting = false)
      (holds : Run.Ends (fun n => evalCondition n guard) m (.ok true m'))
      (turn : body.Ends m' (.ok v m'')) :
      Next (loop guard body none) m (loop guard body none) m'' []
  | stepped {guard body step : Tree} {v w : Value} {m m' m'' m''' : Machine}
      (running : m.exiting = false)
      (holds : Run.Ends (fun n => evalCondition n guard) m (.ok true m'))
      (turn : body.Ends m' (.ok v m'')) (behind : step.Ends m'' (.ok w m''')) :
      Next (loop guard body (some step)) m (loop guard body (some step)) m''' []

/-- On the machine on the left the part is a call of a function with as many arguments as it has
parameters, and once they are evaluated the body is, on the machine on the right. The call is noted
with the name that the function was defined with. -/
inductive Enters : Part → Machine → TraceEntry → Part → Machine → Prop where
  | call {line : Position} {x defined : String} {params : List String} {body : Tree}
      {args : List Tree} {vs : List Value} {m m' : Machine}
      (callee : m.stack.find? x = some (.function defined params body))
      (read : Run.Ends (fun n => evalArguments n args) m (.ok vs m'))
      (arity : vs.length = params.length) :
      Enters (tree (.call line x args)) m ⟨defined, line⟩ (tree body)
        { m' with stack := m'.stack.push (.ofList (params.zip vs)) }

/-- The run of the part on the left comes to the part on the right, each on its machine, within
these calls, the innermost first. -/
inductive ComesTo : Part → Machine → List TraceEntry → Part → Machine → Prop where
  | here {part : Part} {m : Machine} : ComesTo part m [] part m
  | next {part part' last : Part} {m m' mₗ : Machine} {calls : List TraceEntry} {outer : List Tree}
      (step : part.Next m part' m' outer) (behind : ComesTo part' m' calls last mₗ) :
      ComesTo part m calls last mₗ
  | enter {part part' last : Part} {m m' mₗ : Machine} {calls : List TraceEntry}
      {entry : TraceEntry} (entered : part.Enters m entry part' m')
      (behind : ComesTo part' m' calls last mₗ) :
      ComesTo part m (calls ++ [entry]) last mₗ

/-- The run of the part passes the machine: there another part is evaluated, or the evaluation of a
tree ends. -/
inductive Passes (part : Part) (m : Machine) : Machine → Prop where
  | part {last : Part} {mₗ : Machine} {calls : List TraceEntry}
      (comes : part.ComesTo m calls last mₗ) : Passes part m mₗ
  | answer {t : Tree} {v : Value} {mₗ m' : Machine} {calls : List TraceEntry}
      (comes : part.ComesTo m calls (tree t) mₗ) (ended : t.Ends mₗ (.ok v m')) : Passes part m m'
  | failure {t : Tree} {f : Failure} {mₗ m' : Machine} {calls : List TraceEntry}
      (comes : part.ComesTo m calls (tree t) mₗ) (ended : t.Ends mₗ (.error f m')) :
      Passes part m m'

/-- All nodes of the trees that are left have the property. -/
def All (P : Tree → Prop) : Part → Prop
  | tree t => t.All P
  | row ts => ∀ t ∈ ts, t.All P
  | loop guard body step => guard.All P ∧ body.All P ∧ ∀ t ∈ step, t.All P

/-- On this machine the part is a call of a builtin function with as many arguments as it has. -/
inductive Applies : Part → Machine → Builtin → Prop where
  | call {line : Position} {x : String} {b : Builtin} {args : List Tree} {vs : List Value}
      {m m' : Machine} (callee : m.stack.find? x = some (.builtin b))
      (read : Run.Ends (fun n => evalArguments n args) m (.ok vs m'))
      (arity : vs.length = b.arity) : Applies (tree (.call line x args)) m b

end Part

namespace Run

section
variable {m m' : Machine}

theorem lookup_of_find? {name : String} {line : Position} {v : Value}
    (h : m.stack.find? name = some v) : lookup name line m = .ok v m := by
  unfold lookup
  rw [h]

theorem find?_of_lookup {name : String} {line : Position} {v : Value}
    (h : lookup name line m = .ok v m') : m.stack.find? name = some v ∧ m' = m := by
  unfold lookup at h
  split at h <;> cases h
  exact ⟨‹_›, rfl⟩

end

end Run

namespace Part

variable {part part' : Part} {t : Tree} {m m' : Machine} {outer : List Tree}

theorem ends_iff_run {last : Value} {o : Outcome Failure Value} :
    part.Ends last m o ↔ Run.Ends (fun n => part.run n last) m o := by
  cases part <;> exact .rfl

theorem run_loop {guard body : Tree} {step : Option Tree} (running : m.exiting = false) (n : Nat)
    (last : Value) : (loop guard body step).run (n + 1) last m =
      (evalCondition n guard >>= behindGuard guard body step last n) m :=
  evalLoop_of_running running n

section
variable {part part' : Part} {m m' : Machine} {n : Nat} {v : Value}

theorem run_zero : part.run 0 v m = .outOfFuel := by
  cases part <;> rfl

theorem run_call {line : Position} {x defined : String} {params : List String} {body : Tree}
    {args : List Tree} {vs : List Value}
    (callee : m.stack.find? x = some (.function defined params body))
    (read : evalArguments n args m = .ok vs m') (arity : vs.length = params.length) :
    (tree (.call line x args)).run (n + 1) v m =
      inCall ⟨defined, line⟩ (.ofList (params.zip vs)) (body.eval n) m' := by
  have checked : checkArity defined vs.length params.length line = pure () := if_pos arity
  simp only [run, Tree.eval]
  refine (bind_of_ok (lookup_of_find? callee)).trans ((bind_of_ok read).trans ?_)
  simp only [checked]
  exact bind_of_ok rfl

theorem Enters.run_eq {entry : TraceEntry} (h : part.Enters m entry part' m')
    (answered : part.run (n + 1) v m ≠ .outOfFuel) :
    part'.run n v m' ≠ .outOfFuel ∧ part.run (n + 1) v m = (part'.run n v m').left entry := by
  cases h with
  | @call line x defined params body args vs m m₁ callee read arity =>
    have ended : evalArguments n args m ≠ .outOfFuel := by
      intro e
      refine answered ?_
      simp only [run, Tree.eval]
      exact (bind_of_ok (lookup_of_find? callee)).trans (bind_of_outOfFuel e)
    have values : evalArguments n args m = .ok vs m₁ :=
      Ends.unique (grows_arguments args) ⟨ended, n, rfl⟩ read
    rw [run_call callee values arity] at answered ⊢
    unfold inCall at answered ⊢
    simp only [run]
    cases e : body.eval n { m₁ with stack := m₁.stack.push (.ofList (params.zip vs)) } with
    | ok w m'' => exact ⟨by simp, rfl⟩
    | error f m'' => exact ⟨by simp, rfl⟩
    | outOfFuel =>
      rw [e] at answered
      exact absurd rfl answered

end

section
variable {P : Tree → Prop} {part part' : Part} {t : Tree} {m m' : Machine} {outer : List Tree}

theorem all_of_forall (each : ∀ t, P t) (part : Part) : part.All P := by
  cases part with
  | tree t => exact fun s _ => each s
  | row ts => exact fun t _ s _ => each s
  | loop guard body step =>
    exact ⟨fun s _ => each s, fun s _ => each s, fun t _ s _ => each s⟩

theorem Evaluates.all (h : part.Evaluates m t m') (all : part.All P) : t.All P := by
  cases h with
  | operand => exact (Tree.all_unary.mp all).2
  | lhs => exact (Tree.all_binary.mp all).2.1
  | rhs => exact (Tree.all_binary.mp all).2.2
  | value | change => exact (Tree.all_assign.mp all).2
  | argument => exact (Tree.all_call.mp all).2 t (by simp)
  | init => exact (Tree.all_forLoop.mp all).2.1
  | condition => exact (Tree.all_conditional.mp all).2.1
  | shown => exact (Tree.all_display.mp all).2
  | guard => exact all.1
  | step => exact all.2.2 t rfl

theorem Next.all (h : part.Next m part' m' outer) (all : part.All P) : part'.All P := by
  cases h with
  | expression here => exact here.all all
  | body => exact (Tree.all_body.mp all).2
  | statement => exact (List.forall_mem_cons.mp all).1
  | rest => exact (List.forall_mem_cons.mp all).2
  | positive => exact (Tree.all_conditional.mp all).2.2.1
  | otherwise => exact (Tree.all_conditional.mp all).2.2.2 _ rfl
  | whileLoop =>
    obtain ⟨-, guard, body⟩ := Tree.all_whileLoop.mp all
    exact ⟨guard, body, nofun⟩
  | forLoop =>
    obtain ⟨-, -, guard, step, body⟩ := Tree.all_forLoop.mp all
    refine ⟨guard, body, ?_⟩
    rintro _ ⟨⟩
    exact step
  | turn => exact all.2.1
  | again | stepped => exact all

theorem ComesTo.all {last : Part} {mₗ : Machine} {calls : List TraceEntry}
    (h : part.ComesTo m calls last mₗ) (callless : ∀ t, P t → t.isCall = false)
    (all : part.All P) : last.All P := by
  induction h with
  | here => exact all
  | next step _ ih => exact ih (step.all all)
  | enter entered _ _ =>
    cases entered
    cases callless _ all.root

theorem ComesTo.all_of_callless {last : Part} {mₗ : Machine} {calls : List TraceEntry}
    (h : part.ComesTo m calls last mₗ) (all : part.All fun t => t.isCall = false) :
    last.All fun t => t.isCall = false :=
  h.all (fun _ => id) all

end

end Part

end Calculator
