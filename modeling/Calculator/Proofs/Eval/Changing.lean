import Calculator.Proofs.Eval.Part

set_option autoImplicit false

/-!
# What a run changes

If all that a node changes by itself is within some limits (`Limits`), then so is what a run
changes that comes to such nodes only: from its start to any part that it comes to
(`Limits.comesTo`), and from the end of that part to its own end (`Limits.leads`).
-/
namespace Calculator

open Run

namespace Outcome

variable {ε α : Type} {P Q : Machine → Prop} {o : Outcome ε α}

/-- If there is an answer or an error, then the machine that is left has the property. -/
def Leaves (P : Machine → Prop) : Outcome ε α → Prop
  | .ok _ m | .error _ m => P m
  | .outOfFuel => True

theorem Leaves.mono (h : o.Leaves P) (implies : ∀ m, P m → Q m) : o.Leaves Q := by
  cases o with
  | ok a m => exact implies m h
  | error e m => exact implies m h
  | outOfFuel => trivial

end Outcome

/-- The stack without the frames of the innermost calls. -/
def CallStack.leave (s : CallStack) (n : Nat) : CallStack :=
  { s with calls := s.calls.drop n }

def Machine.leave (m : Machine) (n : Nat) : Machine :=
  { m with stack := m.stack.leave n }

theorem Machine.leave_succ (m : Machine) (n : Nat) :
    m.leave (n + 1) = { m.leave n with stack := (m.leave n).stack.pop } := by
  unfold leave CallStack.leave CallStack.pop
  rw [List.tail_drop]

/-- What the nodes with the property may do to the machine by themselves. The relation is also one
between the machines on which the innermost calls were left. -/
structure Limits (A : Tree → Prop) (R : Machine → Machine → Prop) : Prop where
  refl : ∀ m, R m m
  trans : ∀ m m' m'', R m m' → R m' m'' → R m m''
  pop : ∀ m m', R m m' → R { m with stack := m.stack.pop } { m' with stack := m'.stack.pop }
  step : ∀ line at' op s x m v stack, A (.unary line op (.reference at' x)) →
    op.unary = some (.step s) → m.stack.assign? x v = some stack → R m { m with stack := stack }
  declare : ∀ line op x t m, A (.assign line op x t) →
    R m { m with stack := m.stack.declare x }
  assign : ∀ line op x t m v stack, A (.assign line op x t) →
    m.stack.assign? x v = some stack → R m { m with stack := stack }
  define : ∀ line x params body m, A (.define line x params body) →
    R m { m with stack := m.stack.bindGlobal x (.function x params body) }
  output : ∀ m writer displays, R m { m with writer := writer, displays := displays }
  setMode : ∀ m mode, R m { m with mode := mode }
  toggle : ∀ m programmer, R m { m with programmer := programmer }
  exit : ∀ line m, A (.exit line) → R m { m with exiting := true }

namespace Run

variable {α β : Type} {R : Machine → Machine → Prop}

/-- Here the computation leaves a machine that is related to the one it finds. -/
def Keeps (R : Machine → Machine → Prop) (x : Run α) (m : Machine) : Prop :=
  (x m).Leaves (R m)

/-- The second computation only answers if the first one does on its machine, and not beyond an
error of it. What it does behind the first one is within the relation. -/
def Leads (R : Machine → Machine → Prop) (x : Run α) (m : Machine) (y : Run β) (m' : Machine) :
    Prop :=
  y m' ≠ .outOfFuel → x m ≠ .outOfFuel ∧ (∀ f m'', x m = .error f m'' → y m' = .error f m'') ∧
    (x m).Leaves fun m'' => (y m').Leaves (R m'')

theorem Keeps.machine {f : Machine → Run α} {m : Machine} (h : Keeps R (f m) m) :
    Keeps R (Run.machine >>= f) m :=
  h

theorem Leads.of_eq {x : Run α} {y z : Run β} {m m' m'' : Machine} (h : Leads R x m y m')
    (same : z m'' = y m') : Leads R x m z m'' := by
  unfold Leads
  rw [same]
  exact h

theorem Leads.of_outOfFuel {x : Run α} {y : Run β} {m m' : Machine} (h : y m' = .outOfFuel) :
    Leads R x m y m' :=
  fun answered => absurd h answered

theorem Leads.behind_ok {γ : Type} {x : Run α} {y : Run β} {f : β → Run γ} {b : β}
    {m m' m'' : Machine} (first : y m' = .ok b m'') (h : Leads R x m (f b) m'') :
    Leads R x m (y >>= f) m' :=
  h.of_eq (bind_of_ok first)

theorem Leads.behind {γ : Type} {x : Run α} {y : Nat → Run β} {f : β → Run γ} {b : β}
    {m m' m'' : Machine} {n : Nat} (grows : Grows y) (first : Ends y m' (.ok b m''))
    (h : Leads R x m (f b) m'') : Leads R x m (y n >>= f) m' := by
  by_cases ended : y n m' = .outOfFuel
  · exact .of_outOfFuel (bind_of_outOfFuel ended)
  · exact .behind_ok (Ends.unique grows ⟨ended, n, rfl⟩ first) h

end Run

namespace Part

variable {A : Tree → Prop} {R : Machine → Machine → Prop} {part part' : Part} {t : Tree}
  {m m' : Machine} {outer : List Tree}

def Only (A : Tree → Prop) (part : Part) (m : Machine) : Prop :=
  ∀ calls s mₛ, part.ComesTo m calls (tree s) mₛ → A s

theorem Only.here (h : (tree t).Only A m) : A t :=
  h [] t m .here

theorem Only.next (h : part.Only A m) (step : part.Next m part' m' outer) : part'.Only A m' :=
  fun calls s mₛ comes => h calls s mₛ (.next step comes)

theorem Only.enter {entry : TraceEntry} (h : part.Only A m)
    (entered : part.Enters m entry part' m') : part'.Only A m' :=
  fun calls s mₛ comes => h (calls ++ [entry]) s mₛ (.enter entered comes)

theorem Only.comesTo {last : Part} {mₗ : Machine} {calls : List TraceEntry} (h : part.Only A m)
    (comes : part.ComesTo m calls last mₗ) : last.Only A mₗ := by
  induction comes with
  | here => exact h
  | next step _ ih => exact ih (h.next step)
  | enter entered _ ih => exact ih (h.enter entered)

def Bounded (A : Tree → Prop) (R : Machine → Machine → Prop) (n : Nat) : Prop :=
  ∀ k ≤ n, ∀ (part : Part) (m : Machine) (v : Value), part.Only A m → Keeps R (part.run k v) m

theorem Bounded.next {n : Nat} (bounded : Bounded A R n) (only : part.Only A m)
    (step : part.Next m part' m' outer) (v : Value) : Keeps R (part'.run n v) m' :=
  bounded n (Nat.le_refl n) part' m' v (only.next step)

theorem Bounded.eval {n : Nat} (bounded : Bounded A R n) (only : part.Only A m)
    (here : part.Evaluates m t m') : Keeps R (t.eval n) m' :=
  bounded.next only (.expression here) .zero

/-- With one more unit of fuel the part stays within the relation, and so does what is left of it
behind any part that comes next. -/
structure Stays (R : Machine → Machine → Prop) (n : Nat) (part : Part) (m : Machine) : Prop where
  keeps : ∀ v, Keeps R (part.run (n + 1) v) m
  leads : ∀ part' m' outer, part.Next m part' m' outer → ∀ v, ∃ k ≤ n, ∃ w,
    Leads R (part'.run k w) m' (part.run (n + 1) v) m

theorem Stays.of_last {n : Nat} (keeps : ∀ v, Keeps R (part.run (n + 1) v) m)
    (isLast : ∀ part' m' outer, ¬part.Next m part' m' outer) : part.Stays R n m :=
  ⟨keeps, fun part' m' outer step => absurd step (isLast part' m' outer)⟩

end Part

namespace Limits

variable {A : Tree → Prop} {R : Machine → Machine → Prop} {α β : Type} {m m' : Machine} {n k : Nat}
  (limits : Limits A R)

include limits

theorem pure (a : α) (m : Machine) : Keeps R (Pure.pure a) m :=
  limits.refl m

theorem fail (e : EvalError) (m : Machine) : Keeps R (Run.fail e : Run α) m :=
  limits.refl m

theorem ofExcept (r : Except EvalError α) (m : Machine) : Keeps R (Run.ofExcept r) m := by
  cases r <;> exact limits.refl m

theorem lookup (x : String) (line : Position) (m : Machine) : Keeps R (Run.lookup x line) m := by
  unfold Keeps Run.lookup
  split <;> exact limits.refl m

theorem displayed (v : Value) (m : Machine) : Keeps R (Run.display v) m := by
  unfold Keeps
  obtain ⟨w, shown⟩ | ⟨w, reason, refused⟩ := display_cases v m
  · rw [shown]
    exact limits.output m w _
  · rw [refused]
    exact limits.output m w m.displays

theorem write {x : String} {v : Value} {line : Position}
    (each : ∀ stack, m.stack.assign? x v = some stack → R m { m with stack := stack }) :
    Keeps R (Run.assign x v line) m := by
  unfold Keeps Run.assign
  split
  · exact each _ ‹_›
  · exact limits.refl m

theorem bind {x : Run α} {f : α → Run β} (first : Keeps R x m)
    (behind : ∀ a m', x m = .ok a m' → Keeps R (f a) m') : Keeps R (x >>= f) m := by
  unfold Keeps at first ⊢
  cases e : x m with
  | ok a m' =>
    rw [e] at first
    rw [bind_of_ok e]
    exact (behind a m' e).mono fun m'' => limits.trans m m' m'' first
  | error f' m' =>
    rw [e] at first
    rw [bind_of_error e]
    exact first
  | outOfFuel =>
    rw [bind_of_outOfFuel e]
    trivial

theorem checkArity {name : String} {given expected : Nat} {line : Position} {x : Run α}
    (h : given = expected → Keeps R x m) :
    Keeps R (do Calculator.checkArity name given expected line; x) m := by
  by_cases same : given = expected
  · have passes : Calculator.checkArity name given expected line = Pure.pure () := if_pos same
    rw [passes]
    exact h same
  · have fails : Calculator.checkArity name given expected line =
        Run.fail (.arityMismatch name given expected line) := if_neg same
    rw [fails]
    exact limits.fail _ m

theorem inCall {entry : TraceEntry} {frame : Frame} {x : Run α}
    (inside : Keeps R x { m with stack := m.stack.push frame }) :
    Keeps R (Run.inCall entry frame x) m := by
  unfold Keeps Run.inCall at *
  cases e : x { m with stack := m.stack.push frame } with
  | ok a m' =>
    rw [e] at inside
    exact limits.pop _ m' inside
  | error f m' =>
    rw [e] at inside
    exact limits.pop _ m' inside
  | outOfFuel => trivial

theorem leads_refl (x : Run α) (m : Machine) : Leads R x m x m := by
  intro answered
  refine ⟨answered, fun _ _ failed => failed, ?_⟩
  cases e : x m with
  | ok a m' => exact limits.refl m'
  | error f m' => exact limits.refl m'
  | outOfFuel => trivial

theorem leads_first {γ : Type} {x : Run α} {y : Run β} {f : β → Run γ} (h : Leads R x m y m')
    (behind : ∀ b m'', y m' = .ok b m'' → Keeps R (f b) m'') : Leads R x m (y >>= f) m' := by
  intro answered
  have first : y m' ≠ .outOfFuel := fun e => answered (bind_of_outOfFuel e)
  obtain ⟨here, failed, left⟩ := h first
  refine ⟨here, fun f m'' same => bind_of_error (failed f m'' same), left.mono fun m₁ related => ?_⟩
  cases e : y m' with
  | ok b m'' =>
    rw [e] at related
    rw [bind_of_ok e]
    exact (behind b m'' e).mono fun m₂ => limits.trans m₁ m'' m₂ related
  | error f' m'' =>
    rw [e] at related
    rw [bind_of_error e]
    exact related
  | outOfFuel => exact absurd e first

theorem leads_head {x : Run α} {f : α → Run β}
    (behind : ∀ a m', x m = .ok a m' → Keeps R (f a) m') : Leads R x m (x >>= f) m :=
  limits.leads_first (limits.leads_refl x m) behind

section
variable (bounded : Part.Bounded A R n) {part : Part} {t : Tree}

include bounded

theorem condition (only : part.Only A m) (here : part.Evaluates m t m') :
    Keeps R (evalCondition n t) m' := by
  cases n with
  | zero => trivial
  | succ n =>
    have guard : Keeps R (t.eval n) m' :=
      bounded n (Nat.le_succ n) (.tree t) m' .zero (only.next (.expression here))
    simp only [evalCondition]
    exact limits.bind guard fun v m'' _ => limits.ofExcept _ m''

theorem arguments {line : Position} {x : String} {args after : List Tree} (before : List Tree)
    {vs : List Value} (only : (Part.tree (.call line x (before ++ (args ++ after)))).Only A m)
    (less : k ≤ n) (bound : (m.stack.find? x).isSome = true)
    (read : Run.Ends (fun n => evalArguments n before) m (.ok vs m')) :
    Keeps R (evalArguments k args) m' := by
  induction args generalizing k before vs m' with
  | nil =>
    cases k with
    | zero => trivial
    | succ k => exact limits.refl m'
  | cons arg args ih =>
    cases k with
    | zero => trivial
    | succ k =>
      have less := Nat.le_of_succ_le less
      have first : Keeps R (arg.eval k) m' :=
        bounded k less (.tree arg) m' .zero (only.next (.expression (.argument bound read)))
      simp only [evalArguments]
      refine limits.bind first fun v m'' here => limits.bind ?_ fun vs m'' _ => limits.pure _ m''
      refine ih (before ++ [arg]) ?_ less (ends_arguments_concat read (ends_of_ok here))
      rw [List.append_assoc]
      exact only

theorem allArguments {line : Position} {x : String} {args : List Tree}
    (only : (Part.tree (.call line x args)).Only A m) (bound : (m.stack.find? x).isSome = true) :
    Keeps R (evalArguments n args) m := by
  have each : (Part.tree (.call line x ([] ++ (args ++ [])))).Only A m := by
    rw [List.append_nil]
    exact only
  exact limits.arguments bounded [] each (Nat.le_refl n) bound (ends_arguments_nil.mpr rfl)

end

theorem leads_condition (guard : Tree) (m : Machine) (n : Nat) :
    ∃ k ≤ n, Leads R (guard.eval k) m (evalCondition n guard) m := by
  cases n with
  | zero => exact ⟨0, Nat.le_refl 0, .of_outOfFuel rfl⟩
  | succ n =>
    refine ⟨n, Nat.le_succ n, ?_⟩
    simp only [evalCondition]
    exact limits.leads_head fun v m' _ => limits.ofExcept _ m'

theorem leads_argument {before after : List Tree} {arg : Tree} {vs : List Value}
    (read : Run.Ends (fun n => evalArguments n before) m (.ok vs m'))
    (rest : ∀ k ≤ n, ∀ v m'', arg.Ends m' (.ok v m'') → Keeps R (evalArguments k after) m'') :
    ∃ k ≤ n, Leads R (arg.eval k) m' (evalArguments n (before ++ arg :: after)) m := by
  induction before generalizing n vs m with
  | nil =>
    cases ends_arguments_nil.mp read
    cases n with
    | zero => exact ⟨0, Nat.le_refl 0, .of_outOfFuel rfl⟩
    | succ n =>
      refine ⟨n, Nat.le_succ n, ?_⟩
      simp only [List.nil_append, evalArguments]
      refine limits.leads_head fun v m'' here => limits.bind ?_ fun vs m'' _ => limits.pure _ m''
      exact rest n (Nat.le_succ n) v m'' (ends_of_ok here)
  | cons t ts ih =>
    rcases ends_arguments_cons.mp read with ⟨v, m₁, first, ⟨vs, m₂, others, ⟨⟩⟩ | ⟨_, _, _, ⟨⟩⟩⟩ |
      ⟨_, _, _, ⟨⟩⟩
    cases n with
    | zero => exact ⟨0, Nat.le_refl 0, .of_outOfFuel rfl⟩
    | succ n =>
      obtain ⟨k, less, leads⟩ := ih others fun k less => rest k (Nat.le_succ_of_le less)
      refine ⟨k, Nat.le_succ_of_le less, ?_⟩
      simp only [List.cons_append, evalArguments]
      exact .behind (grows_eval t) first (limits.leads_first leads fun vs m'' _ =>
        limits.pure _ m'')

section
variable (bounded : Part.Bounded A R n) {line : Position} {op : Kind} {x : String} {t l r : Tree}

include bounded

theorem unary (only : (Part.tree (.unary line op t)).Only A m) :
    (Part.tree (.unary line op t)).Stays R n m := by
  cases isPrefix : op.unary with
  | none =>
    refine ⟨fun v => ?_, fun _ _ _ step => ?_⟩
    · simp only [Part.run, Tree.eval, isPrefix]
      exact limits.fail _ m
    · cases step with
      | expression here =>
        cases here with
        | operand prefixed => cases isPrefix.symm.trans prefixed
  | some u =>
    cases u with
    | transform f =>
      have whole (v : Value) : (Part.tree (.unary line op t)).run (n + 1) v =
          t.eval n >>= fun a => Run.ofExcept (a.transform f line) := by
        simp only [Part.run, Tree.eval, isPrefix]
      refine ⟨fun v => ?_, fun _ _ _ step v => ?_⟩
      · rw [whole]
        exact limits.bind (bounded.eval only (.operand isPrefix)) fun a m' _ =>
          limits.ofExcept _ m'
      · cases step with
        | expression here =>
          cases here with
          | operand =>
            refine ⟨n, Nat.le_refl n, .zero, ?_⟩
            rw [whole]
            exact limits.leads_head fun a m' _ => limits.ofExcept _ m'
    | step s =>
      refine ⟨fun v => ?_, fun _ _ _ step => ?_⟩
      · simp only [Part.run, Tree.eval, isPrefix]
        cases t with
        | reference at' x =>
          refine limits.bind (limits.lookup x line m) fun a m' _ => ?_
          refine limits.bind (limits.ofExcept _ m') fun b m'' _ => ?_
          refine limits.bind (limits.write fun stack assigned => ?_) fun _ m₁ _ => limits.pure b m₁
          exact limits.step line at' op s x m'' b stack only.here isPrefix assigned
        | _ => exact limits.fail _ m
      · cases step with
        | expression here =>
          cases here with
          | operand prefixed => cases isPrefix.symm.trans prefixed

theorem binary (only : (Part.tree (.binary line op l r)).Only A m) :
    (Part.tree (.binary line op l r)).Stays R n m := by
  cases isOperator : op.operation with
  | none =>
    refine ⟨fun v => ?_, fun _ _ _ step => ?_⟩
    · simp only [Part.run, Tree.eval, isOperator]
      exact limits.fail _ m
    · cases step with
      | expression here =>
        cases here with
        | lhs isSome | rhs isSome =>
          rw [isOperator] at isSome
          cases isSome
  | some operation =>
    have isSome : op.operation.isSome = true := Option.isSome_iff_exists.mpr ⟨_, isOperator⟩
    let last (a b : Value) : Run Value := do
      Run.ofExcept (a.apply operation (← machine).mode b line)
    have whole (v : Value) : (Part.tree (.binary line op l r)).run (n + 1) v =
        l.eval n >>= fun a => r.eval n >>= last a := by
      simp only [Part.run, Tree.eval, isOperator, last]
    have keeps (a b : Value) (m : Machine) : Keeps R (last a b) m := limits.ofExcept _ m
    have behind (a : Value) (m' : Machine) (left : l.eval n m = .ok a m') :
        Keeps R (r.eval n >>= last a) m' :=
      limits.bind (bounded.eval only (.rhs isSome (ends_of_ok left))) fun b m'' _ => keeps a b m''
    refine ⟨fun v => ?_, fun _ _ _ step v => ⟨n, Nat.le_refl n, .zero, ?_⟩⟩ <;> rw [whole]
    · exact limits.bind (bounded.eval only (.lhs isSome)) behind
    · cases step with
      | expression here =>
        cases here with
        | lhs => exact limits.leads_head behind
        | rhs _ left =>
          exact .behind (grows_eval l) left (limits.leads_head fun b m'' _ => keeps _ b m'')

theorem assignment (only : (Part.tree (.assign line op x t)).Only A m) :
    (Part.tree (.assign line op x t)).Stays R n m := by
  have writes (v : Value) (m' : Machine) : Keeps R (do Run.assign x v line; return v) m' :=
    limits.bind (limits.write fun stack assigned =>
      limits.assign line op x t m' v stack only.here assigned) fun _ m'' _ => limits.pure v m''
  cases isOperator : op.operation with
  | none =>
    have whole (v : Value) : (Part.tree (.assign line op x t)).run (n + 1) v =
        Run.declare x >>= fun _ => t.eval n >>= fun v => do Run.assign x v line; return v := by
      simp only [Part.run, Tree.eval, isOperator]
    refine ⟨fun v => ?_, fun _ _ _ step v => ⟨n, Nat.le_refl n, .zero, ?_⟩⟩ <;> rw [whole]
    · have declared : Keeps R (Run.declare x) m := limits.declare line op x t m only.here
      refine limits.bind declared fun _ m' here => ?_
      cases here
      exact limits.bind (bounded.eval only (.value isOperator)) fun v m'' _ => writes v m''
    · cases step with
      | expression here =>
        cases here with
        | value => exact .behind_ok rfl (limits.leads_head fun v m' _ => writes v m')
        | change isSome =>
          rw [isOperator] at isSome
          cases isSome
  | some operation =>
    have isSome : op.operation.isSome = true := Option.isSome_iff_exists.mpr ⟨_, isOperator⟩
    let last (b : Value) : Run Value := do
      let a ← Run.lookup x line
      let v ← Run.ofExcept (a.apply operation (← machine).mode b line)
      Run.assign x v line
      return v
    have whole (v : Value) : (Part.tree (.assign line op x t)).run (n + 1) v =
        Run.lookup x line >>= fun _ => t.eval n >>= last := by
      simp only [Part.run, Tree.eval, isOperator, last]
    have keeps (b : Value) (m : Machine) : Keeps R (last b) m := by
      refine limits.bind (limits.lookup x line m) fun a m' _ => .machine ?_
      exact limits.bind (limits.ofExcept (a.apply operation m'.mode b line) m') fun v m'' _ =>
        writes v m''
    refine ⟨fun v => ?_, fun _ _ _ step v => ⟨n, Nat.le_refl n, .zero, ?_⟩⟩ <;> rw [whole]
    · refine limits.bind (limits.lookup x line m) fun a m' looked => ?_
      obtain ⟨bound, rfl⟩ := find?_of_lookup looked
      have bound := Option.isSome_iff_exists.mpr ⟨_, bound⟩
      exact limits.bind (bounded.eval only (.change isSome bound)) fun b m'' _ => keeps b m''
    · cases step with
      | expression here =>
        cases here with
        | value plain => cases isOperator.symm.trans plain
        | change _ bound =>
          obtain ⟨v, bound⟩ := Option.isSome_iff_exists.mp bound
          exact .behind_ok (lookup_of_find? bound) (limits.leads_head fun b m' _ => keeps b m')

theorem call {args : List Tree} (only : (Part.tree (.call line x args)).Only A m) :
    (Part.tree (.call line x args)).Stays R n m := by
  have whole (v : Value) : (Part.tree (.call line x args)).run (n + 1) v =
      Run.lookup x line >>= fun callee => evalArguments n args >>= Run.invoke x line n callee := by
    simp only [Part.run, Tree.eval]
    rfl
  have keeps (callee : Value) (values : List Value) (m' : Machine)
      (found : m.stack.find? x = some callee) (read : evalArguments n args m = .ok values m') :
      Keeps R (Run.invoke x line n callee values) m' := by
    have read : Run.Ends (fun n => evalArguments n args) m (.ok values m') := ends_of_ok read
    cases callee with
    | builtin b => exact limits.checkArity fun _ => limits.ofExcept _ m'
    | function defined params body =>
      refine limits.checkArity fun arity => limits.inCall ?_
      exact bounded n (Nat.le_refl n) (.tree body) _ .zero (only.enter (.call found read arity))
    | int | float | rational | date => exact limits.fail _ m'
  refine ⟨fun v => ?_, fun _ _ _ step v => ?_⟩
  · rw [whole]
    refine limits.bind (limits.lookup x line m) fun callee m' looked => ?_
    obtain ⟨found, rfl⟩ := find?_of_lookup looked
    refine limits.bind ?_ fun values m'' read => keeps callee values m'' found read
    have isSome := Option.isSome_iff_exists.mpr ⟨_, found⟩
    exact limits.allArguments bounded only isSome
  · cases step with
    | @expression _ arg _ _ here =>
      cases here with
      | @argument _ _ before after _ _ _ _ bound read =>
        have each : (Part.tree (.call line x ((before ++ [arg]) ++ (after ++ [])))).Only A m := by
          rw [List.append_assoc, List.append_nil]
          exact only
        obtain ⟨k, less, leads⟩ := limits.leads_argument read fun k less v m'' here =>
          limits.arguments bounded _ each less bound (ends_arguments_concat read here)
        obtain ⟨callee, found⟩ := Option.isSome_iff_exists.mp bound
        refine ⟨k, less, .zero, ?_⟩
        rw [whole]
        refine .behind_ok (lookup_of_find? found) (limits.leads_first leads ?_)
        exact fun values m'' read => keeps callee values m'' found read

theorem display (only : (Part.tree (.display line t)).Only A m) :
    (Part.tree (.display line t)).Stays R n m := by
  have whole (v : Value) : (Part.tree (.display line t)).run (n + 1) v =
      t.eval n >>= fun v => do Run.display v; return v := by
    simp only [Part.run, Tree.eval]
  have keeps (v : Value) (m' : Machine) : Keeps R (do Run.display v; return v) m' :=
    limits.bind (limits.displayed v m') fun _ m'' _ => limits.pure v m''
  refine ⟨fun v => ?_, fun _ _ _ step v => ⟨n, Nat.le_refl n, .zero, ?_⟩⟩ <;> rw [whole]
  · exact limits.bind (bounded.eval only .shown) fun v m' _ => keeps v m'
  · cases step with
    | expression here =>
      cases here with
      | shown => exact limits.leads_head fun v m' _ => keeps v m'

theorem conditional {otherwise : Option Tree}
    (only : (Part.tree (.conditional line t l otherwise)).Only A m) :
    (Part.tree (.conditional line t l otherwise)).Stays R n m := by
  have whole (v : Value) : (Part.tree (.conditional line t l otherwise)).run (n + 1) v =
      evalCondition n t >>= Tree.branch l otherwise n := by
    simp only [Part.run, Tree.eval]
    rfl
  have behind (holds : Bool) (m' : Machine) (read : evalCondition n t m = .ok holds m') :
      Keeps R (Tree.branch l otherwise n holds) m' := by
    have read : Run.Ends (fun n => evalCondition n t) m (.ok holds m') := ends_of_ok read
    cases holds with
    | true => exact bounded.next only (.positive read) .zero
    | false =>
      cases otherwise with
      | none => exact limits.pure _ m'
      | some u => exact bounded.next only (.otherwise read) .zero
  refine ⟨fun v => ?_, fun _ _ _ step v => ?_⟩
  · rw [whole]
    exact limits.bind (limits.condition bounded only .condition) behind
  · rw [whole]
    cases step with
    | expression here =>
      cases here with
      | condition =>
        obtain ⟨k, less, leads⟩ := limits.leads_condition t m n
        exact ⟨k, less, .zero, limits.leads_first leads behind⟩
    | positive holds =>
      exact ⟨n, Nat.le_refl n, .zero, .behind (grows_condition t) holds (limits.leads_refl _ _)⟩
    | otherwise fails =>
      exact ⟨n, Nat.le_refl n, .zero, .behind (grows_condition t) fails (limits.leads_refl _ _)⟩

end

section
variable (bounded : Part.Bounded A R n) {t : Tree}

include bounded

theorem tree (only : (Part.tree t).Only A m) : (Part.tree t).Stays R n m := by
  cases t with
  | unary => exact limits.unary bounded only
  | binary => exact limits.binary bounded only
  | assign => exact limits.assignment bounded only
  | call => exact limits.call bounded only
  | display => exact limits.display bounded only
  | conditional => exact limits.conditional bounded only
  | body line ts =>
    have whole (v : Value) : (Part.tree (.body line ts)).run (n + 1) v =
        (Part.row ts).run n .zero := by
      simp only [Part.run, Tree.eval]
    refine ⟨fun v => ?_, fun _ _ _ step v => ⟨n, Nat.le_refl n, .zero, ?_⟩⟩ <;> rw [whole]
    · exact bounded.next only .body .zero
    · cases step with
      | body => exact limits.leads_refl _ m
      | expression here => cases here
  | whileLoop line guard body =>
    have whole (v : Value) : (Part.tree (.whileLoop line guard body)).run (n + 1) v =
        (Part.loop guard body none).run n .zero := by
      simp only [Part.run, Tree.eval]
    refine ⟨fun v => ?_, fun _ _ _ step v => ⟨n, Nat.le_refl n, .zero, ?_⟩⟩ <;> rw [whole]
    · exact bounded.next only .whileLoop .zero
    · cases step with
      | whileLoop => exact limits.leads_refl _ m
      | expression here => cases here
  | forLoop line init guard step body =>
    have whole (v : Value) : (Part.tree (.forLoop line init guard step body)).run (n + 1) v =
        init.eval n >>= fun _ => (Part.loop guard body (some step)).run n .zero := by
      simp only [Part.run, Tree.eval]
    have behind (v : Value) (m' : Machine) (first : init.eval n m = .ok v m') :
        Keeps R ((Part.loop guard body (some step)).run n .zero) m' :=
      bounded.next only (.forLoop (ends_of_ok first)) .zero
    refine ⟨fun v => ?_, fun _ _ _ step v => ⟨n, Nat.le_refl n, .zero, ?_⟩⟩ <;> rw [whole]
    · exact limits.bind (bounded.eval only .init) behind
    · cases step with
      | expression here =>
        cases here with
        | init => exact limits.leads_head behind
      | forLoop first => exact .behind (grows_eval init) first (limits.leads_refl _ _)
  | constant line v =>
    refine .of_last (fun v => ?_) (by rintro _ _ _ ⟨⟨⟩⟩)
    simp only [Part.run, Tree.eval]
    exact limits.pure v m
  | reference line x =>
    refine .of_last (fun v => ?_) (by rintro _ _ _ ⟨⟨⟩⟩)
    simp only [Part.run, Tree.eval]
    exact limits.lookup x line m
  | define line x params body =>
    refine .of_last (fun v => ?_) (by rintro _ _ _ ⟨⟨⟩⟩)
    simp only [Part.run, Tree.eval]
    exact limits.define line x params body m only.here
  | setMode line mode =>
    refine .of_last (fun v => ?_) (by rintro _ _ _ ⟨⟨⟩⟩)
    simp only [Part.run, Tree.eval]
    exact limits.setMode m mode
  | toggleProgrammer line =>
    refine .of_last (fun v => ?_) (by rintro _ _ _ ⟨⟨⟩⟩)
    simp only [Part.run, Tree.eval]
    exact limits.toggle m _
  | exit line =>
    refine .of_last (fun v => ?_) (by rintro _ _ _ ⟨⟨⟩⟩)
    simp only [Part.run, Tree.eval]
    exact limits.exit line m only.here

theorem row {ts : List Tree} (only : (Part.row ts).Only A m) : (Part.row ts).Stays R n m := by
  cases ts with
  | nil =>
    refine .of_last (fun v => ?_) (by rintro _ _ _ ⟨⟨⟩⟩)
    simp only [Part.run, evalBody]
    exact limits.pure v m
  | cons t ts =>
    cases exiting : m.exiting with
    | true =>
      refine ⟨fun v => ?_, fun _ _ _ step => ?_⟩
      · unfold Keeps
        rw [Part.run, evalBody_of_exiting exiting]
        exact limits.refl m
      · cases step with
        | statement running | rest running => cases exiting.symm.trans running
        | expression here => cases here
    | false =>
      have whole (v : Value) : (Part.row (t :: ts)).run (n + 1) v m =
          (t.eval n >>= fun v => evalBody n v ts) m := evalBody_of_running exiting n
      have behind (v : Value) (m' : Machine) (first : t.eval n m = .ok v m') :
          Keeps R (evalBody n v ts) m' := bounded.next only (.rest exiting (ends_of_ok first)) v
      refine ⟨fun v => ?_, fun _ _ _ step v => ?_⟩
      · have first : Keeps R (t.eval n) m := bounded.next only (.statement exiting) .zero
        unfold Keeps
        rw [whole]
        exact limits.bind first behind
      · cases step with
        | statement =>
          exact ⟨n, Nat.le_refl n, .zero, (limits.leads_head behind).of_eq (whole v)⟩
        | @rest _ _ w _ _ _ first =>
          refine ⟨n, Nat.le_refl n, w, .of_eq ?_ (whole v)⟩
          exact .behind (grows_eval t) first (limits.leads_refl _ _)
        | expression here => cases here

theorem loop {guard body : Tree} {step : Option Tree}
    (only : (Part.loop guard body step).Only A m) : (Part.loop guard body step).Stays R n m := by
  cases exiting : m.exiting with
  | true =>
    refine ⟨fun v => ?_, fun _ _ _ step => ?_⟩
    · unfold Keeps
      rw [Part.run, evalLoop_of_exiting exiting]
      exact limits.refl m
    · cases step with
      | turn running | again running | stepped running => cases exiting.symm.trans running
      | expression here =>
        cases here with
        | guard running | step running => cases exiting.symm.trans running
  | false =>
    have behindTurn (v : Value) (m' m'' : Machine)
        (holds : Run.Ends (fun n => evalCondition n guard) m (.ok true m'))
        (turn : body.eval n m' = .ok v m'') :
        Keeps R (behindBody guard body step n v) m'' := by
      have turn : body.Ends m' (.ok v m'') := ends_of_ok turn
      cases step with
      | none => exact bounded.next only (.again exiting holds turn) v
      | some u =>
        refine limits.bind (bounded.eval only (.step exiting holds turn)) fun w m₁ stepped => ?_
        exact bounded.next only (.stepped exiting holds turn (ends_of_ok stepped)) v
    have behind (v : Value) (holds : Bool) (m' : Machine)
        (read : evalCondition n guard m = .ok holds m') :
        Keeps R (behindGuard guard body step v n holds) m' := by
      cases holds with
      | false => exact limits.pure v m'
      | true =>
        have holds : Run.Ends (fun n => evalCondition n guard) m (.ok true m') := ends_of_ok read
        have turn : Keeps R (body.eval n) m' := bounded.next only (.turn exiting holds) .zero
        exact limits.bind turn fun w m'' here => behindTurn w m' m'' holds here
    refine ⟨fun v => ?_, fun _ _ _ step v => ?_⟩
    · unfold Keeps
      rw [Part.run_loop exiting]
      exact limits.bind (limits.condition bounded only (.guard exiting)) (behind v)
    · cases step with
      | turn _ holds =>
        refine ⟨n, Nat.le_refl n, .zero, .of_eq ?_ (Part.run_loop exiting n v)⟩
        exact .behind (grows_condition guard) holds (limits.leads_head fun w m'' here =>
          behindTurn w _ m'' holds here)
      | @again _ _ w _ _ _ _ holds turn =>
        refine ⟨n, Nat.le_refl n, w, .of_eq ?_ (Part.run_loop exiting n v)⟩
        exact .behind (grows_condition guard) holds
          (.behind (grows_eval body) turn (limits.leads_refl _ _))
      | @stepped _ _ u w _ _ _ _ _ _ holds turn stepped =>
        refine ⟨n, Nat.le_refl n, w, .of_eq ?_ (Part.run_loop exiting n v)⟩
        refine .behind (grows_condition guard) holds (.behind (grows_eval body) turn ?_)
        exact .behind (grows_eval u) stepped (limits.leads_refl _ _)
      | expression here =>
        cases here with
        | guard =>
          obtain ⟨k, less, leads⟩ := limits.leads_condition guard m n
          exact ⟨k, less, .zero, (limits.leads_first leads (behind v)).of_eq
            (Part.run_loop exiting n v)⟩
        | @step _ _ u w _ _ _ _ holds turn =>
          refine ⟨n, Nat.le_refl n, .zero, .of_eq ?_ (Part.run_loop exiting n v)⟩
          refine .behind (grows_condition guard) holds (.behind (grows_eval body) turn ?_)
          refine limits.leads_head fun w' m₁ stepped => ?_
          exact bounded.next only (.stepped exiting holds turn (ends_of_ok stepped)) w

theorem stays {part : Part} (only : part.Only A m) : part.Stays R n m := by
  cases part with
  | tree t => exact limits.tree bounded only
  | row ts => exact limits.row bounded only
  | loop guard body step => exact limits.loop bounded only

end

theorem leaves_trans {ε β : Type} {o : Outcome ε α} {o' : Outcome ε β} (first : o.Leaves (R m))
    (answered : o ≠ .outOfFuel) (behind : o.Leaves fun m' => o'.Leaves (R m')) :
    o'.Leaves (R m) := by
  have joined (m' : Machine) (first : R m m') (behind : o'.Leaves (R m')) : o'.Leaves (R m) :=
    behind.mono fun m'' => limits.trans m m' m'' first
  cases o with
  | ok a m' => exact joined m' first behind
  | error e m' => exact joined m' first behind
  | outOfFuel => exact absurd rfl answered

/-- What is related is so after the same number of calls was left. -/
theorem leave (related : R m m') (n : Nat) : R (m.leave n) (m'.leave n) := by
  induction n with
  | zero => exact related
  | succ n ih =>
    rw [Machine.leave_succ, Machine.leave_succ]
    exact limits.pop _ _ ih

theorem bounded (n : Nat) : Part.Bounded A R n := by
  induction n with
  | zero =>
    intro k less part m v _
    obtain rfl := Nat.le_zero.mp less
    cases part <;> trivial
  | succ n ih =>
    intro k less part m v only
    rcases Nat.le_or_eq_of_le_succ less with less | rfl
    · exact ih k less part m v only
    · exact (limits.stays ih only).keeps v

section
variable {part part' last : Part} {t : Tree} {mₗ : Machine} {outer : List Tree}
  {calls : List TraceEntry} {v : Value} {o : Outcome Failure Value}

theorem run (only : part.Only A m) (n : Nat) (v : Value) : Keeps R (part.run n v) m :=
  limits.bounded n n (Nat.le_refl n) part m v only

omit limits in
theorem ends_of_keeps {x : Nat → Run α} {o : Outcome Failure α} (each : ∀ n, Keeps R (x n) m)
    (ended : Run.Ends x m o) : o.Leaves (R m) := by
  obtain ⟨-, n, rfl⟩ := ended
  exact each n

theorem ends (only : part.Only A m) (ended : part.Ends v m o) : o.Leaves (R m) :=
  ends_of_keeps (fun n => limits.run only n v) (Part.ends_iff_run.mp ended)

theorem ends_tree (only : (Part.tree t).Only A m) (ended : t.Ends m o) : o.Leaves (R m) :=
  limits.ends only (v := .zero) ended

theorem behind (only : part.Only A m) (step : part.Next m part' m' outer) {m'' : Machine}
    {w : Value} (ended : part'.Ends v m' (.ok w m'')) (before : R m m') : R m m'' :=
  limits.trans m m' m'' before (limits.ends (only.next step) ended)

theorem behindCondition (only : part.Only A m) (here : part.Evaluates m t m') {m'' : Machine}
    {holds : Bool} (ended : Run.Ends (fun n => evalCondition n t) m' (.ok holds m''))
    (before : R m m') : R m m'' :=
  limits.trans m m' m'' before
    (ends_of_keeps (fun n => limits.condition (limits.bounded n) only here) ended)

theorem evaluates (only : part.Only A m) (here : part.Evaluates m t m') : R m m' := by
  have start := limits.refl m
  cases here with
  | operand | lhs | change | init | condition | shown | guard => exact start
  | rhs isOperator left =>
    exact limits.behind only (.expression (.lhs isOperator)) (v := .zero) left start
  | value => exact limits.declare _ _ _ _ m only.here
  | argument bound read =>
    exact ends_of_keeps (fun n => limits.arguments (limits.bounded n) [] only (Nat.le_refl n)
      bound (ends_arguments_nil.mpr rfl)) read
  | step running holds turn =>
    have related := limits.behindCondition only (.guard running) holds start
    exact limits.behind only (.turn running holds) (v := .zero) turn related

theorem comesNext (only : part.Only A m) (step : part.Next m part' m' outer) : R m m' := by
  have start := limits.refl m
  cases step with
  | expression here => exact limits.evaluates only here
  | body | statement | whileLoop => exact start
  | rest running first => exact limits.behind only (.statement running) (v := .zero) first start
  | positive holds | otherwise holds => exact limits.behindCondition only .condition holds start
  | forLoop first => exact limits.behind only (.expression .init) (v := .zero) first start
  | turn running holds => exact limits.behindCondition only (.guard running) holds start
  | again running holds turn =>
    have related := limits.behindCondition only (.guard running) holds start
    exact limits.behind only (.turn running holds) (v := .zero) turn related
  | stepped running holds turn stepped =>
    have related := limits.behindCondition only (.guard running) holds start
    have related := limits.behind only (.turn running holds) (v := .zero) turn related
    exact limits.behind only (.expression (.step running holds turn)) (v := .zero) stepped related

/-- From its start up to a part that it comes to a run stays within the relation, once the calls
between them are left. -/
theorem comesTo (only : part.Only A m) (comes : part.ComesTo m calls last mₗ) :
    R m (mₗ.leave calls.length) := by
  induction comes with
  | here => exact limits.refl _
  | next step _ ih => exact limits.trans _ _ _ (limits.comesNext only step) (ih (only.next step))
  | enter entered _ ih =>
    have inside := limits.pop _ _ (ih (only.enter entered))
    rw [List.length_append, List.length_singleton, Machine.leave_succ]
    cases entered with
    | call callee read =>
      have isSome := Option.isSome_iff_exists.mpr ⟨_, callee⟩
      refine limits.trans _ _ _ ?_ inside
      exact ends_of_keeps (fun n => limits.allArguments (limits.bounded n) only isSome) read

theorem leads {n : Nat} (only : part.Only A m) (comes : part.ComesTo m calls last mₗ)
    (answered : part.run n v m ≠ .outOfFuel) :
    ∃ k w, last.run k w mₗ ≠ .outOfFuel ∧ (last.run k w mₗ).Leaves fun m' =>
      (part.run n v m).Leaves (R (m'.leave calls.length)) := by
  induction comes generalizing n v with
  | here => exact ⟨n, v, answered, (limits.leads_refl _ _ answered).2.2⟩
  | next step _ ih =>
    cases n with
    | zero => exact absurd Part.run_zero answered
    | succ n =>
      obtain ⟨k, -, w, leads⟩ := (limits.stays (limits.bounded n) only).leads _ _ _ step v
      obtain ⟨here, -, left⟩ := leads answered
      obtain ⟨j, u, there, behind⟩ := ih (only.next step) here
      exact ⟨j, u, there, behind.mono fun m' related => limits.leaves_trans related here left⟩
  | @enter part part' last m m' mₗ calls entry entered _ ih =>
    cases n with
    | zero => exact absurd Part.run_zero answered
    | succ n =>
      obtain ⟨here, same⟩ := entered.run_eq answered
      obtain ⟨j, u, there, behind⟩ := ih (only.enter entered) here
      refine ⟨j, u, there, behind.mono fun m' related => ?_⟩
      rw [List.length_append, List.length_singleton, Machine.leave_succ, same]
      cases e : part'.run n v _ with
      | ok a m'' =>
        rw [e] at related
        exact limits.pop _ m'' related
      | error f m'' =>
        rw [e] at related
        exact limits.pop _ m'' related
      | outOfFuel => trivial

theorem leads_ends {o' : Outcome Failure Value} (only : part.Only A m)
    (comes : part.ComesTo m calls (.tree t) mₗ) (inside : t.Ends mₗ o')
    (whole : part.Ends v m o) : o'.Leaves fun m' => o.Leaves (R (m'.leave calls.length)) := by
  obtain ⟨answered, n, rfl⟩ := Part.ends_iff_run.mp whole
  obtain ⟨k, w, here, behind⟩ := limits.leads only comes answered
  have same : t.eval k mₗ = o' := Tree.Ends.unique ⟨here, k, rfl⟩ inside
  exact same ▸ behind

/-- A run stays within the relation up to any machine that it passes, and from there to its end,
once the calls in progress there are left. -/
theorem passes (only : part.Only A m) (passed : part.Passes m m') :
    ∃ n, R m (m'.leave n) ∧ ∀ v o, part.Ends v m o → o.Leaves (R (m'.leave n)) := by
  cases passed with
  | @part last _ calls comes =>
    refine ⟨calls.length, limits.comesTo only comes, fun v o whole => ?_⟩
    obtain ⟨answered, n, rfl⟩ := Part.ends_iff_run.mp whole
    obtain ⟨k, w, here, behind⟩ := limits.leads only comes answered
    have step (m'' : Machine) (inside : R m' m'')
        (behind : (part.run n v m).Leaves (R (m''.leave calls.length))) :
        (part.run n v m).Leaves (R (m'.leave calls.length)) :=
      behind.mono fun _ => limits.trans _ _ _ (limits.leave inside _)
    have inside := limits.run (only.comesTo comes) k w
    unfold Keeps at inside
    cases e : last.run k w m' with
    | ok a m'' | error a m'' =>
      rw [e] at inside behind
      exact step m'' inside behind
    | outOfFuel => exact absurd e here
  | @answer t w mₗ _ calls comes ended =>
    have inside := limits.ends_tree (only.comesTo comes) ended
    refine ⟨calls.length, ?_, fun v o whole => limits.leads_ends only comes ended whole⟩
    exact limits.trans _ _ _ (limits.comesTo only comes) (limits.leave inside _)
  | @failure t f mₗ _ calls comes ended =>
    have inside := limits.ends_tree (only.comesTo comes) ended
    refine ⟨calls.length, ?_, fun v o whole => limits.leads_ends only comes ended whole⟩
    exact limits.trans _ _ _ (limits.comesTo only comes) (limits.leave inside _)

end

omit limits in
theorem any : Limits (fun _ => True) fun _ _ => True := by
  constructor <;> intros <;> trivial

end Limits

/-- A part needs the parts that it comes to: it only answers if they do, and not beyond an error of
theirs. -/
theorem Part.Next.needs {part part' : Part} {m m' : Machine} {outer : List Tree}
    (h : part.Next m part' m' outer) (n : Nat) (v : Value) :
    ∃ k ≤ n, ∃ w, part.run (n + 1) v m ≠ .outOfFuel → part'.run k w m' ≠ .outOfFuel ∧
      ∀ f m'', part'.run k w m' = .error f m'' → part.run (n + 1) v m = .error f m'' := by
  have only : part.Only (fun _ => True) m := fun _ _ _ _ => trivial
  obtain ⟨k, less, w, leads⟩ := (Limits.any.stays (Limits.any.bounded n) only).leads _ _ _ h v
  exact ⟨k, less, w, fun answered => ⟨(leads answered).1, (leads answered).2.1⟩⟩

end Calculator
