import Calculator.Eval.Basic

set_option autoImplicit false

namespace Calculator

namespace Run

section
variable {α β : Type} {x : Run α} {f : α → Run β} {m m' : Machine}

theorem bind_of_ok {a : α} (h : x m = .ok a m') : (x >>= f) m = f a m' := by
  change Run.bind x f m = _
  unfold Run.bind
  rw [h]

theorem bind_of_error {e : Failure} (h : x m = .error e m') : (x >>= f) m = .error e m' := by
  change Run.bind x f m = _
  unfold Run.bind
  rw [h]

theorem bind_of_outOfFuel (h : x m = .outOfFuel) : (x >>= f) m = .outOfFuel := by
  change Run.bind x f m = _
  unfold Run.bind
  rw [h]

end

/-- A relation that all steps of an evaluation have with themselves, that composition keeps, and
that a computation without fuel has with every other. -/
structure Congruence (R : {α : Type} → Run α → Run α → Prop) : Prop where
  outOfFuel {α : Type} (y : Run α) : R Run.outOfFuel y
  pure {α : Type} (a : α) : R (Pure.pure a) (Pure.pure a)
  bind {α β : Type} {x x' : Run α} {f f' : α → Run β} :
    R x x' → (∀ a, R (f a) (f' a)) → R (x >>= f) (x' >>= f')
  ofExcept {α : Type} (x : Except EvalError α) : R (Run.ofExcept x) (Run.ofExcept x)
  mode {α : Type} (k : NumericMode → Run α) : (∀ a, R (k a) (k a)) →
    R (machine >>= fun m => k m.mode) (machine >>= fun m => k m.mode)
  programmer {α : Type} (k : Bool → Run α) : (∀ a, R (k a) (k a)) →
    R (machine >>= fun m => k m.programmer) (machine >>= fun m => k m.programmer)
  exiting {α : Type} {x x' y y' : Run α} : R x x' → R y y' →
    R (machine >>= fun m => if m.exiting then x else y)
      (machine >>= fun m => if m.exiting then x' else y')
  setMode (a : NumericMode) :
    R (update fun m => { m with mode := a }) (update fun m => { m with mode := a })
  toggle : R (update fun m => { m with programmer := !m.programmer })
    (update fun m => { m with programmer := !m.programmer })
  exit : R (update fun m => { m with exiting := true })
    (update fun m => { m with exiting := true })
  lookup (name : String) (line : Position) : R (Run.lookup name line) (Run.lookup name line)
  declare (name : String) : R (Run.declare name) (Run.declare name)
  assign (name : String) (v : Value) (line : Position) :
    R (Run.assign name v line) (Run.assign name v line)
  bindGlobal (name : String) (v : Value) : R (Run.bindGlobal name v) (Run.bindGlobal name v)
  display (v : Value) : R (Run.display v) (Run.display v)
  inCall (entry : TraceEntry) (frame : Frame) {x x' : Run Value} :
    R x x' → R (Run.inCall entry frame x) (Run.inCall entry frame x')

/-- All parts of an evaluation with fuel `n` are related to those with fuel `m`. -/
structure Related (R : {α : Type} → Run α → Run α → Prop) (n m : Nat) : Prop where
  eval (t : Tree) : R (t.eval n) (t.eval m)
  body (last : Value) (ts : List Tree) : R (evalBody n last ts) (evalBody m last ts)
  condition (guard : Tree) : R (evalCondition n guard) (evalCondition m guard)
  loop (guard body : Tree) (step : Option Tree) (last : Value) :
    R (evalLoop n guard body step last) (evalLoop m guard body step last)
  arguments (ts : List Tree) : R (evalArguments n ts) (evalArguments m ts)

namespace Congruence

variable {R : {α : Type} → Run α → Run α → Prop}

theorem fail (h : Congruence R) {α : Type} (e : EvalError) :
    R (Run.fail e : Run α) (Run.fail e) :=
  h.ofExcept (.error e)

theorem checkArity (h : Congruence R) (name : String) (given expected : Nat) (line : Position) :
    R (Calculator.checkArity name given expected line)
      (Calculator.checkArity name given expected line) := by
  unfold Calculator.checkArity
  split
  · exact h.pure ()
  · exact h.fail _

variable {n m : Nat}

theorem unary (h : Congruence R) (ih : Related R n m) (line : Position) (op : Kind)
    (operand : Tree) :
    R ((Tree.unary line op operand).eval (n + 1)) ((Tree.unary line op operand).eval (m + 1)) := by
  simp only [Tree.eval]
  split
  · exact h.fail _
  · exact h.bind (ih.eval operand) fun a => h.ofExcept _
  · split
    · refine h.bind (h.lookup _ _) fun a => h.bind (h.ofExcept _) fun b => ?_
      exact h.bind (h.assign _ _ _) fun _ => h.pure b
    · exact h.fail _

theorem binary (h : Congruence R) (ih : Related R n m) (line : Position) (op : Kind)
    (lhs rhs : Tree) :
    R ((Tree.binary line op lhs rhs).eval (n + 1))
      ((Tree.binary line op lhs rhs).eval (m + 1)) := by
  simp only [Tree.eval]
  cases op.operation with
  | none => exact h.fail _
  | some operation =>
    refine h.bind (ih.eval lhs) fun a => h.bind (ih.eval rhs) fun b => ?_
    exact h.mode (fun mode => Run.ofExcept (a.apply operation mode b line)) fun _ => h.ofExcept _

theorem assignment (h : Congruence R) (ih : Related R n m) (line : Position) (op : Kind)
    (target : String) (value : Tree) :
    R ((Tree.assign line op target value).eval (n + 1))
      ((Tree.assign line op target value).eval (m + 1)) := by
  simp only [Tree.eval]
  cases op.operation with
  | none =>
    refine h.bind (h.declare _) fun _ => h.bind (ih.eval value) fun v => ?_
    exact h.bind (h.assign _ _ _) fun _ => h.pure v
  | some operation =>
    refine h.bind (h.lookup _ _) fun _ => h.bind (ih.eval value) fun b => ?_
    refine h.bind (h.lookup _ _) fun a => ?_
    refine h.mode
      (fun mode => do
        let v ← Run.ofExcept (a.apply operation mode b line)
        Run.assign target v line
        return v)
      fun mode => h.bind (h.ofExcept _) fun v => ?_
    exact h.bind (h.assign _ _ _) fun _ => h.pure v

theorem call (h : Congruence R) (ih : Related R n m) (line : Position) (name : String)
    (args : List Tree) :
    R ((Tree.call line name args).eval (n + 1)) ((Tree.call line name args).eval (m + 1)) := by
  simp only [Tree.eval]
  refine h.bind (h.lookup _ _) fun callee => h.bind (ih.arguments args) fun values => ?_
  cases callee with
  | builtin b => exact h.bind (h.checkArity _ _ _ _) fun _ => h.ofExcept _
  | function defined params body =>
    exact h.bind (h.checkArity _ _ _ _) fun _ => h.inCall _ _ (ih.eval body)
  | int | float | rational | date => exact h.fail _

theorem tree (h : Congruence R) (ih : Related R n m) (t : Tree) :
    R (t.eval (n + 1)) (t.eval (m + 1)) := by
  cases t with
  | body line ts => simpa only [Tree.eval] using ih.body .zero ts
  | constant line v => simpa only [Tree.eval] using h.pure v
  | reference line name => simpa only [Tree.eval] using h.lookup name line
  | unary line op operand => exact h.unary ih line op operand
  | binary line op lhs rhs => exact h.binary ih line op lhs rhs
  | assign line op target value => exact h.assignment ih line op target value
  | whileLoop line guard body => simpa only [Tree.eval] using ih.loop guard body none .zero
  | forLoop line init guard step body =>
    simp only [Tree.eval]
    exact h.bind (ih.eval init) fun _ => ih.loop guard body (some step) .zero
  | conditional line guard positive otherwise =>
    simp only [Tree.eval]
    refine h.bind (ih.condition guard) fun holds => ?_
    cases holds with
    | true => exact ih.eval positive
    | false =>
      cases otherwise with
      | none => exact h.pure _
      | some t => exact ih.eval t
  | define line name params body =>
    simp only [Tree.eval]
    exact h.bind (h.bindGlobal _ _) fun _ => h.pure _
  | call line name args => exact h.call ih line name args
  | display line expression =>
    simp only [Tree.eval]
    exact h.bind (ih.eval expression) fun v => h.bind (h.display v) fun _ => h.pure v
  | setMode line mode =>
    simp only [Tree.eval]
    exact h.bind (h.setMode mode) fun _ => h.pure _
  | toggleProgrammer line =>
    simp only [Tree.eval]
    exact h.bind h.toggle fun _ =>
      h.programmer (fun flag => return Value.boolean flag) fun _ => h.pure _
  | exit line =>
    simp only [Tree.eval]
    exact h.bind h.exit fun _ => h.pure _

theorem body (h : Congruence R) (ih : Related R n m) (last : Value) (ts : List Tree) :
    R (evalBody (n + 1) last ts) (evalBody (m + 1) last ts) := by
  cases ts with
  | nil => simpa only [evalBody] using h.pure last
  | cons statement rest =>
    simp only [evalBody]
    exact h.exiting (h.pure last) (h.bind (ih.eval statement) fun v => ih.body v rest)

theorem condition (h : Congruence R) (ih : Related R n m) (guard : Tree) :
    R (evalCondition (n + 1) guard) (evalCondition (m + 1) guard) := by
  simp only [evalCondition]
  exact h.bind (ih.eval guard) fun v => h.ofExcept _

theorem loop (h : Congruence R) (ih : Related R n m) (guard body : Tree) (step : Option Tree)
    (last : Value) :
    R (evalLoop (n + 1) guard body step last) (evalLoop (m + 1) guard body step last) := by
  simp only [evalLoop]
  refine h.exiting (h.pure last) (h.bind (ih.condition guard) fun holds => ?_)
  cases holds with
  | false => exact h.pure last
  | true =>
    refine h.bind (ih.eval body) fun v => ?_
    cases step with
    | none => exact ih.loop guard body none v
    | some t => exact h.bind (ih.eval t) fun _ => ih.loop guard body (some t) v

theorem arguments (h : Congruence R) (ih : Related R n m) (ts : List Tree) :
    R (evalArguments (n + 1) ts) (evalArguments (m + 1) ts) := by
  cases ts with
  | nil => simpa only [evalArguments] using h.pure []
  | cons arg rest =>
    simp only [evalArguments]
    exact h.bind (ih.eval arg) fun v => h.bind (ih.arguments rest) fun vs => h.pure (v :: vs)

/-- The induction on the fuel, in which each function of the evaluator is one step. -/
theorem related (h : Congruence R) (hnm : n ≤ m) : Related R n m := by
  induction n generalizing m with
  | zero =>
    constructor <;> intros
    · simpa only [Tree.eval] using h.outOfFuel _
    · simpa only [evalBody] using h.outOfFuel _
    · simpa only [evalCondition] using h.outOfFuel _
    · simpa only [evalLoop] using h.outOfFuel _
    · simpa only [evalArguments] using h.outOfFuel _
  | succ n ih =>
    obtain ⟨m, rfl⟩ : ∃ k, m = k + 1 := ⟨m - 1, by omega⟩
    have smaller := ih (m := m) (by omega)
    exact ⟨h.tree smaller, h.body smaller, h.condition smaller, h.loop smaller,
      h.arguments smaller⟩

theorem eval (h : Congruence R) (hnm : n ≤ m) (t : Tree) : R (t.eval n) (t.eval m) :=
  (h.related hnm).eval t

end Congruence

def Extends {α : Type} (x y : Run α) : Prop :=
  ∀ m, x m ≠ .outOfFuel → y m = x m

theorem Extends.refl {α : Type} (x : Run α) : Extends x x :=
  fun _ _ => rfl

theorem Extends.bind {α β : Type} {x x' : Run α} {f f' : α → Run β} (hx : Extends x x')
    (hf : ∀ a, Extends (f a) (f' a)) : Extends (x >>= f) (x' >>= f') := by
  intro m h
  have first : x m ≠ .outOfFuel := fun e => h (bind_of_outOfFuel e)
  have same := hx m first
  cases e : x m with
  | ok a m' =>
    rw [bind_of_ok e] at h ⊢
    rw [bind_of_ok (same.trans e)]
    exact hf a m' h
  | error e' m' => rw [bind_of_error e, bind_of_error (same.trans e)]
  | outOfFuel => exact absurd e first

theorem Extends.machine_bind {α : Type} {k l : Machine → Run α} (h : ∀ m, Extends (k m) (l m)) :
    Extends (machine >>= k) (machine >>= l) :=
  fun m hm => h m m hm

theorem Extends.inCall (entry : TraceEntry) (frame : Frame) {x x' : Run Value}
    (h : Extends x x') : Extends (inCall entry frame x) (inCall entry frame x') := by
  intro m hm
  unfold Run.inCall at hm ⊢
  have body : x { m with stack := m.stack.push frame } ≠ .outOfFuel := by
    intro e
    rw [e] at hm
    exact hm rfl
  rw [h _ body]

theorem extends_congruence : Congruence @Extends where
  outOfFuel y := fun m h => absurd rfl h
  pure a := .refl _
  bind := .bind
  ofExcept x := .refl _
  mode k h := .refl _
  programmer k h := .refl _
  exiting hx hy := .machine_bind fun m => by split <;> assumption
  setMode a := .refl _
  toggle := .refl _
  exit := .refl _
  lookup name line := .refl _
  declare name := .refl _
  assign name v line := .refl _
  bindGlobal name v := .refl _
  display v := .refl _
  inCall := .inCall

end Run

namespace Tree

theorem eval_of_le (t : Tree) {n k : Nat} (h : n ≤ k) (m : Machine)
    (answered : t.eval n m ≠ .outOfFuel) : t.eval k m = t.eval n m :=
  Run.extends_congruence.eval h t m answered

/-- The evaluation of a tree on a machine comes to an end, and this is its outcome. -/
def Ends (t : Tree) (m : Machine) (o : Outcome Failure Value) : Prop :=
  o ≠ .outOfFuel ∧ ∃ fuel, t.eval fuel m = o

theorem Ends.unique {t : Tree} {m : Machine} {o p : Outcome Failure Value}
    (ho : t.Ends m o) (hp : t.Ends m p) : o = p := by
  obtain ⟨answered, n, rfl⟩ := ho
  obtain ⟨answered', k, rfl⟩ := hp
  rcases Nat.le_total n k with h | h
  · exact (t.eval_of_le h m answered).symm
  · exact t.eval_of_le h m answered'

end Tree

end Calculator
