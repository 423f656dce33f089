import Calculator.Proofs.Eval.Holding
import Calculator.Proofs.Eval.Part
import Calculator.Proofs.Value.Results

set_option autoImplicit false

/-!
# Policies

A policy says what there may be in a run: nodes of trees, values, modes, and calls of builtin
functions. If the operations keep to it (`Policy.Sound`), then one step does, as long as the parts
that it comes to do (`Policy.Covers.run`).
-/
namespace Calculator

open Run

def Failure.noted (f : Failure) (entry : TraceEntry) : Failure :=
  ⟨f.error, f.trace ++ [entry]⟩

/-- What is allowed in a run: nodes of trees, and so of the bodies of functions, values other than
those functions, values that are displayed, modes, and builtin functions that are called. -/
structure Policy where
  node : Tree → Prop
  datum : Value → Prop
  shown : Value → Prop
  mode : NumericMode → Prop
  builtin : Builtin → Prop

namespace Policy

def Allows (P : Policy) : Value → Prop
  | .function _ _ body => body.All P.node
  | v => P.datum v

structure Within (P : Policy) (m : Machine) : Prop where
  stack : m.stack.Holds P.Allows
  mode : P.mode m.mode
  displays : ∀ d ∈ m.displays, P.shown d.value

def Kept (P : Policy) (F : Failure → Prop) {α : Type} (Q : α → Prop) : Outcome Failure α → Prop
  | .ok a m => Q a ∧ P.Within m
  | .error f m => F f ∧ P.Within m
  | .outOfFuel => True

/-- Operations take what the policy allows to what it allows, or fail in such a way. -/
structure Sound (P : Policy) (F : Failure → Prop) : Prop where
  boolean : ∀ b, P.datum (.boolean b)
  constant : ∀ line v, P.node (.constant line v) → P.Allows v
  setting : ∀ line mode, P.node (.setMode line mode) → P.mode mode
  shown : ∀ v, P.Allows v → P.shown v
  operation : ∀ mode vs v, P.mode mode → (∀ w ∈ vs, P.Allows w) → v.Stems mode.breadth? vs →
    P.datum v
  application : ∀ b vs v, P.builtin b → (∀ w ∈ vs, P.Allows w) → v.Stems b.breadth? vs → P.datum v
  error : ∀ e : EvalError, e.Arises (P.mode .undefined) → F ⟨e, []⟩
  prefixed : ∀ line op t, P.node (.unary line op t) → ¬Tree.AppliesTo op t →
    F ⟨.badOperator op line, []⟩
  operator : ∀ line op t u, P.node (.binary line op t u) → op.operation = none →
    F ⟨.badOperator op line, []⟩

/-- What the part comes to with this fuel keeps to the policy, on machines within it; a failure in
the body of a function is one once the call noted it. -/
structure Covers (P : Policy) (F : Failure → Prop) (n : Nat) (part : Part) (m : Machine) :
    Prop where
  parts : ∀ k part' m' outer v, k ≤ n → part.Next m part' m' outer → P.Within m' → P.Allows v →
    P.Kept F P.Allows (part'.run k v m')
  bodies : ∀ entry part' m', part.Enters m entry part' m' → P.Within m' →
    P.Kept (fun f => F (f.noted entry)) P.Allows (part'.run n .zero m')
  builtins : ∀ b, part.Applies m b → P.builtin b

variable {P : Policy} {F : Failure → Prop} {α β : Type} {Q : α → Prop} {S : β → Prop} {v : Value}
  {m m' : Machine}

theorem allows_iff (h : v.isCallable = false) : P.Allows v ↔ P.datum v := by
  cases v with
  | int | float | rational | date => exact Iff.rfl
  | function | builtin => cases h

theorem Sound.allows_boolean (sound : P.Sound F) (b : Bool) : P.Allows (.boolean b) :=
  sound.boolean b

theorem Sound.zero (sound : P.Sound F) : P.Allows .zero :=
  sound.boolean false

theorem Sound.allows_operation (sound : P.Sound F) {vs : List Value} (within : P.Within m)
    (each : ∀ w ∈ vs, P.Allows w) (stems : v.Stems m.mode.breadth? vs) : P.Allows v :=
  (allows_iff stems.isDatum).mpr (sound.operation m.mode vs v within.mode each stems)

theorem Sound.allows_application (sound : P.Sound F) {b : Builtin} {vs : List Value}
    (called : P.builtin b) (each : ∀ w ∈ vs, P.Allows w) (stems : v.Stems b.breadth? vs) :
    P.Allows v :=
  (allows_iff stems.isDatum).mpr (sound.application b vs v called each stems)

def any : Policy :=
  ⟨fun _ => True, fun _ => True, fun _ => True, fun _ => True, fun _ => True⟩

theorem any_allows (v : Value) : any.Allows v := by
  cases v with
  | function => exact fun _ _ => trivial
  | int | float | rational | date | builtin => trivial

theorem any_within (m : Machine) : any.Within m :=
  ⟨⟨fun _ v _ => any_allows v, fun _ _ _ v _ => any_allows v⟩, trivial, fun _ _ => trivial⟩

theorem any_sound (each : ∀ e, F ⟨e, []⟩) : any.Sound F where
  boolean _ := trivial
  constant _ v _ := any_allows v
  setting _ _ _ := trivial
  shown _ _ := trivial
  operation _ _ _ _ _ _ := trivial
  application _ _ _ _ _ _ := trivial
  error e _ := each e
  prefixed _ _ _ _ _ := each _
  operator _ _ _ _ _ _ := each _

namespace Within

theorem find? (h : P.Within m) {name : String} (found : m.stack.find? name = some v) :
    P.Allows v :=
  h.stack.find? found

theorem withStack {s : CallStack} (h : P.Within m) (stack : s.Holds P.Allows) :
    P.Within { m with stack := s } :=
  ⟨stack, h.mode, h.displays⟩

end Within

namespace Kept

theorem bind {x : Run α} {f : α → Run β} (first : P.Kept F Q (x m))
    (behind : ∀ a m', x m = .ok a m' → Q a → P.Within m' → P.Kept F S (f a m')) :
    P.Kept F S ((x >>= f) m) := by
  cases e : x m with
  | ok a m' =>
    rw [e] at first
    rw [bind_of_ok e]
    exact behind a m' e first.1 first.2
  | error f m' =>
    rw [e] at first
    rw [bind_of_error e]
    exact first
  | outOfFuel =>
    rw [bind_of_outOfFuel e]
    trivial

theorem pure {a : α} (h : Q a) (within : P.Within m) : P.Kept F Q ((Pure.pure a : Run α) m) :=
  ⟨h, within⟩

theorem machine {f : Machine → Run β} (h : P.Kept F S (f m m)) :
    P.Kept F S ((Run.machine >>= f) m) :=
  h

variable (sound : P.Sound F) (within : P.Within m)

include sound within

theorem fail {e : EvalError} (h : e.Arises False) : P.Kept F Q (Run.fail e m) :=
  ⟨sound.error e (h.mono False.elim), within⟩

theorem ofExcept {u : Prop} {r : Except EvalError α} (h : Computes u Q r)
    (undefined : u → P.mode .undefined) : P.Kept F Q (Run.ofExcept r m) := by
  cases r with
  | ok a => exact ⟨h, within⟩
  | error e => exact ⟨sound.error e (EvalError.Arises.mono h undefined), within⟩

theorem lookup (name : String) (line : Position) : P.Kept F P.Allows (Run.lookup name line m) := by
  unfold Run.lookup
  split
  · exact ⟨within.find? ‹_›, within⟩
  · exact ⟨sound.error _ ⟨nofun, nofun⟩, within⟩

theorem declare (name : String) : P.Kept F (fun _ => True) (Run.declare name m) :=
  ⟨trivial, within.withStack (within.stack.declare name sound.zero)⟩

theorem assign (name : String) (h : P.Allows v) (line : Position) :
    P.Kept F (fun _ => True) (Run.assign name v line m) := by
  unfold Run.assign
  split
  · exact ⟨trivial, within.withStack (within.stack.assign? h ‹_›)⟩
  · exact ⟨sound.error _ ⟨nofun, nofun⟩, within⟩

theorem display (h : P.Allows v) : P.Kept F (fun _ => True) (Run.display v m) := by
  obtain ⟨w, shown⟩ | ⟨w, reason, refused⟩ := display_cases v m
  · rw [shown]
    refine ⟨trivial, within.stack, within.mode, ?_⟩
    exact List.forall_mem_cons.mpr ⟨sound.shown v h, within.displays⟩
  · rw [refused]
    exact ⟨sound.error _ ⟨nofun, nofun⟩, within.stack, within.mode, within.displays⟩

theorem notCallable (name : String) (line : Position) :
    P.Kept F Q (Run.fail (.notCallable name line) m) :=
  .fail sound within ⟨nofun, nofun⟩

theorem checkArity {name : String} {given expected : Nat} {line : Position} {x : Run α}
    (h : given = expected → P.Kept F Q (x m)) :
    P.Kept F Q ((do Calculator.checkArity name given expected line; x) m) := by
  by_cases same : given = expected
  · have passes : Calculator.checkArity name given expected line = Pure.pure () := if_pos same
    rw [passes]
    exact h same
  · have fails : Calculator.checkArity name given expected line =
        Run.fail (.arityMismatch name given expected line) := if_neg same
    rw [fails]
    exact .fail sound within ⟨nofun, nofun⟩

theorem operation {vs : List Value} {u : Prop} {r : Except EvalError Value}
    (h : Computes u (Value.Stems m.mode.breadth? vs) r) (undefined : u → m.mode = .undefined)
    (each : ∀ w ∈ vs, P.Allows w) : P.Kept F P.Allows (Run.ofExcept r m) := by
  have computed : Computes u P.Allows r :=
    h.mono id fun v stems => sound.allows_operation within each stems
  exact .ofExcept sound within computed fun holds => undefined holds ▸ within.mode

omit sound

theorem bindGlobal (name : String) (h : P.Allows v) :
    P.Kept F (fun _ => True) (Run.bindGlobal name v m) :=
  ⟨trivial, within.withStack (within.stack.bindGlobal name h)⟩

omit within

theorem inCall {entry : TraceEntry} {frame : Frame} {x : Run α}
    (inside : P.Kept (fun f => F (f.noted entry)) Q (x { m with stack := m.stack.push frame })) :
    P.Kept F Q (Run.inCall entry frame x m) := by
  unfold Run.inCall
  cases e : x { m with stack := m.stack.push frame } with
  | ok a m' =>
    rw [e] at inside
    exact ⟨inside.1, inside.2.withStack inside.2.stack.pop⟩
  | error f m' =>
    rw [e] at inside
    exact ⟨inside.1, inside.2.withStack inside.2.stack.pop⟩
  | outOfFuel => trivial

end Kept

namespace Covers

variable {n : Nat} {part part' : Part} {t : Tree} {outer : List Tree} (sound : P.Sound F)

theorem next (h : P.Covers F n part m) (step : part.Next m part' m' outer) (within : P.Within m')
    (last : P.Allows v) : P.Kept F P.Allows (part'.run n v m') :=
  h.parts n part' m' outer v (Nat.le_refl n) step within last

include sound

theorem eval (h : P.Covers F n part m) (here : part.Evaluates m t m') (within : P.Within m') :
    P.Kept F P.Allows (t.eval n m') :=
  h.next (.expression here) within sound.zero

theorem condition (h : P.Covers F n part m) (here : part.Evaluates m t m')
    (within : P.Within m') : P.Kept F (fun _ => True) (evalCondition n t m') := by
  cases n with
  | zero => trivial
  | succ n =>
    have guard : P.Kept F P.Allows (t.eval n m') :=
      h.parts n _ m' [] .zero (Nat.le_succ n) (.expression here) within sound.zero
    simp only [evalCondition]
    refine guard.bind fun v m'' _ _ within' => ?_
    exact .ofExcept (u := False) sound within' (v.computes_toBool t.line) False.elim

theorem arguments {k : Nat} {line : Position} {x : String} (before : List Tree)
    {args after : List Tree} {vs : List Value}
    (h : P.Covers F n (.tree (.call line x (before ++ (args ++ after)))) m) (less : k ≤ n)
    (bound : (m.stack.find? x).isSome = true)
    (read : Run.Ends (fun n => evalArguments n before) m (.ok vs m')) (within : P.Within m') :
    P.Kept F (fun vs => ∀ v ∈ vs, P.Allows v) (evalArguments k args m') := by
  induction args generalizing k before vs m' with
  | nil =>
    cases k with
    | zero => trivial
    | succ k => exact ⟨List.forall_mem_nil _, within⟩
  | cons arg args ih =>
    cases k with
    | zero => trivial
    | succ k =>
      have less := Nat.le_of_succ_le less
      have first : P.Kept F P.Allows (arg.eval k m') :=
        h.parts k _ m' [] .zero less (.expression (.argument bound read)) within sound.zero
      simp only [evalArguments]
      refine first.bind fun v m'' here value within' => ?_
      refine Kept.bind (ih (before ++ [arg]) ?_ less
        (ends_arguments_concat read (ends_of_ok here)) within') fun vs m'' _ values within'' => ?_
      · rw [List.append_assoc]
        exact h
      · exact .pure (List.forall_mem_cons.mpr ⟨value, values⟩) within''

variable (within : P.Within m)

include within

theorem allArguments {line : Position} {x : String} {args : List Tree}
    (h : P.Covers F n (.tree (.call line x args)) m) (bound : (m.stack.find? x).isSome = true) :
    P.Kept F (fun vs => ∀ v ∈ vs, P.Allows v) (evalArguments n args m) := by
  have each : P.Covers F n (.tree (.call line x ([] ++ (args ++ [])))) m := by
    rw [List.append_nil]
    exact h
  exact each.arguments sound [] (Nat.le_refl n) bound (ends_arguments_nil.mpr rfl) within

theorem prefixed {line : Position} {op : Kind} (h : P.Covers F n (.tree (.unary line op t)) m)
    (node : P.node (.unary line op t)) :
    P.Kept F P.Allows ((Tree.unary line op t).eval (n + 1) m) := by
  have misplaced (notOperator : ¬Tree.AppliesTo op t) :
      P.Kept F P.Allows (fail (.badOperator op line) m) :=
    ⟨sound.prefixed line op t node notOperator, within⟩
  unfold Tree.AppliesTo at misplaced
  cases isPrefix : op.unary with
  | none =>
    rw [isPrefix] at misplaced
    simp only [Tree.eval, isPrefix]
    exact misplaced id
  | some u =>
    rw [isPrefix] at misplaced
    cases u with
    | transform t' =>
      simp only [Tree.eval, isPrefix]
      refine (h.eval sound (.operand isPrefix) within).bind fun v m' _ value within' => ?_
      exact .operation sound within' (u := False) (v.computes_transform line t') False.elim
        (List.forall_mem_singleton.mpr value)
    | step s =>
      simp only [Tree.eval, isPrefix]
      cases t with
      | reference at' name =>
        refine (Kept.lookup sound within name line).bind fun v m' _ value within' => ?_
        have stepped : P.Kept F P.Allows (ofExcept (v.step s line) m') :=
          .operation sound within' (u := False) (v.computes_step line s) False.elim
            (List.forall_mem_singleton.mpr value)
        refine stepped.bind fun w m'' _ result within'' => ?_
        exact (Kept.assign sound within'' name result line).bind fun _ _ _ _ within₁ =>
          .pure result within₁
      | _ => exact misplaced Bool.false_ne_true

theorem operator {line : Position} {op : Kind} {t u : Tree}
    (h : P.Covers F n (.tree (.binary line op t u)) m) (node : P.node (.binary line op t u)) :
    P.Kept F P.Allows ((Tree.binary line op t u).eval (n + 1) m) := by
  cases isOperator : op.operation with
  | none =>
    simp only [Tree.eval, isOperator]
    exact ⟨sound.operator line op t u node isOperator, within⟩
  | some operation =>
    have isSome : op.operation.isSome = true := Option.isSome_iff_exists.mpr ⟨_, isOperator⟩
    simp only [Tree.eval, isOperator]
    refine (h.eval sound (.lhs isSome) within).bind fun a m' left ha within' => ?_
    refine (h.eval sound (.rhs isSome (ends_of_ok left)) within').bind
      fun b m'' _ hb within'' => ?_
    exact .machine (.operation sound within'' (a.computes_apply b operation m''.mode line) id
      (by simp [ha, hb]))

theorem assignment {line : Position} {op : Kind} {x : String}
    (h : P.Covers F n (.tree (.assign line op x t)) m) :
    P.Kept F P.Allows ((Tree.assign line op x t).eval (n + 1) m) := by
  cases isOperator : op.operation with
  | none =>
    simp only [Tree.eval, isOperator]
    refine (Kept.declare sound within x).bind fun _ m' declared _ within' => ?_
    cases declared
    refine (h.eval sound (.value isOperator) within').bind fun v m'' _ value within'' => ?_
    exact (Kept.assign sound within'' x value line).bind fun _ _ _ _ within₁ =>
      .pure value within₁
  | some operation =>
    have isSome : op.operation.isSome = true := Option.isSome_iff_exists.mpr ⟨_, isOperator⟩
    simp only [Tree.eval, isOperator]
    refine (Kept.lookup sound within x line).bind fun old m' looked _ _ => ?_
    obtain ⟨bound, rfl⟩ := find?_of_lookup looked
    have bound := Option.isSome_iff_exists.mpr ⟨_, bound⟩
    refine (h.eval sound (.change isSome bound) within).bind fun b m'' _ hb within'' => ?_
    refine (Kept.lookup sound within'' x line).bind fun a m₁ _ ha within₁ => .machine ?_
    have computed : P.Kept F P.Allows (ofExcept (a.apply operation m₁.mode b line) m₁) :=
      .operation sound within₁ (a.computes_apply b operation m₁.mode line) id (by simp [ha, hb])
    refine computed.bind fun v m₂ _ result within₂ => ?_
    exact (Kept.assign sound within₂ x result line).bind fun _ _ _ _ within₃ =>
      .pure result within₃

theorem call {line : Position} {x : String} {args : List Tree}
    (h : P.Covers F n (.tree (.call line x args)) m) :
    P.Kept F P.Allows ((Tree.call line x args).eval (n + 1) m) := by
  simp only [Tree.eval]
  refine (Kept.lookup sound within x line).bind fun callee m' looked _ _ => ?_
  obtain ⟨bound, rfl⟩ := find?_of_lookup looked
  have isSome := Option.isSome_iff_exists.mpr ⟨_, bound⟩
  refine (h.allArguments sound within isSome).bind fun vs m' read values within' => ?_
  have read : Run.Ends (fun n => evalArguments n args) _ (.ok vs m') := ends_of_ok read
  cases callee with
  | builtin b =>
    refine .checkArity sound within' fun arity => ?_
    have called := h.builtins b (.call bound read arity)
    have applied : Computes False P.Allows (b.apply vs line) :=
      (b.computes_apply line vs).mono id fun v stems => sound.allows_application called values stems
    exact .ofExcept sound within' applied False.elim
  | function defined params body =>
    refine .checkArity sound within' fun arity => ?_
    refine .inCall (h.bodies _ _ _ (.call bound read arity) (within'.withStack ?_))
    exact within'.stack.push (.ofList fun b mem => values b.2 (List.of_mem_zip mem).2)
  | int | float | rational | date => exact .notCallable sound within' x line

theorem tree (h : P.Covers F n (.tree t) m) (all : t.All P.node) :
    P.Kept F P.Allows (t.eval (n + 1) m) := by
  cases t with
  | body line ts =>
    simp only [Tree.eval]
    exact h.next .body within sound.zero
  | constant line v =>
    simp only [Tree.eval]
    exact .pure (sound.constant line v all.root) within
  | reference line name =>
    simp only [Tree.eval]
    exact .lookup sound within name line
  | unary => exact h.prefixed sound within all.root
  | binary => exact h.operator sound within all.root
  | assign => exact h.assignment sound within
  | whileLoop =>
    simp only [Tree.eval]
    exact h.next .whileLoop within sound.zero
  | forLoop =>
    simp only [Tree.eval]
    refine (h.eval sound .init within).bind fun v m' first _ within' => ?_
    exact h.next (.forLoop (ends_of_ok first)) within' sound.zero
  | conditional line guard positive otherwise =>
    simp only [Tree.eval]
    refine (h.condition sound .condition within).bind fun holds m' read _ within' => ?_
    cases holds with
    | true => exact h.next (.positive (ends_of_ok read)) within' sound.zero
    | false =>
      cases otherwise with
      | none => exact .pure sound.zero within'
      | some t => exact h.next (.otherwise (ends_of_ok read)) within' sound.zero
  | define line name params body =>
    have allowed : P.Allows (.function name params body) := (Tree.all_define.mp all).2
    simp only [Tree.eval]
    exact (Kept.bindGlobal within name allowed).bind fun _ _ _ _ within' => .pure allowed within'
  | call => exact h.call sound within
  | display =>
    simp only [Tree.eval]
    refine (h.eval sound .shown within).bind fun v m' _ value within' => ?_
    exact (Kept.display sound within' value).bind fun _ _ _ _ within'' => .pure value within''
  | setMode line mode =>
    simp only [Tree.eval]
    exact ⟨sound.zero, within.stack, sound.setting line mode all.root, within.displays⟩
  | toggleProgrammer =>
    simp only [Tree.eval]
    exact ⟨sound.allows_boolean _, within.stack, within.mode, within.displays⟩
  | exit =>
    simp only [Tree.eval]
    exact ⟨sound.zero, within.stack, within.mode, within.displays⟩

theorem row {ts : List Tree} (h : P.Covers F n (.row ts) m) (last : P.Allows v) :
    P.Kept F P.Allows (evalBody (n + 1) v ts m) := by
  cases ts with
  | nil =>
    simp only [evalBody]
    exact .pure last within
  | cons t ts =>
    cases exiting : m.exiting with
    | true =>
      rw [evalBody_of_exiting exiting]
      exact ⟨last, within⟩
    | false =>
      rw [evalBody_of_running exiting]
      have first : P.Kept F P.Allows (t.eval n m) := h.next (.statement exiting) within sound.zero
      refine first.bind fun w m' here value within' => ?_
      exact h.next (.rest exiting (ends_of_ok here)) within' value

theorem loop {guard body : Tree} {step : Option Tree}
    (h : P.Covers F n (.loop guard body step) m) (last : P.Allows v) :
    P.Kept F P.Allows (evalLoop (n + 1) guard body step v m) := by
  cases exiting : m.exiting with
  | true =>
    rw [evalLoop_of_exiting exiting]
    exact ⟨last, within⟩
  | false =>
    rw [evalLoop_of_running exiting]
    refine (h.condition sound (.guard exiting) within).bind fun holds m' read _ within' => ?_
    cases holds with
    | false => exact ⟨last, within'⟩
    | true =>
      have holds : Run.Ends (fun n => evalCondition n guard) m (.ok true m') := ends_of_ok read
      have turn : P.Kept F P.Allows (body.eval n m') :=
        h.next (.turn exiting holds) within' sound.zero
      refine turn.bind fun w m'' here value within'' => ?_
      have turn : body.Ends m' (.ok w m'') := ends_of_ok here
      cases step with
      | none => exact h.next (.again exiting holds turn) within'' value
      | some t =>
        refine (h.eval sound (.step exiting holds turn) within'').bind
          fun u m₁ stepped _ within₁ => ?_
        exact h.next (.stepped exiting holds turn (ends_of_ok stepped)) within₁ value

theorem run (h : P.Covers F n part m) (all : part.All P.node) (last : P.Allows v) :
    P.Kept F P.Allows (part.run (n + 1) v m) := by
  cases part with
  | tree t => exact h.tree sound within all
  | row ts => exact h.row sound within last
  | loop guard body step => exact h.loop sound within last

end Covers

end Policy

end Calculator
