import Calculator.Proofs.Eval.Congruence
import Calculator.Proofs.Eval.Reaching
import Calculator.Proofs.Value.Likeness

set_option autoImplicit false

/-!
# Presentation does not influence evaluation

Two trees that are alike, on machines whose call stacks are alike, have outcomes that are alike
(`Tree.ends_alike`). The programmer flag only matters to the nodes that change it. `Run.Sim` relates
a computation to one that does the same on a machine that is alike.
-/
namespace Calculator

/-- Frames that bind the same names to values that are alike. -/
def Frame.Alike (f g : Frame) : Prop :=
  ∀ name, Option.Rel Value.Alike (f.find? name) (g.find? name)

/-- Call stacks whose frames are alike one by one. -/
structure CallStack.Alike (s s' : CallStack) : Prop where
  globals : s.globals.Alike s'.globals
  calls : List.Forall₂ Frame.Alike s.calls s'.calls

section
variable {f g : Frame} {s s' : CallStack} {v v' : Value}

theorem isSome_eq_of_rel {α β : Type} {R : α → β → Prop} {o : Option α} {o' : Option β}
    (h : Option.Rel R o o') : o.isSome = o'.isSome := by
  cases h <;> rfl

theorem Frame.Alike.refl (f : Frame) : f.Alike f := by
  intro name
  cases f.find? name with
  | none => exact .none
  | some v => exact .some (.refl v)

theorem Frame.Alike.insert (h : f.Alike g) (name : String) (values : v.Alike v') :
    (f.insert name v).Alike (g.insert name v') := by
  intro other
  rw [find?_insert, find?_insert]
  split
  · exact .some values
  · exact h other

theorem Frame.Alike.contains_eq (h : f.Alike g) (name : String) :
    f.contains name = g.contains name :=
  isSome_eq_of_rel (h name)

theorem Frame.alike_ofList {names : List String} {vs vs' : List Value}
    (h : List.Forall₂ Value.Alike vs vs') :
    (ofList (names.zip vs)).Alike (ofList (names.zip vs')) := by
  have inserted (h : List.Forall₂ Value.Alike vs vs') (f g : Frame) (same : f.Alike g) :
      ((names.zip vs).foldl (fun f b => f.insert b.1 b.2) f).Alike
        ((names.zip vs').foldl (fun f b => f.insert b.1 b.2) g) := by
    induction h generalizing names f g with
    | nil =>
      rw [List.zip_nil_right]
      exact same
    | cons head tail ih =>
      cases names with
      | nil => exact same
      | cons name names => exact ih tail _ _ (same.insert name head)
  exact inserted h empty empty fun _ => .none

namespace CallStack.Alike

theorem top (h : s.Alike s') : s.top.Alike s'.top := by
  obtain ⟨globals, calls⟩ := s
  obtain ⟨globals', calls'⟩ := s'
  cases h.calls with
  | nil => exact h.globals
  | cons head tail => exact head

theorem setTop (h : s.Alike s') (frames : f.Alike g) : (s.setTop f).Alike (s'.setTop g) := by
  obtain ⟨globals, calls⟩ := s
  obtain ⟨globals', calls'⟩ := s'
  cases h.calls with
  | nil => exact ⟨frames, .nil⟩
  | cons head tail => exact ⟨h.globals, .cons frames tail⟩

theorem find? (h : s.Alike s') (name : String) :
    Option.Rel Value.Alike (s.find? name) (s'.find? name) := by
  unfold CallStack.find?
  have inTop := h.top name
  cases e : s.top.find? name <;> cases e' : s'.top.find? name <;> rw [e, e'] at inTop
  · exact h.globals name
  · cases inTop
  · cases inTop
  · exact inTop

theorem bindGlobal (h : s.Alike s') (name : String) (values : v.Alike v') :
    (s.bindGlobal name v).Alike (s'.bindGlobal name v') :=
  ⟨h.globals.insert name values, h.calls⟩

theorem bindLocal (h : s.Alike s') (name : String) (values : v.Alike v') :
    (s.bindLocal name v).Alike (s'.bindLocal name v') :=
  h.setTop (h.top.insert name values)

theorem assign? (h : s.Alike s') (name : String) (values : v.Alike v') :
    Option.Rel CallStack.Alike (s.assign? name v) (s'.assign? name v') := by
  unfold CallStack.assign?
  rw [h.top.contains_eq, h.globals.contains_eq]
  split
  · exact .some (h.bindLocal name values)
  · split
    · exact .some (h.bindGlobal name values)
    · exact .none

theorem declare (h : s.Alike s') (name : String) : (s.declare name).Alike (s'.declare name) := by
  unfold CallStack.declare
  rw [isSome_eq_of_rel (h.find? name)]
  split
  · exact h
  · exact h.bindLocal name (.refl .zero)

theorem push (h : s.Alike s') (frames : f.Alike g) : (s.push f).Alike (s'.push g) :=
  ⟨h.globals, .cons frames h.calls⟩

theorem pop (h : s.Alike s') : s.pop.Alike s'.pop := by
  obtain ⟨globals, calls⟩ := s
  obtain ⟨globals', calls'⟩ := s'
  cases h.calls with
  | nil => exact ⟨h.globals, .nil⟩
  | cons head tail => exact ⟨h.globals, tail⟩

end CallStack.Alike

end

/-- The writers give the same answers to lines of any texts, as long as each was given as many
before. That a writer is so related to itself says that its answers do not depend on the texts. -/
def Writer.Alike (w w' : Writer) : Prop :=
  ∀ earlier earlier' line line', earlier.length = earlier'.length →
    w.answers earlier line = w'.answers earlier' line'

theorem Writer.Alike.answer {w w' : Writer} (h : w.Alike w') (line line' : String) :
    w.answer line = w'.answer line' :=
  h [] [] line line' rfl

theorem Writer.Alike.after {w w' : Writer} (h : w.Alike w') (line line' : String) :
    (w.after line).Alike (w'.after line') :=
  fun earlier earlier' last last' same => h (line :: earlier) (line' :: earlier') last last'
    (congrArg Nat.succ same)

/-- What relates two machines beside their likeness: how their programmer flags are related, and
how much each has displayed before. -/
structure Comparison where
  flags : Bool → Bool → Prop
  displayed : Nat
  displayed' : Nat

/-- Machines with call stacks and writers that are alike, the same settings but for the programmer
flag, and as many displays since the start of the comparison. -/
structure Machine.Alike (c : Comparison) (m m' : Machine) : Prop where
  stack : m.stack.Alike m'.stack
  mode : m.mode = m'.mode
  programmer : c.flags m.programmer m'.programmer
  exiting : m.exiting = m'.exiting
  writer : m.writer.Alike m'.writer
  displays : m.displays.length + c.displayed' = m'.displays.length + c.displayed

/-- Both computations answer, or both fail with the same error and trace, or both have run out of
fuel. -/
def Outcome.Alike {α β : Type} (c : Comparison) (Q : α → β → Prop) :
    Outcome Failure α → Outcome Failure β → Prop
  | .ok a m, .ok b m' => Q a b ∧ m.Alike c m'
  | .error e m, .error f m' => e = f ∧ m.Alike c m'
  | .outOfFuel, .outOfFuel => True
  | _, _ => False

theorem Outcome.Alike.cases {α β : Type} {c : Comparison} {Q : α → β → Prop}
    {o : Outcome Failure α} {o' : Outcome Failure β} (h : o.Alike c Q o') :
    (∃ a b m m', o = .ok a m ∧ o' = .ok b m' ∧ Q a b ∧ m.Alike c m') ∨
      (∃ e m m', o = .error e m ∧ o' = .error e m' ∧ m.Alike c m') ∨
        o = .outOfFuel ∧ o' = .outOfFuel := by
  cases o <;> cases o' <;> try exact h.elim
  · exact .inl ⟨_, _, _, _, rfl, rfl, h.1, h.2⟩
  · obtain ⟨rfl, machines⟩ := h
    exact .inr (.inl ⟨_, _, _, rfl, rfl, machines⟩)
  · exact .inr (.inr ⟨rfl, rfl⟩)

namespace Run

/-- On machines that are alike the two computations have outcomes that are alike; if `P` happens in
the first one, then only if programmer flags are equal throughout. -/
def Sim {α β : Type} (c : Comparison) (P : Machine → Prop) (Q : α → β → Prop) (x : Run α)
    (y : Run β) : Prop :=
  ∀ m m', m.Alike c m' → (P m → c.flags = Eq) → (x m).Alike c Q (y m')

def never : Machine → Prop :=
  fun _ => False

section
variable {α β γ δ : Type} {c : Comparison} {P : Machine → Prop} {Q : α → β → Prop}
  {S : γ → δ → Prop} {x : Run α} {y : Run β} {f : α → Run γ} {g : β → Run δ}

theorem Sim.mono {P' : Machine → Prop} (h : Sim c P Q x y) (implies : ∀ m, P m → P' m) :
    Sim c P' Q x y :=
  fun m m' alike flags => h m m' alike fun happens => flags (implies m happens)

theorem Sim.bind {P' : α → Machine → Prop} (head : Sim c P Q x y)
    (tail : ∀ a b, Q a b → Sim c (P' a) S (f a) (g b)) :
    Sim c (Meets P x P') S (x >>= f) (y >>= g) := by
  intro m m' alike flags
  have first := head m m' alike fun happens => flags (.inl happens)
  rcases first.cases with ⟨a, b, n, n', e, e', related, after⟩ | ⟨failure, n, n', e, e', after⟩ |
    ⟨e, e'⟩
  · rw [bind_of_ok e, bind_of_ok e']
    exact tail a b related n n' after fun happens => flags (.inr ⟨a, n, e, happens⟩)
  · rw [bind_of_error e, bind_of_error e']
    exact ⟨rfl, after⟩
  · rw [bind_of_outOfFuel e, bind_of_outOfFuel e']
    trivial

theorem Sim.bind_never (head : Sim c P Q x y)
    (tail : ∀ a b, Q a b → Sim c never S (f a) (g b)) : Sim c P S (x >>= f) (y >>= g) :=
  (head.bind tail).mono fun _ happens => happens.resolve_right fun ⟨_, _, _, no⟩ => no

theorem Sim.then {P' : α → Machine → Prop} (head : Sim c never Q x y)
    (tail : ∀ a b, Q a b → Sim c (P' a) S (f a) (g b)) :
    Sim c (x.Then P') S (x >>= f) (y >>= g) :=
  (head.bind tail).mono fun _ happens => happens.resolve_left id

theorem Sim.pure {a : α} {b : β} (h : Q a b) : Sim c P Q (pure a) (pure b) :=
  fun _ _ alike _ => ⟨h, alike⟩

theorem Sim.ofExcept {R : α → α → Prop} {r r' : Except EvalError α} (h : Concur R r r') :
    Sim c P R (ofExcept r) (ofExcept r') := by
  intro m m' alike _
  cases r with
  | ok a =>
    cases r' with
    | ok b => exact ⟨h, alike⟩
    | error => exact h.elim
  | error e =>
    cases r' with
    | ok => exact h.elim
    | error e' => exact ⟨congrArg (Failure.mk · []) h.1, alike⟩

theorem Sim.fail (e : EvalError) : Sim c P Q (fail e) (fail e) :=
  fun _ _ alike _ => ⟨rfl, alike⟩

theorem Sim.outOfFuel : Sim c P Q outOfFuel outOfFuel :=
  fun _ _ _ _ => trivial

theorem Sim.mode {k : NumericMode → Run α} {k' : NumericMode → Run β}
    (h : ∀ mode, Sim c P Q (k mode) (k' mode)) :
    Sim c P Q (machine >>= fun m => k m.mode) (machine >>= fun m => k' m.mode) := by
  intro m m' alike flags
  change (k m.mode m).Alike c Q (k' m'.mode m')
  rw [← alike.mode]
  exact h m.mode m m' alike flags

theorem Sim.unlessExiting {a : α} {b : β} (values : Q a b) (h : Sim c P Q x y) :
    Sim c (fun m => m.exiting = false ∧ P m) Q
      (machine >>= fun m => if m.exiting then Pure.pure a else x)
      (machine >>= fun m => if m.exiting then Pure.pure b else y) := by
  intro m m' alike flags
  change ((if m.exiting then Pure.pure a else x : Run α) m).Alike c Q
    ((if m'.exiting then Pure.pure b else y : Run β) m')
  rw [← alike.exiting]
  cases exiting : m.exiting with
  | true => exact ⟨values, alike⟩
  | false => exact h m m' alike fun happens => flags ⟨exiting, happens⟩

end

section
variable {c : Comparison} {P : Machine → Prop} {v v' : Value}

theorem Sim.lookup (name : String) (line : Position) :
    Sim c P Value.Alike (lookup name line) (lookup name line) := by
  intro m m' alike _
  have found := alike.stack.find? name
  unfold Run.lookup
  cases e : m.stack.find? name with
  | some v =>
    cases e' : m'.stack.find? name with
    | some v' =>
      rw [e, e'] at found
      cases found with
      | some values => exact ⟨values, alike⟩
    | none =>
      rw [e, e'] at found
      cases found
  | none =>
    cases e' : m'.stack.find? name with
    | some v' =>
      rw [e, e'] at found
      cases found
    | none => exact ⟨rfl, alike⟩

theorem Sim.declare (name : String) : Sim c P Eq (declare name) (declare name) :=
  fun _ _ alike _ => ⟨rfl, { alike with stack := alike.stack.declare name }⟩

theorem Sim.assign (name : String) (values : v.Alike v') (line : Position) :
    Sim c P Eq (assign name v line) (assign name v' line) := by
  intro m m' alike _
  have assigned := alike.stack.assign? name values
  unfold Run.assign
  cases e : m.stack.assign? name v with
  | some s =>
    cases e' : m'.stack.assign? name v' with
    | some s' =>
      rw [e, e'] at assigned
      cases assigned with
      | some calls => exact ⟨rfl, { alike with stack := calls }⟩
    | none =>
      rw [e, e'] at assigned
      cases assigned
  | none =>
    cases e' : m'.stack.assign? name v' with
    | some s' =>
      rw [e, e'] at assigned
      cases assigned
    | none => exact ⟨rfl, alike⟩

theorem Sim.bindGlobal (name : String) (values : v.Alike v') :
    Sim c P Eq (bindGlobal name v) (bindGlobal name v') :=
  fun _ _ alike _ => ⟨rfl, { alike with stack := alike.stack.bindGlobal name values }⟩

theorem Sim.display : Sim c P Eq (display v) (display v') := by
  intro m m' alike _
  have same := alike.writer.answer (Display.text ⟨v, m.programmer⟩)
    (Display.text ⟨v', m'.programmer⟩)
  cases answer : m'.writer.answer (Display.text ⟨v', m'.programmer⟩) with
  | none =>
    rw [display_of_none (same.trans answer), display_of_none answer]
    refine ⟨rfl, { alike with writer := alike.writer.after _ _, displays := ?_ }⟩
    have before := alike.displays
    simp only [List.length_cons]
    omega
  | some reason =>
    rw [display_of_some (same.trans answer), display_of_some answer]
    exact ⟨rfl, { alike with writer := alike.writer.after _ _ }⟩

theorem Sim.setMode (mode : NumericMode) :
    Sim c P Eq (update fun m => { m with mode := mode })
      (update fun m => { m with mode := mode }) :=
  fun _ _ alike _ => ⟨rfl, { alike with mode := rfl }⟩

theorem Sim.exit :
    Sim c P Eq (update fun m => { m with exiting := true })
      (update fun m => { m with exiting := true }) :=
  fun _ _ alike _ => ⟨rfl, { alike with exiting := rfl }⟩

theorem Sim.toggle (happens : ∀ m, P m) :
    let toggled : Run Value := do
      update fun m => { m with programmer := !m.programmer }
      return .boolean (← machine).programmer
    Sim c P Value.Alike toggled toggled := by
  intro toggled m m' alike flags
  have equal := flags (happens m)
  have same : m.programmer = m'.programmer := equal ▸ alike.programmer
  refine ⟨?_, { alike with programmer := ?_ }⟩
  · change (Value.boolean !m.programmer).Alike (Value.boolean !m'.programmer)
    rw [same]
    exact .refl _
  · rw [equal]
    exact congrArg (!·) same

theorem Sim.inCall (entry : TraceEntry) {f g : Frame} (frames : f.Alike g) {x y : Run Value}
    (h : Sim c P Value.Alike x y) :
    Sim c (fun m => P { m with stack := m.stack.push f }) Value.Alike (inCall entry f x)
      (inCall entry g y) := by
  intro m m' alike flags
  have inside := h { m with stack := m.stack.push f } { m' with stack := m'.stack.push g }
    { alike with stack := alike.stack.push frames } flags
  unfold Run.inCall
  rcases inside.cases with ⟨v, v', n, n', e, e', values, after⟩ | ⟨failure, n, n', e, e', after⟩ |
    ⟨e, e'⟩
  · rw [e, e']
    exact ⟨values, { after with stack := after.stack.pop }⟩
  · rw [e, e']
    exact ⟨rfl, { after with stack := after.stack.pop }⟩
  · rw [e, e']
    trivial

theorem Sim.checkArity {α β : Type} {Q : α → β → Prop} {x : Run α} {y : Run β} (name : String)
    {given expected : Nat} (line : Position) (h : Sim c P Q x y) :
    Sim c (fun m => given = expected ∧ P m) Q
      (do checkArity name given expected line; x) (do checkArity name given expected line; y) := by
  by_cases same : given = expected
  · have passes : Calculator.checkArity name given expected line = Pure.pure () := if_pos same
    rw [passes]
    exact Sim.mono h fun m happens => ⟨same, happens⟩
  · have fails : Calculator.checkArity name given expected line =
        Run.fail (.arityMismatch name given expected line) := if_neg same
    rw [fails]
    exact fun _ _ alike _ => ⟨rfl, alike⟩

end

end Run

def Tree.IsToggle (t : Tree) : Prop :=
  ∃ line, t = .toggleProgrammer line

/-- With this fuel, all parts of an evaluation simulate the same parts of an evaluation that is
alike. -/
structure Simulates (c : Comparison) (n : Nat) : Prop where
  eval : ∀ {t t' : Tree}, t.Alike t' →
    Run.Sim c (t.Reaches Tree.IsToggle n) Value.Alike (t.eval n) (t'.eval n)
  body : ∀ {ts ts' : List Tree} {v v' : Value}, List.Forall₂ Tree.Alike ts ts' → v.Alike v' →
    Run.Sim c (bodyReaches Tree.IsToggle n ts) Value.Alike (evalBody n v ts) (evalBody n v' ts')
  condition : ∀ {t t' : Tree}, t.Alike t' →
    Run.Sim c (conditionReaches Tree.IsToggle n t) Eq (evalCondition n t) (evalCondition n t')
  loop : ∀ {g g' b b' : Tree} {s s' : Option Tree} {v v' : Value}, g.Alike g' → b.Alike b' →
    Option.Rel Tree.Alike s s' → v.Alike v' →
    Run.Sim c (loopReaches Tree.IsToggle n g b s) Value.Alike (evalLoop n g b s v)
      (evalLoop n g' b' s' v')
  arguments : ∀ {ts ts' : List Tree}, List.Forall₂ Tree.Alike ts ts' →
    Run.Sim c (argumentsReach Tree.IsToggle n ts) (List.Forall₂ Value.Alike) (evalArguments n ts)
      (evalArguments n ts')

namespace Simulates

open Run

variable {c : Comparison} {n : Nat} {P : Machine → Prop}

theorem ofDatum {r r' : Except EvalError Value} (h : Concur Value.SameDatum r r') :
    Sim c P Value.Alike (ofExcept r) (ofExcept r') := by
  refine .ofExcept ?_
  cases r <;> cases r' <;> first | exact .datum h | exact h

theorem unary (h : Simulates c n) (line : Position) (op : Kind) {t t' : Tree}
    (operand : t.Alike t') :
    Sim c ((Tree.unary line op t).Reaches Tree.IsToggle (n + 1)) Value.Alike
      ((Tree.unary line op t).eval (n + 1)) ((Tree.unary line op t').eval (n + 1)) := by
  simp only [Tree.eval]
  split
  · exact .fail _
  · rename_i f unary
    have steps := (h.eval operand).bind_never fun a b values =>
      ofDatum (c := c) (P := never) (Value.transform_alike values f line)
    exact steps.mono fun m happens => .inr (by simpa only [unary] using happens)
  · rename_i s unary
    cases operand with
    | reference at_ name =>
      refine .bind_never (.lookup name line) fun a b values => ?_
      refine .bind_never (ofDatum (Value.step_alike values s line)) fun a b values => ?_
      exact .bind_never (.assign name values line) fun _ _ _ => .pure values
    | _ => exact .fail _

theorem binary (h : Simulates c n) (line : Position) (op : Kind) {l l' r r' : Tree}
    (lhs : l.Alike l') (rhs : r.Alike r') :
    Sim c ((Tree.binary line op l r).Reaches Tree.IsToggle (n + 1)) Value.Alike
      ((Tree.binary line op l r).eval (n + 1)) ((Tree.binary line op l' r').eval (n + 1)) := by
  simp only [Tree.eval]
  split
  · exact .fail _
  · rename_i operation some
    have steps := (h.eval lhs).bind fun a a' left => (h.eval rhs).bind_never fun b b' right =>
      Sim.mode (c := c) (P := never) fun mode =>
        ofDatum (Value.apply_alike left right operation mode line)
    exact steps.mono fun m happens => .inr ⟨Option.isSome_iff_exists.mpr ⟨_, some⟩, happens⟩

theorem assign (h : Simulates c n) (line : Position) (op : Kind) (target : String) {t t' : Tree}
    (value : t.Alike t') :
    Sim c ((Tree.assign line op target t).Reaches Tree.IsToggle (n + 1)) Value.Alike
      ((Tree.assign line op target t).eval (n + 1))
      ((Tree.assign line op target t').eval (n + 1)) := by
  simp only [Tree.eval]
  split
  · rename_i none
    have steps := Sim.then (c := c) (.declare target) fun _ _ _ =>
      (h.eval value).bind_never fun v v' values =>
        .bind_never (.assign target values line) fun _ _ _ => .pure values
    exact steps.mono fun m happens => .inr (by simpa only [none] using happens)
  · rename_i operation some
    have steps := Sim.then (c := c) (.lookup target line) fun _ _ _ =>
      (h.eval value).bind_never fun b b' right => .bind_never (.lookup target line) fun a a' left =>
        .mode fun mode => .bind_never (ofDatum (Value.apply_alike left right operation mode line))
          fun v v' values => .bind_never (.assign target values line) fun _ _ _ => .pure values
    exact steps.mono fun m happens => .inr (by simpa only [some] using happens)

theorem call (h : Simulates c n) (line : Position) (name : String) {ts ts' : List Tree}
    (args : List.Forall₂ Tree.Alike ts ts') :
    Sim c ((Tree.call line name ts).Reaches Tree.IsToggle (n + 1)) Value.Alike
      ((Tree.call line name ts).eval (n + 1)) ((Tree.call line name ts').eval (n + 1)) := by
  simp only [Tree.eval]
  refine Sim.mono (.then (.lookup name line) fun callee callee' callees =>
    .bind (h.arguments args) fun values values' same => ?_) fun m happens => .inr happens
  rw [same.length_eq]
  -- Values that are alike are functions of the same name or are both none.
  cases callees with
  | datum same => cases same <;> exact .fail _
  | builtin b =>
    refine Sim.mono (.checkArity name line (P := never) (ofDatum (b.apply_alike same line))) ?_
    exact fun m happens => happens.2
  | function defined params body =>
    exact .checkArity defined line ((h.eval body).inCall ⟨defined, line⟩ (Frame.alike_ofList same))

theorem tree (h : Simulates c n) {t t' : Tree} (alike : t.Alike t') :
    Sim c (t.Reaches Tree.IsToggle (n + 1)) Value.Alike (t.eval (n + 1)) (t'.eval (n + 1)) := by
  cases alike with
  | body line statements =>
    simp only [Tree.eval]
    exact (h.body statements (.refl _)).mono fun m => .inr
  | constant line value =>
    simp only [Tree.eval]
    exact .pure value
  | reference line name =>
    simp only [Tree.eval]
    exact .lookup name line
  | unary line op operand => exact h.unary line op operand
  | binary line op lhs rhs => exact h.binary line op lhs rhs
  | assign line op target value => exact h.assign line op target value
  | whileLoop line guard body =>
    simp only [Tree.eval]
    exact (h.loop guard body .none (.refl _)).mono fun m => .inr
  | forLoop line init guard step body =>
    simp only [Tree.eval]
    refine Sim.mono ((h.eval init).bind fun _ _ _ => ?_) fun m => .inr
    exact h.loop guard body (.some step) (.refl _)
  | conditional line guard positive otherwise =>
    simp only [Tree.eval]
    refine Sim.mono ((h.condition guard).bind fun holds holds' same => ?_) fun m => .inr
    subst same
    cases holds with
    | true => exact h.eval positive
    | false =>
      cases otherwise with
      | none => exact .pure (.refl _)
      | some negative => exact h.eval negative
  | define line name params body =>
    simp only [Tree.eval]
    exact .bind_never (.bindGlobal name (.function name params body)) fun _ _ _ =>
      .pure (.function name params body)
  | call line name args => exact h.call line name args
  | display line expression =>
    simp only [Tree.eval]
    refine Sim.mono ((h.eval expression).bind_never fun v v' values => ?_) fun m => .inr
    exact .bind_never .display fun _ _ _ => .pure values
  | setMode line mode =>
    simp only [Tree.eval]
    exact .bind_never (.setMode mode) fun _ _ _ => .pure (.refl _)
  | toggleProgrammer line =>
    simp only [Tree.eval]
    exact .toggle fun m => .inl ⟨line, rfl⟩
  | exit line =>
    simp only [Tree.eval]
    exact .bind_never .exit fun _ _ _ => .pure (.refl _)

theorem body_succ (h : Simulates c n) {ts ts' : List Tree} {v v' : Value}
    (alike : List.Forall₂ Tree.Alike ts ts') (last : v.Alike v') :
    Sim c (bodyReaches Tree.IsToggle (n + 1) ts) Value.Alike (evalBody (n + 1) v ts)
      (evalBody (n + 1) v' ts') := by
  cases alike with
  | nil =>
    simp only [evalBody]
    exact .pure last
  | cons statement rest =>
    simp only [evalBody]
    exact .unlessExiting last ((h.eval statement).bind fun _ _ values => h.body rest values)

theorem condition_succ (h : Simulates c n) {t t' : Tree} (alike : t.Alike t') :
    Sim c (conditionReaches Tree.IsToggle (n + 1) t) Eq (evalCondition (n + 1) t)
      (evalCondition (n + 1) t') := by
  simp only [evalCondition]
  rw [← alike.line_eq]
  exact (h.eval alike).bind_never fun v v' values => .ofExcept (Value.toBool_alike values _)

theorem loop_succ (h : Simulates c n) {g g' b b' : Tree} {s s' : Option Tree} {v v' : Value}
    (guard : g.Alike g') (body : b.Alike b') (step : Option.Rel Tree.Alike s s')
    (last : v.Alike v') :
    Sim c (loopReaches Tree.IsToggle (n + 1) g b s) Value.Alike (evalLoop (n + 1) g b s v)
      (evalLoop (n + 1) g' b' s' v') := by
  simp only [evalLoop]
  refine .unlessExiting last ((h.condition guard).bind fun holds holds' same => ?_)
  subst same
  cases holds with
  | false => exact .pure last
  | true =>
    refine Sim.mono ((h.eval body).bind fun w w' values => ?_) fun m happens => ⟨rfl, happens⟩
    cases step with
    | none => exact h.loop guard body .none values
    | some tree => exact (h.eval tree).bind fun _ _ _ => h.loop guard body (.some tree) values

theorem arguments_succ (h : Simulates c n) {ts ts' : List Tree}
    (alike : List.Forall₂ Tree.Alike ts ts') :
    Sim c (argumentsReach Tree.IsToggle (n + 1) ts) (List.Forall₂ Value.Alike)
      (evalArguments (n + 1) ts) (evalArguments (n + 1) ts') := by
  cases alike with
  | nil =>
    simp only [evalArguments]
    exact .pure .nil
  | cons arg rest =>
    simp only [evalArguments]
    exact (h.eval arg).bind fun v v' first => (h.arguments rest).bind_never fun vs vs' others =>
      .pure (.cons first others)

end Simulates

theorem simulates (c : Comparison) (n : Nat) : Simulates c n := by
  induction n with
  | zero => exact ⟨fun _ => .outOfFuel, fun _ _ => .outOfFuel, fun _ => .outOfFuel,
      fun _ _ _ _ => .outOfFuel, fun _ => .outOfFuel⟩
  | succ n ih => exact ⟨ih.tree, ih.body_succ, ih.condition_succ, ih.loop_succ, ih.arguments_succ⟩

namespace Tree

variable {t t' : Tree} {m m' : Machine}

/-- Both evaluations come to an end, with outcomes that are alike, or neither does. -/
def EndAlike (c : Comparison) (t t' : Tree) (m m' : Machine) : Prop :=
  ((∃ o, t.Ends m o) ↔ ∃ o, t'.Ends m' o) ∧
    ∀ o o', t.Ends m o → t'.Ends m' o' → o.Alike c Value.Alike o'

theorem Alike.endAlike {c : Comparison} (trees : t.Alike t') (machines : m.Alike c m')
    (toggles : ∀ fuel, t.Reaches IsToggle fuel m → c.flags = Eq) : EndAlike c t t' m m' := by
  have same (fuel : Nat) : (t.eval fuel m).Alike c Value.Alike (t'.eval fuel m') :=
    (simulates c fuel).eval trees m m' machines (toggles fuel)
  have answered (fuel : Nat) : t.eval fuel m = .outOfFuel ↔ t'.eval fuel m' = .outOfFuel := by
    have alike := same fuel
    cases e : t.eval fuel m <;> cases e' : t'.eval fuel m' <;> rw [e, e'] at alike <;>
      first | exact alike.elim | simp
  constructor
  · constructor
    · rintro ⟨_, ended, fuel, rfl⟩
      exact ⟨_, fun e => ended ((answered fuel).mpr e), fuel, rfl⟩
    · rintro ⟨_, ended, fuel, rfl⟩
      exact ⟨_, fun e => ended ((answered fuel).mp e), fuel, rfl⟩
  · rintro _ o' ⟨ended, fuel, rfl⟩ ends'
    have here : t'.Ends m' (t'.eval fuel m') := ⟨fun e => ended ((answered fuel).mpr e), fuel, rfl⟩
    rw [ends'.unique here]
    exact same fuel

/-- How values are shown does not matter to evaluations: they end alike on stacks that are alike if
the programmer flags are the same, and also if these differ but no flag is toggled on the way. Then
each flag stays as it was. -/
theorem ends_alike (trees : t.Alike t') (calls : m.stack.Alike m'.stack)
    (mode : m.mode = m'.mode) (exiting : m.exiting = m'.exiting)
    (writer : m.writer.Alike m'.writer) :
    (m.programmer = m'.programmer →
        EndAlike ⟨Eq, m.displays.length, m'.displays.length⟩ t t' m m') ∧
      ((∀ fuel, ¬t.Reaches IsToggle fuel m) →
        EndAlike ⟨fun a b => a = m.programmer ∧ b = m'.programmer, m.displays.length,
          m'.displays.length⟩ t t' m m') := by
  constructor
  · intro programmer
    exact trees.endAlike ⟨calls, mode, programmer, exiting, writer, Nat.add_comm _ _⟩
      fun _ _ => rfl
  · intro quiet
    exact trees.endAlike ⟨calls, mode, ⟨rfl, rfl⟩, exiting, writer, Nat.add_comm _ _⟩
      fun fuel toggles => absurd toggles (quiet fuel)

def displaysSum (flavor : Flavor) : Tree :=
  .display 1 (.binary 1 .plus (.reference 1 "x") (.constant 1 (.int 31 flavor)))

def withHalf (programmer : Bool) (precision : Nat) : Machine :=
  { Machine.initial .rational programmer .accepting with
    stack := ⟨.ofList (["x"].zip [.rational (1 / 2) .dec precision]), []⟩ }

def showingSum (programmer : Bool) (precision : Nat) : Machine :=
  { withHalf programmer precision with
    displays := [⟨.rational (63 / 2) .dec precision, programmer⟩] }

theorem ends_alike_displaysSum :
    (displaysSum .hex).Ends (withHalf true 3)
        (.ok (.rational (63 / 2) .dec 3) (showingSum true 3)) ∧
      (displaysSum .dec).Ends (withHalf false 9)
        (.ok (.rational (63 / 2) .dec 9) (showingSum false 9)) ∧
      (showingSum true 3).Alike ⟨fun a b => a = true ∧ b = false, 0, 0⟩ (showingSum false 9) := by
  have trees : (displaysSum .hex).Alike (displaysSum .dec) :=
    .display 1 (.binary 1 .plus (.reference 1 "x") (.constant 1 (.datum (.int 31 _ _))))
  have calls : (withHalf true 3).stack.Alike (withHalf false 9).stack :=
    ⟨Frame.alike_ofList (.cons (.datum (.rational _ _ _ _ _)) .nil), .nil⟩
  have quiet (fuel : Nat) : ¬(displaysSum .hex).Reaches IsToggle fuel (withHalf true 3) := by
    rcases fuel with _ | _ | _ | fuel <;>
      simp [displaysSum, Reaches, Run.Meets, IsToggle]
  have accepts : Writer.accepting.Alike .accepting := fun _ _ _ _ _ => rfl
  have alike := (ends_alike trees calls rfl rfl accepts).2 quiet
  have sum : (1 / 2 : Rat) + (31 : Int) = 63 / 2 := by decide +kernel
  have left : (displaysSum .hex).Ends (withHalf true 3) (.ok _ (showingSum true 3)) :=
    ⟨by rintro ⟨⟩, 3, by rw [showingSum, ← sum]; rfl⟩
  have right : (displaysSum .dec).Ends (withHalf false 9) (.ok _ (showingSum false 9)) :=
    ⟨by rintro ⟨⟩, 3, by rw [showingSum, ← sum]; rfl⟩
  rw [← sum]
  exact ⟨left, right, (alike.2 _ _ left right).2⟩

def roomFor (room : Nat) : Writer :=
  ⟨fun earlier line => if (String.join (earlier ++ [line])).utf8ByteSize ≤ room then none
    else some "failed to write whole buffer"⟩

def displays31 (flavor : Flavor) : Tree :=
  .display 1 (.constant 1 (.int 31 flavor))

def withRoom : Machine :=
  .initial .rational false (roomFor 12)

theorem not_endAlike_of_room : ¬EndAlike ⟨Eq, 0, 0⟩ (displays31 .dec) (displays31 .hex) withRoom
    withRoom := by
  intro alike
  have written : withRoom.writer.answer (Display.text ⟨.int 31 .dec, false⟩) = none := by
    decide +kernel
  have refused : withRoom.writer.answer (Display.text ⟨.int 31 .hex, false⟩) =
      some "failed to write whole buffer" := by
    decide +kernel
  let answer (flavor : Flavor) (_ : Unit) : Run Value := pure (.int 31 flavor)
  have answers : (displays31 .dec).Ends withRoom (.ok (.int 31 .dec) _) :=
    ⟨nofun, 2, Run.bind_of_ok (f := answer .dec) (Run.display_of_none written)⟩
  have fails : (displays31 .hex).Ends withRoom (.error ⟨.writeFailure _, []⟩ _) :=
    ⟨nofun, 2, Run.bind_of_error (f := answer .hex) (Run.display_of_some refused)⟩
  exact alike.2 _ _ answers fails

/-- It matters how values are shown if the writer looks at their texts: there is room for
`integer 31`, but not for `integer 0x1f`. And programmer flags that differ do so to the end. -/
theorem not_ends_alike :
    (¬∀ (t t' : Tree) (m m' : Machine), t.Alike t' → m.stack.Alike m'.stack → m.mode = m'.mode →
      m.exiting = m'.exiting → m.writer = m'.writer → m.programmer = m'.programmer →
      EndAlike ⟨Eq, m.displays.length, m'.displays.length⟩ t t' m m') ∧
    ¬∀ (t t' : Tree) (m m' : Machine), t.Alike t' → m.stack.Alike m'.stack → m.mode = m'.mode →
      m.exiting = m'.exiting → m.writer = m'.writer → (∀ fuel, ¬t.Reaches IsToggle fuel m) →
      EndAlike ⟨Eq, m.displays.length, m'.displays.length⟩ t t' m m' := by
  have stack : withRoom.stack.Alike withRoom.stack := ⟨.refl _, .nil⟩
  constructor
  · intro alike
    have trees : (displays31 .dec).Alike (displays31 .hex) :=
      .display 1 (.constant 1 (.datum (.int 31 _ _)))
    exact not_endAlike_of_room (alike _ _ withRoom withRoom trees stack rfl rfl rfl rfl)
  · intro alike
    have trees : (Tree.constant 1 .zero).Alike (.constant 1 .zero) :=
      .constant 1 (.datum (.int 0 _ _))
    have quiet (fuel : Nat) : ¬(Tree.constant 1 .zero).Reaches IsToggle fuel withRoom := by
      cases fuel <;> simp [Reaches, IsToggle]
    have ends (m : Machine) : (Tree.constant 1 .zero).Ends m (.ok .zero m) := ⟨nofun, 1, rfl⟩
    have both := (alike _ _ withRoom { withRoom with programmer := true } trees stack rfl rfl rfl
      quiet).2 _ _ (ends _) (ends _)
    exact Bool.false_ne_true both.2.programmer

end Tree

end Calculator
