import Calculator.Proofs.Eval.Ending
import Calculator.Proofs.Eval.Holding
import Calculator.Proofs.Tree.Shape
import Calculator.Proofs.Value.Bare
import Calculator.Proofs.Value.Likeness
import Calculator.Session

set_option autoImplicit false

/-!
# Evaluation without lines

A machine without the lines of its functions and without the last result evaluates a tree without
lines as the machine evaluates the tree itself, as long as neither the tree nor a function of the
machine mentions the last result (`echoesAll`, `Run.ends_bare_iff`). If they have no settings
either, the mode stays.
-/
namespace Calculator

open Session (lastResult)

section
variable {x y : String} {v : Value}

def Frame.bare (f : Frame) : Frame :=
  ⟨(f.bindings.filter fun b => b.1 ≠ lastResult).map fun b => (b.1, b.2.bare)⟩

def CallStack.bare (s : CallStack) : CallStack :=
  ⟨s.globals.bare, s.calls.map Frame.bare⟩

namespace Frame

variable {f : Frame}

theorem bare_cons_of_ne {rest : List (String × Value)} (h : x ≠ lastResult) :
    bare ⟨(x, v) :: rest⟩ = ⟨(x, v.bare) :: (bare ⟨rest⟩).bindings⟩ := by
  simp [bare, h]

theorem bare_cons_last {rest : List (String × Value)} :
    bare ⟨(lastResult, v) :: rest⟩ = bare ⟨rest⟩ := by
  simp [bare]

theorem find?_bare (h : x ≠ lastResult) : f.bare.find? x = (f.find? x).map Value.bare := by
  obtain ⟨bindings⟩ := f
  induction bindings with
  | nil => rfl
  | cons b rest ih =>
    obtain ⟨y, w⟩ := b
    by_cases last : y = lastResult
    · subst last
      rw [bare_cons_last, ih]
      simp [find?, findIn, Ne.symm h]
    · rw [bare_cons_of_ne last]
      by_cases same : y = x
      · simp [find?, findIn, same]
      · simpa [find?, findIn, same] using ih

theorem bare_insert (h : x ≠ lastResult) : (f.insert x v).bare = f.bare.insert x v.bare := by
  obtain ⟨bindings⟩ := f
  induction bindings with
  | nil => exact bare_cons_of_ne h
  | cons b rest ih =>
    obtain ⟨y, w⟩ := b
    by_cases same : y = x
    · subst same
      simp [insert, insertIn, bare_cons_of_ne h]
    · have step : insert ⟨(y, w) :: rest⟩ x v = ⟨(y, w) :: (insert ⟨rest⟩ x v).bindings⟩ := by
        simp [insert, insertIn, same]
      rw [step]
      by_cases last : y = lastResult
      · subst last
        rw [bare_cons_last, bare_cons_last]
        exact ih
      · rw [bare_cons_of_ne last, bare_cons_of_ne last]
        simp only [insert, insertIn, if_neg same] at ih ⊢
        rw [ih]

theorem bare_insert_last : (f.insert lastResult v).bare = f.bare := by
  obtain ⟨bindings⟩ := f
  induction bindings with
  | nil => exact bare_cons_last
  | cons b rest ih =>
    obtain ⟨y, w⟩ := b
    by_cases last : y = lastResult
    · subst last
      simp [insert, insertIn, bare_cons_last]
    · have step : insert ⟨(y, w) :: rest⟩ lastResult v =
          ⟨(y, w) :: (insert ⟨rest⟩ lastResult v).bindings⟩ := by
        simp [insert, insertIn, last]
      rw [step, bare_cons_of_ne last, bare_cons_of_ne last, ih]

theorem bare_ofList {names : List String} (avoids : lastResult ∉ names) (vs : List Value) :
    (ofList (names.zip vs)).bare = ofList (names.zip (vs.map Value.bare)) := by
  have inserted (f : Frame) : ((names.zip vs).foldl (fun f b => f.insert b.1 b.2) f).bare =
      (names.zip (vs.map Value.bare)).foldl (fun f b => f.insert b.1 b.2) f.bare := by
    induction names generalizing vs f with
    | nil => rfl
    | cons x names ih =>
      obtain ⟨other, avoids⟩ := List.ne_and_not_mem_of_not_mem_cons avoids
      cases vs with
      | nil => rfl
      | cons v vs =>
        rw [List.zip_cons_cons, List.map_cons, List.zip_cons_cons, List.foldl_cons,
          List.foldl_cons, ih avoids, bare_insert other.symm]
  exact inserted empty

theorem contains_bare (h : x ≠ lastResult) : f.bare.contains x = f.contains x := by
  rw [contains, contains, find?_bare h, Option.isSome_map]

end Frame

namespace CallStack

variable {s : CallStack}

theorem top_bare : s.bare.top = s.top.bare := by
  obtain ⟨globals, calls⟩ := s
  cases calls <;> rfl

theorem bare_setTop (f : Frame) : (s.setTop f).bare = s.bare.setTop f.bare := by
  obtain ⟨globals, calls⟩ := s
  cases calls <;> rfl

theorem find?_bare (h : x ≠ lastResult) : s.bare.find? x = (s.find? x).map Value.bare := by
  rw [find?, find?, top_bare, Frame.find?_bare h, show s.bare.globals = s.globals.bare from rfl,
    Frame.find?_bare h]
  cases s.top.find? x <;> rfl

theorem bare_bindGlobal (h : x ≠ lastResult) :
    (s.bindGlobal x v).bare = s.bare.bindGlobal x v.bare :=
  congrArg (CallStack.mk · _) (Frame.bare_insert h)

theorem bare_bindGlobal_last : (s.bindGlobal lastResult v).bare = s.bare :=
  congrArg (CallStack.mk · _) Frame.bare_insert_last

theorem bare_bindLocal (h : x ≠ lastResult) :
    (s.bindLocal x v).bare = s.bare.bindLocal x v.bare := by
  rw [bindLocal, bindLocal, bare_setTop, Frame.bare_insert h, top_bare]

theorem bare_assign? (h : x ≠ lastResult) :
    s.bare.assign? x v.bare = (s.assign? x v).map CallStack.bare := by
  unfold assign?
  rw [top_bare, Frame.contains_bare h, show s.bare.globals = s.globals.bare from rfl,
    Frame.contains_bare h, apply_ite (Option.map _), apply_ite (Option.map _), Option.map_some,
    Option.map_some, bare_bindLocal h, bare_bindGlobal h]
  rfl

theorem bare_declare (h : x ≠ lastResult) : (s.declare x).bare = s.bare.declare x := by
  unfold declare
  rw [find?_bare h, Option.isSome_map, apply_ite CallStack.bare, bare_bindLocal h]
  rfl

theorem bare_pop : s.pop.bare = s.bare.pop := by
  obtain ⟨globals, calls⟩ := s
  cases calls <;> rfl

end CallStack

end

namespace Tree

def names : Tree → List String
  | .reference _ x | .assign _ _ x _ | .call _ x _ => [x]
  | .define _ x params _ => x :: params
  | _ => []

/-- The root does not mention the last result and, if evaluation is to be steady, does not change
the mode. -/
structure Tame (steady : Bool) (t : Tree) : Prop where
  avoids : lastResult ∉ t.names
  datum : ∀ v ∈ t.constant?, v.isCallable = false
  keeps : steady = true → t.isSetting = false

section
variable {steady : Bool} {t u : Tree}

theorem tame_bare_iff : Tree.Tame steady t.bare ↔ Tree.Tame steady t := by
  have names : t.bare.names = t.names := by cases t <;> rfl
  have constant : t.bare.constant? = t.constant? := by cases t <;> rfl
  have setting : t.bare.isSetting = t.isSetting := by cases t <;> rfl
  constructor
  · intro h
    exact ⟨names ▸ h.avoids, constant ▸ h.datum, setting ▸ h.keeps⟩
  · intro h
    exact ⟨names ▸ h.avoids, constant ▸ h.datum, setting ▸ h.keeps⟩

theorem all_tame_bare_iff : t.bare.All (Tree.Tame steady) ↔ t.All (Tree.Tame steady) := by
  unfold All
  rw [nodes_bare, List.forall_mem_map]
  exact forall₂_congr fun _ _ => tame_bare_iff

theorem all_tame_of_bare_eq (same : t.bare = u.bare) (h : u.All (Tree.Tame steady)) :
    t.All (Tree.Tame steady) :=
  all_tame_bare_iff.mp (same ▸ all_tame_bare_iff.mpr h)

theorem Tame.weaken (h : Tree.Tame true t) : Tree.Tame false t :=
  ⟨h.avoids, h.datum, nofun⟩

end

end Tree

def Value.Tame (steady : Bool) : Value → Prop
  | .function _ params body => lastResult ∉ params ∧ body.All (Tree.Tame steady)
  | _ => True

theorem Value.Tame.weaken {v : Value} (h : v.Tame true) : v.Tame false := by
  cases v with
  | function name params body => exact ⟨h.1, h.2.mono fun _ tame => tame.weaken⟩
  | int | float | rational | date | builtin => trivial

def Value.Bares (steady : Bool) (v v' : Value) : Prop :=
  v.Tame steady ∧ v' = v.bare

theorem Value.bares_of_datum {steady : Bool} {v : Value} (h : v.isCallable = false) :
    v.Bares steady v := by
  cases v with
  | function | builtin => cases h
  | _ => exact ⟨trivial, rfl⟩

def Display.bare (d : Display) : Display :=
  ⟨d.value.bare, d.programmer⟩

theorem Display.text_bare (d : Display) : d.bare.text = d.text := by
  obtain ⟨v, programmer⟩ := d
  cases v <;> rfl

namespace Machine

def bare (m : Machine) : Machine :=
  { m with stack := m.stack.bare, displays := m.displays.map Display.bare }

/-- The functions on the stack are tame, and where evaluation is to be steady, it is in this
mode. -/
structure Tame (steady : Bool) (mode : NumericMode) (m : Machine) : Prop where
  stack : m.stack.Holds (Value.Tame steady)
  mode : steady = true → m.mode = mode

end Machine

def TraceEntry.bare (e : TraceEntry) : TraceEntry :=
  ⟨e.function, 0⟩

def Failure.bare (f : Failure) : Failure :=
  ⟨f.error.bare, f.trace.map TraceEntry.bare⟩

/-- The second outcome is the first one without lines, with related answers, and the first machine
is tame. -/
def Outcome.Echoed {α β : Type} (steady : Bool) (mode : NumericMode) (Q : α → β → Prop) :
    Outcome Failure α → Outcome Failure β → Prop
  | .ok a m, .ok b m' => Q a b ∧ m.Tame steady mode ∧ m' = m.bare
  | .error e m, .error f m' => f = e.bare ∧ m.Tame steady mode ∧ m' = m.bare
  | .outOfFuel, .outOfFuel => True
  | _, _ => False

section
variable {α β : Type} {steady : Bool} {mode : NumericMode} {Q : α → β → Prop}
  {o : Outcome Failure β} {m : Machine}

theorem Outcome.echoed_ok_iff {a : α} : Outcome.Echoed steady mode Q (.ok a m) o ↔
    ∃ b, Q a b ∧ m.Tame steady mode ∧ o = .ok b m.bare := by
  cases o <;> simp [Echoed]

theorem Outcome.echoed_error_iff {e : Failure} :
    Outcome.Echoed steady mode Q (.error e m : Outcome Failure α) o ↔
      m.Tame steady mode ∧ o = .error e.bare m.bare := by
  cases o <;> simp [Echoed, and_left_comm]

theorem Outcome.echoed_outOfFuel_iff :
    Outcome.Echoed steady mode Q (.outOfFuel : Outcome Failure α) o ↔ o = .outOfFuel := by
  cases o <;> simp [Echoed]

end

namespace Run

/-- What the first computation does on a tame machine the second one does without lines. -/
def Echoes {α β : Type} (steady : Bool) (mode : NumericMode) (Q : α → β → Prop) (x : Run α)
    (y : Run β) : Prop :=
  ∀ m, m.Tame steady mode → (x m).Echoed steady mode Q (y m.bare)

section
variable {α β γ δ : Type} {steady : Bool} {mode : NumericMode} {Q : α → β → Prop}
  {S : γ → δ → Prop} {x : Run α} {y : Run β} {f : α → Run γ} {g : β → Run δ}

theorem Echoes.bind (head : Echoes steady mode Q x y)
    (tail : ∀ a b, Q a b → Echoes steady mode S (f a) (g b)) :
    Echoes steady mode S (x >>= f) (y >>= g) := by
  intro m tame
  have first := head m tame
  cases e : x m with
  | ok a n =>
    rw [e] at first
    obtain ⟨b, related, after, e'⟩ := Outcome.echoed_ok_iff.mp first
    rw [bind_of_ok e, bind_of_ok e']
    exact tail a b related n after
  | error failure n =>
    rw [e] at first
    obtain ⟨after, e'⟩ := Outcome.echoed_error_iff.mp first
    rw [bind_of_error e, bind_of_error e']
    exact ⟨rfl, after, rfl⟩
  | outOfFuel =>
    rw [e] at first
    rw [bind_of_outOfFuel e, bind_of_outOfFuel (Outcome.echoed_outOfFuel_iff.mp first)]
    trivial

theorem Echoes.bindValue {x y : Run Value} {f : Value → Run γ} {g : Value → Run δ}
    (head : Echoes steady mode (Value.Bares steady) x y)
    (tail : ∀ v, v.Tame steady → Echoes steady mode S (f v) (g v.bare)) :
    Echoes steady mode S (x >>= f) (y >>= g) := by
  refine head.bind ?_
  rintro v _ ⟨tame, rfl⟩
  exact tail v tame

theorem Echoes.pure {a : α} {b : β} (h : Q a b) : Echoes steady mode Q (pure a) (pure b) :=
  fun _ tame => ⟨h, tame, rfl⟩

theorem Echoes.fail (e : EvalError) : Echoes steady mode Q (fail e) (fail e.bare) :=
  fun _ tame => ⟨rfl, tame, rfl⟩

theorem Echoes.outOfFuel : Echoes steady mode Q outOfFuel outOfFuel :=
  fun _ _ => trivial

theorem Echoes.ofExcept {r r' : Except EvalError α} {R : α → α → Prop} (same : bareError r = r')
    (h : ∀ a, r = .ok a → R a a) : Echoes steady mode R (ofExcept r) (ofExcept r') := by
  intro m tame
  subst same
  cases r with
  | ok a => exact ⟨h a rfl, tame, rfl⟩
  | error e => exact ⟨rfl, tame, rfl⟩

theorem Echoes.datum {r r' : Except EvalError Value} (same : bareError r = r')
    (h : Concur Value.SameDatum r r) :
    Echoes steady mode (Value.Bares steady) (Run.ofExcept r) (Run.ofExcept r') := by
  refine .ofExcept same ?_
  rintro v rfl
  have datum : v.SameDatum v := h
  cases datum <;> exact Value.bares_of_datum rfl

theorem Echoes.machineMode {k : NumericMode → Run α} {l : NumericMode → Run β}
    (h : ∀ current, Echoes steady mode Q (k current) (l current)) :
    Echoes steady mode Q (machine >>= fun m => k m.mode) (machine >>= fun m => l m.mode) :=
  fun m tame => h m.mode m tame

theorem Echoes.unlessExiting {a : α} {b : β} (values : Q a b) (h : Echoes steady mode Q x y) :
    Echoes steady mode Q (machine >>= fun m => if m.exiting then Pure.pure a else x)
      (machine >>= fun m => if m.exiting then Pure.pure b else y) := by
  intro m tame
  change ((if m.exiting then Pure.pure a else x : Run α) m).Echoed steady mode Q
    ((if m.exiting then Pure.pure b else y : Run β) m.bare)
  split
  · exact ⟨values, tame, rfl⟩
  · exact h m tame

end

section
variable {steady : Bool} {mode : NumericMode} {name : String} {v v' : Value}

theorem Echoes.lookup (avoids : name ≠ lastResult) (line : Position) :
    Echoes steady mode (Value.Bares steady) (lookup name line) (lookup name 0) := by
  intro m tame
  unfold Run.lookup
  rw [show m.bare.stack = m.stack.bare from rfl, CallStack.find?_bare avoids]
  cases found : m.stack.find? name with
  | some v => exact ⟨⟨tame.stack.find? found, rfl⟩, tame, rfl⟩
  | none => exact ⟨rfl, tame, rfl⟩

theorem Echoes.declare (avoids : name ≠ lastResult) :
    Echoes steady mode Eq (declare name) (declare name) := by
  intro m tame
  refine ⟨rfl, { tame with stack := tame.stack.declare name trivial }, ?_⟩
  simp only [Machine.bare, CallStack.bare_declare avoids]

theorem Echoes.assign (avoids : name ≠ lastResult) (values : v.Bares steady v') (line : Position) :
    Echoes steady mode Eq (assign name v line) (assign name v' 0) := by
  intro m tame
  obtain ⟨value, rfl⟩ := values
  unfold Run.assign
  rw [show m.bare.stack = m.stack.bare from rfl, CallStack.bare_assign? avoids]
  cases assigned : m.stack.assign? name v with
  | some s => exact ⟨rfl, { tame with stack := tame.stack.assign? value assigned }, rfl⟩
  | none => exact ⟨rfl, tame, rfl⟩

theorem Echoes.bindGlobal (avoids : name ≠ lastResult) (values : v.Bares steady v') :
    Echoes steady mode Eq (bindGlobal name v) (bindGlobal name v') := by
  intro m tame
  obtain ⟨value, rfl⟩ := values
  refine ⟨rfl, { tame with stack := tame.stack.bindGlobal name value }, ?_⟩
  simp only [Machine.bare, CallStack.bare_bindGlobal avoids]

theorem Echoes.display (values : v.Bares steady v') :
    Echoes steady mode Eq (display v) (display v') := by
  intro m tame
  obtain ⟨-, rfl⟩ := values
  have same : m.bare.writer.answer (Display.text ⟨v.bare, m.bare.programmer⟩) =
      m.writer.answer (Display.text ⟨v, m.programmer⟩) :=
    congrArg m.writer.answer (Display.text_bare ⟨v, m.programmer⟩)
  have after : m.bare.writer.after (Display.text ⟨v.bare, m.bare.programmer⟩) =
      m.writer.after (Display.text ⟨v, m.programmer⟩) :=
    congrArg m.writer.after (Display.text_bare ⟨v, m.programmer⟩)
  cases answer : m.writer.answer (Display.text ⟨v, m.programmer⟩) with
  | none =>
    rw [display_of_none answer, display_of_none (same.trans answer), after]
    exact ⟨rfl, ⟨tame.stack, tame.mode⟩, rfl⟩
  | some reason =>
    rw [display_of_some answer, display_of_some (same.trans answer), after]
    exact ⟨rfl, ⟨tame.stack, tame.mode⟩, rfl⟩

theorem Echoes.setMode (free : steady = false) (other : NumericMode) :
    Echoes steady mode Eq (update fun m => { m with mode := other })
      (update fun m => { m with mode := other }) :=
  fun _ tame => ⟨rfl, { tame with mode := fun h => by rw [free] at h; cases h }, rfl⟩

theorem Echoes.toggle :
    let toggled : Run Value := do
      update fun m => { m with programmer := !m.programmer }
      return .boolean (← machine).programmer
    Echoes steady mode (Value.Bares steady) toggled toggled :=
  fun _ tame => ⟨Value.bares_of_datum rfl, ⟨tame.stack, tame.mode⟩, rfl⟩

theorem Echoes.exit :
    Echoes steady mode Eq (update fun m => { m with exiting := true })
      (update fun m => { m with exiting := true }) :=
  fun _ tame => ⟨rfl, ⟨tame.stack, tame.mode⟩, rfl⟩

theorem Echoes.checkArity {given expected : Nat} (line : Position) :
    Echoes steady mode Eq (checkArity name given expected line)
      (checkArity name given expected 0) := by
  unfold Calculator.checkArity
  split
  · exact .pure rfl
  · exact .fail _

theorem Echoes.inCall {entry : TraceEntry} {frame : Frame} {x y : Run Value}
    (holds : frame.Holds (Value.Tame steady))
    (h : Echoes steady mode (Value.Bares steady) x y) :
    Echoes steady mode (Value.Bares steady) (inCall entry frame x)
      (inCall entry.bare frame.bare y) := by
  intro m tame
  have inside := h { m with stack := m.stack.push frame }
    { tame with stack := tame.stack.push holds }
  have start : Machine.bare { m with stack := m.stack.push frame } =
      { m.bare with stack := m.bare.stack.push frame.bare } := rfl
  rw [start] at inside
  unfold Run.inCall
  cases e : x { m with stack := m.stack.push frame } with
  | ok v n =>
    rw [e] at inside
    obtain ⟨v', values, after, e'⟩ := Outcome.echoed_ok_iff.mp inside
    rw [e']
    refine ⟨values, { after with stack := after.stack.pop }, ?_⟩
    simp only [Machine.bare, CallStack.bare_pop]
  | error failure n =>
    rw [e] at inside
    obtain ⟨after, e'⟩ := Outcome.echoed_error_iff.mp inside
    rw [e']
    refine ⟨?_, { after with stack := after.stack.pop }, ?_⟩
    · simp [Failure.bare]
    · simp only [Machine.bare, CallStack.bare_pop]
  | outOfFuel =>
    rw [e] at inside
    rw [Outcome.echoed_outOfFuel_iff.mp inside]
    trivial

end

end Run

/-- With this fuel all parts of an evaluation of what is tame are echoed without lines. -/
structure EchoesAll (steady : Bool) (mode : NumericMode) (n : Nat) : Prop where
  eval : ∀ t : Tree, t.All (Tree.Tame steady) →
    Run.Echoes steady mode (Value.Bares steady) (t.eval n) (t.bare.eval n)
  body : ∀ (ts : List Tree) (v v' : Value), (∀ t ∈ ts, t.All (Tree.Tame steady)) →
    v.Bares steady v' →
    Run.Echoes steady mode (Value.Bares steady) (evalBody n v ts) (evalBody n v' (ts.map .bare))
  condition : ∀ t : Tree, t.All (Tree.Tame steady) →
    Run.Echoes steady mode Eq (evalCondition n t) (evalCondition n t.bare)
  loop : ∀ (g b : Tree) (s : Option Tree) (v v' : Value), g.All (Tree.Tame steady) →
    b.All (Tree.Tame steady) → (∀ t ∈ s, t.All (Tree.Tame steady)) → v.Bares steady v' →
    Run.Echoes steady mode (Value.Bares steady) (evalLoop n g b s v)
      (evalLoop n g.bare b.bare (s.map .bare) v')
  arguments : ∀ ts : List Tree, (∀ t ∈ ts, t.All (Tree.Tame steady)) →
    Run.Echoes steady mode (fun vs vs' => (∀ v ∈ vs, v.Tame steady) ∧ vs' = vs.map Value.bare)
      (evalArguments n ts) (evalArguments n (ts.map .bare))

namespace EchoesAll

open Run

variable {steady : Bool} {mode : NumericMode} {n : Nat}

theorem unary (h : EchoesAll steady mode n) (line : Position) (op : Kind) {t : Tree}
    (tame : t.All (Tree.Tame steady)) : Echoes steady mode (Value.Bares steady)
      ((Tree.unary line op t).eval (n + 1)) ((Tree.unary line op t).bare.eval (n + 1)) := by
  simp only [Tree.eval, Tree.bare]
  split
  · exact .fail _
  · refine (h.eval t tame).bindValue fun v _ => ?_
    exact .datum (v.transform_bare line _) (Value.transform_alike (.refl v) _ line)
  · rename_i s _
    cases t with
    | reference at_ name =>
      have avoids : name ≠ lastResult := fun e => tame.root.avoids (by simp [Tree.names, e])
      refine (Echoes.lookup avoids line).bindValue fun v _ => ?_
      refine (Echoes.datum (v.step_bare line s) (Value.step_alike (.refl v) s line)).bind ?_
      exact fun w w' values => (Echoes.assign avoids values line).bind fun _ _ _ => .pure values
    | _ => exact .fail _

theorem binary (h : EchoesAll steady mode n) (line : Position) (op : Kind) {l r : Tree}
    (left : l.All (Tree.Tame steady)) (right : r.All (Tree.Tame steady)) :
    Echoes steady mode (Value.Bares steady)
      ((Tree.binary line op l r).eval (n + 1)) ((Tree.binary line op l r).bare.eval (n + 1)) := by
  simp only [Tree.eval, Tree.bare]
  cases op.operation with
  | none => exact .fail _
  | some operation =>
    refine (h.eval l left).bindValue fun a _ => ?_
    refine (h.eval r right).bindValue fun b _ => ?_
    exact Echoes.machineMode (k := fun mode => Run.ofExcept (a.apply operation mode b line))
      (l := fun mode => Run.ofExcept (a.bare.apply operation mode b.bare 0)) fun current =>
        .datum (a.apply_bare b line operation current)
          (Value.apply_alike (.refl a) (.refl b) operation current line)

theorem assign (h : EchoesAll steady mode n) (line : Position) (op : Kind) {target : String}
    {t : Tree} (avoids : target ≠ lastResult) (tame : t.All (Tree.Tame steady)) :
    Echoes steady mode (Value.Bares steady) ((Tree.assign line op target t).eval (n + 1))
      ((Tree.assign line op target t).bare.eval (n + 1)) := by
  simp only [Tree.eval, Tree.bare]
  cases op.operation with
  | none =>
    refine (Echoes.declare avoids).bind fun _ _ _ => (h.eval t tame).bind fun v v' values => ?_
    exact (Echoes.assign avoids values line).bind fun _ _ _ => .pure values
  | some operation =>
    refine (Echoes.lookup avoids line).bind fun _ _ _ => ?_
    refine (h.eval t tame).bindValue fun b _ => ?_
    refine (Echoes.lookup avoids line).bindValue fun a _ => ?_
    refine Echoes.machineMode
      (k := fun mode => do
        let v ← Run.ofExcept (a.apply operation mode b line)
        Run.assign target v line
        return v)
      (l := fun mode => do
        let v ← Run.ofExcept (a.bare.apply operation mode b.bare 0)
        Run.assign target v 0
        return v)
      fun current => ?_
    refine (Echoes.datum (a.apply_bare b line operation current)
      (Value.apply_alike (.refl a) (.refl b) operation current line)).bind fun v v' values => ?_
    exact (Echoes.assign avoids values line).bind fun _ _ _ => .pure values

theorem call (h : EchoesAll steady mode n) (line : Position) {name : String} {ts : List Tree}
    (avoids : name ≠ lastResult) (tame : ∀ t ∈ ts, t.All (Tree.Tame steady)) :
    Echoes steady mode (Value.Bares steady) ((Tree.call line name ts).eval (n + 1))
      ((Tree.call line name ts).bare.eval (n + 1)) := by
  simp only [Tree.eval, Tree.bare, bareTrees_eq_map]
  refine (Echoes.lookup avoids line).bindValue fun callee value => ?_
  refine (h.arguments ts tame).bind ?_
  rintro vs _ ⟨values, rfl⟩
  rw [List.length_map]
  cases callee with
  | builtin b =>
    refine (Echoes.checkArity line).bind fun _ _ _ => .datum (b.apply_bare line vs) ?_
    exact b.apply_alike (List.forall₂_same.mpr fun v _ => .refl v) line
  | function defined params body =>
    obtain ⟨others, inner⟩ := value
    have frame : (Frame.ofList (params.zip vs)).Holds (Value.Tame steady) :=
      .ofList fun b mem => values b.2 (List.of_mem_zip mem).2
    have called : Echoes steady mode (Value.Bares steady)
        (inCall ⟨defined, line⟩ (.ofList (params.zip vs)) (body.eval n))
        (inCall ⟨defined, 0⟩ (.ofList (params.zip (vs.map Value.bare))) (body.bare.eval n)) := by
      -- No parameter is the last result, so no argument is left out without it.
      rw [← Frame.bare_ofList others]
      exact .inCall frame (h.eval body inner)
    exact (Echoes.checkArity line).bind fun _ _ _ => called
  | int | float | rational | date => exact .fail _

theorem tree (h : EchoesAll steady mode n) (t : Tree) (tame : t.All (Tree.Tame steady)) :
    Echoes steady mode (Value.Bares steady) (t.eval (n + 1)) (t.bare.eval (n + 1)) := by
  cases t with
  | body line ts =>
    simp only [Tree.eval, Tree.bare, bareTrees_eq_map]
    exact h.body ts .zero .zero (Tree.all_body.mp tame).2 (Value.bares_of_datum rfl)
  | constant line v =>
    simp only [Tree.eval, Tree.bare]
    exact .pure (Value.bares_of_datum (tame.root.datum v rfl))
  | reference line name =>
    simp only [Tree.eval, Tree.bare]
    exact .lookup (fun e => tame.root.avoids (by simp [Tree.names, e])) line
  | unary line op operand => exact h.unary line op (Tree.all_unary.mp tame).2
  | binary line op lhs rhs =>
    exact h.binary line op (Tree.all_binary.mp tame).2.1 (Tree.all_binary.mp tame).2.2
  | assign line op target value =>
    exact h.assign line op (fun e => tame.root.avoids (by simp [Tree.names, e]))
      (Tree.all_assign.mp tame).2
  | whileLoop line guard body =>
    obtain ⟨-, tests, turns⟩ := Tree.all_whileLoop.mp tame
    simp only [Tree.eval, Tree.bare]
    refine h.loop guard body none .zero .zero tests turns ?_ (Value.bares_of_datum rfl)
    rintro _ ⟨⟩
  | forLoop line init guard step body =>
    obtain ⟨-, first, tests, steps, turns⟩ := Tree.all_forLoop.mp tame
    simp only [Tree.eval, Tree.bare]
    refine (h.eval init first).bind fun _ _ _ => ?_
    refine h.loop guard body (some step) .zero .zero tests turns ?_ (Value.bares_of_datum rfl)
    rintro _ ⟨⟩
    exact steps
  | conditional line guard positive otherwise =>
    obtain ⟨-, tests, positives, others⟩ := Tree.all_conditional.mp tame
    simp only [Tree.eval, Tree.bare, bareOption_eq_map]
    refine (h.condition guard tests).bind fun holds holds' same => ?_
    subst same
    cases holds with
    | true => exact h.eval positive positives
    | false =>
      cases otherwise with
      | none => exact .pure (Value.bares_of_datum rfl)
      | some t => exact h.eval t (others t rfl)
  | define line name params body =>
    obtain ⟨root, inner⟩ := Tree.all_define.mp tame
    obtain ⟨avoids, others⟩ := List.ne_and_not_mem_of_not_mem_cons root.avoids
    simp only [Tree.eval, Tree.bare]
    have values : (Value.function name params body).Bares steady
      (.function name params body.bare) := ⟨⟨others, inner⟩, rfl⟩
    exact (Echoes.bindGlobal (Ne.symm avoids) values).bind fun _ _ _ => .pure values
  | call line name args =>
    exact h.call line (fun e => tame.root.avoids (by simp [Tree.names, e]))
      (Tree.all_call.mp tame).2
  | display line expression =>
    simp only [Tree.eval, Tree.bare]
    refine (h.eval expression (Tree.all_display.mp tame).2).bind fun v v' values => ?_
    exact (Echoes.display values).bind fun _ _ _ => .pure values
  | setMode line other =>
    have free : steady = false := by
      cases steady with
      | false => rfl
      | true => cases tame.root.keeps rfl
    simp only [Tree.eval, Tree.bare]
    exact (Echoes.setMode free other).bind fun _ _ _ => .pure (Value.bares_of_datum rfl)
  | toggleProgrammer line =>
    simp only [Tree.eval, Tree.bare]
    exact .toggle
  | exit line =>
    simp only [Tree.eval, Tree.bare]
    exact Echoes.exit.bind fun _ _ _ => .pure (Value.bares_of_datum rfl)

theorem body_succ (h : EchoesAll steady mode n) (ts : List Tree) (v v' : Value)
    (tame : ∀ t ∈ ts, t.All (Tree.Tame steady)) (last : v.Bares steady v') :
    Echoes steady mode (Value.Bares steady) (evalBody (n + 1) v ts)
      (evalBody (n + 1) v' (ts.map .bare)) := by
  cases ts with
  | nil =>
    simp only [evalBody, List.map_nil]
    exact .pure last
  | cons t ts =>
    obtain ⟨first, rest⟩ := List.forall_mem_cons.mp tame
    simp only [evalBody, List.map_cons]
    exact .unlessExiting last ((h.eval t first).bind fun w w' => h.body ts w w' rest)

theorem condition_succ (h : EchoesAll steady mode n) (t : Tree) (tame : t.All (Tree.Tame steady)) :
    Echoes steady mode Eq (evalCondition (n + 1) t) (evalCondition (n + 1) t.bare) := by
  simp only [evalCondition, Tree.line_bare]
  refine (h.eval t tame).bindValue fun v _ => ?_
  exact .ofExcept (v.toBool_bare t.line) fun _ _ => rfl

theorem loop_succ (h : EchoesAll steady mode n) (g b : Tree) (s : Option Tree) (v v' : Value)
    (tests : g.All (Tree.Tame steady)) (turns : b.All (Tree.Tame steady))
    (steps : ∀ t ∈ s, t.All (Tree.Tame steady)) (last : v.Bares steady v') :
    Echoes steady mode (Value.Bares steady) (evalLoop (n + 1) g b s v)
      (evalLoop (n + 1) g.bare b.bare (s.map .bare) v') := by
  simp only [evalLoop]
  refine .unlessExiting last ((h.condition g tests).bind fun holds holds' same => ?_)
  subst same
  cases holds with
  | false => exact .pure last
  | true =>
    refine (h.eval b turns).bind fun w w' values => ?_
    cases s with
    | none => exact h.loop g b none w w' tests turns steps values
    | some t =>
      refine (h.eval t (steps t rfl)).bind fun _ _ _ => ?_
      exact h.loop g b (some t) w w' tests turns steps values

theorem arguments_succ (h : EchoesAll steady mode n) (ts : List Tree)
    (tame : ∀ t ∈ ts, t.All (Tree.Tame steady)) :
    Echoes steady mode (fun vs vs' => (∀ v ∈ vs, v.Tame steady) ∧ vs' = vs.map Value.bare)
      (evalArguments (n + 1) ts) (evalArguments (n + 1) (ts.map .bare)) := by
  cases ts with
  | nil =>
    simp only [evalArguments, List.map_nil]
    exact .pure ⟨List.forall_mem_nil _, rfl⟩
  | cons t ts =>
    obtain ⟨first, rest⟩ := List.forall_mem_cons.mp tame
    simp only [evalArguments, List.map_cons]
    refine (h.eval t first).bindValue fun v value => (h.arguments ts rest).bind ?_
    rintro vs _ ⟨values, rfl⟩
    exact .pure ⟨List.forall_mem_cons.mpr ⟨value, values⟩, rfl⟩

end EchoesAll

theorem echoesAll (steady : Bool) (mode : NumericMode) (n : Nat) : EchoesAll steady mode n := by
  induction n with
  | zero =>
    exact ⟨fun _ _ => .outOfFuel, fun _ _ _ _ _ => .outOfFuel, fun _ _ => .outOfFuel,
      fun _ _ _ _ _ _ _ _ _ => .outOfFuel, fun _ _ => .outOfFuel⟩
  | succ n ih => exact ⟨ih.tree, ih.body_succ, ih.condition_succ, ih.loop_succ, ih.arguments_succ⟩

namespace Outcome

def bare : Outcome Failure Value → Outcome Failure Value
  | .ok v m => .ok v.bare m.bare
  | .error e m => .error e.bare m.bare
  | .outOfFuel => .outOfFuel

def Tame (steady : Bool) (mode : NumericMode) : Outcome Failure Value → Prop
  | .ok v m => v.Tame steady ∧ m.Tame steady mode
  | .error _ m => m.Tame steady mode
  | .outOfFuel => True

variable {steady : Bool} {mode : NumericMode} {o p : Outcome Failure Value}

theorem echoed_iff :
    Echoed steady mode (Value.Bares steady) o p ↔ o.Tame steady mode ∧ p = o.bare := by
  cases o <;> cases p <;> simp [Echoed, Tame, bare, Value.Bares] <;> tauto

end Outcome

namespace Run

variable {steady : Bool} {mode : NumericMode} {x y : Nat → Run Value} {m : Machine}
  {o p : Outcome Failure Value}

theorem Ends.tame (echoes : ∀ n, Echoes steady mode (Value.Bares steady) (x n) (y n))
    (tame : m.Tame steady mode) (h : Ends x m o) : o.Tame steady mode := by
  obtain ⟨-, n, rfl⟩ := h
  exact (Outcome.echoed_iff.mp (echoes n m tame)).1

theorem ends_bare_iff (echoes : ∀ n, Echoes steady mode (Value.Bares steady) (x n) (y n))
    (tame : m.Tame steady mode) : Ends y m.bare p ↔ ∃ o, Ends x m o ∧ o.bare = p := by
  have same (n : Nat) : y n m.bare = (x n m).bare := (Outcome.echoed_iff.mp (echoes n m tame)).2
  constructor
  · rintro ⟨answered, n, rfl⟩
    refine ⟨x n m, ⟨fun none => answered ?_, n, rfl⟩, (same n).symm⟩
    rw [same n, none]
    rfl
  · rintro ⟨o, ⟨answered, n, rfl⟩, rfl⟩
    refine ⟨?_, n, same n⟩
    cases e : x n m with
    | outOfFuel => exact absurd e answered
    | _ => exact nofun

end Run

end Calculator
