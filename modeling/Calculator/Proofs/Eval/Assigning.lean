import Calculator.Proofs.Eval.Changing
import Calculator.Proofs.Eval.Scoping

set_option autoImplicit false

namespace Calculator

open Run

namespace Frame

def names (f : Frame) : List String :=
  f.bindings.map Prod.fst

theorem contains_insert (f : Frame) (x y : String) (v : Value) :
    (f.insert x v).contains y = true ↔ x = y ∨ f.contains y = true := by
  unfold contains
  rw [find?_insert]
  split <;> simp [*]

theorem names_insert {f : Frame} {x : String} (bound : f.contains x = true) (v : Value) :
    (f.insert x v).names = f.names := by
  obtain ⟨bindings⟩ := f
  simp only [contains, find?] at bound
  simp only [names, insert]
  induction bindings with
  | nil => cases bound
  | cons b rest ih =>
    obtain ⟨key, old⟩ := b
    unfold insertIn
    split
    · rfl
    · rename_i other
      rw [findIn, if_neg other] at bound
      rw [List.map_cons, List.map_cons, ih bound]

end Frame

namespace CallStack

def frames (s : CallStack) : List Frame :=
  s.globals :: s.calls.reverse

/-- The number of the frame in which a name is found: that of the innermost call if it has the name,
and that of the globals otherwise. -/
def slot? (s : CallStack) (x : String) : Option Nat :=
  if s.top.contains x then some s.calls.length
  else if s.globals.contains x then some 0
  else none

def valueAt? (s : CallStack) (i : Nat) (x : String) : Option Value :=
  s.frames[i]?.bind fun f => f.find? x

variable {s s' s'' : CallStack} {x y : String} {v : Value} {i : Nat}

theorem frames_top : s.frames[s.calls.length]? = some s.top := by
  obtain ⟨globals, calls⟩ := s
  cases calls with
  | nil => rfl
  | cons f rest => simp [frames, top]

theorem frames_globals : s.frames[0]? = some s.globals :=
  rfl

theorem modify_concat {α : Type} (l : List α) (a : α) (f : α → α) :
    (l ++ [a]).modify l.length f = l ++ [f a] := by
  induction l with
  | nil => rfl
  | cons b l ih => simp [ih]

theorem frames_bindLocal :
    (s.bindLocal x v).frames = s.frames.modify s.calls.length fun f => f.insert x v := by
  obtain ⟨globals, calls⟩ := s
  cases calls with
  | nil => rfl
  | cons f rest =>
    have last := modify_concat (globals :: rest.reverse) f fun f => f.insert x v
    rw [List.length_cons, List.length_reverse] at last
    simp only [frames, bindLocal, setTop, top, List.headD_cons, List.reverse_cons, List.length_cons]
    exact last.symm

theorem frames_bindGlobal :
    (s.bindGlobal x v).frames = s.frames.modify 0 fun f => f.insert x v :=
  rfl

theorem find?_of_slot? (found : s.slot? x = some i) :
    ∃ u, s.find? x = some u ∧ s.valueAt? i x = some u := by
  unfold slot? at found
  split at found
  · rename_i onTop
    cases found
    obtain ⟨u, here⟩ := Option.isSome_iff_exists.mp onTop
    refine ⟨u, ?_, ?_⟩
    · rw [find?, here, Option.some_or]
    · rw [valueAt?, frames_top, Option.bind_some, here]
  · rename_i other
    split at found
    · rename_i global
      cases found
      obtain ⟨u, here⟩ := Option.isSome_iff_exists.mp global
      have missing : s.top.find? x = none := by simpa [Frame.contains] using other
      refine ⟨u, ?_, ?_⟩
      · rw [find?, missing, here, Option.none_or]
      · rw [valueAt?, frames_globals, Option.bind_some, here]
    · cases found

theorem slot?_eq_none_iff : s.slot? x = none ↔ s.find? x = none := by
  unfold slot? find? Frame.contains
  cases s.top.find? x <;> cases s.globals.find? x <;> simp

theorem exists_slot? (bound : (s.find? x).isSome = true) : ∃ i, s.slot? x = some i := by
  refine Option.isSome_iff_exists.mp (Option.isSome_iff_ne_none.mpr fun e => ?_)
  rw [slot?_eq_none_iff.mp e] at bound
  cases bound

/-- The stack on the right is the one on the left with another value for a name in one frame, and no
frame has got a name. -/
structure Writes (s : CallStack) (i : Nat) (x : String) (v : Value) (s' : CallStack) : Prop where
  frames : s'.frames = s.frames.modify i fun f => f.insert x v
  names : s'.frames.map Frame.names = s.frames.map Frame.names

theorem assign?_of_slot? (found : s.slot? x = some i) (v : Value) :
    ∃ s', s.assign? x v = some s' ∧ s.Writes i x v s' := by
  -- The name is bound in the frame already, so storing adds none.
  have renamed (f : Frame) (here : s.frames[i]? = some f) (bound : f.contains x = true) :
      (s.frames.modify i fun f => f.insert x v).map Frame.names = s.frames.map Frame.names := by
    refine List.ext_getElem? fun j => ?_
    rw [List.getElem?_map, List.getElem?_map, List.getElem?_modify]
    cases there : s.frames[j]? with
    | none => rfl
    | some g =>
      simp only [Option.map_eq_map, Option.map_some]
      split
      · rename_i same
        subst same
        cases here.symm.trans there
        rw [Frame.names_insert bound]
      · rfl
  unfold slot? at found
  unfold assign?
  split at found
  · rename_i onTop
    cases found
    refine ⟨_, if_pos onTop, frames_bindLocal, ?_⟩
    rw [frames_bindLocal]
    exact renamed _ frames_top onTop
  · rename_i other
    split at found
    · rename_i global
      cases found
      refine ⟨s.bindGlobal x v, ?_, frames_bindGlobal, renamed _ frames_globals global⟩
      rw [if_neg other, if_pos global]
    · cases found

theorem declare_of_slot? (missing : s.slot? x = none) :
    (s.declare x).slot? x = some s.calls.length ∧
      (s.declare x).frames = s.frames.modify s.calls.length fun f => f.insert x .zero := by
  have unbound : ¬(s.find? x).isSome = true := by simp [slot?_eq_none_iff.mp missing]
  unfold declare
  rw [if_neg unbound]
  refine ⟨?_, frames_bindLocal⟩
  have bound : (s.bindLocal x .zero).top.contains x = true := by
    rw [bindLocal, top_setTop]
    exact (Frame.contains_insert ..).mpr (.inl rfl)
  have same : (s.bindLocal x .zero).calls.length = s.calls.length :=
    Nat.succ.inj (depth_bindLocal x .zero)
  rw [slot?, if_pos bound, same]

theorem declare_of_bound (bound : (s.find? x).isSome = true) : s.declare x = s :=
  if_pos bound

/-- What a run may do to the names on the stack: there are as many frames as before, those below the
innermost call are the same but for the globals, no name is gone, and the frame of a call has not
got any name that was global already. -/
structure Evolves (s s' : CallStack) : Prop where
  depth : s'.depth = s.depth
  inner : s'.inner = s.inner
  globals : ∀ x, s.globals.contains x = true → s'.globals.contains x = true
  top : ∀ x, s.top.contains x = true → s'.top.contains x = true
  apart : s.calls ≠ [] → ∀ x, s.globals.contains x = true → s'.top.contains x = true →
    s.top.contains x = true

theorem Evolves.refl (s : CallStack) : s.Evolves s :=
  ⟨rfl, rfl, fun _ => id, fun _ => id, fun _ _ _ => id⟩

theorem Evolves.trans (first : s.Evolves s') (second : s'.Evolves s'') : s.Evolves s'' where
  depth := second.depth.trans first.depth
  inner := second.inner.trans first.inner
  globals x h := second.globals x (first.globals x h)
  top x h := second.top x (first.top x h)
  apart inside x h there :=
    first.apart inside x h
      (second.apart (calls_ne_nil_of_depth inside first.depth) x (first.globals x h) there)

theorem Evolves.pop (h : s.Evolves s') : s.pop.Evolves s'.pop := by
  have same : s'.pop.calls = s.pop.calls := h.inner
  refine ⟨congrArg (·.length + 1) same, congrArg List.tail same, h.globals, fun x bound => ?_,
    fun inside x _ there => ?_⟩
  · unfold CallStack.top at bound ⊢
    rw [same]
    cases e : s.pop.calls with
    | nil =>
      rw [e] at bound
      exact h.globals x bound
    | cons f rest =>
      rw [e] at bound
      exact bound
  · unfold CallStack.top at there ⊢
    rw [same] at there
    cases e : s.pop.calls with
    | nil => exact absurd e inside
    | cons f rest =>
      rw [e] at there
      exact there

theorem evolves_bindGlobal (s : CallStack) (x : String) (v : Value) :
    s.Evolves (s.bindGlobal x v) := by
  have more (y : String) (h : s.globals.contains y = true) :
      (s.globals.insert x v).contains y = true := (Frame.contains_insert ..).mpr (.inr h)
  obtain ⟨globals, calls⟩ := s
  cases calls with
  | nil => exact ⟨rfl, rfl, more, more, fun inside => absurd rfl inside⟩
  | cons f rest => exact ⟨rfl, rfl, more, fun _ => id, fun _ _ _ => id⟩

theorem evolves_bindLocal (v : Value)
    (apart : s.globals.contains x = true → s.top.contains x = true) :
    s.Evolves (s.bindLocal x v) := by
  obtain ⟨globals, calls⟩ := s
  cases calls with
  | nil =>
    have more (y : String) (h : globals.contains y = true) :
        (globals.insert x v).contains y = true := (Frame.contains_insert ..).mpr (.inr h)
    exact ⟨rfl, rfl, more, more, fun inside => absurd rfl inside⟩
  | cons f rest =>
    refine ⟨rfl, rfl, fun _ => id, fun y h => (Frame.contains_insert ..).mpr (.inr h),
      fun _ y global there => ?_⟩
    rcases (Frame.contains_insert ..).mp there with rfl | there
    · exact apart global
    · exact there

theorem evolves_declare (s : CallStack) (x : String) : s.Evolves (s.declare x) := by
  unfold declare
  split
  · exact .refl s
  · rename_i unbound
    refine evolves_bindLocal .zero fun global => absurd ?_ unbound
    rw [find?, Option.isSome_or, Bool.or_eq_true]
    exact .inr global

theorem evolves_assign? (h : s.assign? x v = some s') : s.Evolves s' := by
  unfold assign? at h
  split at h
  · rename_i onTop
    cases h
    exact evolves_bindLocal v fun _ => onTop
  · split at h <;> cases h
    exact evolves_bindGlobal s x v

theorem Evolves.slot? (h : s.Evolves s') (found : s.slot? x = some i) : s'.slot? x = some i := by
  have same : s'.calls.length = s.calls.length := Nat.succ.inj h.depth
  unfold CallStack.slot? at found ⊢
  split at found
  · rename_i onTop
    rw [if_pos (h.top x onTop), same]
    exact found
  · rename_i other
    split at found
    · rename_i global
      -- The globals are not the top here, so the top may not have got the name of a global.
      have inside : s.calls ≠ [] := by
        intro none
        refine other ?_
        unfold CallStack.top
        rw [none]
        exact global
      rw [if_neg fun there => other (h.apart inside x global there), if_pos (h.globals x global)]
      exact found
    · cases found

/-- The stack with the frames of the outer calls only, as many as there are on a stack of that
depth. -/
def downTo (s : CallStack) (depth : Nat) : CallStack :=
  s.leave (s.depth - depth)

theorem Evolves.leave_eq_downTo {n : Nat} (h : s.Evolves (s'.leave n)) :
    s'.leave n = s'.downTo s.depth := by
  have depth : s'.calls.length - n = s.calls.length := by
    rw [← List.length_drop]
    exact Nat.succ.inj h.depth
  have same : s'.calls.drop n = s'.calls.drop (s'.depth - s.depth) := by
    rw [List.drop_eq_drop_iff, CallStack.depth, CallStack.depth]
    omega
  rw [CallStack.leave, same]
  rfl

end CallStack

/-- Evaluation keeps to what may be done to the names on the stack. -/
theorem limits_evolves :
    Limits (fun _ => True) fun m m' => m.stack.Evolves m'.stack where
  refl m := .refl m.stack
  trans _ _ _ := .trans
  pop _ _ := .pop
  step _ _ _ _ _ _ _ _ _ _ written := CallStack.evolves_assign? written
  declare _ _ x _ m _ := CallStack.evolves_declare m.stack x
  assign _ _ _ _ _ _ _ _ written := CallStack.evolves_assign? written
  define _ x _ _ m _ := CallStack.evolves_bindGlobal m.stack x _
  output m _ _ := .refl m.stack
  setMode m _ := .refl m.stack
  toggle m _ := .refl m.stack
  exit _ m _ := .refl m.stack

namespace Run

def store (x : String) (line : Position) (v : Value) : Run Value := do
  assign x v line
  return v

def finish (op : Kind) (x : String) (line : Position) (new : Value) : Run Value :=
  match op.operation with
  | none => store x line new
  | some operation => do
    let old ← lookup x line
    let v ← ofExcept (old.apply operation (← machine).mode new line)
    store x line v

end Run

/-- What an assignment makes of the value of its expression and the one in its slot. -/
def Kind.combine (op : Kind) (mode : NumericMode) (line : Position) (old new : Value) :
    Except EvalError Value :=
  match op.operation with
  | none => .ok new
  | some operation => old.apply operation mode new line

section
variable {m m' m₁ : Machine} {o : Outcome Failure Value} {line : Position} {op : Kind} {x : String}
  {value : Tree} {u v w : Value} {i : Nat}

theorem Run.finish_of_find? (found : m.stack.find? x = some u) :
    finish op x line v m = (ofExcept (op.combine m.mode line u v) >>= store x line) m := by
  unfold finish Kind.combine
  cases op.operation with
  | none => rfl
  | some operation => exact bind_of_ok (lookup_of_find? found)

theorem Run.store_of_assign? {s : CallStack} (written : m.stack.assign? x v = some s) :
    store x line v m = .ok v { m with stack := s } := by
  have assigned : assign x v line m = .ok () { m with stack := s } := by
    unfold assign
    rw [written]
  exact bind_of_ok assigned

namespace Tree

theorem ends_assign_iff (here : (Part.tree (.assign line op x value)).Evaluates m value m₁) :
    (assign line op x value).Ends m o ↔
      Follows (value.Ends m₁) (fun v m' => Run.Ends (fun _ => finish op x line v) m') o := by
  have behind := ends_bind_iff (m := m₁) (o := o) (grows_eval value) (fun v =>
    Grows.const (finish op x line v))
  refine Iff.trans ?_ behind
  cases here with
  | value plain =>
    have stores : finish op x line = store x line := by
      funext v
      simp only [finish, plain]
    refine (ends_succ_iff (y := fun n => Run.declare x >>= fun _ => value.eval n >>=
      finish op x line) rfl fun n => ?_).trans (ends_bind_of_ok rfl)
    simp only [eval, plain, stores]
    rfl
  | change isOperator bound =>
    obtain ⟨operation, isOperator⟩ := Option.isSome_iff_exists.mp isOperator
    obtain ⟨u, bound⟩ := Option.isSome_iff_exists.mp bound
    refine (ends_succ_iff (y := fun n => Run.lookup x line >>= fun _ => value.eval n >>=
      fun v => finish op x line v) rfl fun n => ?_).trans (ends_bind_of_ok (lookup_of_find? bound))
    simp only [eval, isOperator, finish]
    rfl

theorem ends_assign_of_slot? {here : Machine}
    (evaluates : (Part.tree (.assign line op x value)).Evaluates m value here)
    (ended : value.Ends here (.ok v m')) (found : m'.stack.find? x = some u) :
    (assign line op x value).Ends m o ↔
      Run.Ends (fun _ => ofExcept (op.combine m'.mode line u v) >>= store x line) m' o := by
  rw [ends_assign_iff evaluates, ended.follows_iff, ends_const_iff, ends_const_iff,
    finish_of_find? found]

end Tree

/-- The first lookup of an assignment finds the variable in that slot. Without one, the variable of
a plain assignment gets a zero in the frame of the innermost call. -/
structure Machine.Resolves (m : Machine) (op : Kind) (x : String) (i : Nat) (m₁ : Machine) : Prop
    where
  slot : m₁.stack.slot? x = some i
  found : m.stack.slot? x ≠ none → m₁ = m
  created : m.stack.slot? x = none → op.operation = none ∧ i = m.stack.calls.length ∧
    m₁.stack.frames = m.stack.frames.modify i fun f => f.insert x (.int 0 .dec)

theorem Part.Evaluates.resolves
    (here : (Part.tree (.assign line op x value)).Evaluates m value m₁) :
    ∃ i, m.Resolves op x i m₁ := by
  cases here with
  | value plain =>
    cases slot : m.stack.slot? x with
    | none =>
      obtain ⟨created, frames⟩ := CallStack.declare_of_slot? slot
      exact ⟨_, created, fun found => absurd slot found, fun _ => ⟨plain, rfl, frames⟩⟩
    | some i =>
      obtain ⟨u, found, -⟩ := CallStack.find?_of_slot? slot
      have same : { m with stack := m.stack.declare x } = m := by
        rw [CallStack.declare_of_bound (Option.isSome_of_eq_some found)]
      refine ⟨i, ?_, fun _ => same, fun missing => ?_⟩
      · rw [same]
        exact slot
      · cases slot.symm.trans missing
  | change isOperator bound =>
    obtain ⟨i, slot⟩ := CallStack.exists_slot? bound
    refine ⟨i, slot, fun _ => rfl, fun missing => ?_⟩
    cases slot.symm.trans missing

/-- On no machine that a run passes is a name gone from the globals or from the frame of the
innermost call, and the frame of a call never gets a name that is global already; nor at the end,
with or without a failure. So the two lookups of an assignment find the same slot: the second one
creates nothing, and the result goes there. -/
theorem names_stay_and_assignments_keep_slots :
    (∀ (part : Part) (m m₁ : Machine), part.Passes m m₁ →
      m.stack.Evolves (m₁.stack.downTo m.stack.depth) ∧
      ∀ last o, part.Ends last m o →
        o.Leaves fun m' => (m₁.stack.downTo m.stack.depth).Evolves m'.stack) ∧
    ∀ (line : Position) (op : Kind) (x : String) (value : Tree) (m m₁ m' : Machine) (v : Value),
      (Part.tree (.assign line op x value)).Evaluates m value m₁ → value.Ends m₁ (.ok v m') →
      ∃ i u, m.Resolves op x i m₁ ∧ m'.stack.slot? x = some i ∧ m'.stack.valueAt? i x = some u ∧
        (∀ e, op.combine m'.mode line u v = .error e →
          (Tree.assign line op x value).Ends m (.error ⟨e, []⟩ m')) ∧
        ∀ w, op.combine m'.mode line u v = .ok w → ∃ s, m'.stack.Writes i x w s ∧
          (Tree.assign line op x value).Ends m (.ok w { m' with stack := s }) := by
  refine ⟨fun part m m₁ passed => ?_, fun line op x value m m₁ m' v here ended => ?_⟩
  · obtain ⟨n, before, behind⟩ := limits_evolves.passes (fun _ _ _ _ => trivial) passed
    rw [← before.leave_eq_downTo]
    exact ⟨before, behind⟩
  · obtain ⟨i, resolves⟩ := here.resolves
    have evolved : m₁.stack.Evolves m'.stack :=
      limits_evolves.ends_tree (fun _ _ _ _ => trivial) ended
    have slot := evolved.slot? resolves.slot
    obtain ⟨u, found, valued⟩ := CallStack.find?_of_slot? slot
    refine ⟨i, u, resolves, slot, valued, fun e failed => ?_, fun w combined => ?_⟩
    · rw [Tree.ends_assign_of_slot? here ended found, failed, ends_const_iff]
      exact ⟨nofun, bind_of_error rfl⟩
    · obtain ⟨s, written, writes⟩ := CallStack.assign?_of_slot? slot w
      refine ⟨s, writes, ?_⟩
      rw [Tree.ends_assign_of_slot? here ended found, combined, ends_const_iff]
      exact ⟨nofun, (bind_of_ok rfl).trans (store_of_assign? written)⟩

/-- In the call of a function, with a global function that defines another one named `x`. -/
def callerOfDefiner : Machine :=
  let definer : Value := .function "f" [] (.body 1 [
    .define 1 "x" [] (.constant 1 (.int 2 .dec)),
    .constant 2 (.int 3 .dec)])
  { Machine.initial .rational false .accepting with stack := ⟨.ofList [("f", definer)], [.empty]⟩ }

/-- The variable `x` of the call stays its own, with the global `x` beside it. -/
theorem names_stay_and_assignments_keep_slots_beside :
    ∃ (m₁ m' : Machine) (s : CallStack),
      callerOfDefiner.stack.Evolves (m₁.stack.downTo callerOfDefiner.stack.depth) ∧
      callerOfDefiner.Resolves .equal "x" 1 m₁ ∧ m'.stack.globals.contains "x" = true ∧
      m'.stack.slot? "x" = some 1 ∧ m'.stack.Writes 1 "x" (.int 3 .dec) s ∧
      (Tree.assign 3 .equal "x" (.call 3 "f" [])).Ends callerOfDefiner
        (.ok (.int 3 .dec) { m' with stack := s }) := by
  have here : (Part.tree (.assign 3 .equal "x" (.call 3 "f" []))).Evaluates callerOfDefiner
      (.call 3 "f" []) _ := .value rfl
  have ended : (Tree.call 3 "f" []).Ends
      { callerOfDefiner with stack := callerOfDefiner.stack.declare "x" }
      (.ok (.int 3 .dec) _) := ⟨nofun, 10, rfl⟩
  obtain ⟨stay, slots⟩ := names_stay_and_assignments_keep_slots
  obtain ⟨i, u, resolves, slot, -, -, stored⟩ := slots _ _ _ _ _ _ _ _ here ended
  obtain ⟨-, rfl, -⟩ := resolves.created rfl
  obtain ⟨s, writes, whole⟩ := stored _ rfl
  exact ⟨_, _, s, (stay _ _ _ (.part (.next (.expression here) .here))).1, resolves, rfl, slot,
    writes, whole⟩

/-- The assignment on the left applies the operator on the right before it stores. -/
inductive Kind.Applies : Kind → Kind → Prop where
  | plus : Applies .plusEqual .plus
  | minus : Applies .minusEqual .minus
  | star : Applies .starEqual .star
  | slash : Applies .slashEqual .slash
  | percent : Applies .percentEqual .percent

theorem Kind.Applies.operation {compound op : Kind} (h : compound.Applies op) :
    ∃ operation, compound.operation = some operation ∧ op.operation = some operation := by
  cases h <;> exact ⟨_, rfl, rfl⟩

/-- Where the expression leaves the value of the variable as it is, an assignment with an operator
is the plain assignment of the operation on the variable and the expression: both end alike, with
everything that they leave. -/
theorem Tree.ends_applied_iff_ends_expanded {compound op : Kind} (applies : compound.Applies op)
    {x : String} {i : Nat} (slot : m.stack.slot? x = some i) {e : Tree}
    (kept : ∀ v m', e.Ends m (.ok v m') → m'.stack.valueAt? i x = m.stack.valueAt? i x)
    (line : Position) (o : Outcome Failure Value) :
    (assign line compound x e).Ends m o ↔
      (assign line .equal x (binary line op (reference line x) e)).Ends m o := by
  obtain ⟨operation, isCompound, isOperator⟩ := applies.operation
  obtain ⟨u, found, valued⟩ := CallStack.find?_of_slot? slot
  have bound : (m.stack.find? x).isSome = true := Option.isSome_of_eq_some found
  have whole : (Part.tree (assign line compound x e)).Evaluates m e m :=
    .change (Option.isSome_of_eq_some isCompound) bound
  have plain : (Part.tree (assign line .equal x (binary line op (reference line x) e))).Evaluates m
      (binary line op (reference line x) e) m := by
    have first : (Part.tree (assign line .equal x (binary line op (reference line x) e))).Evaluates
        m _ { m with stack := m.stack.declare x } := .value rfl
    rwa [CallStack.declare_of_bound bound] at first
  have read : (reference line x).Ends m (.ok u m) :=
    ends_reference_iff.mpr (ends_const_iff.mpr ⟨nofun, lookup_of_find? found⟩)
  rw [ends_assign_iff whole, ends_assign_iff plain]
  -- On the right the operation comes before the assignment, on the left it is a part of it.
  rw [follows_congr (fun _ => ends_binary_iff isOperator) fun _ _ _ => .rfl, follows_assoc,
    read.follows_iff, follows_assoc]
  refine follows_congr (fun _ => .rfl) fun v m' ended => ?_
  have evolved : m.stack.Evolves m'.stack :=
    limits_evolves.ends_tree (fun _ _ _ _ => trivial) ended
  obtain ⟨w, found', valued'⟩ := CallStack.find?_of_slot? (evolved.slot? slot)
  obtain rfl : w = u := Option.some.inj (valued'.symm.trans ((kept v m' ended).trans valued))
  have applied : compound.combine m'.mode line w v = w.apply operation m'.mode v line := by
    simp only [Kind.combine, isCompound]
  rw [ends_const_iff, finish_of_find? found', applied, ← ends_const_iff]
  exact ends_bind_iff (.const _) fun v => .const (store x line v)

/-- With a global `x` and a function that moves it up and down again. -/
def withRestorer : Machine :=
  let restorer : Value := .function "f" [] (.body 1 [
    .unary 1 .plusPlus (.reference 1 "x"),
    .unary 2 .minusMinus (.reference 2 "x"),
    .constant 3 (.int 3 .dec)])
  { Machine.initial .rational false .accepting with
    stack := ⟨.ofList [("f", restorer), ("x", .int 7 .dec)], []⟩ }

/-- The remainder of `x` by the value of that function. -/
theorem Tree.ends_applied_iff_ends_expanded_restored :
    ∃ m', (Tree.assign 4 .percentEqual "x" (.call 4 "f" [])).Ends withRestorer
        (.ok (.int 1 .dec) m') ∧
      (Tree.assign 4 .equal "x"
        (.binary 4 .percent (.reference 4 "x") (.call 4 "f" []))).Ends withRestorer
        (.ok (.int 1 .dec) m') := by
  have ended : (Tree.call 4 "f" []).Ends withRestorer (.ok (.int 3 .dec) _) := ⟨nofun, 10, rfl⟩
  have whole : (Tree.assign 4 .percentEqual "x" (.call 4 "f" [])).Ends withRestorer
      (.ok (.int 1 .dec) _) := ⟨nofun, 10, rfl⟩
  have expanded := ends_applied_iff_ends_expanded .percent (m := withRestorer) (x := "x") (i := 0)
    rfl (e := .call 4 "f" []) (fun v m' here => by cases here.unique ended; rfl) 4
  exact ⟨_, whole, (expanded _).mp whole⟩

end

end Calculator
