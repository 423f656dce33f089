import Calculator.Proofs.Eval.Congruence

set_option autoImplicit false

namespace Calculator

namespace CallStack

def inner (s : CallStack) : List Frame :=
  s.calls.tail

def atop (s : CallStack) (below : List Frame) : CallStack :=
  { s with calls := s.calls ++ below }

variable {s : CallStack}

theorem exists_atop_of_depth (h : 2 ≤ s.depth) :
    s = CallStack.atop ⟨s.globals, [s.top]⟩ s.inner := by
  obtain ⟨globals, calls⟩ := s
  cases calls with
  | nil => simp [depth] at h
  | cons f rest => rfl

theorem top_atop (h : s.calls ≠ []) (below : List Frame) : (s.atop below).top = s.top := by
  obtain ⟨globals, calls⟩ := s
  cases calls with
  | nil => exact absurd rfl h
  | cons f rest => rfl

theorem find?_atop (h : s.calls ≠ []) (below : List Frame) (name : String) :
    (s.atop below).find? name = s.find? name := by
  unfold find?
  rw [top_atop h]
  rfl

theorem setTop_atop (h : s.calls ≠ []) (below : List Frame) (f : Frame) :
    (s.atop below).setTop f = (s.setTop f).atop below := by
  obtain ⟨globals, calls⟩ := s
  cases calls with
  | nil => exact absurd rfl h
  | cons g rest => rfl

theorem bindLocal_atop (h : s.calls ≠ []) (below : List Frame) (name : String) (v : Value) :
    (s.atop below).bindLocal name v = (s.bindLocal name v).atop below := by
  unfold bindLocal
  rw [top_atop h, setTop_atop h]

theorem declare_atop (h : s.calls ≠ []) (below : List Frame) (name : String) :
    (s.atop below).declare name = (s.declare name).atop below := by
  unfold declare
  rw [find?_atop h, bindLocal_atop h]
  split <;> rfl

theorem assign?_atop (h : s.calls ≠ []) (below : List Frame) (name : String) (v : Value) :
    (s.atop below).assign? name v = (s.assign? name v).map (·.atop below) := by
  unfold assign?
  rw [top_atop h, bindLocal_atop h]
  split
  · rfl
  · change (if s.globals.contains name then _ else _) = _
    split <;> rfl

theorem pop_atop (h : s.calls ≠ []) (below : List Frame) :
    (s.atop below).pop = s.pop.atop below := by
  obtain ⟨globals, calls⟩ := s
  cases calls with
  | nil => exact absurd rfl h
  | cons g rest => rfl

theorem calls_ne_nil_of_depth {s' : CallStack} (h : s.calls ≠ []) (e : s'.depth = s.depth) :
    s'.calls ≠ [] := by
  have some : 0 < s.calls.length := List.length_pos_iff.mpr h
  have same : s'.calls.length + 1 = s.calls.length + 1 := e
  exact List.length_pos_iff.mp (by omega)

theorem depth_pop_of_depth_push {s' : CallStack} {f : Frame} (h : s'.depth = (s.push f).depth) :
    s'.pop.depth = s.depth := by
  have same : s'.calls.length + 1 = s.calls.length + 1 + 1 := h
  change s'.calls.tail.length + 1 = s.calls.length + 1
  rw [List.length_tail]
  omega

theorem depth_bindLocal (name : String) (v : Value) : (s.bindLocal name v).depth = s.depth :=
  depth_setTop s _

theorem depth_declare (name : String) : (s.declare name).depth = s.depth := by
  unfold declare
  split
  · rfl
  · exact depth_bindLocal name _

theorem depth_of_assign? {name : String} {v : Value} {s' : CallStack}
    (h : s.assign? name v = some s') : s'.depth = s.depth := by
  unfold assign? at h
  split at h
  · cases h
    exact depth_bindLocal name v
  · split at h
    · cases h
      rfl
    · cases h

end CallStack

namespace Machine

def atop (m : Machine) (below : List Frame) : Machine :=
  { m with stack := m.stack.atop below }

end Machine

namespace Outcome

variable {ε α : Type}

def atop (below : List Frame) : Outcome ε α → Outcome ε α
  | .ok a m => .ok a (m.atop below)
  | .error e m => .error e (m.atop below)
  | .outOfFuel => .outOfFuel

def LeavesDepth (depth : Nat) : Outcome ε α → Prop
  | .ok _ m | .error _ m => m.stack.depth = depth
  | .outOfFuel => True

end Outcome

namespace Run

/-- The computation leaves so many frames as it finds. -/
def KeepsDepth {α : Type} (x : Run α) : Prop :=
  ∀ m, (x m).LeavesDepth m.stack.depth

theorem KeepsDepth.bind {α β : Type} {x : Run α} {f : α → Run β} (hx : KeepsDepth x)
    (hf : ∀ a, KeepsDepth (f a)) : KeepsDepth (x >>= f) := by
  intro m
  have depth := hx m
  cases e : x m with
  | ok a m' =>
    rw [e] at depth
    have kept : m'.stack.depth = m.stack.depth := depth
    rw [bind_of_ok e, ← kept]
    exact hf a m'
  | error e' m' =>
    rw [e] at depth
    rw [bind_of_error e]
    exact depth
  | outOfFuel =>
    rw [bind_of_outOfFuel e]
    trivial

theorem KeepsDepth.lookup (name : String) (line : Position) : KeepsDepth (lookup name line) := by
  intro m
  unfold Run.lookup
  split <;> rfl

theorem KeepsDepth.assign (name : String) (v : Value) (line : Position) :
    KeepsDepth (assign name v line) := by
  intro m
  unfold Run.assign
  cases e : m.stack.assign? name v with
  | some s => exact CallStack.depth_of_assign? e
  | none => rfl

theorem KeepsDepth.display (v : Value) : KeepsDepth (display v) := by
  intro m
  obtain ⟨w, shown⟩ | ⟨w, reason, refused⟩ := display_cases v m
  · rw [shown]
    rfl
  · rw [refused]
    rfl

theorem KeepsDepth.inCall (entry : TraceEntry) (frame : Frame) {x : Run Value}
    (h : KeepsDepth x) : KeepsDepth (inCall entry frame x) := by
  intro m
  have depth := h { m with stack := m.stack.push frame }
  unfold Run.inCall
  cases e : x { m with stack := m.stack.push frame } with
  | ok v m' =>
    rw [e] at depth
    exact CallStack.depth_pop_of_depth_push depth
  | error e' m' =>
    rw [e] at depth
    exact CallStack.depth_pop_of_depth_push depth
  | outOfFuel => trivial

theorem keepsDepth_congruence : Congruence fun {α} (x _ : Run α) => KeepsDepth x where
  outOfFuel _ := fun _ => trivial
  pure _ := fun _ => rfl
  bind := .bind
  ofExcept x := by
    intro m
    cases x <;> rfl
  mode _ h := fun m => h m.mode m
  programmer _ h := fun m => h m.programmer m
  exiting hx hy := by
    intro m
    change Outcome.LeavesDepth _ ((if m.exiting then _ else _ : Run _) m)
    split
    · exact hx m
    · exact hy m
  setMode _ := fun _ => rfl
  toggle := fun _ => rfl
  exit := fun _ => rfl
  lookup := .lookup
  declare name := fun _ => CallStack.depth_declare name
  assign := .assign
  bindGlobal _ _ := fun _ => rfl
  display := .display
  inCall entry frame _ _ h := .inCall entry frame h

/-- Inside a call the computation leaves the depth as it is, and frames below the calls neither
change what it does nor are changed by it. -/
def Local {α : Type} (x : Run α) : Prop :=
  ∀ m, m.stack.calls ≠ [] →
    (x m).LeavesDepth m.stack.depth ∧ ∀ below, x (m.atop below) = (x m).atop below

theorem Local.bind {α β : Type} {x : Run α} {f : α → Run β} (hx : Local x)
    (hf : ∀ a, Local (f a)) : Local (x >>= f) := by
  intro m calls
  obtain ⟨depth, same⟩ := hx m calls
  cases e : x m with
  | ok a m' =>
    rw [e] at depth same
    have kept : m'.stack.depth = m.stack.depth := depth
    obtain ⟨depth', same'⟩ := hf a m' (CallStack.calls_ne_nil_of_depth calls kept)
    rw [bind_of_ok e]
    refine ⟨kept ▸ depth', fun below => ?_⟩
    rw [bind_of_ok (same below)]
    exact same' below
  | error e' m' =>
    rw [e] at depth same
    rw [bind_of_error e]
    exact ⟨depth, fun below => bind_of_error (same below)⟩
  | outOfFuel =>
    rw [e] at same
    rw [bind_of_outOfFuel e]
    exact ⟨trivial, fun below => bind_of_outOfFuel (same below)⟩

theorem Local.machine_bind {α : Type} {k : Machine → Run α} (h : ∀ m, Local (k m))
    (blind : ∀ m below, k (m.atop below) = k m) : Local (machine >>= k) := by
  intro m calls
  obtain ⟨depth, same⟩ := h m m calls
  refine ⟨depth, fun below => ?_⟩
  change k (m.atop below) (m.atop below) = _
  rw [blind]
  exact same below

theorem Local.lookup (name : String) (line : Position) : Local (lookup name line) := by
  intro m calls
  refine ⟨KeepsDepth.lookup name line m, fun below => ?_⟩
  have same : (m.atop below).stack.find? name = m.stack.find? name :=
    CallStack.find?_atop calls below name
  unfold Run.lookup
  rw [same]
  cases m.stack.find? name <;> rfl

theorem Local.declare (name : String) : Local (declare name) := by
  intro m calls
  refine ⟨CallStack.depth_declare name, fun below => ?_⟩
  change Outcome.ok () { m with stack := (m.stack.atop below).declare name } = _
  rw [CallStack.declare_atop calls]
  rfl

theorem Local.assign (name : String) (v : Value) (line : Position) :
    Local (assign name v line) := by
  intro m calls
  refine ⟨KeepsDepth.assign name v line m, fun below => ?_⟩
  have same : (m.atop below).stack.assign? name v =
      (m.stack.assign? name v).map (·.atop below) := CallStack.assign?_atop calls below name v
  unfold Run.assign
  rw [same]
  cases m.stack.assign? name v <;> rfl

theorem Local.display (v : Value) : Local (display v) := by
  intro m calls
  refine ⟨KeepsDepth.display v m, fun below => ?_⟩
  cases answer : m.writer.answer (Display.text ⟨v, m.programmer⟩) with
  | none =>
    rw [display_of_none answer]
    exact display_of_none answer
  | some reason =>
    rw [display_of_some answer]
    exact display_of_some answer

theorem Local.inCall (entry : TraceEntry) (frame : Frame) {x : Run Value} (h : Local x) :
    Local (inCall entry frame x) := by
  intro m calls
  obtain ⟨depth, same⟩ := h { m with stack := m.stack.push frame } (List.cons_ne_nil _ _)
  -- The body leaves the depth as it is, so the frame on top behind it is the one of the call.
  have dropped (m' : Machine) (h : m'.stack.depth = (m.stack.push frame).depth) (below) :
      { m'.atop below with stack := (m'.atop below).stack.pop } =
        ({ m' with stack := m'.stack.pop } : Machine).atop below := by
    have inside : m'.stack.calls ≠ [] :=
      CallStack.calls_ne_nil_of_depth (s := m.stack.push frame) (List.cons_ne_nil _ _) h
    change { m' with stack := (m'.stack.atop below).pop } = _
    rw [CallStack.pop_atop inside]
    rfl
  unfold Run.inCall
  constructor
  · cases e : x { m with stack := m.stack.push frame } with
    | ok v m' =>
      rw [e] at depth
      exact CallStack.depth_pop_of_depth_push depth
    | error e' m' =>
      rw [e] at depth
      exact CallStack.depth_pop_of_depth_push depth
    | outOfFuel => trivial
  · intro below
    have body : x { m.atop below with stack := (m.atop below).stack.push frame } =
        (x { m with stack := m.stack.push frame }).atop below := same below
    rw [body]
    cases e : x { m with stack := m.stack.push frame } with
    | ok v m' =>
      rw [e] at depth
      exact congrArg (Outcome.ok v) (dropped m' depth below)
    | error e' m' =>
      rw [e] at depth
      let failure : Failure := ⟨e'.error, e'.trace ++ [entry]⟩
      exact congrArg (Outcome.error failure) (dropped m' depth below)
    | outOfFuel => rfl

theorem local_congruence : Congruence fun {α} (x _ : Run α) => Local x where
  outOfFuel _ := fun _ _ => ⟨trivial, fun _ => rfl⟩
  pure _ := fun _ _ => ⟨rfl, fun _ => rfl⟩
  bind := .bind
  ofExcept x := by
    intro m _
    cases x with
    | ok a => exact ⟨rfl, fun _ => rfl⟩
    | error e => exact ⟨rfl, fun _ => rfl⟩
  mode _ h := .machine_bind (fun m => h m.mode) fun _ _ => rfl
  programmer _ h := .machine_bind (fun m => h m.programmer) fun _ _ => rfl
  exiting hx hy := .machine_bind (fun m => by split <;> assumption) fun _ _ => rfl
  setMode _ := fun _ _ => ⟨rfl, fun _ => rfl⟩
  toggle := fun _ _ => ⟨rfl, fun _ => rfl⟩
  exit := fun _ _ => ⟨rfl, fun _ => rfl⟩
  lookup := .lookup
  declare := .declare
  assign := .assign
  bindGlobal _ _ := fun _ _ => ⟨rfl, fun _ => rfl⟩
  display := .display
  inCall entry frame _ _ h := .inCall entry frame h

end Run

/-- The machines at the end of two runs on the stacks `s` and `s'` agree but for the frames between
the globals and the top, which are in each run what they were. -/
structure Machine.AgreeAround (s s' : CallStack) (m m' : Machine) : Prop where
  globals : m.stack.globals = m'.stack.globals
  top : m.stack.top = m'.stack.top
  mode : m.mode = m'.mode
  programmer : m.programmer = m'.programmer
  exiting : m.exiting = m'.exiting
  writer : m.writer = m'.writer
  displays : m.displays = m'.displays
  depth : m.stack.depth = s.depth ∧ m'.stack.depth = s'.depth
  inner : m.stack.inner = s.inner ∧ m'.stack.inner = s'.inner

/-- Two runs on the stacks `s` and `s'` end with the same value or with the same error and trace, on
machines that agree around the inner frames. -/
def Outcome.AgreeAround {ε α : Type} (s s' : CallStack) (o o' : Outcome ε α) : Prop :=
  match o, o' with
  | .ok a m, .ok b m' => a = b ∧ m.AgreeAround s s' m'
  | .error e m, .error f m' => e = f ∧ m.AgreeAround s s' m'
  | _, _ => False

theorem Machine.agreeAround_atop {s s' : CallStack} {m : Machine} (hs : 2 ≤ s.depth)
    (hs' : 2 ≤ s'.depth) (h : m.stack.depth = 2) :
    (m.atop s.inner).AgreeAround s s' (m.atop s'.inner) := by
  obtain ⟨f, only⟩ : ∃ f, m.stack.calls = [f] := by
    have one : m.stack.calls.length + 1 = 2 := h
    exact List.length_eq_one_iff.mp (by omega)
  have joined (below : List Frame) : (m.atop below).stack.calls = f :: below := by
    change m.stack.calls ++ below = _
    rw [only]
    rfl
  have depth (r : CallStack) (hr : 2 ≤ r.depth) : (m.atop r.inner).stack.depth = r.depth := by
    have positive : 2 ≤ r.calls.length + 1 := hr
    change (m.atop r.inner).stack.calls.length + 1 = r.calls.length + 1
    rw [joined]
    simp only [CallStack.inner, List.length_cons, List.length_tail]
    omega
  have inner (r : CallStack) : (m.atop r.inner).stack.inner = r.inner := by
    unfold CallStack.inner
    rw [joined]
    rfl
  refine ⟨rfl, ?_, rfl, rfl, rfl, rfl, rfl, ⟨depth s hs, depth s' hs'⟩, ⟨inner s, inner s'⟩⟩
  unfold CallStack.top
  rw [joined, joined]
  rfl

theorem Outcome.eq_outOfFuel_of_atop {ε α : Type} {below : List Frame} {o : Outcome ε α}
    (h : o.atop below = .outOfFuel) : o = .outOfFuel := by
  cases o with
  | ok a m => cases h
  | error e m => cases h
  | outOfFuel => rfl

theorem Outcome.agreeAround_atop {ε α : Type} {s s' : CallStack} {o : Outcome ε α}
    (hs : 2 ≤ s.depth) (hs' : 2 ≤ s'.depth) (h : o.LeavesDepth 2) (ended : o ≠ .outOfFuel) :
    (o.atop s.inner).AgreeAround s s' (o.atop s'.inner) := by
  cases o with
  | ok a m => exact ⟨rfl, Machine.agreeAround_atop hs hs' h⟩
  | error e m => exact ⟨rfl, Machine.agreeAround_atop hs hs' h⟩
  | outOfFuel => exact absurd rfl ended

namespace Tree

/-- A run inside a call is the run over that call alone, put over the frames below. -/
theorem eval_atop_inner (t : Tree) (fuel : Nat) (m : Machine) {s : CallStack} (h : 2 ≤ s.depth) :
    t.eval fuel { m with stack := s } =
      (t.eval fuel { m with stack := ⟨s.globals, [s.top]⟩ }).atop s.inner := by
  have alone := Run.local_congruence.eval (Nat.le_refl fuel) t
    { m with stack := ⟨s.globals, [s.top]⟩ } (List.cons_ne_nil _ _)
  rw [← alone.2 s.inner]
  exact congrArg (fun stack => t.eval fuel { m with stack := stack })
    (CallStack.exists_atop_of_depth h)

theorem ends_atop_inner_iff (t : Tree) (m : Machine) {s : CallStack} (h : 2 ≤ s.depth)
    (o : Outcome Failure Value) :
    t.Ends { m with stack := s } o ↔
      ∃ p, t.Ends { m with stack := ⟨s.globals, [s.top]⟩ } p ∧ o = p.atop s.inner := by
  constructor
  · rintro ⟨answered, fuel, rfl⟩
    rw [t.eval_atop_inner fuel m h] at answered ⊢
    exact ⟨_, ⟨fun e => answered (by rw [e]; rfl), fuel, rfl⟩, rfl⟩
  · rintro ⟨p, ⟨answered, fuel, rfl⟩, rfl⟩
    rw [← t.eval_atop_inner fuel m h]
    refine ⟨fun e => answered ?_, fuel, rfl⟩
    rw [t.eval_atop_inner fuel m h] at e
    exact Outcome.eq_outOfFuel_of_atop e

theorem Ends.keepsDepth {t : Tree} {m : Machine} {o : Outcome Failure Value} (h : t.Ends m o) :
    o.LeavesDepth m.stack.depth := by
  obtain ⟨-, fuel, rfl⟩ := h
  exact Run.keepsDepth_congruence.eval (Nat.le_refl fuel) t m

theorem Ends.leavesDepth {t : Tree} {m : Machine} {o : Outcome Failure Value} (h : t.Ends m o)
    (inside : m.stack.calls ≠ []) : o.LeavesDepth m.stack.depth := by
  obtain ⟨-, fuel, rfl⟩ := h
  exact (Run.local_congruence.eval (Nat.le_refl fuel) t m inside).1

/-- Evaluations of a tree on two call stacks with the same globals and the same innermost frame
both end or both do not, with the same outcome, and leave the frames between as they were. -/
theorem ends_agree_of_globals_of_top (t : Tree) (m : Machine) {s s' : CallStack}
    (hs : 2 ≤ s.depth) (hs' : 2 ≤ s'.depth) (globals : s.globals = s'.globals)
    (top : s.top = s'.top) :
    ((∃ o, t.Ends { m with stack := s } o) ↔ ∃ o, t.Ends { m with stack := s' } o) ∧
      ∀ o o', t.Ends { m with stack := s } o → t.Ends { m with stack := s' } o' →
        o.AgreeAround s s' o' := by
  -- Both runs are one run over the common top alone, put over the frames of each stack.
  have left := t.ends_atop_inner_iff m hs
  have right := t.ends_atop_inner_iff m hs'
  rw [← globals, ← top] at right
  constructor
  · constructor
    · rintro ⟨o, ho⟩
      obtain ⟨p, hp, -⟩ := (left o).mp ho
      exact ⟨_, (right _).mpr ⟨p, hp, rfl⟩⟩
    · rintro ⟨o, ho⟩
      obtain ⟨p, hp, -⟩ := (right o).mp ho
      exact ⟨_, (left _).mpr ⟨p, hp, rfl⟩⟩
  · intro o o' ho ho'
    obtain ⟨p, hp, rfl⟩ := (left o).mp ho
    obtain ⟨p', hp', rfl⟩ := (right o').mp ho'
    obtain rfl := hp.unique hp'
    exact Outcome.agreeAround_atop hs hs' (hp.leavesDepth (List.cons_ne_nil _ _)) hp.1

def readsCaller : Value :=
  .function "f" ["a"] (.body 1 [.assign 1 .plusEqual "g" (.reference 1 "a"), .reference 2 "x"])

/-- A stack with the function and `g` among its globals, over other calls. -/
def underCall (below : List Frame) : Machine :=
  { Machine.initial .rational false .accepting with
    stack :=
      ⟨.ofList [("f", readsCaller), ("g", .int 1 .dec)], .ofList [("t", .int 5 .dec)] :: below⟩ }

/-- That a caller has an `x` does not help the function. -/
theorem ends_agree_of_hidden_caller :
    ∃ m m', (Tree.call 3 "f" [.reference 3 "t"]).Ends (underCall [])
        (.error ⟨.undefinedVariable "x" 2, [⟨"f", 3⟩]⟩ m) ∧
      (Tree.call 3 "f" [.reference 3 "t"]).Ends (underCall [.ofList [("x", .int 9 .dec)], .empty])
        (.error ⟨.undefinedVariable "x" 2, [⟨"f", 3⟩]⟩ m') ∧
      m.AgreeAround (underCall []).stack
        (underCall [.ofList [("x", .int 9 .dec)], .empty]).stack m' := by
  let caller : List Frame := [.ofList [("x", .int 9 .dec)], .empty]
  have shallow : 2 ≤ (underCall []).stack.depth := by decide
  have deep : 2 ≤ (underCall caller).stack.depth := by decide
  have agree := ends_agree_of_globals_of_top (.call 3 "f" [.reference 3 "t"]) (underCall [])
    shallow deep rfl rfl
  have run : (Tree.call 3 "f" [.reference 3 "t"]).Ends (underCall []) (.error _ _) :=
    ⟨by rintro ⟨⟩, 10, rfl⟩
  have run' : (Tree.call 3 "f" [.reference 3 "t"]).Ends (underCall caller) (.error _ _) :=
    ⟨by rintro ⟨⟩, 10, rfl⟩
  exact ⟨_, _, run, run', (agree.2 _ _ run run').2⟩

end Tree

end Calculator
