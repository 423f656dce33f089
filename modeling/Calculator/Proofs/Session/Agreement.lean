import Calculator.Proofs.Eval.Bare
import Calculator.Proofs.Eval.Scoping
import Calculator.Proofs.Session.Operators

set_option autoImplicit false

namespace Calculator

theorem Machine.output_bare (m : Machine) : m.bare.output = m.output := by
  have texts : Display.text ∘ Display.bare = Display.text := funext Display.text_bare
  rw [output, output, bare, ← List.map_reverse, List.map_map, texts]

def ProgramError.bare : ProgramError → ProgramError
  | .syntaxError e => .syntaxError { e with line := 0 }
  | .failure e => .failure e.bare

namespace Session

section
variable {m m' : Machine} {source : Utf8.Source} {t t' : Tree} {q q' : Outcome Failure Value}

/-- With enough fuel the session comes to an end with the source, and this is the outcome. -/
def Ends (source : Utf8.Source) (m : Machine) (o : Outcome ProgramError Value) : Prop :=
  o ≠ .outOfFuel ∧ ∃ fuel, eval m fuel source = o

def bindResult (program : Tree) (v : Value) (m : Machine) : Machine :=
  if computes program then { m with stack := m.stack.bindGlobal lastResult v } else m

theorem depth_bindResult (program : Tree) (v : Value) (m : Machine) :
    (bindResult program v m).stack.depth = m.stack.depth := by
  unfold bindResult
  split <;> rfl

theorem bare_bindResult (program : Tree) (v : Value) (m : Machine) :
    (bindResult program v m).bare = m.bare := by
  unfold bindResult
  split
  · simp only [Machine.bare, CallStack.bare_bindGlobal_last]
  · rfl

theorem holds_bindResult {P : Value → Prop} {v : Value} (stack : m.stack.Holds P) (value : P v)
    (program : Tree) : (bindResult program v m).stack.Holds P := by
  unfold bindResult
  split
  · exact stack.bindGlobal lastResult value
  · exact stack

/-- What the session makes of the outcome of a program. -/
def conclude (program : Tree) : Outcome Failure Value → Outcome ProgramError Value
  | .ok v m => .ok v (bindResult program v m)
  | .error e m => .error (.failure e) { m with stack := m.stack.unwind }
  | .outOfFuel => .outOfFuel

theorem eval_of_parse (read : Tree.parse source m.mode = .ok t) (fuel : Nat) :
    eval m fuel source = conclude t (t.eval fuel { m with exiting := false }) := by
  unfold eval runTree Machine.execute
  rw [read]
  dsimp only
  cases t.eval fuel { m with exiting := false } <;> rfl

theorem ends_iff (read : Tree.parse source m.mode = .ok t) {o : Outcome ProgramError Value} :
    Ends source m o ↔ ∃ q, t.Ends { m with exiting := false } q ∧ conclude t q = o := by
  constructor
  · rintro ⟨answered, fuel, rfl⟩
    rw [eval_of_parse read] at answered ⊢
    refine ⟨_, ⟨fun none => answered ?_, fuel, rfl⟩, rfl⟩
    rw [none]
    rfl
  · rintro ⟨q, ⟨answered, fuel, rfl⟩, rfl⟩
    rw [← eval_of_parse read]
    refine ⟨?_, fuel, rfl⟩
    rw [eval_of_parse read]
    cases e : t.eval fuel { m with exiting := false } with
    | outOfFuel => exact absurd e answered
    | _ => exact nofun

theorem ends_of_eval_ok (read : Tree.parse source m.mode = .ok t) {fuel : Nat} {v : Value}
    (run : eval m fuel source = .ok v m') :
    ∃ n, t.Ends { m with exiting := false } (.ok v n) ∧ bindResult t v n = m' := by
  rw [eval_of_parse read] at run
  cases e : t.eval fuel { m with exiting := false } with
  | ok w n =>
    rw [e] at run
    obtain ⟨rfl, rfl⟩ := Outcome.ok.inj run
    exact ⟨n, ⟨nofun, fuel, e⟩, rfl⟩
  | error | outOfFuel =>
    rw [e] at run
    cases run

def Idle : Outcome ProgramError Value → Prop
  | .ok _ m => m.stack.depth = 1
  | .error _ m => m.stack.depth = 1
  | .outOfFuel => True

theorem idle_conclude (h : q.LeavesDepth 1) (program : Tree) : Idle (conclude program q) := by
  cases q with
  | ok v m => exact (depth_bindResult program v m).trans h
  | error e m => rfl
  | outOfFuel => trivial

theorem idle_eval (idle : m.stack.depth = 1) (fuel : Nat) (source : Utf8.Source) :
    Idle (eval m fuel source) := by
  cases read : Tree.parse source m.mode with
  | error e =>
    unfold eval
    rw [read]
    exact idle
  | ok t =>
    have depth := Run.keepsDepth_congruence.eval (Nat.le_refl fuel) t { m with exiting := false }
    rw [eval_of_parse read]
    exact idle_conclude (idle ▸ depth) t

theorem Reachable.depth (h : Reachable m) : m.stack.depth = 1 := by
  induction h with
  | start => rfl
  | @answered m _ fuel source _ _ run ih =>
    have idle := idle_eval ih fuel source
    rw [run] at idle
    exact idle
  | @failed m _ fuel source _ _ run ih =>
    have idle := idle_eval ih fuel source
    rw [run] at idle
    exact idle
  | host _ _ _ _ _ ih => exact ih

/-- Two sessions between programs, in the same state but for the last result and for lines. -/
structure Agree (m m' : Machine) : Prop where
  output : m.output = m'.output
  mode : m.mode = m'.mode
  programmer : m.programmer = m'.programmer
  exiting : m.exiting = m'.exiting
  writer : m.writer = m'.writer
  depth : m.stack.depth = 1 ∧ m'.stack.depth = 1
  globals : ∀ x, x ≠ lastResult →
    (m.stack.globals.find? x).map Value.bare = (m'.stack.globals.find? x).map Value.bare

/-- The same value, or the same error with the same calls, but for lines, in sessions that agree. -/
def AgreeOn : Outcome ProgramError Value → Outcome ProgramError Value → Prop
  | .ok v m, .ok v' m' => v.bare = v'.bare ∧ Agree m m'
  | .error e m, .error e' m' => e.bare = e'.bare ∧ Agree m m'
  | _, _ => False

theorem agree_of_bare (same : m.bare = m'.bare) (depth : m.stack.depth = 1)
    (depth' : m'.stack.depth = 1) : Agree m m' where
  output := by rw [← m.output_bare, same, m'.output_bare]
  mode := (congrArg Machine.mode same :)
  programmer := (congrArg Machine.programmer same :)
  exiting := (congrArg Machine.exiting same :)
  writer := (congrArg Machine.writer same :)
  depth := ⟨depth, depth'⟩
  globals x other := by
    have globals : m.stack.globals.bare = m'.stack.globals.bare :=
      congrArg (fun m => m.stack.globals) same
    rw [← Frame.find?_bare other, ← Frame.find?_bare other, globals]

theorem agreeOn_conclude (same : q.bare = q'.bare) (answered : q ≠ .outOfFuel)
    (depth : q.LeavesDepth 1) (depth' : q'.LeavesDepth 1) (program program' : Tree) :
    AgreeOn (conclude program q) (conclude program' q') := by
  have unwound (m : Machine) :
      Machine.bare { m with stack := m.stack.unwind } =
        { m.bare with stack := m.bare.stack.unwind } :=
    rfl
  cases q with
  | ok v m =>
    cases q' with
    | ok v' m' =>
      obtain ⟨value, machine⟩ := Outcome.ok.inj same
      refine ⟨value, agree_of_bare ?_ (idle_conclude depth program) (idle_conclude depth' program')⟩
      rw [bare_bindResult, bare_bindResult, machine]
    | error | outOfFuel => cases same
  | error e m =>
    cases q' with
    | error e' m' =>
      obtain ⟨failure, machine⟩ := Outcome.error.inj same
      refine ⟨congrArg ProgramError.failure failure, agree_of_bare ?_ rfl rfl⟩
      rw [unwound, unwound, machine]
    | ok | outOfFuel => cases same
  | outOfFuel => exact absurd rfl answered

theorem agree_of_bare_ends {source' : Utf8.Source} (read : Tree.parse source m.mode = .ok t)
    (read' : Tree.parse source' m'.mode = .ok t') (depth : m.stack.depth = 1)
    (depth' : m'.stack.depth = 1)
    (same : ∀ p, (∃ q, t.Ends { m with exiting := false } q ∧ q.bare = p) ↔
      ∃ q, t'.Ends { m' with exiting := false } q ∧ q.bare = p) :
    ((∃ o, Ends source m o) ↔ ∃ o, Ends source' m' o) ∧
      ∀ o o', Ends source m o → Ends source' m' o' → AgreeOn o o' := by
  simp only [ends_iff read, ends_iff read']
  constructor
  · constructor
    · rintro ⟨_, q, ended, rfl⟩
      obtain ⟨q', ended', -⟩ := (same q.bare).mp ⟨q, ended, rfl⟩
      exact ⟨_, q', ended', rfl⟩
    · rintro ⟨_, q, ended, rfl⟩
      obtain ⟨q', ended', -⟩ := (same q.bare).mpr ⟨q, ended, rfl⟩
      exact ⟨_, q', ended', rfl⟩
  · rintro _ _ ⟨q, ended, rfl⟩ ⟨q', ended', rfl⟩
    obtain ⟨r, ended'', alike⟩ := (same q.bare).mp ⟨q, ended, rfl⟩
    obtain rfl := ended''.unique ended'
    exact agreeOn_conclude alike.symm ended.1 (depth ▸ ended.keepsDepth)
      (depth' ▸ ended'.keepsDepth) t t'

end

end Session

end Calculator
