import Calculator.Proofs.Eval.Changing
import Calculator.Proofs.Eval.Policy
import Calculator.Proofs.Eval.Scoping
import Calculator.Session
import Mathlib.Tactic.ByContra

set_option autoImplicit false

namespace Calculator

open Run

namespace Part

variable {part part' last : Part} {m m' m'' mₗ : Machine} {f : Failure} {e : EvalError} {n : Nat}
  {v : Value} {calls : List TraceEntry} {outer : List Tree}

/-- The evaluation of the part ends with a failure, behind whatever value. -/
def Fails (part : Part) (m : Machine) (f : Failure) (m' : Machine) : Prop :=
  ∃ v, part.Ends v m (.error f m')

/-- None of the parts that the part comes to from there fails, nor does the body of a function that
it enters. -/
structure Spared (part : Part) (m : Machine) : Prop where
  parts : ∀ part' m' outer, part.Next m part' m' outer → ∀ f m'', ¬part'.Fails m' f m''
  bodies : ∀ entry part' m', part.Enters m entry part' m' → ∀ f m'', ¬part'.Fails m' f m''

/-- The part fails, and it is an operation of its own that does. -/
structure FailsItself (part : Part) (m : Machine) (e : EvalError) : Prop where
  fails : ∃ f m', part.Fails m f m' ∧ f.error = e
  spared : part.Spared m

theorem ends_error (h : part.Ends v m (.error f m')) (w : Value) :
    part.Ends w m (.error f m') := by
  cases part with
  | tree t => exact h
  | row ts =>
    cases exiting : m.exiting with
    | true => cases (ends_body_of_exiting exiting).mp h
    | false =>
      cases ts with
      | nil => cases ends_body_nil.mp h
      | cons t ts => exact (ends_body_cons exiting).mpr ((ends_body_cons exiting).mp h)
  | loop guard body step =>
    cases exiting : m.exiting with
    | true => cases (ends_loop_of_exiting exiting).mp h
    | false =>
      refine (ends_loop_of_running exiting).mpr
        (((ends_loop_of_running exiting).mp h).mono (fun _ => id) ?_)
      rintro (_ | _) m'' - behind
      · cases behind
      · exact behind

theorem grows_run (part : Part) (v : Value) : Grows fun n => part.run n v := by
  cases part with
  | tree t => exact grows_eval t
  | row ts => exact grows_body v ts
  | loop guard body step => exact grows_loop guard body step v

theorem ends_run (answered : part.run n v m ≠ .outOfFuel) : part.Ends v m (part.run n v m) :=
  ends_iff_run.mpr ⟨answered, n, rfl⟩

theorem Fails.run_eq (h : part.Fails m f m') (answered : part.run n v m ≠ .outOfFuel) :
    part.run n v m = .error f m' := by
  obtain ⟨w, failed⟩ := h
  have failed := ends_iff_run.mp (ends_error failed v)
  exact Ends.unique (part.grows_run v) ⟨answered, n, rfl⟩ failed

theorem fails_of_run_eq (h : part.run n v m = .error f m') : part.Fails m f m' := by
  refine ⟨v, ?_⟩
  rw [← h]
  exact ends_run (by rw [h]; nofun)

theorem Enters.needs {entry : TraceEntry} (h : part.Enters m entry part' m')
    (answered : part.run (n + 1) v m ≠ .outOfFuel) :
    part'.run n v m' ≠ .outOfFuel ∧ ∀ f m'', part'.run n v m' = .error f m'' →
      part.run (n + 1) v m =
        .error ⟨f.error, f.trace ++ [entry]⟩ { m'' with stack := m''.stack.pop } := by
  obtain ⟨inside, same⟩ := h.run_eq answered
  refine ⟨inside, fun f m'' failed => ?_⟩
  rw [same, failed]
  rfl

theorem ComesTo.error (h : part.ComesTo m calls last mₗ) (answered : part.run n v m ≠ .outOfFuel) :
    ∃ k ≤ n, ∃ w, last.run k w mₗ ≠ .outOfFuel ∧ ∀ f m', last.run k w mₗ = .error f m' →
      ∃ m'', part.run n v m = .error ⟨f.error, f.trace ++ calls⟩ m'' := by
  induction h generalizing n v with
  | here =>
    refine ⟨n, Nat.le_refl n, v, answered, fun f m' failed => ⟨m', ?_⟩⟩
    rw [failed, List.append_nil]
  | next step _ ih =>
    cases n with
    | zero => exact absurd run_zero answered
    | succ n =>
      obtain ⟨k, less, w, needs⟩ := step.needs n v
      obtain ⟨here, failed⟩ := needs answered
      obtain ⟨j, less', u, there, behind⟩ := ih here
      refine ⟨j, Nat.le_succ_of_le (Nat.le_trans less' less), u, there, fun f m' inside => ?_⟩
      obtain ⟨m'', whole⟩ := behind f m' inside
      exact ⟨m'', failed _ _ whole⟩
  | enter entered _ ih =>
    cases n with
    | zero => exact absurd run_zero answered
    | succ n =>
      obtain ⟨here, failed⟩ := entered.needs answered
      obtain ⟨j, less, u, there, behind⟩ := ih here
      refine ⟨j, Nat.le_succ_of_le less, u, there, fun f m' inside => ?_⟩
      obtain ⟨m'', whole⟩ := behind f m' inside
      rw [← List.append_assoc]
      exact ⟨_, failed _ _ whole⟩

theorem Spared.covers (h : part.Spared m) (n : Nat) :
    Policy.any.Covers (fun f => f.trace = []) n part m := by
  have answer {F : Failure → Prop} {part' : Part} {k : Nat} {v : Value} {m' : Machine}
      (spared : ∀ f m'', ¬part'.Fails m' f m'') :
      Policy.any.Kept F Policy.any.Allows (part'.run k v m') := by
    cases e : part'.run k v m' with
    | ok w m'' => exact ⟨Policy.any_allows w, Policy.any_within m''⟩
    | error f m'' => exact absurd (fails_of_run_eq e) (spared f m'')
    | outOfFuel => trivial
  exact ⟨fun _ _ _ _ _ _ step _ _ => answer (h.parts _ _ _ step),
    fun _ _ _ entered _ => answer (h.bodies _ _ _ entered), fun _ _ => trivial⟩

theorem Spared.trace_eq_nil (h : part.Spared m)
    (failed : part.run n v m = .error f m') : f.trace = [] := by
  cases n with
  | zero =>
    rw [run_zero] at failed
    cases failed
  | succ n =>
    have kept := (h.covers n).run (Policy.any_sound fun _ => rfl) (Policy.any_within m)
      (part.all_of_forall fun _ => trivial) (Policy.any_allows v)
    rw [failed] at kept
    exact kept.1

section
variable {t : Tree}

theorem depth_of_ends {α : Type} {x : Nat → Run α} {a : α} (keeps : ∀ n, KeepsDepth (x n))
    (h : Run.Ends x m (.ok a m')) : m'.stack.depth = m.stack.depth := by
  obtain ⟨-, n, same⟩ := h
  have kept := keeps n m
  rw [same] at kept
  exact kept

theorem depth_of_eval (h : t.Ends m (.ok v m')) : m'.stack.depth = m.stack.depth :=
  h.keepsDepth

theorem depth_of_condition {holds : Bool}
    (h : Run.Ends (fun n => evalCondition n t) m (.ok holds m')) :
    m'.stack.depth = m.stack.depth :=
  depth_of_ends (fun n => (keepsDepth_congruence.related (Nat.le_refl n)).condition t) h

theorem depth_of_arguments {ts : List Tree} {vs : List Value}
    (h : Run.Ends (fun n => evalArguments n ts) m (.ok vs m')) :
    m'.stack.depth = m.stack.depth :=
  depth_of_ends (fun n => (keepsDepth_congruence.related (Nat.le_refl n)).arguments ts) h

theorem Evaluates.depth (h : part.Evaluates m t m') : m'.stack.depth = m.stack.depth := by
  cases h with
  | operand | lhs | change | init | condition | shown | guard => rfl
  | rhs _ left => exact depth_of_eval left
  | value => exact CallStack.depth_declare _
  | argument _ read => exact depth_of_arguments read
  | step _ holds turn => exact (depth_of_eval turn).trans (depth_of_condition holds)

theorem Next.depth (h : part.Next m part' m' outer) : m'.stack.depth = m.stack.depth := by
  cases h with
  | expression here => exact here.depth
  | body | statement | whileLoop => rfl
  | rest _ first | forLoop first => exact depth_of_eval first
  | positive holds | otherwise holds | turn _ holds => exact depth_of_condition holds
  | again _ holds turn => exact (depth_of_eval turn).trans (depth_of_condition holds)
  | stepped _ holds turn behind =>
    exact (depth_of_eval behind).trans ((depth_of_eval turn).trans (depth_of_condition holds))

theorem Enters.depth {entry : TraceEntry} (h : part.Enters m entry part' m') :
    m'.stack.depth = m.stack.depth + 1 := by
  cases h with
  | call _ read => exact congrArg (· + 1) (depth_of_arguments read)

theorem ComesTo.depth (h : part.ComesTo m calls last mₗ) :
    mₗ.stack.depth = m.stack.depth + calls.length := by
  induction h with
  | here => rfl
  | next step _ ih => rw [ih, step.depth]
  | enter entered _ ih =>
    rw [List.length_append, List.length_singleton, ih, entered.depth]
    omega

theorem exists_failsItself (failed : part.run n v m = .error f m') :
    ∃ calls last mₗ e, part.ComesTo m calls last mₗ ∧ last.FailsItself mₗ e := by
  induction n using Nat.strongRecOn generalizing part m v f m' with
  | ind n ih =>
    have answered : part.run n v m ≠ .outOfFuel := by
      rw [failed]
      nofun
    by_cases spared : part.Spared m
    · exact ⟨[], part, m, f.error, .here, ⟨f, m', fails_of_run_eq failed, rfl⟩, spared⟩
    · obtain ⟨n, rfl⟩ : ∃ k, n = k + 1 := by
        refine ⟨n - 1, (Nat.succ_pred fun zero => answered ?_).symm⟩
        rw [zero, run_zero]
      by_cases inside : ∃ part' m' outer f m'', part.Next m part' m' outer ∧ part'.Fails m' f m''
      · obtain ⟨part', m₁, outer, g, m₂, step, fails⟩ := inside
        obtain ⟨k, less, w, needs⟩ := step.needs n v
        obtain ⟨calls, last, mₗ, e, comes, itself⟩ :=
          ih k (Nat.lt_succ_of_le less) (fails.run_eq (needs answered).1)
        exact ⟨calls, last, mₗ, e, .next step comes, itself⟩
      · obtain ⟨entry, part', m₁, g, m₂, entered, fails⟩ : ∃ entry part' m' f m'',
            part.Enters m entry part' m' ∧ part'.Fails m' f m'' := by
          by_contra none
          refine spared ⟨fun part' m' outer step f m'' fails => ?_,
            fun entry part' m' entered f m'' fails => ?_⟩
          · exact inside ⟨part', m', outer, f, m'', step, fails⟩
          · exact none ⟨entry, part', m', f, m'', entered, fails⟩
        obtain ⟨calls, last, mₗ, e, comes, itself⟩ :=
          ih n (Nat.lt_succ_self n) (fails.run_eq (entered.needs answered).1)
        exact ⟨_, last, mₗ, e, .enter entered comes, itself⟩

/-- What fails itself gives the run its error, and the calls in progress are the trace. -/
theorem ComesTo.trace_eq (comes : part.ComesTo m calls last mₗ) (itself : last.FailsItself mₗ e)
    (failed : part.run n v m = .error f m') : e = f.error ∧ calls = f.trace := by
  have answered : part.run n v m ≠ .outOfFuel := by
    rw [failed]
    nofun
  obtain ⟨k, -, w, here, behind⟩ := comes.error answered
  obtain ⟨⟨g, m'', fails, rfl⟩, spared⟩ := itself
  have inside := fails.run_eq here
  have untraced := spared.trace_eq_nil inside
  obtain ⟨m₃, whole⟩ := behind g m'' inside
  rw [failed, untraced, List.nil_append] at whole
  cases whole
  exact ⟨rfl, rfl⟩

end

end Part

namespace Machine

/-- The trace of a failed run lists the calls that were in progress, the innermost first, where an
operation failed by itself, and its error is that of the operation. There was a frame on the stack
for each of them; afterwards only the globals are left. -/
theorem trace_eq_calls (m : Machine) (fuel : Nat) (t : Tree) {f : Failure} {m' : Machine}
    (failed : m.execute fuel t = .error f m') :
    m'.stack.depth = 1 ∧
      (∃ part mₗ, (Part.tree t).ComesTo { m with exiting := false } f.trace part mₗ ∧
        part.FailsItself mₗ f.error) ∧
      ∀ calls part mₗ e, (Part.tree t).ComesTo { m with exiting := false } calls part mₗ →
        part.FailsItself mₗ e →
        e = f.error ∧ calls = f.trace ∧ mₗ.stack.depth = m.stack.depth + f.trace.length := by
  unfold execute at failed
  split at failed <;> cases failed
  rename_i m₁ ran
  have ran : (Part.tree t).run fuel .zero { m with exiting := false } = .error f m₁ := ran
  refine ⟨rfl, ?_, fun calls part mₗ e comes itself => ?_⟩
  · obtain ⟨calls, part, mₗ, e, comes, itself⟩ := Part.exists_failsItself ran
    obtain ⟨rfl, rfl⟩ := comes.trace_eq itself ran
    exact ⟨part, mₗ, comes, itself⟩
  · obtain ⟨rfl, rfl⟩ := comes.trace_eq itself ran
    exact ⟨rfl, rfl, comes.depth⟩

/-- A function that calls itself under another name until its argument is zero, and then reads a
variable that does not exist. -/
def aliasedRecursion : Tree :=
  .body 1 [
    .define 1 "f" ["n"]
      (.conditional 2 (.reference 2 "n")
        (.call 3 "g" [.binary 3 .minus (.reference 3 "n") (.constant 3 (.int 1 .dec))])
        (some (.reference 4 "x"))),
    .assign 5 .equal "g" (.reference 5 "f"),
    .call 6 "g" [.constant 6 (.int 1 .dec)]]

/-- Both calls are noted with the name that the function was defined with. -/
theorem trace_eq_calls_aliased : ∃ m' part mₗ,
    (Machine.initial .rational false .accepting).execute 20 aliasedRecursion =
      .error ⟨.undefinedVariable "x" 4, [⟨"f", 3⟩, ⟨"f", 6⟩]⟩ m' ∧ m'.stack.depth = 1 ∧
    (Part.tree aliasedRecursion).ComesTo (.initial .rational false .accepting) [⟨"f", 3⟩, ⟨"f", 6⟩]
      part mₗ ∧
    part.FailsItself mₗ (.undefinedVariable "x" 4) ∧ mₗ.stack.depth = 3 := by
  have ran : ∃ m', (Machine.initial .rational false .accepting).execute 20 aliasedRecursion =
      .error ⟨.undefinedVariable "x" 4, [⟨"f", 3⟩, ⟨"f", 6⟩]⟩ m' := ⟨_, rfl⟩
  obtain ⟨m', failed⟩ := ran
  obtain ⟨depth, ⟨part, mₗ, comes, itself⟩, unique⟩ := trace_eq_calls _ _ _ failed
  exact ⟨m', part, mₗ, failed, depth, comes, itself, (unique _ _ _ _ comes itself).2.2⟩

end Machine

end Calculator
