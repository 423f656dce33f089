import Calculator.Proofs.Eval.Observing
import Calculator.Session

set_option autoImplicit false

namespace Calculator

open Policy

def Policy.KeptProgram (P : Policy) (F : Failure → Prop) : Outcome ProgramError Value → Prop
  | .ok v m => P.Allows v ∧ P.Within m
  | .error e m => (∀ f, e = .failure f → F f) ∧ P.Within m
  | .outOfFuel => True

def Policy.ObservedIn (P : Policy) (m : Machine) (source : Utf8.Source) : Prop :=
  ∀ t, Tree.parse source m.mode = .ok t → P.Observed (.tree t) { m with exiting := false }

structure Policy.Free (P : Policy) : Prop where
  mode : ∀ mode, P.mode mode
  builtin : ∀ b, P.builtin b
  shown : ∀ v, P.shown v
  value : ∀ b, P.datum (.builtin b)

namespace Policy

variable {P : Policy} {m : Machine} {source : Utf8.Source}

theorem within_initial {mode : NumericMode} (allowed : P.mode mode)
    (builtins : ∀ b, P.datum (.builtin b)) (programmer : Bool) (writer : Writer) :
    P.Within (.initial mode programmer writer) :=
  ⟨.initial builtins, allowed, nofun⟩

theorem Free.within_initial (free : P.Free) (mode : NumericMode) (programmer : Bool)
    (writer : Writer) : P.Within (.initial mode programmer writer) :=
  Policy.within_initial (free.mode mode) free.value programmer writer

theorem Within.restart (h : P.Within m) : P.Within { m with exiting := false } :=
  ⟨h.stack, h.mode, h.displays⟩

theorem Free.observedIn (free : P.Free) (within : P.Within m)
    (nodes : ∀ t, Tree.parse source m.mode = .ok t → t.All P.node) : P.ObservedIn m source :=
  fun t read => ⟨nodes t read, within.restart, fun _ _ _ b _ _ => free.builtin b⟩

end Policy

namespace Session

/-- The machines of sessions: programs are read and run, and between them the host may change the
settings and take the output. -/
inductive Reachable : Machine → Prop where
  | start (mode : NumericMode) (programmer : Bool) (writer : Writer) :
      Reachable (.initial mode programmer writer)
  | answered {m m' : Machine} {fuel : Nat} {source : Utf8.Source} {v : Value} (before : Reachable m)
      (run : eval m fuel source = .ok v m') : Reachable m'
  | failed {m m' : Machine} {fuel : Nat} {source : Utf8.Source} {e : ProgramError}
      (before : Reachable m) (run : eval m fuel source = .error e m') : Reachable m'
  | host {m : Machine} (mode : NumericMode) (programmer : Bool) (writer : Writer)
      (displays : List Display) (before : Reachable m) :
      Reachable { m with
        mode := mode, programmer := programmer, writer := writer, displays := displays }

section
variable {P : Policy} {F : Failure → Prop} {m : Machine} {t : Tree} {source : Utf8.Source}
  (noted : ∀ f entry, F f → F (f.noted entry)) (sound : P.Sound F)

include noted sound

theorem kept_execute (h : P.Observed (.tree t) { m with exiting := false }) (fuel : Nat) :
    P.Kept F P.Allows (m.execute fuel t) := by
  have run : P.Kept F P.Allows (t.eval fuel { m with exiting := false }) :=
    kept_run noted sound h sound.zero fuel
  unfold Machine.execute
  split
  · rename_i e
    rw [e] at run
    exact run
  · rename_i e
    rw [e] at run
    exact ⟨run.1, run.2.withStack run.2.stack.unwind⟩
  · trivial

theorem kept_runTree (h : P.Observed (.tree t) { m with exiting := false }) (fuel : Nat) :
    P.Kept F P.Allows (runTree m fuel t) := by
  have run := kept_execute noted sound h fuel
  unfold runTree
  split
  · rename_i e
    rw [e] at run
    refine ⟨run.1, ?_⟩
    split
    · exact run.2.withStack (run.2.stack.bindGlobal lastResult run.1)
    · exact run.2
  · rename_i e
    rw [e] at run
    exact run
  · trivial

theorem kept_eval (within : P.Within m) (h : P.ObservedIn m source) {fuel : Nat}
    {o : Outcome ProgramError Value} (run : eval m fuel source = o) : P.KeptProgram F o := by
  subst run
  unfold eval
  cases read : Tree.parse source m.mode with
  | error e => exact ⟨nofun, within⟩
  | ok t =>
    have run := kept_runTree noted sound (h t read) fuel
    dsimp only
    split
    · rename_i e
      rw [e] at run
      exact run
    · rename_i f m' e
      rw [e] at run
      refine ⟨?_, run.2⟩
      rintro _ ⟨⟩
      exact run.1
    · trivial

end

theorem Reachable.within {P : Policy} {F : Failure → Prop} {m : Machine}
    (noted : ∀ f entry, F f → F (f.noted entry)) (sound : P.Sound F) (free : P.Free)
    (nodes : ∀ source mode t, Tree.parse source mode = .ok t → t.All P.node) (h : Reachable m) :
    P.Within m := by
  induction h with
  | start mode programmer writer => exact free.within_initial mode programmer writer
  | answered before run ih | failed before run ih =>
    exact (kept_eval noted sound ih (free.observedIn ih (nodes _ _)) run).2
  | host mode programmer writer displays before ih =>
    exact ⟨ih.stack, free.mode mode, fun d _ => free.shown d.value⟩

end Session

end Calculator
