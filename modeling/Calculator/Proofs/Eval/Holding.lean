import Calculator.Eval.Frame
import Mathlib.Data.List.Basic

set_option autoImplicit false

namespace Calculator

section
variable {P : Value → Prop} {f : Frame} {s : CallStack} {v : Value}

def Frame.Holds (P : Value → Prop) (f : Frame) : Prop :=
  ∀ name v, f.find? name = some v → P v

structure CallStack.Holds (P : Value → Prop) (s : CallStack) : Prop where
  globals : s.globals.Holds P
  calls : ∀ f ∈ s.calls, f.Holds P

namespace Frame.Holds

theorem mono {Q : Value → Prop} (h : f.Holds P) (implies : ∀ v, P v → Q v) : f.Holds Q :=
  fun name v found => implies v (h name v found)

theorem insert (h : f.Holds P) (name : String) (value : P v) : (f.insert name v).Holds P := by
  intro other w found
  rw [find?_insert] at found
  split at found
  · cases found
    exact value
  · exact h other w found

theorem empty : Frame.empty.Holds P :=
  nofun

theorem ofList {bindings : List (String × Value)} (h : ∀ b ∈ bindings, P b.2) :
    (Frame.ofList bindings).Holds P := by
  have inserted (f : Frame) (holds : f.Holds P) :
      (bindings.foldl (fun f b => f.insert b.1 b.2) f).Holds P := by
    induction bindings generalizing f with
    | nil => exact holds
    | cons b bindings ih =>
      obtain ⟨value, values⟩ := List.forall_mem_cons.mp h
      exact ih values _ (holds.insert b.1 value)
  exact inserted Frame.empty empty

end Frame.Holds

namespace CallStack.Holds

theorem initial (builtins : ∀ b, P (.builtin b)) : CallStack.initial.Holds P := by
  refine ⟨.ofList fun b mem => ?_, nofun⟩
  obtain ⟨function, -, rfl⟩ := List.mem_map.mp mem
  exact builtins function

theorem mono {Q : Value → Prop} (h : s.Holds P) (implies : ∀ v, P v → Q v) : s.Holds Q :=
  ⟨h.globals.mono implies, fun f mem => (h.calls f mem).mono implies⟩

theorem top (h : s.Holds P) : s.top.Holds P := by
  obtain ⟨globals, calls⟩ := s
  cases calls with
  | nil => exact h.globals
  | cons f calls => exact h.calls f List.mem_cons_self

theorem find? (h : s.Holds P) {name : String} (found : s.find? name = some v) : P v := by
  rcases Option.or_eq_some_iff.mp found with found | ⟨-, found⟩
  · exact h.top name v found
  · exact h.globals name v found

theorem setTop (h : s.Holds P) (frame : f.Holds P) : (s.setTop f).Holds P := by
  obtain ⟨globals, calls⟩ := s
  cases calls with
  | nil => exact ⟨frame, nofun⟩
  | cons g calls =>
    exact ⟨h.globals, List.forall_mem_cons.mpr ⟨frame, (List.forall_mem_cons.mp h.calls).2⟩⟩

theorem bindGlobal (h : s.Holds P) (name : String) (value : P v) : (s.bindGlobal name v).Holds P :=
  ⟨h.globals.insert name value, h.calls⟩

theorem bindLocal (h : s.Holds P) (name : String) (value : P v) : (s.bindLocal name v).Holds P :=
  h.setTop (h.top.insert name value)

theorem assign? (h : s.Holds P) {name : String} (value : P v) {s' : CallStack}
    (assigned : s.assign? name v = some s') : s'.Holds P := by
  unfold CallStack.assign? at assigned
  split at assigned
  · cases assigned
    exact h.bindLocal name value
  · split at assigned
    · cases assigned
      exact h.bindGlobal name value
    · cases assigned

theorem declare (h : s.Holds P) (name : String) (zero : P .zero) : (s.declare name).Holds P := by
  unfold CallStack.declare
  split
  · exact h
  · exact h.bindLocal name zero

theorem push (h : s.Holds P) (frame : f.Holds P) : (s.push f).Holds P :=
  ⟨h.globals, List.forall_mem_cons.mpr ⟨frame, h.calls⟩⟩

theorem unwind (h : s.Holds P) : s.unwind.Holds P :=
  ⟨h.globals, nofun⟩

theorem pop (h : s.Holds P) : s.pop.Holds P :=
  ⟨h.globals, fun f mem => h.calls f (List.mem_of_mem_tail mem)⟩

end CallStack.Holds

end

end Calculator
