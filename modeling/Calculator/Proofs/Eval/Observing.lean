import Calculator.Proofs.Eval.Policy

set_option autoImplicit false

namespace Calculator.Policy

open Run

variable {P : Policy} {F : Failure → Prop} {α : Type} {Q : α → Prop} {v : Value} {m m' : Machine}

def Permits (P : Policy) (part : Part) (m : Machine) : Prop :=
  ∀ calls last mₗ b, part.ComesTo m calls last mₗ → last.Applies mₗ b → P.builtin b

structure Observed (P : Policy) (part : Part) (m : Machine) : Prop where
  nodes : part.All P.node
  within : P.Within m
  permits : P.Permits part m

theorem Kept.mono {G : Failure → Prop} {o : Outcome Failure α} (h : P.Kept F Q o)
    (implies : ∀ f, F f → G f) : P.Kept G Q o := by
  cases o with
  | ok a m => exact h
  | error f m => exact ⟨implies f h.1, h.2⟩
  | outOfFuel => trivial

theorem Kept.ends {x : Nat → Run α} {o : Outcome Failure α} (each : ∀ n, P.Kept F Q (x n m))
    (ended : Run.Ends x m o) : P.Kept F Q o := by
  obtain ⟨-, n, rfl⟩ := ended
  exact each n

section
variable {part part' last : Part} {t : Tree} {mₗ : Machine} {outer : List Tree}
  {entry : TraceEntry} {calls : List TraceEntry}

theorem Permits.next (h : P.Permits part m) (step : part.Next m part' m' outer) :
    P.Permits part' m' :=
  fun calls last mₗ b comes => h calls last mₗ b (.next step comes)

theorem Permits.enter (h : P.Permits part m) (entered : part.Enters m entry part' m') :
    P.Permits part' m' :=
  fun calls last mₗ b comes => h (calls ++ [entry]) last mₗ b (.enter entered comes)

theorem Within.enters (h : P.Within m) (entered : part.Enters m entry part' m') :
    part'.All P.node := by
  cases entered with
  | call callee => exact h.find? callee

variable (noted : ∀ f entry, F f → F (f.noted entry))

include noted

theorem Observed.covers_of {n : Nat} (h : P.Observed part m) (zero : P.Allows .zero)
    (behind : ∀ k ≤ n, ∀ part m v, P.Observed part m → P.Allows v →
      P.Kept F P.Allows (part.run k v m)) : P.Covers F n part m := by
  refine ⟨fun k part' m' outer v less step within before => ?_,
    fun entry part' m' entered within => ?_, fun b => h.permits [] part m b .here⟩
  · exact behind k less part' m' v ⟨step.all h.nodes, within, h.permits.next step⟩ before
  · have inside : P.Observed part' m' := ⟨h.within.enters entered, within, h.permits.enter entered⟩
    exact (behind n (Nat.le_refl n) part' m' .zero inside zero).mono fun f => noted f entry

variable (sound : P.Sound F)

include sound

theorem kept_run (h : P.Observed part m) (before : P.Allows v) (n : Nat) :
    P.Kept F P.Allows (part.run n v m) := by
  induction n using Nat.strongRecOn generalizing part m v with
  | ind n ih =>
    cases n with
    | zero => cases part <;> trivial
    | succ n =>
      have covers : P.Covers F n part m := h.covers_of noted sound.zero
        fun k less part m v observed before => ih k (Nat.lt_succ_of_le less) observed before
      exact covers.run sound h.within h.nodes before

namespace Observed

theorem covers (h : P.Observed part m) (n : Nat) : P.Covers F n part m :=
  h.covers_of noted sound.zero fun k _ _ _ _ observed before =>
    kept_run noted sound observed before k

theorem ends (h : P.Observed (.tree t) m) {o : Outcome Failure Value} (ended : t.Ends m o) :
    P.Kept F P.Allows o :=
  .ends (fun n => kept_run noted sound h sound.zero n) ended

section
variable (h : P.Observed part m)

include h

theorem within_next (step : part.Next m part' m' outer) (within : P.Within m') {m'' : Machine}
    (ended : part'.Ends .zero m' (.ok v m'')) : P.Within m'' := by
  have kept (n : Nat) := (h.covers noted sound n).next step within sound.zero
  cases part' <;> exact (Kept.ends kept ended).2

theorem within_condition (here : part.Evaluates m t m') (within : P.Within m') {m'' : Machine}
    {holds : Bool} (ended : Run.Ends (fun n => evalCondition n t) m' (.ok holds m'')) :
    P.Within m'' :=
  (Kept.ends (fun n => (h.covers noted sound n).condition sound here within) ended).2

theorem evaluates (here : part.Evaluates m t m') : P.Within m' := by
  cases here with
  | operand | lhs | change | init | condition | shown | guard => exact h.within
  | rhs isOperator left =>
    exact h.within_next noted sound (.expression (.lhs isOperator)) h.within left
  | value => exact h.within.withStack (h.within.stack.declare _ sound.zero)
  | argument bound read =>
    have kept (n : Nat) := (h.covers noted sound n).arguments sound []
      (Nat.le_refl n) bound (ends_arguments_nil.mpr rfl) h.within
    exact (Kept.ends kept read).2
  | step running holds turn =>
    have within := h.within_condition noted sound (.guard running) h.within holds
    exact h.within_next noted sound (.turn running holds) within turn

theorem next (step : part.Next m part' m' outer) : P.Observed part' m' := by
  refine ⟨step.all h.nodes, ?_, h.permits.next step⟩
  cases step with
  | expression here => exact h.evaluates noted sound here
  | body | statement | whileLoop => exact h.within
  | rest running first => exact h.within_next noted sound (.statement running) h.within first
  | positive holds | otherwise holds =>
    exact h.within_condition noted sound .condition h.within holds
  | forLoop first => exact h.within_next noted sound (.expression .init) h.within first
  | turn running holds => exact h.within_condition noted sound (.guard running) h.within holds
  | again running holds turn =>
    have within := h.within_condition noted sound (.guard running) h.within holds
    exact h.within_next noted sound (.turn running holds) within turn
  | stepped running holds turn behind =>
    have within := h.within_condition noted sound (.guard running) h.within holds
    have within := h.within_next noted sound (.turn running holds) within turn
    exact h.within_next noted sound (.expression (.step running holds turn)) within behind

theorem enter (entered : part.Enters m entry part' m') : P.Observed part' m' := by
  refine ⟨h.within.enters entered, ?_, h.permits.enter entered⟩
  cases entered with
  | call callee read arity =>
    have kept (n : Nat) := (h.covers noted sound n).allArguments sound h.within
      (Option.isSome_iff_exists.mpr ⟨_, callee⟩)
    obtain ⟨values, within⟩ := Kept.ends kept read
    refine within.withStack (within.stack.push (.ofList fun b mem => ?_))
    exact values b.2 (List.of_mem_zip mem).2

end

theorem comesTo (h : P.Observed part m) (comes : part.ComesTo m calls last mₗ) :
    P.Observed last mₗ := by
  induction comes with
  | here => exact h
  | next step _ ih => exact ih (h.next noted sound step)
  | enter entered _ ih => exact ih (h.enter noted sound entered)

theorem passes (h : P.Observed part m) (passes : part.Passes m m') : P.Within m' := by
  cases passes with
  | part comes => exact (h.comesTo noted sound comes).within
  | answer comes ended => exact ((h.comesTo noted sound comes).ends noted sound ended).2
  | failure comes ended => exact ((h.comesTo noted sound comes).ends noted sound ended).2

end Observed

end

end Calculator.Policy
