import Calculator.Proofs.Eval.Congruence

set_option autoImplicit false

/-!
# How evaluations end

`Run.Ends` says how a computation ends that is given enough fuel, and `Run.Follows` how two end one
after the other. Statements in a row, loops and conditionals end as their parts do, without a word
about fuel.
-/
namespace Calculator

namespace Run

section
variable {α β : Type}

def Grows (x : Nat → Run α) : Prop :=
  ∀ n k, n ≤ k → Extends (x n) (x k)

/-- With enough fuel the computation comes to an end, and this is its outcome. -/
def Ends (x : Nat → Run α) (m : Machine) (o : Outcome Failure α) : Prop :=
  o ≠ .outOfFuel ∧ ∃ fuel, x fuel m = o

/-- The outcome of a computation whose answer another one takes up; an error stays. -/
def Follows (first : Outcome Failure α → Prop) (behind : α → Machine → Outcome Failure β → Prop)
    (o : Outcome Failure β) : Prop :=
  (∃ a m, first (.ok a m) ∧ behind a m o) ∨ ∃ e m, first (.error e m) ∧ o = .error e m

theorem Follows.mono {first first' : Outcome Failure α → Prop}
    {behind behind' : α → Machine → Outcome Failure β → Prop} {o : Outcome Failure β}
    (h : Follows first behind o) (hfirst : ∀ p, first p → first' p)
    (hbehind : ∀ a m, first (.ok a m) → behind a m o → behind' a m o) :
    Follows first' behind' o := by
  rcases h with ⟨a, m, here, there⟩ | ⟨e, m, failed, same⟩
  · exact .inl ⟨a, m, hfirst _ here, hbehind a m here there⟩
  · exact .inr ⟨e, m, hfirst _ failed, same⟩

theorem follows_congr {first first' : Outcome Failure α → Prop}
    {behind behind' : α → Machine → Outcome Failure β → Prop} {o : Outcome Failure β}
    (hfirst : ∀ p, first p ↔ first' p)
    (hbehind : ∀ a m, first (.ok a m) → (behind a m o ↔ behind' a m o)) :
    Follows first behind o ↔ Follows first' behind' o :=
  ⟨fun h => h.mono (fun p => (hfirst p).mp) fun a m here => (hbehind a m here).mp,
    fun h => h.mono (fun p => (hfirst p).mpr) fun a m here =>
      (hbehind a m ((hfirst _).mpr here)).mpr⟩

variable {x : Nat → Run α} {f : Nat → α → Run β} {m : Machine}

theorem Grows.const (x : Run α) : Grows fun _ => x :=
  fun _ _ _ => .refl x

theorem Grows.bind (hx : Grows x) (hf : ∀ a, Grows fun n => f n a) :
    Grows fun n => x n >>= f n :=
  fun n k h => (hx n k h).bind fun a => hf a n k h

theorem ends_of_ok {fuel : Nat} {a : α} {m' : Machine} (h : x fuel m = .ok a m') :
    Ends x m (.ok a m') :=
  ⟨nofun, fuel, h⟩

theorem Ends.eventually {o : Outcome Failure α} (grows : Grows x) (h : Ends x m o) :
    ∃ least, ∀ fuel, least ≤ fuel → x fuel m = o := by
  obtain ⟨answered, n, rfl⟩ := h
  exact ⟨n, fun fuel enough => grows n fuel enough m answered⟩

theorem Ends.unique {o p : Outcome Failure α} (grows : Grows x) (ho : Ends x m o)
    (hp : Ends x m p) : o = p := by
  obtain ⟨n, same⟩ := ho.eventually grows
  obtain ⟨k, same'⟩ := hp.eventually grows
  rw [← same (max n k) (Nat.le_max_left n k), same' (max n k) (Nat.le_max_right n k)]

theorem Ends.follows_iff {behind : α → Machine → Outcome Failure β → Prop} {a : α} {m' : Machine}
    {o : Outcome Failure β} (grows : Grows x) (h : Ends x m (.ok a m')) :
    Follows (Ends x m) behind o ↔ behind a m' o := by
  constructor
  · rintro (⟨b, m'', first, there⟩ | ⟨e, m'', failed, -⟩)
    · cases h.unique grows first
      exact there
    · cases h.unique grows failed
  · exact fun there => .inl ⟨a, m', h, there⟩

theorem ends_const_iff {x : Run α} {o : Outcome Failure α} :
    Ends (fun _ => x) m o ↔ o ≠ .outOfFuel ∧ x m = o :=
  and_congr_right fun _ => ⟨fun ⟨_, same⟩ => same, fun same => ⟨0, same⟩⟩

theorem ends_pure_iff {a : α} {o : Outcome Failure α} :
    Ends (fun _ => pure a) m o ↔ o = .ok a m := by
  rw [ends_const_iff]
  constructor
  · exact fun h => h.2.symm
  · rintro rfl
    exact ⟨nofun, rfl⟩

theorem follows_of_bind {n : Nat} {o : Outcome Failure β} (answered : o ≠ .outOfFuel)
    (whole : (x n >>= f n) m = o) :
    Follows (Ends x m) (fun a m' p => p ≠ .outOfFuel ∧ f n a m' = p) o := by
  cases first : x n m with
  | ok a m' =>
    rw [bind_of_ok first] at whole
    exact .inl ⟨a, m', ends_of_ok first, answered, whole⟩
  | error e m' =>
    rw [bind_of_error first] at whole
    exact .inr ⟨e, m', ⟨nofun, n, first⟩, whole.symm⟩
  | outOfFuel =>
    rw [bind_of_outOfFuel first] at whole
    exact absurd whole.symm answered

theorem ends_bind_iff {o : Outcome Failure β} (hx : Grows x) (hf : ∀ a, Grows fun n => f n a) :
    Ends (fun n => x n >>= f n) m o ↔
      Follows (Ends x m) (fun a m' => Ends (fun n => f n a) m') o := by
  constructor
  · rintro ⟨answered, n, whole⟩
    exact (follows_of_bind answered whole).mono (fun _ => id) fun a m' _ ⟨answered, there⟩ =>
      ⟨answered, n, there⟩
  · rintro (⟨a, m', first, last⟩ | ⟨e, m', ⟨-, n, failed⟩, rfl⟩)
    · obtain ⟨n, first⟩ := first.eventually hx
      obtain ⟨k, there⟩ := last.eventually (hf a)
      refine ⟨last.1, max n k, ?_⟩
      change (x (max n k) >>= f (max n k)) m = o
      rw [bind_of_ok (first _ (Nat.le_max_left n k)), there _ (Nat.le_max_right n k)]
    · exact ⟨nofun, n, bind_of_error failed⟩

theorem ends_succ_iff {y : Nat → Run α} {o : Outcome Failure α} (zero : x 0 = outOfFuel)
    (succ : ∀ n, x (n + 1) m = y n m) : Ends x m o ↔ Ends y m o := by
  refine and_congr_right fun answered => ⟨?_, fun ⟨n, same⟩ => ⟨n + 1, (succ n).trans same⟩⟩
  rintro ⟨n, same⟩
  cases n with
  | zero =>
    rw [zero] at same
    exact absurd same.symm answered
  | succ n => exact ⟨n, (succ n).symm.trans same⟩

theorem ends_bind_of_ok {y : Run α} {a : α} {m' : Machine} {o : Outcome Failure β}
    (first : y m = .ok a m') : Ends (fun n => y >>= f n) m o ↔ Ends (fun n => f n a) m' o :=
  and_congr_right fun _ => exists_congr fun n => by
    change (y >>= f n) m = o ↔ _
    rw [bind_of_ok first]

end

theorem follows_assoc {α β γ : Type} {first : Outcome Failure α → Prop}
    {second : α → Machine → Outcome Failure β → Prop}
    {third : β → Machine → Outcome Failure γ → Prop} {o : Outcome Failure γ} :
    Follows (Follows first second) third o ↔
      Follows first (fun a m => Follows (second a m) third) o := by
  constructor
  · rintro (⟨b, m', ⟨a, m, here, there⟩ | ⟨_, _, _, ⟨⟩⟩, behind⟩ | ⟨e, m', failed, rfl⟩)
    · exact .inl ⟨a, m, here, .inl ⟨b, m', there, behind⟩⟩
    · rcases failed with ⟨a, m, here, there⟩ | ⟨e, m', failed, ⟨⟩⟩
      · exact .inl ⟨a, m, here, .inr ⟨e, m', there, rfl⟩⟩
      · exact .inr ⟨e, m', failed, rfl⟩
  · rintro (⟨a, m, here, ⟨b, m', there, behind⟩ | ⟨e, m', there, rfl⟩⟩ | ⟨e, m, failed, rfl⟩)
    · exact .inl ⟨b, m', .inl ⟨a, m, here, there⟩, behind⟩
    · exact .inr ⟨e, m', .inl ⟨a, m, here, there⟩, rfl⟩
    · exact .inr ⟨e, m, .inr ⟨e, m, failed, rfl⟩, rfl⟩

theorem follows_ok_iff {α β : Type} {a : α} {m : Machine}
    {behind : α → Machine → Outcome Failure β → Prop} {o : Outcome Failure β} :
    Follows (· = .ok a m) behind o ↔ behind a m o := by
  constructor
  · rintro (⟨_, _, ⟨⟩, there⟩ | ⟨_, _, ⟨⟩, _⟩)
    exact there
  · exact fun there => .inl ⟨a, m, rfl, there⟩

theorem follows_pure_iff {α : Type} {first : Outcome Failure α → Prop} {o : Outcome Failure α}
    (answered : ∀ p, first p → p ≠ .outOfFuel) :
    Follows first (fun a m => (· = .ok a m)) o ↔ first o := by
  constructor
  · rintro (⟨a, m, here, rfl⟩ | ⟨e, m, failed, rfl⟩)
    · exact here
    · exact failed
  · intro here
    cases o with
    | ok a m => exact .inl ⟨a, m, here, rfl⟩
    | error e m => exact .inr ⟨e, m, here, rfl⟩
    | outOfFuel => exact absurd rfl (answered _ here)

theorem grows_eval (t : Tree) : Grows fun n => t.eval n :=
  fun _ _ h => (extends_congruence.related h).eval t

theorem grows_body (last : Value) (ts : List Tree) : Grows fun n => evalBody n last ts :=
  fun _ _ h => (extends_congruence.related h).body last ts

theorem grows_condition (guard : Tree) : Grows fun n => evalCondition n guard :=
  fun _ _ h => (extends_congruence.related h).condition guard

theorem grows_arguments (ts : List Tree) : Grows fun n => evalArguments n ts :=
  fun _ _ h => (extends_congruence.related h).arguments ts

theorem grows_loop (guard body : Tree) (step : Option Tree) (last : Value) :
    Grows fun n => evalLoop n guard body step last :=
  fun _ _ h => (extends_congruence.related h).loop guard body step last

theorem ends_arguments_nil {m : Machine} {o : Outcome Failure (List Value)} :
    Ends (fun n => evalArguments n []) m o ↔ o = .ok [] m :=
  (ends_succ_iff rfl fun _ => rfl).trans ends_pure_iff

theorem ends_arguments_cons {t : Tree} {ts : List Tree} {m : Machine}
    {o : Outcome Failure (List Value)} :
    Ends (fun n => evalArguments n (t :: ts)) m o ↔ Follows (t.Ends m)
      (fun v m' => Follows (Ends (fun n => evalArguments n ts) m')
        fun vs m'' => (· = .ok (v :: vs) m'')) o := by
  let rest (n : Nat) (v : Value) : Run (List Value) := do
    let vs ← evalArguments n ts
    return v :: vs
  refine (ends_succ_iff (y := fun n => t.eval n >>= rest n) rfl fun _ => by
    simp only [evalArguments, rest]).trans ?_
  refine (ends_bind_iff (grows_eval t) fun v =>
    (grows_arguments ts).bind fun vs => .const (pure (v :: vs))).trans ?_
  refine follows_congr (fun _ => .rfl) fun v m' _ => ?_
  refine (ends_bind_iff (grows_arguments ts) fun vs => .const (pure (v :: vs))).trans ?_
  exact follows_congr (fun _ => .rfl) fun vs m'' _ => ends_pure_iff

theorem ends_arguments_concat {t : Tree} {ts : List Tree} {v : Value} {vs : List Value}
    {m m' m'' : Machine} (before : Ends (fun n => evalArguments n ts) m (.ok vs m'))
    (behind : t.Ends m' (.ok v m'')) :
    Ends (fun n => evalArguments n (ts ++ [t])) m (.ok (vs ++ [v]) m'') := by
  induction ts generalizing m vs with
  | nil =>
    cases ends_arguments_nil.mp before
    refine ends_arguments_cons.mpr (.inl ⟨v, m'', behind, ?_⟩)
    exact .inl ⟨[], m'', ends_arguments_nil.mpr rfl, rfl⟩
  | cons u us ih =>
    rcases ends_arguments_cons.mp before with
      ⟨w, m₁, first, ⟨ws, m₂, rest, ⟨⟩⟩ | ⟨_, _, _, ⟨⟩⟩⟩ | ⟨_, _, _, ⟨⟩⟩
    exact ends_arguments_cons.mpr (.inl ⟨w, m₁, first, .inl ⟨_, m'', ih rest, rfl⟩⟩)

section
variable {m : Machine} {o : Outcome Failure Value} {last : Value} {t : Tree} {ts us : List Tree}

theorem ends_body_nil : Ends (fun n => evalBody n last []) m o ↔ o = .ok last m :=
  (ends_succ_iff rfl fun _ => rfl).trans ends_pure_iff

theorem evalBody_of_exiting (exiting : m.exiting = true) (n : Nat) :
    evalBody (n + 1) last ts m = .ok last m := by
  cases ts with
  | nil => rfl
  | cons t ts =>
    simp only [evalBody]
    change (if m.exiting then _ else _ : Run Value) m = _
    rw [if_pos exiting]
    rfl

theorem ends_body_of_exiting (exiting : m.exiting = true) :
    Ends (fun n => evalBody n last ts) m o ↔ o = .ok last m :=
  (ends_succ_iff (y := fun _ => pure last) rfl (evalBody_of_exiting exiting)).trans ends_pure_iff

theorem evalBody_of_running (running : m.exiting = false) (n : Nat) :
    evalBody (n + 1) last (t :: ts) m = (t.eval n >>= fun v => evalBody n v ts) m := by
  simp only [evalBody]
  change (if m.exiting then _ else _ : Run Value) m = _
  rw [running, if_neg Bool.false_ne_true]

theorem ends_body_cons (running : m.exiting = false) :
    Ends (fun n => evalBody n last (t :: ts)) m o ↔
      Follows (t.Ends m) (fun v m' => Ends (fun n => evalBody n v ts) m') o :=
  (ends_succ_iff rfl (evalBody_of_running running)).trans
    (ends_bind_iff (grows_eval t) fun v => grows_body v ts)

theorem ends_body_append :
    Ends (fun n => evalBody n last (ts ++ us)) m o ↔
      Follows (Ends (fun n => evalBody n last ts) m)
        (fun v m' => Ends (fun n => evalBody n v us) m') o := by
  induction ts generalizing last m with
  | nil =>
    rw [List.nil_append, follows_congr (fun _ => ends_body_nil) fun _ _ _ => .rfl, follows_ok_iff]
  | cons t ts ih =>
    cases exiting : m.exiting with
    | true =>
      rw [ends_body_of_exiting exiting,
        follows_congr (fun _ => ends_body_of_exiting exiting) fun _ _ _ => .rfl, follows_ok_iff,
        ends_body_of_exiting exiting]
    | false =>
      rw [List.cons_append, ends_body_cons exiting, follows_congr (fun _ => .rfl) fun _ _ _ => ih,
        ← follows_assoc]
      exact follows_congr (fun _ => (ends_body_cons exiting).symm) fun _ _ _ => .rfl

variable {guard body : Tree} {step : Option Tree}

theorem evalLoop_of_exiting (exiting : m.exiting = true) (n : Nat) :
    evalLoop (n + 1) guard body step last m = .ok last m := by
  simp only [evalLoop]
  change (if m.exiting then _ else _ : Run Value) m = _
  rw [if_pos exiting]
  rfl

theorem ends_loop_of_exiting (exiting : m.exiting = true) :
    Ends (fun n => evalLoop n guard body step last) m o ↔ o = .ok last m :=
  (ends_succ_iff (y := fun _ => pure last) rfl (evalLoop_of_exiting exiting)).trans ends_pure_iff

def behindBody (guard body : Tree) (step : Option Tree) (n : Nat) (v : Value) : Run Value :=
  match step with
  | none => evalLoop n guard body none v
  | some tree => do
    let _ ← tree.eval n
    evalLoop n guard body (some tree) v

def behindGuard (guard body : Tree) (step : Option Tree) (last : Value) (n : Nat) (holds : Bool) :
    Run Value :=
  if holds then body.eval n >>= behindBody guard body step n else return last

theorem evalLoop_of_running (running : m.exiting = false) (n : Nat) :
    evalLoop (n + 1) guard body step last m =
      (evalCondition n guard >>= behindGuard guard body step last n) m := by
  simp only [evalLoop]
  change (if m.exiting then _ else _ : Run Value) m = _
  rw [running, if_neg Bool.false_ne_true]
  cases step <;> rfl

theorem grows_behindBody (v : Value) : Grows fun n => behindBody guard body step n v := by
  cases step with
  | none => exact grows_loop guard body none v
  | some tree => exact (grows_eval tree).bind fun _ => grows_loop guard body (some tree) v

theorem grows_behindGuard (holds : Bool) :
    Grows fun n => behindGuard guard body step last n holds := by
  cases holds with
  | true => exact (grows_eval body).bind grows_behindBody
  | false => exact .const _

theorem ends_behindBody_some {tree : Tree} {v : Value} :
    Ends (fun n => behindBody guard body (some tree) n v) m o ↔
      Follows (tree.Ends m)
        (fun _ m' => Ends (fun n => evalLoop n guard body (some tree) v) m') o :=
  ends_bind_iff (grows_eval tree) fun _ => grows_loop guard body (some tree) v

theorem ends_loop_of_running (running : m.exiting = false) :
    Ends (fun n => evalLoop n guard body step last) m o ↔
      Follows (Ends (fun n => evalCondition n guard) m)
        (fun holds m' =>
          if holds then
            Follows (body.Ends m') fun v m'' => Ends (fun n => behindBody guard body step n v) m''
          else (· = .ok last m')) o := by
  refine (ends_succ_iff rfl (evalLoop_of_running running)).trans
    ((ends_bind_iff (grows_condition guard) grows_behindGuard).trans ?_)
  refine follows_congr (fun _ => .rfl) fun holds m' _ => ?_
  cases holds with
  | false => exact ends_pure_iff
  | true => exact ends_bind_iff (grows_eval body) grows_behindBody

end

def invoke (name : String) (line : Position) (n : Nat) (callee : Value) (values : List Value) :
    Run Value :=
  match callee with
  | .builtin b => do
    checkArity name values.length b.arity line
    ofExcept (b.apply values line)
  | .function defined params body => do
    checkArity defined values.length params.length line
    inCall ⟨defined, line⟩ (.ofList (params.zip values)) (body.eval n)
  | _ => fail (.notCallable name line)

end Run

namespace Tree

open Run

variable {m : Machine} {o : Outcome Failure Value} {line : Position}

theorem Ends.follows_iff {t : Tree} {behind : Value → Machine → Outcome Failure Value → Prop}
    {v : Value} {m' : Machine} (h : t.Ends m (.ok v m')) :
    Follows (t.Ends m) behind o ↔ behind v m' o :=
  Run.Ends.follows_iff (grows_eval t) h

theorem ends_body_iff {ts : List Tree} :
    (body line ts).Ends m o ↔ Run.Ends (fun n => evalBody n .zero ts) m o :=
  ends_succ_iff rfl fun _ => by simp only [eval]

theorem ends_reference_iff {name : String} :
    (reference line name).Ends m o ↔ Run.Ends (fun _ => lookup name line) m o :=
  ends_succ_iff rfl fun _ => by simp only [eval]

theorem ends_binary_iff {op : Kind} {operation : Operation} {lhs rhs : Tree}
    (isOperator : op.operation = some operation) :
    (binary line op lhs rhs).Ends m o ↔
      Follows (lhs.Ends m) (fun a m' => Follows (rhs.Ends m') fun b m'' =>
        Run.Ends (fun _ => ofExcept (a.apply operation m''.mode b line)) m'') o := by
  let applied (a b : Value) : Run Value := do
    ofExcept (a.apply operation (← machine).mode b line)
  have rest (a : Value) : Grows fun n => rhs.eval n >>= applied a :=
    (grows_eval rhs).bind fun b => .const (applied a b)
  refine (ends_succ_iff (y := fun n => lhs.eval n >>= fun a => rhs.eval n >>= applied a) rfl
    fun _ => by simp only [eval, isOperator, applied]).trans ?_
  refine (ends_bind_iff (grows_eval lhs) rest).trans ?_
  refine follows_congr (fun _ => .rfl) fun a m' _ => ?_
  refine (ends_bind_iff (grows_eval rhs) fun b => .const (applied a b)).trans ?_
  exact follows_congr (fun _ => .rfl) fun b m'' _ => .rfl

theorem ends_exit_iff : (exit line).Ends m o ↔ o = .ok .zero { m with exiting := true } := by
  let exits : Run Value := fun m => .ok .zero { m with exiting := true }
  refine (ends_succ_iff (y := fun _ => exits) rfl fun _ => ?_).trans ?_
  · simp only [eval]
    rfl
  · refine ends_const_iff.trans ⟨fun h => h.2.symm, ?_⟩
    rintro rfl
    exact ⟨by simp, rfl⟩

theorem ends_whileLoop_iff {guard body : Tree} :
    (whileLoop line guard body).Ends m o ↔
      Run.Ends (fun n => evalLoop n guard body none .zero) m o :=
  ends_succ_iff rfl fun _ => by simp only [eval]

theorem ends_forLoop_iff {init guard step body : Tree} :
    (forLoop line init guard step body).Ends m o ↔
      Follows (init.Ends m)
        (fun _ m' => Run.Ends (fun n => evalLoop n guard body (some step) .zero) m') o :=
  (ends_succ_iff rfl fun _ => by simp only [eval]).trans
    (ends_bind_iff (grows_eval init) fun _ => grows_loop guard body (some step) .zero)

def branch (positive : Tree) (otherwise : Option Tree) (n : Nat) (holds : Bool) : Run Value :=
  if holds then positive.eval n
  else
    match otherwise with
    | some tree => tree.eval n
    | none => return .zero

theorem grows_branch (positive : Tree) (otherwise : Option Tree) (holds : Bool) :
    Grows fun n => branch positive otherwise n holds := by
  cases holds with
  | true => exact grows_eval positive
  | false =>
    cases otherwise with
    | none => exact .const _
    | some tree => exact grows_eval tree

theorem ends_conditional_iff {guard positive : Tree} {otherwise : Option Tree} :
    (conditional line guard positive otherwise).Ends m o ↔
      Follows (Run.Ends (fun n => evalCondition n guard) m)
        (fun holds m' => Run.Ends (fun n => branch positive otherwise n holds) m') o :=
  (ends_succ_iff rfl fun _ => by simp only [eval]; rfl).trans
    (ends_bind_iff (grows_condition guard) (grows_branch positive otherwise))

end Tree

end Calculator
