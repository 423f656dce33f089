import Calculator.Proofs.Eval.Changing

set_option autoImplicit false

namespace Calculator

open Run

namespace Outcome

variable {ε α β : Type}

def withoutValue : Outcome ε α → Outcome ε Unit
  | .ok _ m => .ok () m
  | .error e m => .error e m
  | .outOfFuel => .outOfFuel

def Matches (o : Outcome ε α) (o' : Outcome ε β) : Prop :=
  o.withoutValue = o'.withoutValue

theorem Matches.of_ok {o : Outcome ε β} {a : α} {m : Machine}
    (h : (Outcome.ok a m : Outcome ε α).Matches o) : ∃ b, o = .ok b m := by
  cases o <;> cases h
  exact ⟨_, rfl⟩

theorem Matches.of_error {o : Outcome ε β} {e : ε} {m : Machine}
    (h : (Outcome.error e m : Outcome ε α).Matches o) : o = .error e m := by
  cases o <;> cases h
  rfl

def MatchedIn (first : Outcome ε α → Prop) (second : Outcome ε β → Prop) : Prop :=
  ∀ o, first o → ∃ o', second o' ∧ o.Matches o'

section
variable {first : Outcome ε α → Prop} {second : Outcome ε β → Prop}

theorem MatchedIn.exists (h : MatchedIn first second) (ended : ∃ o, first o) : ∃ o', second o' := by
  obtain ⟨o, here⟩ := ended
  obtain ⟨o', there, -⟩ := h o here
  exact ⟨o', there⟩

theorem MatchedIn.error (h : MatchedIn first second) {e : ε} {m : Machine}
    (failed : first (.error e m)) : second (.error e m) := by
  obtain ⟨o', there, matching⟩ := h _ failed
  exact matching.of_error ▸ there

theorem MatchedIn.ok (h : MatchedIn first second) {m : Machine} (answered : ∃ a, first (.ok a m)) :
    ∃ b, second (.ok b m) := by
  obtain ⟨a, here⟩ := answered
  obtain ⟨o', there, matching⟩ := h _ here
  obtain ⟨b, rfl⟩ := matching.of_ok
  exact ⟨b, there⟩

end

end Outcome

namespace Run

theorem follows_matches {α β γ : Type} {first : Outcome Failure α → Prop}
    {second : α → Machine → Outcome Failure β → Prop} (g g' : α → β → γ)
    {o : Outcome Failure γ}
    (h : Follows first
      (fun a m => Follows (second a m) fun b m' => (· = .ok (g a b) m')) o) :
    ∃ o' : Outcome Failure γ, Follows first
      (fun a m => Follows (second a m) fun b m' => (· = .ok (g' a b) m')) o' ∧ o.Matches o' := by
  rcases h with ⟨a, m, here, ⟨b, m', there, rfl⟩ | ⟨e, m', failed, rfl⟩⟩ | ⟨e, m, failed, rfl⟩
  · exact ⟨_, .inl ⟨a, m, here, .inl ⟨b, m', there, rfl⟩⟩, rfl⟩
  · exact ⟨_, .inl ⟨a, m, here, .inr ⟨e, m', failed, rfl⟩⟩, rfl⟩
  · exact ⟨_, .inr ⟨e, m, failed, rfl⟩, rfl⟩

/-- How a turn of a loop ends behind its guard. The value is that of the body. -/
def Turn (body : Tree) (step : Option Tree) (m : Machine) : Outcome Failure Value → Prop :=
  match step with
  | none => body.Ends m
  | some tree => Follows (body.Ends m) fun v m' => Follows (tree.Ends m') fun _ m'' =>
      (· = .ok v m'')

section
variable {guard body : Tree} {step : Option Tree} {last : Value} {m : Machine}
  {o : Outcome Failure Value}

theorem follows_turn_iff {rest : Value → Machine → Outcome Failure Value → Prop} :
    Follows (Turn body step m) rest o ↔ Follows (body.Ends m) (fun v m' =>
      match step with
      | none => rest v m'
      | some tree => Follows (tree.Ends m') fun _ m'' => rest v m'') o := by
  cases step with
  | none => exact .rfl
  | some tree =>
    refine follows_assoc.trans (follows_congr (fun _ => .rfl) fun v m' _ => ?_)
    exact follows_assoc.trans (follows_congr (fun _ => .rfl) fun _ m'' _ => follows_ok_iff)

theorem ends_loop_iff_turn (running : m.exiting = false) :
    Ends (fun n => evalLoop n guard body step last) m o ↔
      Follows (Ends (fun n => evalCondition n guard) m)
        (fun holds m' =>
          if holds then
            Follows (Turn body step m') fun v m'' =>
              Ends (fun n => evalLoop n guard body step v) m''
          else (· = .ok last m')) o := by
  refine (ends_loop_of_running running).trans (follows_congr (fun _ => .rfl) fun holds m' _ => ?_)
  cases holds with
  | false => exact .rfl
  | true =>
    refine Iff.trans (follows_congr (fun _ => .rfl) fun v m'' _ => ?_) follows_turn_iff.symm
    cases step with
    | none => exact .rfl
    | some tree => exact ends_behindBody_some

/-- What holds of a loop that is not run after an exit, and of a loop if it holds behind its next
turn, holds of the outcomes of all loops. -/
theorem loop_induction {P : Value → Machine → Outcome Failure Value → Prop}
    (exited : ∀ last m, m.exiting = true → P last m (.ok last m))
    (turn : ∀ last m o, m.exiting = false →
      Follows (Ends (fun n => evalCondition n guard) m)
        (fun holds m' =>
          if holds then Follows (Turn body step m') P else (· = .ok last m')) o → P last m o)
    (ended : Ends (fun n => evalLoop n guard body step last) m o) : P last m o := by
  obtain ⟨answered, n, ran⟩ := ended
  -- The induction is on the fuel, of which each turn leaves less for the next one.
  induction n generalizing last m o with
  | zero => exact absurd ran.symm answered
  | succ n ih =>
    have ran : evalLoop (n + 1) guard body step last m = o := ran
    cases exiting : m.exiting with
    | true =>
      rw [evalLoop_of_exiting exiting] at ran
      exact ran ▸ exited last m exiting
    | false =>
      rw [evalLoop_of_running exiting] at ran
      refine turn last m o exiting ?_
      refine (follows_of_bind answered ran).mono (fun _ => id) ?_
      rintro (_ | _) m' - ⟨answered, ran⟩
      · exact ran.symm
      · refine follows_turn_iff.mpr ((follows_of_bind answered ran).mono (fun _ => id) ?_)
        rintro v m'' - ⟨answered, ran⟩
        cases step with
        | none => exact ih answered ran
        | some tree =>
          have ran : (tree.eval n >>= fun _ => evalLoop n guard body (some tree) v) m'' = o := ran
          refine (follows_of_bind (f := fun n _ => evalLoop n guard body (some tree) v) answered
            ran).mono (fun _ => id) ?_
          exact fun _ m''' _ ⟨answered, ran⟩ => ih answered ran

end

theorem ends_loop_matches {guard body body' : Tree} {step step' : Option Tree} {Q : Machine → Prop}
    (running : ∀ m, Q m → m.exiting = false)
    (turns : ∀ m m' o, Q m → Ends (fun n => evalCondition n guard) m (.ok true m') →
      Turn body step m' o →
        (∃ o', Turn body' step' m' o' ∧ o.Matches o') ∧ ∀ v m'', o = .ok v m'' → Q m'')
    {last : Value} {m : Machine} {o : Outcome Failure Value} (start : Q m)
    (ended : Ends (fun n => evalLoop n guard body step last) m o) (last' : Value) :
    ∃ o', Ends (fun n => evalLoop n guard body' step' last') m o' ∧ o.Matches o' := by
  -- The values before the turns are not related, so the other one is arbitrary at every turn.
  revert last' start
  refine loop_induction (P := fun _ m o => Q m → ∀ last',
    ∃ o', Ends (fun n => evalLoop n guard body' step' last') m o' ∧ o.Matches o') ?_ ?_ ended
  · intro last m exiting start
    cases exiting.symm.trans (running m start)
  · intro last m o exiting whole start last'
    rcases whole with ⟨holds, m', here, rest⟩ | ⟨e, m', failed, rfl⟩
    · cases holds with
      | false =>
        obtain rfl : o = .ok last m' := rest
        exact ⟨.ok last' m', (ends_loop_iff_turn exiting).mpr (.inl ⟨false, m', here, rfl⟩), rfl⟩
      | true =>
        rcases rest with ⟨v, m'', turn, behind⟩ | ⟨e, m'', turn, rfl⟩
        · obtain ⟨⟨p, turn', matching⟩, kept⟩ := turns m m' _ start here turn
          obtain ⟨w, rfl⟩ := matching.of_ok
          obtain ⟨o', ended', same⟩ := behind (kept v m'' rfl) w
          refine ⟨o', (ends_loop_iff_turn exiting).mpr (.inl ⟨true, m', here, ?_⟩), same⟩
          exact .inl ⟨w, m'', turn', ended'⟩
        · obtain ⟨⟨p, turn', matching⟩, -⟩ := turns m m' _ start here turn
          obtain rfl := matching.of_error
          refine ⟨_, (ends_loop_iff_turn exiting).mpr (.inl ⟨true, m', here, ?_⟩), rfl⟩
          exact .inr ⟨e, m'', turn', rfl⟩
    · exact ⟨_, (ends_loop_iff_turn exiting).mpr (.inr ⟨e, m', failed, rfl⟩), rfl⟩

end Run

/-- The run of the part comes to an exit statement. -/
def Part.Quits (part : Part) (m : Machine) : Prop :=
  ∃ calls line mₑ, part.ComesTo m calls (.tree (.exit line)) mₑ

theorem limits_exiting :
    Limits (fun t => ∀ line, t ≠ .exit line) fun m m' => m'.exiting = m.exiting where
  refl _ := rfl
  trans _ _ _ first second := second.trans first
  pop _ _ := id
  step _ _ _ _ _ _ _ _ _ _ _ := rfl
  declare _ _ _ _ _ _ := rfl
  assign _ _ _ _ _ _ _ _ _ := rfl
  define _ _ _ _ _ _ := rfl
  output _ _ _ := rfl
  setMode _ _ := rfl
  toggle _ _ := rfl
  exit line _ other := absurd rfl (other line)

namespace Part

variable {part part' : Part} {t : Tree} {ts us : List Tree} {m m' : Machine} {outer : List Tree}
  {v w : Value}

structure Runs (part : Part) (m : Machine) : Prop where
  running : m.exiting = false
  only : part.Only (fun t => ∀ line, t ≠ .exit line) m

theorem Runs.of_not_quits (running : m.exiting = false) (noExit : ¬part.Quits m) :
    part.Runs m :=
  ⟨running, fun calls _ mₑ comes line same => noExit ⟨calls, line, mₑ, same ▸ comes⟩⟩

theorem Runs.next (h : part.Runs m) (step : part.Next m part' m' outer) : part'.Runs m' :=
  ⟨(limits_exiting.comesNext h.only step).trans h.running, h.only.next step⟩

theorem Runs.ended (h : part.Runs m) (ended : part.Ends v m (.ok w m')) : m'.exiting = false :=
  (limits_exiting.ends h.only ended).trans h.running

theorem Runs.append (h : (row (ts ++ us)).Runs m)
    (ended : Run.Ends (fun n => evalBody n v ts) m (.ok w m')) : (row us).Runs m' := by
  induction ts generalizing v m with
  | nil =>
    cases ends_body_nil.mp ended
    exact h
  | cons t ts ih =>
    rcases (ends_body_cons h.running).mp ended with ⟨_, m₁, first, rest⟩ | ⟨_, _, _, ⟨⟩⟩
    exact ih (h.next (.rest h.running first)) rest

end Part

namespace Run

variable {guard step : Tree} {ts : List Tree} {line : Position} {Q : Machine → Prop}
  {m m' : Machine} {o : Outcome Failure Value}

def Round (ts : List Tree) (step : Tree) (g : Value → Value → Value) (m : Machine) :
    Outcome Failure Value → Prop :=
  Follows (Ends (fun n => evalBody n .zero ts) m) fun v m' => Follows (step.Ends m') fun w m'' =>
    (· = .ok (g v w) m'')

/-- On such a machine before a turn no exit keeps the step from being evaluated behind the
statements, and behind it the machine is such a one again. -/
structure Steady (guard step : Tree) (ts : List Tree) (Q : Machine → Prop) : Prop where
  running : ∀ m, Q m → m.exiting = false
  round : ∀ m m' v m'', Q m → Ends (fun n => evalCondition n guard) m (.ok true m') →
    Ends (fun n => evalBody n .zero ts) m' (.ok v m'') →
      m''.exiting = false ∧ ∀ w m''', step.Ends m'' (.ok w m''') → Q m'''

theorem turn_iff_round :
    Turn (.body line ts) (some step) m o ↔ Round ts step (fun v _ => v) m o :=
  follows_congr (fun _ => Tree.ends_body_iff) fun _ _ _ => .rfl

theorem Steady.turn_iff_round (steady : Steady guard step ts Q) (start : Q m)
    (holds : Ends (fun n => evalCondition n guard) m (.ok true m')) :
    Turn (.body line (ts ++ [step])) none m' o ↔ Round ts step (fun _ w => w) m' o := by
  refine Tree.ends_body_iff.trans (ends_body_append.trans ?_)
  refine follows_congr (fun _ => .rfl) fun v m'' ended => ?_
  refine (ends_body_cons (steady.round m m' v m'' start holds ended).1).trans ?_
  exact follows_congr (fun _ => .rfl) fun w m''' _ => ends_body_nil

theorem Steady.matches (steady : Steady guard step ts Q) (start : Q m)
    (holds : Ends (fun n => evalCondition n guard) m (.ok true m')) {g : Value → Value → Value}
    (g' : Value → Value → Value) (round : Round ts step g m' o) :
    (∃ o', Round ts step g' m' o' ∧ o.Matches o') ∧ ∀ v m'', o = .ok v m'' → Q m'' := by
  refine ⟨follows_matches g g' round, ?_⟩
  rintro v m₃ rfl
  rcases round with ⟨w, m₂, ended, ⟨u, m₃, stepped, ⟨⟩⟩ | ⟨_, _, _, ⟨⟩⟩⟩ | ⟨_, _, _, ⟨⟩⟩
  exact (steady.round m m' w m₂ start holds ended).2 u m₃ stepped

/-- Turns of a loop with a step one after the other, with the values of the body. -/
inductive Turns (guard body step : Tree) : Machine → List Value → Machine → Prop where
  | none {m : Machine} : Turns guard body step m [] m
  | turn {m m₁ m₂ m₃ m' : Machine} {v w : Value} {vs : List Value}
      (holds : Ends (fun n => evalCondition n guard) m (.ok true m₁))
      (ran : body.Ends m₁ (.ok v m₂)) (stepped : step.Ends m₂ (.ok w m₃))
      (behind : Turns guard body step m₃ vs m') : Turns guard body step m (v :: vs) m'

variable (steady : Steady guard step ts Q) {line' : Position} {last : Value}

include steady

theorem Steady.whileLoop_matches (start : Q m)
    (ended : Ends (fun n => evalLoop n guard (.body line ts) (some step) last) m o)
    (last' : Value) : ∃ o',
      Ends (fun n => evalLoop n guard (.body line' (ts ++ [step])) none last') m o' ∧
        o.Matches o' := by
  refine ends_loop_matches steady.running (fun m m' o start holds turn => ?_) start ended last'
  simp only [steady.turn_iff_round start holds]
  exact steady.matches start holds _ (Run.turn_iff_round.mp turn)

theorem Steady.forLoop_matches (start : Q m)
    (ended : Ends (fun n => evalLoop n guard (.body line' (ts ++ [step])) none last) m o)
    (last' : Value) : ∃ o',
      Ends (fun n => evalLoop n guard (.body line ts) (some step) last') m o' ∧ o.Matches o' := by
  refine ends_loop_matches steady.running (fun m m' o start holds turn => ?_) start ended last'
  simp only [Run.turn_iff_round]
  exact steady.matches start holds _ ((steady.turn_iff_round start holds).mp turn)

theorem Steady.turns {v : Value} (start : Q m)
    (ended : Ends (fun n => evalLoop n guard (.body line ts) (some step) last) m (.ok v m')) :
    ∃ vs m₁, Turns guard (.body line ts) step m vs m₁ ∧
      Ends (fun n => evalCondition n guard) m₁ (.ok false m') ∧ v = vs.getLast?.getD last := by
  generalize same : (Outcome.ok v m' : Outcome Failure Value) = o at ended
  revert start same
  refine loop_induction (P := fun last m o => Q m → .ok v m' = o →
    ∃ vs m₁, Turns guard (.body line ts) step m vs m₁ ∧
      Ends (fun n => evalCondition n guard) m₁ (.ok false m') ∧ v = vs.getLast?.getD last) ?_ ?_
    ended
  · intro last m exiting start
    cases exiting.symm.trans (steady.running m start)
  · rintro last m _ - whole start rfl
    rcases whole with ⟨holds, m₁, here, rest⟩ | ⟨_, _, _, ⟨⟩⟩
    cases holds with
    | false =>
      cases rest
      exact ⟨[], m, .none, here, rfl⟩
    | true =>
      rcases rest with ⟨w, m₃, turn, behind⟩ | ⟨_, _, _, ⟨⟩⟩
      obtain ⟨-, kept⟩ := steady.matches start here (fun v _ => v) (Run.turn_iff_round.mp turn)
      obtain ⟨vs, m₄, turns, stops, value⟩ := behind (kept w m₃ rfl) rfl
      rcases turn with ⟨u, m₂, ran, ⟨_, m₃, stepped, ⟨⟩⟩ | ⟨_, _, _, ⟨⟩⟩⟩ | ⟨_, _, _, ⟨⟩⟩
      refine ⟨w :: vs, m₄, .turn here ran stepped turns, stops, ?_⟩
      rw [value, List.getLast?_cons, Option.getD_some]

end Run

namespace Part.Runs

variable {guard step : Tree} {ts : List Tree} {line : Position}

theorem steady_forLoop :
    Steady guard step ts (loop guard (.body line ts) (some step)).Runs where
  running _ := Runs.running
  round m m' v m'' start holds ended := by
    have body : (Tree.body line ts).Ends m' (.ok v m'') := Tree.ends_body_iff.mpr ended
    refine ⟨(start.next (.turn start.running holds)).ended (v := .zero) body, ?_⟩
    exact fun w m''' stepped => start.next (.stepped start.running holds body stepped)

theorem steady_whileLoop :
    Steady guard step ts (loop guard (.body line (ts ++ [step])) none).Runs where
  running _ := Runs.running
  round m m' v m'' start holds ended := by
    have row : (row (ts ++ [step])).Runs m' := (start.next (.turn start.running holds)).next .body
    have clear := (row.append ended).running
    refine ⟨clear, fun w m''' stepped => ?_⟩
    have last : Run.Ends (fun n => evalBody n v [step]) m'' (.ok w m''') :=
      (ends_body_cons clear).mpr (.inl ⟨w, m''', stepped, ends_body_nil.mpr rfl⟩)
    have body : (Tree.body line (ts ++ [step])).Ends m' (.ok w m''') :=
      Tree.ends_body_iff.mpr (ends_body_append.mpr (.inl ⟨v, m'', ended, last⟩))
    exact start.next (.again start.running holds body)

end Part.Runs

namespace Tree

variable {init guard step : Tree} {ts : List Tree} {line₁ line₂ line₃ line₄ line : Position}
  {m : Machine} {o : Outcome Failure Value}

/-- A `for` loop written with `while`: the step is the last statement of the body. -/
def whileForm (line₂ line₃ line₄ : Position) (init guard step : Tree) (ts : List Tree) : Tree :=
  body line₂ [init, whileLoop line₃ guard (body line₄ (ts ++ [step]))]

theorem ends_whileForm_iff (running : m.exiting = false)
    (clear : ∀ v m', init.Ends m (.ok v m') → m'.exiting = false) :
    (whileForm line₂ line₃ line₄ init guard step ts).Ends m o ↔ Follows (init.Ends m) (fun _ m' =>
      Run.Ends (fun n => evalLoop n guard (body line₄ (ts ++ [step])) none .zero) m') o := by
  refine ends_body_iff.trans ((ends_body_cons running).trans ?_)
  refine follows_congr (fun _ => .rfl) fun v m' ended => ?_
  refine (ends_body_cons (clear v m' ended)).trans ?_
  let loop : Tree := whileLoop line₃ guard (body line₄ (ts ++ [step]))
  have last : Follows (loop.Ends m') (fun w m'' => Run.Ends (fun n => evalBody n w []) m'') o ↔
      Follows (loop.Ends m') (fun w m'' => (· = .ok w m'')) o :=
    follows_congr (fun _ => .rfl) fun _ _ _ => ends_body_nil
  exact last.trans ((follows_pure_iff fun _ ended => ended.1).trans ends_whileLoop_iff)

theorem steady_of_not_quits (running : m.exiting = false)
    (noExit : ¬(Part.tree (forLoop line init guard step (body line₁ ts))).Quits m ∨
      ¬(Part.tree (whileForm line₂ line₃ line₄ init guard step ts)).Quits m)
    {v : Value} {m' : Machine} (ended : init.Ends m (.ok v m')) :
    m'.exiting = false ∧ ∃ Q, Steady guard step ts Q ∧ Q m' := by
  rcases noExit with noExit | noExit
  · have whole := Part.Runs.of_not_quits running noExit
    have start := whole.next (.forLoop ended)
    exact ⟨start.running, _, Part.Runs.steady_forLoop, start⟩
  · have row := (Part.Runs.of_not_quits running noExit).next .body
    have rest := row.next (.rest running ended)
    have start := (rest.next (.statement rest.running)).next .whileLoop
    exact ⟨start.running, _, Part.Runs.steady_whileLoop, start⟩

/-- Without an exit on the way a `for` loop and the same loop written with `while` both end or
both do not, with the same failure or both with a value, and leave the same machine. The value of
the `for` loop is that of its body in the last turn, and zero if there was none. -/
theorem forLoop_ends_like_whileLoop (init guard step : Tree) (ts : List Tree)
    (line₁ line₂ line₃ line₄ line : Position) (m : Machine) (running : m.exiting = false)
    (noExit : ¬(Part.tree (forLoop line init guard step (body line₁ ts))).Quits m ∨
      ¬(Part.tree (whileForm line₂ line₃ line₄ init guard step ts)).Quits m) :
    ((∃ o, (forLoop line init guard step (body line₁ ts)).Ends m o) ↔
        ∃ o, (whileForm line₂ line₃ line₄ init guard step ts).Ends m o) ∧
      (∀ f m', (forLoop line init guard step (body line₁ ts)).Ends m (.error f m') ↔
        (whileForm line₂ line₃ line₄ init guard step ts).Ends m (.error f m')) ∧
      (∀ m', (∃ v, (forLoop line init guard step (body line₁ ts)).Ends m (.ok v m')) ↔
        ∃ v, (whileForm line₂ line₃ line₄ init guard step ts).Ends m (.ok v m')) ∧
      ∀ v m', (forLoop line init guard step (body line₁ ts)).Ends m (.ok v m') →
        ∃ u m₀ vs m₁, init.Ends m (.ok u m₀) ∧ Turns guard (body line₁ ts) step m₀ vs m₁ ∧
          Run.Ends (fun n => evalCondition n guard) m₁ (.ok false m') ∧
          v = vs.getLast?.getD (.int 0 .dec) := by
  have steady {v : Value} {m' : Machine} (ended : init.Ends m (.ok v m')) :=
    steady_of_not_quits running noExit ended
  have clear (v : Value) (m' : Machine) (ended : init.Ends m (.ok v m')) : m'.exiting = false :=
    (steady ended).1
  have there : Outcome.MatchedIn ((forLoop line init guard step (body line₁ ts)).Ends m)
      ((whileForm line₂ line₃ line₄ init guard step ts).Ends m) := fun o ended => by
    rcases ends_forLoop_iff.mp ended with ⟨v, m', first, turns⟩ | ⟨f, m', failed, rfl⟩
    · obtain ⟨-, Q, steady, start⟩ := steady first
      obtain ⟨o', turns', matching⟩ := steady.whileLoop_matches start turns .zero
      exact ⟨o', (ends_whileForm_iff running clear).mpr (.inl ⟨v, m', first, turns'⟩), matching⟩
    · exact ⟨_, (ends_whileForm_iff running clear).mpr (.inr ⟨f, m', failed, rfl⟩), rfl⟩
  have back : Outcome.MatchedIn ((whileForm line₂ line₃ line₄ init guard step ts).Ends m)
      ((forLoop line init guard step (body line₁ ts)).Ends m) := fun o ended => by
    rcases (ends_whileForm_iff running clear).mp ended with
      ⟨v, m', first, turns⟩ | ⟨f, m', failed, rfl⟩
    · obtain ⟨-, Q, steady, start⟩ := steady first
      obtain ⟨o', turns', matching⟩ := steady.forLoop_matches start turns .zero
      exact ⟨o', ends_forLoop_iff.mpr (.inl ⟨v, m', first, turns'⟩), matching⟩
    · exact ⟨_, ends_forLoop_iff.mpr (.inr ⟨f, m', failed, rfl⟩), rfl⟩
  refine ⟨⟨there.exists, back.exists⟩, fun f m' => ⟨there.error, back.error⟩,
    fun m' => ⟨there.ok, back.ok⟩, fun v m' ended => ?_⟩
  · rcases ends_forLoop_iff.mp ended with ⟨u, m₀, first, turns⟩ | ⟨_, _, _, ⟨⟩⟩
    obtain ⟨-, Q, steady, start⟩ := steady first
    obtain ⟨vs, m₁, taken, stops, value⟩ := steady.turns start turns
    exact ⟨u, m₀, vs, m₁, first, taken, stops, value⟩

/-- The loop over `i = 0; i < 3; ++i` with the statement `s = i * i`. -/
def squares (loop : Tree → Tree → Tree → List Tree → Tree) : Tree :=
  let i : Tree := .reference 1 "i"
  loop (.assign 1 .equal "i" (.constant 1 (.int 0 .dec)))
    (.binary 1 .less i (.constant 1 (.int 3 .dec))) (.unary 1 .plusPlus i)
    [.assign 1 .equal "s" (.binary 1 .star i i)]

def yields (t : Tree) (n : Int) : Bool :=
  match t.eval 20 (.initial .rational false .accepting) with
  | .ok (.int i .dec) _ => i = n
  | _ => false

/-- The value is the square of two, and both leave the same variables. -/
theorem forLoop_ends_like_whileLoop_squares : ∃ m',
    (squares fun init guard step ts => forLoop 1 init guard step (body 1 ts)).Ends
      (.initial .rational false .accepting) (.ok (.int 4 .dec) m') ∧
    ∃ v, (squares (whileForm 1 1 1)).Ends (.initial .rational false .accepting) (.ok v m') := by
  have noExit : ¬(Part.tree (squares fun init guard step ts =>
      forLoop 1 init guard step (body 1 ts))).Quits (.initial .rational false .accepting) := by
    rintro ⟨calls, line, mₑ, comes⟩
    have only := comes.all (P := fun t => t.isCall = false ∧ ∀ line, t ≠ .exit line)
      (fun _ => And.left) (by
        simp [Part.All, Tree.All, squares, nodes, treeNodes, isCall])
    exact only.root.2 line rfl
  have four : yields (squares fun init guard step ts => forLoop 1 init guard step (body 1 ts)) 4 =
      true := by
    decide +kernel
  unfold yields at four
  split at four
  · rename_i i m' ran
    obtain rfl : i = 4 := of_decide_eq_true four
    have ended := ends_of_ok (x := fun n => Tree.eval n _) ran
    obtain ⟨-, -, same, -⟩ := forLoop_ends_like_whileLoop _ _ _ _ 1 1 1 1 1 _ rfl (.inl noExit)
    exact ⟨m', ended, (same _).mp ⟨_, ended⟩⟩
  · cases four

end Tree

end Calculator
