import Calculator.Proofs.Eval.Part
import Calculator.Proofs.Tree.Yield
import Calculator.Session
import Mathlib

set_option autoImplicit false

namespace Calculator

open Run

namespace Part

/-- The run of a part comes to an exit statement outside of all calls. The machine on the right is
the one on which that statement is evaluated, and the trees are those that are left to be evaluated
then, the first one first. -/
inductive Exits : Part → Machine → Machine → List Tree → Prop where
  | here {line : Position} {m : Machine} : Exits (tree (.exit line)) m m []
  | next {part part' : Part} {m m' mₑ : Machine} {inner outer : List Tree}
      (step : part.Next m part' m' outer) (behind : Exits part' m' mₑ inner) :
      Exits part m mₑ (inner ++ outer)

/-- Expressions stand in place in all that is left. -/
def InPlace : Part → Prop
  | tree t => t.All Tree.InPlace
  | row ts => ∀ t ∈ ts, t.All Tree.InPlace
  | loop guard body step => guard.IsFormula ∧ body.All Tree.InPlace ∧ ∀ t ∈ step, t.IsFormula

section
variable {part part' : Part} {t : Tree} {m m' mₑ : Machine} {steps : List Tree}

theorem Evaluates.isFormula (h : part.Evaluates m t m') (placed : part.InPlace) : t.IsFormula := by
  cases h with
  | operand | lhs | rhs | value | change =>
    have whole := placed.root
    cases whole
    assumption
  | argument =>
    have whole := placed.root
    cases whole with
    | call each => exact each _ (List.mem_append_right _ (List.mem_cons_self ..))
  | init => exact placed.root.1
  | condition | shown => exact placed.root
  | guard => exact placed.1
  | step => exact placed.2.2 _ rfl

theorem not_exits_of_isFormula (h : (tree t).Exits m mₑ steps) : ¬t.IsFormula := by
  generalize e : tree t = part at h
  intro formula
  induction h generalizing t with
  | here =>
    cases e
    cases formula
  | next step _ ih =>
    subst e
    cases step with
    | expression here => exact ih rfl (here.isFormula fun s mem => (formula.nested s mem).2.2)
    | body | positive | otherwise | whileLoop | forLoop => cases formula

theorem Next.inPlace {outer : List Tree} (h : part.Next m part' m' outer) (placed : part.InPlace) :
    part'.InPlace := by
  cases h with
  | expression here => exact fun s mem => ((here.isFormula placed).nested s mem).2.2
  | body => exact (Tree.all_body.mp placed).2
  | statement => exact placed _ (List.mem_cons_self ..)
  | rest => exact fun s mem => placed s (List.mem_cons_of_mem _ mem)
  | positive => exact (Tree.all_conditional.mp placed).2.2.1
  | otherwise => exact (Tree.all_conditional.mp placed).2.2.2 _ rfl
  | whileLoop =>
    obtain ⟨guard, -, body⟩ := Tree.all_whileLoop.mp placed
    exact ⟨guard, body, nofun⟩
  | forLoop =>
    obtain ⟨⟨-, guard, step⟩, -, -, -, body⟩ := Tree.all_forLoop.mp placed
    exact ⟨guard, body, by rintro _ ⟨⟩; exact step⟩
  | turn => exact placed.2.1
  | again | stepped => exact placed

end

end Part

/-- Evaluates trees one after the other for their effects only. -/
def Run.all (n : Nat) : List Tree → Run Value
  | [] => return .zero
  | t :: ts => do
    let _ ← t.eval n
    Run.all n ts

namespace Run

theorem grows_all (ts : List Tree) : Grows fun n => all n ts := by
  induction ts with
  | nil => exact .const _
  | cons t ts ih => exact (grows_eval t).bind fun _ => ih

theorem ends_all_nil {m : Machine} {o : Outcome Failure Value} :
    Ends (fun n => all n []) m o ↔ o = .ok .zero m :=
  ends_pure_iff

theorem ends_all_cons {t : Tree} {ts : List Tree} {m : Machine} {o : Outcome Failure Value} :
    Ends (fun n => all n (t :: ts)) m o ↔
      Follows (t.Ends m) (fun _ m' => Ends (fun n => all n ts) m') o :=
  ends_bind_iff (grows_eval t) fun _ => grows_all ts

theorem ends_all_append {ts us : List Tree} {m : Machine} {o : Outcome Failure Value} :
    Ends (fun n => all n (ts ++ us)) m o ↔
      Follows (Ends (fun n => all n ts) m) (fun _ m' => Ends (fun n => all n us) m') o := by
  induction ts generalizing m with
  | nil =>
    rw [List.nil_append, follows_congr (fun _ => ends_all_nil) fun _ _ _ => .rfl, follows_ok_iff]
  | cons t ts ih =>
    rw [List.cons_append, ends_all_cons, follows_congr (fun _ => .rfl) fun _ _ _ => ih,
      ← follows_assoc]
    exact follows_congr (fun _ => ends_all_cons.symm) fun _ _ _ => .rfl

def KeepsExit {α : Type} (x _ : Run α) : Prop :=
  ∀ m a m', m.exiting = true → x m = .ok a m' → m'.exiting = true

theorem keepsExit_congruence : Congruence @KeepsExit where
  outOfFuel _ := nofun
  pure _ := by rintro m _ _ exiting ⟨⟩; exact exiting
  bind {_ _ x _ f _} hx hf := by
    intro m b m'' exiting whole
    cases first : x m with
    | ok a m' =>
      rw [bind_of_ok first] at whole
      exact hf a m' b m'' (hx m a m' exiting first) whole
    | error e m' =>
      rw [bind_of_error first] at whole
      cases whole
    | outOfFuel =>
      rw [bind_of_outOfFuel first] at whole
      cases whole
  ofExcept x := by
    intro m a m' exiting ended
    cases x <;> cases ended
    exact exiting
  mode _ h m := h m.mode m
  programmer _ h m := h m.programmer m
  exiting hx _ m a m' exiting ended := by
    change (if m.exiting then _ else _ : Run _) m = _ at ended
    rw [if_pos exiting] at ended
    exact hx m a m' exiting ended
  setMode _ := by rintro m _ _ exiting ⟨⟩; exact exiting
  toggle := by rintro m _ _ exiting ⟨⟩; exact exiting
  exit := by rintro m _ _ exiting ⟨⟩; rfl
  lookup name line := by
    intro m a m' exiting ended
    unfold Run.lookup at ended
    split at ended <;> cases ended
    exact exiting
  declare name := by rintro m _ _ exiting ⟨⟩; exact exiting
  assign name v line := by
    intro m a m' exiting ended
    unfold Run.assign at ended
    split at ended <;> cases ended
    exact exiting
  bindGlobal name v := by rintro m _ _ exiting ⟨⟩; exact exiting
  display v := by
    intro m a m' exiting ended
    obtain ⟨w, shown⟩ | ⟨w, reason, refused⟩ := display_cases v m
    · cases shown.symm.trans ended
      exact exiting
    · cases refused.symm.trans ended
  inCall entry frame x _ h := by
    intro m a m' exiting ended
    unfold Run.inCall at ended
    cases inside : x { m with stack := m.stack.push frame } with
    | ok v m'' =>
      rw [inside] at ended
      cases ended
      exact h { m with stack := m.stack.push frame } a m'' exiting inside
    | error | outOfFuel =>
      rw [inside] at ended
      cases ended

theorem exiting_of_ends_all {ts : List Tree} {m m' : Machine} {v : Value}
    (exiting : m.exiting = true) (h : Ends (fun n => all n ts) m (.ok v m')) :
    v = .zero ∧ m'.exiting = true := by
  induction ts generalizing m with
  | nil =>
    cases ends_all_nil.mp h
    exact ⟨rfl, exiting⟩
  | cons t ts ih =>
    rcases ends_all_cons.mp h with ⟨w, m'', ⟨-, n, first⟩, rest⟩ | ⟨_, _, _, ⟨⟩⟩
    exact ih (keepsExit_congruence.eval (Nat.le_refl n) t m w m'' exiting first) rest

end Run

namespace Part

variable {part part' : Part} {m m' mₑ : Machine} {inner outer steps : List Tree}

/-- From the machine of an exit on, the part only evaluates the steps. -/
def Stops (part : Part) (m mₑ : Machine) (steps : List Tree) : Prop :=
  ∀ last o, part.Ends last m o ↔
    Run.Ends (fun n => Run.all n steps) { mₑ with exiting := true } o

theorem Stops.follows {t : Tree} (h : (tree t).Stops m mₑ steps)
    {behind behind' : Value → Machine → Outcome Failure Value → Prop} {o : Outcome Failure Value}
    (same : ∀ m', m'.exiting = true → (behind .zero m' o ↔ behind' .zero m' o)) :
    Follows (t.Ends m) behind o ↔
      Follows (Run.Ends (fun n => Run.all n steps) { mₑ with exiting := true }) behind' o := by
  refine follows_congr (h .zero) fun v m' ended => ?_
  obtain ⟨rfl, exiting⟩ := exiting_of_ends_all rfl ((h .zero _).mp ended)
  exact same m' exiting

theorem ends_behindBody_of_exiting {guard body : Tree} {step : Option Tree}
    {o : Outcome Failure Value} (exiting : m.exiting = true) :
    Run.Ends (fun n => behindBody guard body step n .zero) m o ↔
      Run.Ends (fun n => Run.all n step.toList) m o := by
  cases step with
  | none => exact (ends_loop_of_exiting exiting).trans ends_all_nil.symm
  | some tree =>
    refine ends_behindBody_some.trans (Iff.trans ?_ ends_all_cons.symm)
    refine follows_congr (fun _ => .rfl) fun v m' stepped => ?_
    obtain ⟨-, n, stepped⟩ := stepped
    -- The step can not take the request back, so there is no further turn.
    have still := keepsExit_congruence.eval (Nat.le_refl n) tree m v m' exiting stepped
    rw [ends_loop_of_exiting still, ends_all_nil]

/-- One step of a run up to an exit: what stops the other part stops this one, with the step of a
loop left to do if the other part is its body. -/
theorem Next.stops (step : part.Next m part' m' outer) (placed : part.InPlace)
    (behind : part'.Exits m' mₑ inner) (h : part'.Stops m' mₑ inner) :
    part.Stops m mₑ (inner ++ outer) := by
  intro last o
  cases step with
  | expression here => exact absurd (here.isFormula placed) (not_exits_of_isFormula behind)
  | body =>
    rw [List.append_nil]
    exact Tree.ends_body_iff.trans (h .zero o)
  | statement running =>
    rw [ends_all_append]
    refine (ends_body_cons running).trans (h.follows fun m' exiting => ?_)
    exact (ends_body_of_exiting exiting).trans ends_all_nil.symm
  | rest running first =>
    rw [List.append_nil]
    exact (ends_body_cons running).trans ((first.follows_iff).trans (h _ o))
  | positive holds =>
    rw [List.append_nil]
    exact Tree.ends_conditional_iff.trans
      ((holds.follows_iff (grows_condition _)).trans (h .zero o))
  | otherwise fails =>
    rw [List.append_nil]
    exact Tree.ends_conditional_iff.trans
      ((fails.follows_iff (grows_condition _)).trans (h .zero o))
  | whileLoop =>
    rw [List.append_nil]
    exact Tree.ends_whileLoop_iff.trans (h .zero o)
  | forLoop first =>
    rw [List.append_nil]
    exact Tree.ends_forLoop_iff.trans ((first.follows_iff).trans (h .zero o))
  -- The body of a loop stops, and the step behind it is still evaluated.
  | turn running holds =>
    rw [ends_all_append]
    refine (ends_loop_of_running running).trans ((holds.follows_iff (grows_condition _)).trans ?_)
    exact h.follows fun m' exiting => ends_behindBody_of_exiting exiting
  | again running holds turn =>
    rw [List.append_nil]
    refine (ends_loop_of_running running).trans ((holds.follows_iff (grows_condition _)).trans ?_)
    exact (turn.follows_iff).trans (h _ o)
  | stepped running holds turn stepped =>
    rw [List.append_nil]
    refine (ends_loop_of_running running).trans ((holds.follows_iff (grows_condition _)).trans ?_)
    refine (turn.follows_iff).trans (ends_behindBody_some.trans ?_)
    exact (stepped.follows_iff).trans (h _ o)

theorem Exits.stops (h : part.Exits m mₑ steps) (placed : part.InPlace) :
    part.Stops m mₑ steps := by
  induction h with
  | here =>
    intro last o
    exact Tree.ends_exit_iff.trans ends_all_nil.symm
  | next step behind ih => exact step.stops placed behind (ih (step.inPlace placed))

end Part

namespace Tree

/-- A statement `exit` that is evaluated outside of all calls ends the program: it answers zero, and
on the machine on which the statement was evaluated nothing changes any more, if that statement is
not in a `for` loop. Otherwise the steps of all these loops are evaluated once more, and the program
ends as they do. -/
theorem ends_of_exits {source : Utf8.Source} {mode : NumericMode} {t : Tree}
    (read : parse source mode = .ok t) {m mₑ : Machine} {steps : List Tree}
    (exits : (Part.tree t).Exits { m with exiting := false } mₑ steps) :
    (steps = [] → ∃ least, ∀ fuel, least ≤ fuel →
        m.execute fuel t = .ok .zero { mₑ with exiting := true }) ∧
      ∀ o, t.Ends { m with exiting := false } o ↔
        Run.Ends (fun n => Run.all n steps) { mₑ with exiting := true } o := by
  have placed : (Part.tree t).InPlace := by
    obtain ⟨line, ts, rfl, top⟩ := topLevel_of_stream read
    exact all_body.mpr ⟨trivial, fun s mem => (top s mem).inPlace⟩
  have stops := exits.stops placed .zero
  refine ⟨?_, stops⟩
  rintro rfl
  have ended := (stops (.ok .zero { mₑ with exiting := true })).mpr (ends_all_nil.mpr rfl)
  obtain ⟨least, same⟩ := Run.Ends.eventually (grows_eval t) ended
  refine ⟨least, fun fuel enough => ?_⟩
  unfold Machine.execute
  rw [same fuel enough]

def exitsFromLoop : Utf8.Source :=
  .ofBytes [102, 111, 114, 40, 105, 61, 48, 59, 105, 60, 51, 59, 105, 43, 43, 41, 123, 101, 120,
    105, 116, 59, 125]

def exitsFromLoopTree : Tree :=
  .body 1 [.forLoop 1 (.assign 1 .equal "i" (.constant 1 .zero))
    (.binary 1 .less (.reference 1 "i") (.constant 1 (.int 3 .dec)))
    (.unary 1 .plusPlus (.reference 1 "i")) (.body 1 [.exit 1])]

def withCounter (i : Int) : Machine :=
  let m := Machine.initial .rational false .accepting
  { m with stack := m.stack.bindGlobal "i" (.int i .dec) }

theorem tokens_exitsFromLoop : (Lexer.ofSource exitsFromLoop).tokens =
    [⟨.keyword, "for", 1⟩, ⟨.leftParen, "(", 1⟩, ⟨.symbol, "i", 1⟩, ⟨.equal, "=", 1⟩,
      ⟨.int, "0", 1⟩, ⟨.semicolon, ";", 1⟩, ⟨.symbol, "i", 1⟩, ⟨.less, "<", 1⟩, ⟨.int, "3", 1⟩,
      ⟨.semicolon, ";", 1⟩, ⟨.symbol, "i", 1⟩, ⟨.plusPlus, "++", 1⟩, ⟨.rightParen, ")", 1⟩,
      ⟨.leftCurly, "\x7b", 1⟩, ⟨.keyword, "exit", 1⟩, ⟨.semicolon, ";", 1⟩,
      ⟨.rightCurly, "\x7d", 1⟩, .eof 1] := by
  decide +kernel

theorem parse_exitsFromLoop : parse exitsFromLoop .rational = .ok exitsFromLoopTree := by
  rw [parse, tokens_exitsFromLoop]
  cbv

theorem exits_exitsFromLoop :
    (Part.tree exitsFromLoopTree).Exits (.initial .rational false .accepting) (withCounter 0)
      [.unary 1 .plusPlus (.reference 1 "i")] := by
  have first : (assign 1 .equal "i" (.constant 1 .zero)).Ends (.initial .rational false .accepting)
      (.ok .zero (withCounter 0)) := ⟨nofun, 2, by rfl⟩
  have holds : Run.Ends (fun n => evalCondition n
      (.binary 1 .less (.reference 1 "i") (.constant 1 (.int 3 .dec)))) (withCounter 0)
      (.ok true (withCounter 0)) := ⟨nofun, 3, by rfl⟩
  exact .next .body <| .next (.statement rfl) <| .next (.forLoop first) <|
    .next (.turn rfl holds) <| .next .body <| .next (.statement rfl) .here

/-- Behind the exit the loop counts once more. -/
theorem ends_of_exits_loop :
    parse exitsFromLoop .rational = .ok exitsFromLoopTree ∧
      (Part.tree exitsFromLoopTree).Exits (.initial .rational false .accepting) (withCounter 0)
        [.unary 1 .plusPlus (.reference 1 "i")] ∧
      exitsFromLoopTree.Ends (.initial .rational false .accepting)
        (.ok .zero { withCounter 1 with exiting := true }) := by
  have steps : Run.Ends (fun n => Run.all n [.unary 1 .plusPlus (.reference 1 "i")])
      { withCounter 0 with exiting := true } (.ok .zero { withCounter 1 with exiting := true }) :=
    ⟨nofun, 1, by rfl⟩
  exact ⟨parse_exitsFromLoop, exits_exitsFromLoop,
    ((ends_of_exits (m := .initial .rational false .accepting) parse_exitsFromLoop
      exits_exitsFromLoop).2 _).mpr steps⟩

/-- Already in a session that just started, an exit can leave other globals than those of the
machine on which it was evaluated. -/
theorem exit_changes_globals :
    ¬∀ (source : Utf8.Source) (t : Tree) (mode : NumericMode) (programmer : Bool) (writer : Writer)
      (mₑ : Machine) (steps : List Tree), parse source mode = .ok t →
      (Part.tree t).Exits (.initial mode programmer writer) mₑ steps →
      ∃ fuel v m', (Machine.initial mode programmer writer).execute fuel t = .ok v m' ∧
        m'.stack.globals = mₑ.stack.globals ∧ m'.mode = mₑ.mode ∧
        m'.programmer = mₑ.programmer ∧ m'.output = mₑ.output := by
  intro all
  obtain ⟨fuel, v, m', run, globals, -⟩ :=
    all _ _ _ _ _ _ _ parse_exitsFromLoop exits_exitsFromLoop
  have counted : exitsFromLoopTree.Ends (.initial .rational false .accepting)
      (.ok .zero { withCounter 1 with exiting := true }) := ⟨nofun, 8, by rfl⟩
  have ended : exitsFromLoopTree.Ends (.initial .rational false .accepting) (.ok v m') := by
    unfold Machine.execute at run
    split at run <;> cases run
    rename_i answered
    exact ⟨nofun, fuel, answered⟩
  cases ended.unique counted
  have bound := congrArg (·.find? "i") globals
  change some (Value.int 1 .dec) = some (.int 0 .dec) at bound
  cases bound

end Tree

end Calculator
