import Calculator.Proofs.Session.Agreement
import Calculator.Proofs.Tree.Joining
import Mathlib

set_option autoImplicit false

namespace Calculator

open Session (lastResult)

namespace Tree

/-- The name is not mentioned in the tree. A display sign alone mentions the last result. -/
def Avoids (x : String) (t : Tree) : Prop :=
  t.All fun s => x ∉ s.names

instance (x : String) (t : Tree) : Decidable (t.Avoids x) :=
  inferInstanceAs (Decidable (∀ s ∈ t.nodes, x ∉ s.names))

def IsSettledInside (t : Tree) : Prop :=
  ∀ s ∈ t.nodes.tail, s.isSetting = false

instance (t : Tree) : Decidable t.IsSettledInside :=
  inferInstanceAs (Decidable (∀ s ∈ t.nodes.tail, s.isSetting = false))

theorem ends_setMode_iff {line : Position} {mode : NumericMode} {m : Machine}
    {o : Outcome Failure Value} :
    (setMode line mode).Ends m o ↔ o = .ok .zero { m with mode := mode } := by
  let sets : Run Value := fun m => .ok .zero { m with mode := mode }
  refine (Run.ends_succ_iff (y := fun _ => sets) rfl fun _ => ?_).trans ?_
  · simp only [eval]
    rfl
  · refine Run.ends_const_iff.trans ⟨fun h => h.2.symm, ?_⟩
    rintro rfl
    exact ⟨by simp, rfl⟩

end Tree

/-- If this is a function, then it neither mentions the last result nor changes the mode. -/
def Value.IsQuiet : Value → Prop
  | .function _ params body => lastResult ∉ params ∧ body.Avoids lastResult ∧ Parser.Settled body
  | _ => True

theorem Grammar.Row.mode_of_ends {k k' : NumericMode} {ts : List Token} {trees : List Tree}
    (row : Row k ts trees k') {m m' : Machine} {last v : Value} (mode : m.mode = k)
    (stack : m.stack.Holds (Value.Tame true))
    (settled : ∀ t ∈ trees, t.isSetting = true ∨ t.All (Tree.Tame true))
    (run : Run.Ends (fun n => evalBody n last trees) m (.ok v m')) (running : m'.exiting = false) :
    m'.mode = k' := by
  -- Each statement is run in the mode in which it was read.
  induction row generalizing m last with
  | nil =>
    cases Run.ends_body_nil.mp run
    exact mode
  | @cons k k' k'' ts us tree trees first more ih =>
    obtain ⟨here, rest⟩ := List.forall_mem_cons.mp settled
    cases exiting : m.exiting with
    | true =>
      cases (Run.ends_body_of_exiting exiting).mp run
      rw [exiting] at running
      cases running
    | false =>
      rcases (Run.ends_body_cons exiting).mp run with ⟨w, n, ended, behind⟩ | ⟨_, _, _, ⟨⟩⟩
      rcases here with setting | tame
      · cases tree with
        | setMode line other =>
          cases Tree.ends_setMode_iff.mp ended
          have set : ({ m with mode := other } : Machine).mode = k' :=
            (first.leaves.setting line other rfl).symm
          exact ih set stack rest behind
        | _ => cases setting
      · have echoes (n : Nat) := (echoesAll true k n).eval tree tame
        obtain ⟨-, kept⟩ := Run.Ends.tame echoes ⟨stack, fun _ => mode⟩ ended
        have same := first.leaves.settled (tame.mono fun s tame => tame.keeps rfl)
        exact ih ((kept.mode rfl).trans same.symm) kept.stack rest behind

/-- Behind statements that were run to their end, further ones are run like a program of their own,
all without lines. -/
theorem Run.ends_body_joined {steady : Bool} {k : NumericMode} {m m' m'' : Machine} {v : Value}
    {trees trees' all : List Tree} {p : Outcome Failure Value}
    (first : Run.Ends (fun n => evalBody n .zero trees) m (.ok v m')) (running : m'.exiting = false)
    (nonempty : trees' ≠ []) (same : all.map Tree.bare = (trees ++ trees').map Tree.bare)
    (tame : ∀ t ∈ trees ++ trees', t.All (Tree.Tame steady)) (start : m.Tame steady k)
    (between : m''.bare = m'.bare) (restart : m''.Tame steady k) :
    (∃ q, Run.Ends (fun n => evalBody n .zero all) m q ∧ q.bare = p) ↔
      ∃ q, Run.Ends (fun n => evalBody n .zero trees') m'' q ∧ q.bare = p := by
  have zero : Value.zero.Bares steady Value.zero := Value.bares_of_datum rfl
  obtain ⟨tames, tames'⟩ := List.forall_mem_append.mp tame
  have allTame : ∀ t ∈ all, t.All (Tree.Tame steady) := by
    intro t mem
    have bare : t.bare ∈ (trees ++ trees').map Tree.bare := same ▸ List.mem_map_of_mem mem
    obtain ⟨u, mem', bare⟩ := List.mem_map.mp bare
    exact Tree.all_tame_of_bare_eq bare.symm (tame u mem')
  have echoes (ts : List Tree) (tame : ∀ t ∈ ts, t.All (Tree.Tame steady)) (n : Nat) :=
    (echoesAll steady k n).body ts .zero .zero tame zero
  have bareFirst : Run.Ends (fun n => evalBody n .zero (trees.map .bare)) m.bare
      (.ok v.bare m'.bare) := (ends_bare_iff (echoes trees tames) start).mpr ⟨_, first, rfl⟩
  obtain ⟨t, ts, cons⟩ := List.exists_cons_of_ne_nil nonempty
  have bareRunning : m'.bare.exiting = false := running
  -- Without lines `all` is one row of both, and a row is run statement by statement.
  rw [← ends_bare_iff (echoes all allTame) start, ← ends_bare_iff (echoes trees' tames') restart,
    between, same, List.map_append, ends_body_append,
    Run.Ends.follows_iff (grows_body _ _) bareFirst, cons, List.map_cons,
    ends_body_cons bareRunning, ends_body_cons bareRunning]

namespace Session

section
variable {m : Machine} {steady : Bool} {t : Tree}

theorem all_tame (fits : t.All Tree.RootFits) (avoids : t.Avoids lastResult)
    (keeps : steady = true → Parser.Settled t) : t.All (Tree.Tame steady) := by
  intro s mem
  refine ⟨avoids s mem, fun v isConstant => ?_, fun h => keeps h s mem⟩
  have root := fits s mem
  cases s with
  | constant line w =>
    cases isConstant
    exact root
  | _ => cases isConstant

theorem Reachable.holds_tame (reachable : Reachable m)
    (stored : m.stack.globals.Holds Value.IsQuiet) : m.stack.Holds (Value.Tame true) := by
  have none : m.stack.calls = [] := by
    have depth : m.stack.calls.length + 1 = 1 := reachable.depth
    exact List.length_eq_zero_iff.mp (by omega)
  refine ⟨fun name v found => ?_, by rw [none]; exact List.forall_mem_nil _⟩
  have fits := reachable.fits.stack.globals name v found
  have quiet := stored name v found
  cases v with
  | function name params body => exact ⟨quiet.1, all_tame fits quiet.2.1 fun _ => quiet.2.2⟩
  | int | float | rational | date | builtin => trivial

end

/-- A session that runs a program without an exit and then another one agrees with a session that
runs both in one piece. -/
theorem ends_joined {m m' : Machine} {a b ab : Utf8.Source} {first second : String} {fuel : Nat}
    {v : Value} {line line' : Position} {trees trees' : List Tree} (reachable : Reachable m)
    (isFirst : a.IsText first) (isSecond : b.IsText second)
    (isBoth : ab.IsText (first ++ "\n" ++ second))
    (closed : ∀ t ∈ (Lexer.ofSource a).tokens.dropLast.getLast?,
      t.kind = .semicolon ∨ t.kind = .rightCurly)
    (run : eval m fuel a = .ok v m') (running : m'.exiting = false)
    (read : Tree.parse a m.mode = .ok (.body line trees))
    (read' : Tree.parse b m'.mode = .ok (.body line' trees')) (nonempty : trees' ≠ [])
    (settled : ∀ t ∈ trees, t.IsSettledInside) (avoids : ∀ t ∈ trees ++ trees', t.Avoids lastResult)
    (stored : m.stack.globals.Holds Value.IsQuiet) :
    ((∃ o, Ends b m' o) ↔ ∃ o, Ends ab m o) ∧
      ∀ o o', Ends b m' o → Ends ab m o' → AgreeOn o o' := by
  have closes : ∀ t ∈ (Lexer.ofSource a).tokens.dropLast.getLast?,
      Grammar.closesStatement t.kind = true := by
    intro t mem
    rcases closed t mem with kind | kind <;> rw [kind] <;> rfl
  obtain ⟨_, _, ts, k', ⟨⟩, row, both⟩ := Tree.parse_joined isFirst isSecond isBoth closes read
  have depth' : m'.stack.depth = 1 := (Reachable.answered reachable run).depth
  have stack := reachable.holds_tame stored
  obtain ⟨n, ended, rfl⟩ := ends_of_eval_ok read run
  have onRow := Tree.ends_body_iff.mp ended
  have last := bare_bindResult (.body line trees) v n
  have exiting : (bindResult (.body line trees) v n).exiting = n.exiting :=
    (congrArg Machine.exiting last :)
  have mode : (bindResult (.body line trees) v n).mode = n.mode := (congrArg Machine.mode last :)
  have stops : n.exiting = false := exiting.symm.trans running
  have fits := (Tree.all_body.mp (Tree.isProgram_of_parse read).fits).2
  have fits' := (Tree.all_body.mp (Tree.isProgram_of_parse read').fits).2
  have tame : ∀ t ∈ trees ++ trees', t.All (Tree.Tame false) := fun t mem =>
    all_tame ((List.mem_append.mp mem).elim (fits t) (fits' t)) (avoids t mem) nofun
  -- The second program is read in the mode in which it was read behind the first one.
  have leads : n.mode = k' := by
    refine row.mode_of_ends (m := { m with exiting := false }) rfl stack (fun t mem => ?_) onRow
      stops
    cases setting : t.isSetting with
    | true => exact .inl rfl
    | false =>
      refine .inr (all_tame (fits t mem) (avoids t (List.mem_append_left _ mem)) fun _ => ?_)
      exact Tree.all_iff.mpr ⟨setting, settled t mem⟩
  obtain ⟨_, _, line'', all, ⟨⟩, read'', bares⟩ := both _ (mode.trans leads ▸ read')
  have start : Machine.Tame false k' { m with exiting := false } :=
    ⟨stack.mono fun _ tame => tame.weaken, nofun⟩
  obtain ⟨value, kept⟩ := Run.Ends.tame
    (fun fuel => (echoesAll false k' fuel).body trees .zero .zero
    (fun t mem => tame t (List.mem_append_left _ mem)) (Value.bares_of_datum rfl)) start onRow
  have restart : Machine.Tame false k' (bindResult (.body line trees) v n) :=
    ⟨holds_bindResult kept.stack value _, nofun⟩
  have cleared : ({ bindResult (.body line trees) v n with exiting := false } : Machine) =
      bindResult (.body line trees) v n := by
    rw [← running]
  refine agree_of_bare_ends read' read'' depth' reachable.depth fun p => ?_
  rw [cleared]
  simp only [Tree.ends_body_iff]
  exact (Run.ends_body_joined onRow stops nonempty bares tame start last restart).symm

/-- Sets the mode and defines a function that is called in the second program. -/
def definesInverse : String := "@:r; func f(x) \x7b 1 / x; \x7d"

/-- Shows a real number and fails inside of the function. -/
def callsInverse : String := "@0.5;\nf(0)"

theorem tokens_definesInverse : (Lexer.ofSource (.ofString definesInverse)).tokens =
    [⟨.at, "@", 1⟩, ⟨.colon, ":", 1⟩, ⟨.symbol, "r", 1⟩, ⟨.semicolon, ";", 1⟩,
      ⟨.keyword, "func", 1⟩, ⟨.symbol, "f", 1⟩, ⟨.leftParen, "(", 1⟩, ⟨.symbol, "x", 1⟩,
      ⟨.rightParen, ")", 1⟩, ⟨.leftCurly, "\x7b", 1⟩, ⟨.int, "1", 1⟩, ⟨.slash, "/", 1⟩,
      ⟨.symbol, "x", 1⟩, ⟨.semicolon, ";", 1⟩, ⟨.rightCurly, "\x7d", 1⟩, .eof 1] := by
  decide +kernel

theorem parse_definesInverse : Tree.parse (.ofString definesInverse) .undefined =
    .ok (.body 1 [.setMode 1 .rational, .define 1 "f" ["x"]
      (.body 1 [.binary 1 .slash (.constant 1 (.int 1 .dec)) (.reference 1 "x")])]) := by
  rw [Tree.parse, tokens_definesInverse]
  cbv

theorem parse_callsInverse : Tree.parse (.ofString callsInverse) .rational =
    .ok (.body 1 [.display 1 (.constant 1 (.rational (mkRat 5 10) .dec 1)),
      .call 2 "f" [.constant 2 (.int 0 .dec)]]) := by
  have tokens : (Lexer.ofSource (.ofString callsInverse)).tokens =
      [⟨.at, "@", 1⟩, ⟨.real, "0.5", 1⟩, ⟨.semicolon, ";", 1⟩, ⟨.symbol, "f", 2⟩,
        ⟨.leftParen, "(", 2⟩, ⟨.int, "0", 2⟩, ⟨.rightParen, ")", 2⟩, .eof 2] := by
    decide +kernel
  rw [Tree.parse, tokens]
  cbv

def inverse : Value :=
  .function "f" ["x"] (.body 1 [.binary 1 .slash (.constant 1 (.int 1 .dec)) (.reference 1 "x")])

def withInverse : Machine :=
  { Machine.initial .rational false .accepting with
    stack := (CallStack.initial.bindGlobal "f" inverse).bindGlobal lastResult inverse }

/-- Where that session fails in the second program. -/
def behindInverse : Machine :=
  { withInverse with displays := [⟨.rational (mkRat 5 10) .dec 1, false⟩] }

/-- The function fails in both sessions, and the same calls are left. -/
theorem ends_joined_inverse :
    eval (.initial .undefined false .accepting) 4 (.ofString definesInverse) =
        .ok inverse withInverse ∧
      Ends (.ofString callsInverse) withInverse
        (.error (.failure ⟨.divisionByZero 1, [⟨"f", 2⟩]⟩) behindInverse) ∧
      ∃ o, Ends (.ofString (definesInverse ++ "\n" ++ callsInverse))
          (.initial .undefined false .accepting) o ∧
        AgreeOn (.error (.failure ⟨.divisionByZero 1, [⟨"f", 2⟩]⟩) behindInverse) o := by
  have run : eval (.initial .undefined false .accepting) 4 (.ofString definesInverse) =
      .ok inverse withInverse := by
    rw [eval_of_parse (m := .initial .undefined false .accepting) parse_definesInverse]
    rfl
  have closed : ∀ t ∈ (Lexer.ofSource (.ofString definesInverse)).tokens.dropLast.getLast?,
      t.kind = .semicolon ∨ t.kind = .rightCurly := by
    rw [tokens_definesInverse]
    rintro _ ⟨⟩
    exact .inr rfl
  have stored : (Machine.initial .undefined false .accepting).stack.globals.Holds Value.IsQuiet :=
    (CallStack.Holds.initial fun _ => trivial).globals
  have joined := ends_joined (.start .undefined false .accepting) (.ofString _) (.ofString _)
    (.ofString _) closed run rfl parse_definesInverse parse_callsInverse (by simp)
    (by decide) (by decide) stored
  have fails : Ends (.ofString callsInverse) withInverse
      (.error (.failure ⟨.divisionByZero 1, [⟨"f", 2⟩]⟩) behindInverse) := by
    refine ⟨nofun, 8, ?_⟩
    rw [eval_of_parse (m := withInverse) parse_callsInverse]
    rfl
  obtain ⟨o, ended⟩ := joined.1.mp ⟨_, fails⟩
  exact ⟨run, fails, o, ended, joined.2 _ _ fails ended⟩

end Session

end Calculator
