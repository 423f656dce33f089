import Calculator.Proofs.Eval.Looping
import Calculator.Proofs.Session.Agreement
import Calculator.Shell

set_option autoImplicit false

namespace Calculator

open Run

theorem limits_exited :
    Limits (fun _ => True) fun m m' => m.exiting = true → m'.exiting = true where
  refl _ := id
  trans _ _ _ first second := second ∘ first
  pop _ _ := id
  step _ _ _ _ _ _ _ _ _ _ _ := id
  declare _ _ _ _ _ _ := id
  assign _ _ _ _ _ _ _ _ _ := id
  define _ _ _ _ _ _ := id
  output _ _ _ := id
  setMode _ _ := id
  toggle _ _ := id
  exit _ _ _ _ := rfl

/-- Whether a run that starts without a request to exit ends with one depends on the exit statements
that it comes to, whatever its end is. -/
theorem Tree.Ends.exiting_iff {t : Tree} {m : Machine} {o : Outcome Failure Value}
    (h : t.Ends m o) (clear : m.exiting = false) :
    o.Leaves fun m' => m'.exiting = true ↔ (Part.tree t).Quits m := by
  by_cases quits : (Part.tree t).Quits m
  · obtain ⟨calls, line, mₑ, comes⟩ := quits
    have exit : (Tree.exit line).Ends mₑ (.ok .zero { mₑ with exiting := true }) :=
      Tree.ends_exit_iff.mpr rfl
    have behind := limits_exited.leads_ends (v := .zero) (fun _ _ _ _ => trivial) comes exit h
    refine Outcome.Leaves.mono behind fun m' stays => iff_of_true (stays rfl) ?_
    exact ⟨calls, line, mₑ, comes⟩
  · have only := (Part.Runs.of_not_quits clear quits).only
    refine (limits_exiting.ends_tree only h).mono fun m' same => iff_of_false ?_ quits
    rw [same, clear]
    exact Bool.false_ne_true

namespace Session

/-- The text is a program, and its run comes to an exit statement. -/
def Quits (m : Machine) (source : Utf8.Source) : Prop :=
  ∃ t, Tree.parse source m.mode = .ok t ∧ (Part.tree t).Quits { m with exiting := false }

theorem quits_iff {m : Machine} {source : Utf8.Source} {t : Tree}
    (read : Tree.parse source m.mode = .ok t) :
    Quits m source ↔ (Part.tree t).Quits { m with exiting := false } := by
  unfold Quits
  rw [read]
  exact ⟨fun ⟨_, same, quits⟩ => Except.ok.inj same ▸ quits, fun quits => ⟨t, rfl, quits⟩⟩

@[simp] theorem exiting_bindResult (program : Tree) (v : Value) (m : Machine) :
    (bindResult program v m).exiting = m.exiting := by
  unfold bindResult
  split <;> rfl

/-- Behind a program there is a request to exit if and only if it came to an exit statement. -/
theorem exiting_eval {m : Machine} (clear : m.exiting = false) (fuel : Nat)
    (source : Utf8.Source) :
    (eval m fuel source).Leaves fun m' => m'.exiting = true ↔ Quits m source := by
  cases read : Tree.parse source m.mode with
  | error e =>
    -- Nothing is evaluated, and the request is the one before the program.
    unfold eval Quits
    rw [read]
    refine iff_of_false (by rw [clear]; exact Bool.false_ne_true) ?_
    rintro ⟨t, ⟨⟩, -⟩
  | ok t =>
    rw [eval_of_parse read, quits_iff read]
    cases run : t.eval fuel { m with exiting := false } with
    | ok v m' =>
      have behind := Tree.Ends.exiting_iff (o := .ok v m') ⟨nofun, fuel, run⟩ rfl
      simpa only [conclude, Outcome.Leaves, exiting_bindResult] using behind
    | error f m' => exact Tree.Ends.exiting_iff (o := .error f m') ⟨nofun, fuel, run⟩ rfl
    | outOfFuel => trivial

end Session

namespace Delivery

/-- The editor is not asked again behind it, whatever the programs do. -/
def isLast : Delivery → Bool
  | line _ => false
  | unkept text _ => !Blank.isBlankLine text
  | ended | failed _ => true

def isFailure : Delivery → Bool
  | unkept .. | failed _ => true
  | line _ | ended => false

end Delivery

namespace Shell

variable {fuel : Nat} {openFile : String → Except String Utf8.Source} {report : Report}
  {m m' : Machine}

theorem exiting_runSource {label : String} {source : Utf8.Source} (clear : m.exiting = false)
    (ran : runSource fuel label source m = some (report, m')) :
    m'.exiting = true ↔ Session.Quits m source := by
  have behind := Session.exiting_eval clear fuel source
  unfold runSource at ran
  cases run : Session.eval m fuel source with
  | ok v m₁ | error e m₁ =>
    rw [run] at ran behind
    cases ran
    exact behind
  | outOfFuel =>
    rw [run] at ran
    cases ran

theorem failed_runSource {label : String} {source : Utf8.Source}
    (ran : runSource fuel label source m = some (report, m')) : report.failed = false := by
  unfold runSource at ran
  cases run : Session.eval m fuel source <;> rw [run] at ran <;> cases ran <;> rfl

/-- What the command line does next: it writes something, evaluates a program and writes what comes
of it, an error behind the label, or writes something and stops. -/
inductive Turn where
  | write (out err : String)
  | program (label : String) (source : Utf8.Source)
  | stop (last : Report)

namespace Turn

def isStop : Turn → Bool
  | stop _ => true
  | write .. | program .. => false

def isFailure : Turn → Bool
  | stop last => last.failed
  | write .. | program .. => false

end Turn

def fileTurn (openFile : String → Except String Utf8.Source) (name : String) : Turn :=
  match openFile name with
  | .error reason => .write "" (openError name reason)
  | .ok source => .program (name ++ ": ") source

def lineTurns : Delivery → List Turn
  | .line text =>
    .write prompt "" :: if Blank.isBlankLine text then [] else [.program "" (.ofString text)]
  | .unkept text reason =>
    if Blank.isBlankLine text then [.write prompt ""] else [.stop (.failure prompt reason)]
  | .ended => [.stop (.output prompt)]
  | .failed reason => [.stop (.failure prompt reason)]

def promptTurns : Except String (List Delivery) → List Turn
  | .error reason => [.stop (.failure "" reason)]
  | .ok deliveries => deliveries.flatMap lineTurns ++ [.stop (.output prompt)]

/-- All that the command line would do if no program came to an exit and no turn stopped it. -/
def turns (o : Options) (openFile : String → Except String Utf8.Source)
    (editor : Except String (List Delivery)) : List Turn :=
  o.files.map (fileTurn openFile) ++
    if o.files.isEmpty || o.interactive then promptTurns editor else []

/-- The turns are taken one after the other in one session, up to the first program that comes to an
exit statement or the first turn that stops. The list has the programs that are evaluated, the last
of which may not end. Before every turn there is no request to exit. -/
inductive Takes (fuel : Nat) :
    Report → Machine → List Turn → List Utf8.Source → Option (Report × Machine) → Prop where
  | done {report : Report} {m : Machine} (clear : m.exiting = false) :
      Takes fuel report m [] [] (some (report, m))
  | stops {report last : Report} {m : Machine} {rest : List Turn} (clear : m.exiting = false) :
      Takes fuel report m (.stop last :: rest) [] (some (report.append last, m))
  | write {report : Report} {out err : String} {m : Machine} {rest : List Turn}
      {evaluated : List Utf8.Source} {r : Option (Report × Machine)} (clear : m.exiting = false)
      (behind : Takes fuel (report.append ⟨out, err, false⟩) m rest evaluated r) :
      Takes fuel report m (.write out err :: rest) evaluated r
  | quits {report text : Report} {m m' : Machine} {label : String} {source : Utf8.Source}
      {rest : List Turn} (clear : m.exiting = false)
      (ran : runSource fuel label source m = some (text, m')) (quits : Session.Quits m source) :
      Takes fuel report m (.program label source :: rest) [source]
        (some (report.append text, m'))
  | goesOn {report text : Report} {m m' : Machine} {label : String} {source : Utf8.Source}
      {rest : List Turn} {evaluated : List Utf8.Source} {r : Option (Report × Machine)}
      (clear : m.exiting = false) (ran : runSource fuel label source m = some (text, m'))
      (noExit : ¬Session.Quits m source)
      (behind : Takes fuel (report.append text) m' rest evaluated r) :
      Takes fuel report m (.program label source :: rest) (source :: evaluated) r
  | hangs {report : Report} {m : Machine} {label : String} {source : Utf8.Source}
      {rest : List Turn} (clear : m.exiting = false)
      (hangs : runSource fuel label source m = none) :
      Takes fuel report m (.program label source :: rest) [source] none

section
variable {ts rest : List Turn} {evaluated evaluated' : List Utf8.Source}
  {r r' : Option (Report × Machine)}

theorem Takes.unique (h : Takes fuel report m ts evaluated r)
    (h' : Takes fuel report m ts evaluated' r') : evaluated' = evaluated ∧ r' = r := by
  induction h generalizing evaluated' r' with
  | done | stops => cases h'; exact ⟨rfl, rfl⟩
  | write _ _ ih =>
    cases h' with
    | write _ behind => exact ih behind
  | quits _ ran quits =>
    cases h' with
    | quits _ ran' => cases ran.symm.trans ran'; exact ⟨rfl, rfl⟩
    | goesOn _ _ noExit => exact absurd quits noExit
    | hangs _ hangs => cases ran.symm.trans hangs
  | goesOn _ ran noExit _ ih =>
    cases h' with
    | quits _ _ quits => exact absurd quits noExit
    | goesOn _ ran' _ behind =>
      cases ran.symm.trans ran'
      obtain ⟨rfl, rfl⟩ := ih behind
      exact ⟨rfl, rfl⟩
    | hangs _ hangs => cases ran.symm.trans hangs
  | hangs _ hangs =>
    cases h' with
    | quits _ ran => cases hangs.symm.trans ran
    | goesOn _ ran => cases hangs.symm.trans ran
    | hangs => exact ⟨rfl, rfl⟩

theorem Takes.failed (h : Takes fuel report m ts evaluated r) {report' : Report} {m' : Machine}
    (ends : r = some (report', m')) :
    report'.failed =
      (report.failed || (!m'.exiting && (ts.find? Turn.isStop).any Turn.isFailure)) := by
  induction h with
  | done =>
    cases ends
    exact (Bool.or_false _ ▸ congrArg (_ || ·) (Bool.and_false _)).symm
  | stops clear =>
    cases ends
    rw [List.find?_cons_of_pos rfl, clear]
    rfl
  | write _ _ ih =>
    rw [ih ends]
    simp [Turn.isStop, Report.append]
  | quits clear ran quits =>
    cases ends
    simp [(exiting_runSource clear ran).mpr quits, Report.append, failed_runSource ran]
  | goesOn _ ran _ _ ih =>
    rw [ih ends]
    simp [Turn.isStop, Report.append, failed_runSource ran]
  | hangs => cases ends

theorem Takes.of_program {k : Report → Machine → Option (Report × Machine)}
    (clear : m.exiting = false) (report : Report) (label : String) (source : Utf8.Source)
    (behind : ∀ report m, m.exiting = false →
      ∃ evaluated, Takes fuel report m rest evaluated (k report m)) :
    ∃ evaluated, Takes fuel report m (.program label source :: rest) evaluated (do
      let (text, m') ← runSource fuel label source m
      if m'.exiting then some (report.append text, m') else k (report.append text) m') := by
  cases ran : runSource fuel label source m with
  | none => exact ⟨[source], .hangs clear ran⟩
  | some both =>
    obtain ⟨text, m'⟩ := both
    have asked := exiting_runSource clear ran
    cases exiting : m'.exiting with
    | true =>
      refine ⟨[source], ?_⟩
      simpa [exiting] using Takes.quits clear ran (asked.mp exiting)
    | false =>
      have noExit : ¬Session.Quits m source := fun quits => by
        rw [asked.mpr quits] at exiting
        cases exiting
      obtain ⟨evaluated, takes⟩ := behind (report.append text) m' exiting
      exact ⟨source :: evaluated, by simpa [exiting] using Takes.goesOn clear ran noExit takes⟩

theorem takes_lines (clear : m.exiting = false) (report : Report) (deliveries : List Delivery) :
    ∃ evaluated, Takes fuel report m
      (deliveries.flatMap lineTurns ++ [.stop (.output prompt)]) evaluated
      (runLines fuel deliveries report m) := by
  induction deliveries generalizing report m with
  | nil => exact ⟨[], .stops clear⟩
  | cons d deliveries ih =>
    rw [List.flatMap_cons]
    cases d with
    | ended | failed => exact ⟨[], .stops clear⟩
    | unkept line reason =>
      rw [runLines, lineTurns]
      split_ifs with blank
      · obtain ⟨evaluated, takes⟩ := ih clear (report.append (.output prompt))
        exact ⟨evaluated, .write clear takes⟩
      · exact ⟨[], .stops clear⟩
    | line line =>
      rw [runLines, lineTurns, runLine]
      split_ifs with blank
      · obtain ⟨evaluated, takes⟩ := ih clear (report.append (.output prompt))
        refine ⟨evaluated, .write clear ?_⟩
        simpa [clear, Report.append, Report.empty, Report.output] using takes
      · obtain ⟨evaluated, takes⟩ := Takes.of_program clear (report.append (.output prompt)) ""
          (.ofString line) fun report m clear => ih clear report
        exact ⟨evaluated, .write clear takes⟩

theorem takes_prompt (clear : m.exiting = false) (report : Report)
    (editor : Except String (List Delivery)) :
    ∃ evaluated, Takes fuel report m (promptTurns editor) evaluated
      (runPrompt fuel editor report m) := by
  cases editor with
  | error reason => exact ⟨[], .stops clear⟩
  | ok deliveries => exact takes_lines clear report deliveries

theorem takes_files {k : Report → Machine → Option (Report × Machine)}
    (behind : ∀ report m, m.exiting = false →
      ∃ evaluated, Takes fuel report m rest evaluated (k report m))
    (clear : m.exiting = false) (report : Report) (names : List String) :
    ∃ evaluated, Takes fuel report m (names.map (fileTurn openFile) ++ rest) evaluated (do
      let (report, m) ← runFiles fuel openFile names report m
      if m.exiting then some (report, m) else k report m) := by
  induction names generalizing report m with
  | nil => simpa [runFiles, clear] using behind report m clear
  | cons name names ih =>
    rw [List.map_cons, List.cons_append, fileTurn]
    unfold runFiles runFile
    cases openFile name with
    | error reason =>
      obtain ⟨evaluated, takes⟩ := ih clear (report.append (.error (openError name reason)))
      refine ⟨evaluated, .write clear ?_⟩
      simpa [clear, Report.error] using takes
    | ok source =>
      obtain ⟨evaluated, takes⟩ := Takes.of_program clear report (name ++ ": ") source
        fun report m clear => ih clear report
      refine ⟨evaluated, ?_⟩
      dsimp only
      cases ran : runSource fuel (name ++ ": ") source m with
      | none => simpa [ran] using takes
      | some both =>
        cases exiting : both.2.exiting <;> simpa [ran, exiting] using takes

end

section
variable (o : Options) (openFile : String → Except String Utf8.Source)
  (editor : Except String (List Delivery))

theorem run_eq (fuel : Nat) :
    run fuel o openFile editor = (do
      let (report, m) ← runFiles fuel openFile o.files .empty (start o)
      if m.exiting then some (report, m)
      else if o.files.isEmpty || o.interactive then runPrompt fuel editor report m
      else some (report, m)) := by
  unfold run prompts
  refine congrArg _ (funext fun (report, m) => ?_)
  cases exiting : m.exiting <;> simp [exiting]

theorem run_takes (fuel : Nat) :
    ∃ evaluated, Takes fuel .empty (start o) (turns o openFile editor) evaluated
      (run fuel o openFile editor) := by
  have clear : (start o).exiting = false := rfl
  have behind (report : Report) (m : Machine) (clear : m.exiting = false) : ∃ evaluated,
      Takes fuel report m (if o.files.isEmpty || o.interactive then promptTurns editor else [])
        evaluated (if o.files.isEmpty || o.interactive then runPrompt fuel editor report m
          else some (report, m)) := by
    split_ifs
    · exact takes_prompt clear report editor
    · exact ⟨[], .done clear⟩
  rw [run_eq]
  exact takes_files behind clear .empty o.files

end

end Shell

end Calculator
