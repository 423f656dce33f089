import Calculator.Proofs.Eval.Changing
import Calculator.Proofs.Session.Agreement

set_option autoImplicit false

namespace Calculator

open Run

/-- Whether the node gives the name a value: it assigns to it, moves it by one, or defines a
function of that name. -/
def Tree.writes (x : String) : Tree → Bool
  | .assign _ _ y _ => y = x
  | .unary _ op (.reference _ y) =>
    match op.unary with
    | some (.step _) => y = x
    | _ => false
  | .define _ y _ _ => y = x
  | _ => false

theorem Tree.ne_of_writes_step {x y : String} {line line' : Position} {op : Kind} {s : Step}
    (isStep : op.unary = some (.step s))
    (h : (Tree.unary line op (.reference line' y)).writes x = false) : y ≠ x := by
  simp only [writes, isStep] at h
  exact of_decide_eq_false h

namespace CallStack

variable {s s' : CallStack} {x y : String} {v : Value}

theorem find?_bindGlobal_of_ne (other : y ≠ x) :
    (s.bindGlobal y v).globals.find? x = s.globals.find? x := by
  rw [bindGlobal, Frame.find?_insert, if_neg other]

theorem find?_bindLocal_of_ne (other : y ≠ x) :
    (s.bindLocal y v).globals.find? x = s.globals.find? x := by
  obtain ⟨globals, calls⟩ := s
  cases calls with
  | nil => exact find?_bindGlobal_of_ne (s := ⟨globals, []⟩) other
  | cons f rest => rfl

theorem find?_declare_of_ne (other : y ≠ x) :
    (s.declare y).globals.find? x = s.globals.find? x := by
  unfold declare
  split
  · rfl
  · exact find?_bindLocal_of_ne other

theorem find?_of_assign?_of_ne (other : y ≠ x) (h : s.assign? y v = some s') :
    s'.globals.find? x = s.globals.find? x := by
  unfold assign? at h
  split at h
  · cases h
    exact find?_bindLocal_of_ne other
  · split at h <;> cases h
    exact find?_bindGlobal_of_ne other

end CallStack

theorem limits_unwritten (x : String) :
    Limits (fun t => t.writes x = false) fun m m' =>
      m'.stack.globals.find? x = m.stack.globals.find? x where
  refl _ := rfl
  trans _ _ _ first second := second.trans first
  pop _ _ := id
  step _ _ _ _ _ _ _ _ unwritten isStep written :=
    CallStack.find?_of_assign?_of_ne (Tree.ne_of_writes_step isStep unwritten) written
  declare _ _ _ _ _ unwritten := CallStack.find?_declare_of_ne (of_decide_eq_false unwritten)
  assign _ _ _ _ _ _ _ unwritten written :=
    CallStack.find?_of_assign?_of_ne (of_decide_eq_false unwritten) written
  define _ _ _ _ _ unwritten := CallStack.find?_bindGlobal_of_ne (of_decide_eq_false unwritten)
  output _ _ _ := rfl
  setMode _ _ := rfl
  toggle _ _ := rfl
  exit _ _ _ := rfl

namespace Policy

variable {A : Tree → Prop} {m : Machine} {t : Tree}

def having (A : Tree → Prop) : Policy where
  node t := t.RootFits ∧ A t
  datum _ := True
  shown _ := True
  mode _ := True
  builtin _ := True

theorem sound_having : (having A).Sound fun _ => True where
  boolean _ := trivial
  constant _ _ fits := (allows_iff fits.1).mpr trivial
  setting _ _ _ := trivial
  shown _ _ := trivial
  operation _ _ _ _ _ _ := trivial
  application _ _ _ _ _ _ := trivial
  error _ _ := trivial
  prefixed _ _ _ _ _ := trivial
  operator _ _ _ _ _ _ := trivial

theorem free_having : (having A).Free :=
  ⟨fun _ => trivial, fun _ => trivial, fun _ => trivial, fun _ => trivial⟩

theorem nodes_having {source : Utf8.Source} {mode : NumericMode}
    (read : Tree.parse source mode = .ok t) (all : t.All A) : t.All (having A).node :=
  fun s mem => ⟨(Tree.isProgram_of_parse read).fits s mem, all s mem⟩

theorem Observed.only {part : Part} (h : (having A).Observed part m) : part.Only A m :=
  fun _ _ _ comes => (h.comesTo (fun _ _ => id) sound_having comes).nodes.root.2

end Policy

namespace Session

open Policy

/-- A program that looks at a variable or displays something, or has no statement at all. -/
inductive Looks : Tree → Prop where
  | empty {line : Position} : Looks (.body line [])
  | variable {line line' : Position} {x : String} : Looks (.body line [.reference line' x])
  | display {line line' : Position} {t : Tree} : Looks (.body line [.display line' t])
  | setMode {line line' : Position} {mode : NumericMode} : Looks (.body line [.setMode line' mode])
  | toggle {line line' : Position} : Looks (.body line [.toggleProgrammer line'])

theorem computes_eq_false_iff {t : Tree} : computes t = false ↔ Looks t := by
  constructor
  · intro h
    unfold computes at h
    split at h
    · exact .empty
    · split at h
      · exact .variable
      · exact .display
      · exact .setMode
      · exact .toggle
      · cases h
    · cases h
  · rintro (_ | _ | _ | _ | _) <;> rfl

/-- What became of a source: how it was read, and the value that the program answered, if it did. -/
structure Entry where
  program : Except SyntaxError Tree
  answer : Option Value

/-- The source was read as a program that computed this value. -/
def Entry.Computes (e : Entry) (v : Value) : Prop :=
  ∃ t, e.program = .ok t ∧ ¬Looks t ∧ e.answer = some v

/-- The machine of a session, with the entries of the sources that it was given, the first one
first. Between them the host may change the settings and take the output. -/
inductive Chronicle : List Entry → Machine → Prop where
  | start (mode : NumericMode) (programmer : Bool) (writer : Writer) :
      Chronicle [] (.initial mode programmer writer)
  | answered {entries : List Entry} {m m' : Machine} {fuel : Nat} {source : Utf8.Source}
      {v : Value} (before : Chronicle entries m) (run : eval m fuel source = .ok v m') :
      Chronicle (entries ++ [⟨Tree.parse source m.mode, some v⟩]) m'
  | failed {entries : List Entry} {m m' : Machine} {fuel : Nat} {source : Utf8.Source}
      {e : ProgramError} (before : Chronicle entries m) (run : eval m fuel source = .error e m') :
      Chronicle (entries ++ [⟨Tree.parse source m.mode, none⟩]) m'
  | host {entries : List Entry} {m : Machine} (mode : NumericMode) (programmer : Bool)
      (writer : Writer) (displays : List Display) (before : Chronicle entries m) :
      Chronicle entries { m with
        mode := mode, programmer := programmer, writer := writer, displays := displays }

/-- The entries of sources with that fuel for each of them, and the machine behind them. -/
def chronicle (fuel : Nat) : List Utf8.Source → Machine → Option (List Entry × Machine)
  | [], m => some ([], m)
  | source :: sources, m =>
    match eval m fuel source with
    | .ok v m' => do
      let (entries, m'') ← chronicle fuel sources m'
      return (⟨Tree.parse source m.mode, some v⟩ :: entries, m'')
    | .error _ m' => do
      let (entries, m'') ← chronicle fuel sources m'
      return (⟨Tree.parse source m.mode, none⟩ :: entries, m'')
    | .outOfFuel => none

theorem Chronicle.append {before entries : List Entry} {m m' : Machine} {fuel : Nat}
    {sources : List Utf8.Source} (h : Chronicle before m)
    (ran : chronicle fuel sources m = some (entries, m')) : Chronicle (before ++ entries) m' := by
  induction sources generalizing before entries m with
  | nil =>
    cases ran
    rw [List.append_nil]
    exact h
  | cons source sources ih =>
    unfold chronicle at ran
    split at ran
    · rename_i v n run
      obtain ⟨⟨rest, n'⟩, behind, ⟨⟩⟩ := Option.bind_eq_some_iff.mp ran
      rw [List.append_cons]
      exact ih (h.answered run) behind
    · rename_i e n run
      obtain ⟨⟨rest, n'⟩, behind, ⟨⟩⟩ := Option.bind_eq_some_iff.mp ran
      rw [List.append_cons]
      exact ih (h.failed run) behind
    · cases ran

/-- The latest entry that computed something computed this value. -/
def IsLatest (entries : List Entry) (v : Value) : Prop :=
  ∃ (before : List Entry) (e : Entry) (after : List Entry),
    entries = before ++ e :: after ∧ e.Computes v ∧ ∀ e' ∈ after, ∀ w, ¬e'.Computes w

variable {entries : List Entry} {e : Entry} {v : Value}

theorem Entry.computes_iff {t : Tree} (read : e.program = .ok t) :
    e.Computes v ↔ computes t = true ∧ e.answer = some v := by
  rw [← Bool.not_eq_false, computes_eq_false_iff]
  constructor
  · rintro ⟨t', read', computes, answer⟩
    cases read.symm.trans read'
    exact ⟨computes, answer⟩
  · exact fun ⟨computes, answer⟩ => ⟨t, read, computes, answer⟩

theorem Entry.Computes.unique {w : Value} (h : e.Computes v) (h' : e.Computes w) : v = w := by
  obtain ⟨-, -, -, answer⟩ := h
  obtain ⟨-, -, -, answer'⟩ := h'
  exact Option.some.inj (answer.symm.trans answer')

theorem not_isLatest_nil : ¬IsLatest [] v := by
  rintro ⟨before, e, after, same, -⟩
  exact List.append_ne_nil_of_right_ne_nil before (List.cons_ne_nil e after) same.symm

theorem isLatest_concat : IsLatest (entries ++ [e]) v ↔
    e.Computes v ∨ (∀ w, ¬e.Computes w) ∧ IsLatest entries v := by
  constructor
  · rintro ⟨before, e', after, same, computes, rest⟩
    rcases List.eq_nil_or_concat after with rfl | ⟨others, last, rfl⟩
    · obtain ⟨-, rfl⟩ := List.append_singleton_inj.mp same
      exact .inl computes
    · rw [List.concat_eq_append] at same rest
      rw [← List.cons_append, ← List.append_assoc] at same
      obtain ⟨rfl, rfl⟩ := List.append_singleton_inj.mp same
      exact .inr ⟨rest e (by simp), before, e', others, rfl, computes,
        fun e'' mem => rest e'' (by simp [mem])⟩
  · rintro (computes | ⟨none, before, e', after, rfl, computes, rest⟩)
    · exact ⟨entries, e, [], rfl, computes, List.forall_mem_nil _⟩
    · refine ⟨before, e', after ++ [e], by simp, computes, ?_⟩
      exact List.forall_mem_append.mpr ⟨rest, List.forall_mem_singleton.mpr none⟩

theorem isLatest_concat_of_computes (h : e.Computes v) {w : Value} :
    IsLatest (entries ++ [e]) w ↔ v = w := by
  rw [isLatest_concat]
  constructor
  · rintro (computes | ⟨none, -⟩)
    · exact h.unique computes
    · exact absurd h (none v)
  · rintro rfl
    exact .inl h

theorem isLatest_concat_of_not_computes (h : ∀ w, ¬e.Computes w) :
    IsLatest (entries ++ [e]) v ↔ IsLatest entries v := by
  simp [isLatest_concat, h]

theorem exists_isLatest_iff : (∃ v, IsLatest entries v) ↔ ∃ e ∈ entries, ∃ v, e.Computes v := by
  induction entries using List.reverseRecOn with
  | nil => simp [not_isLatest_nil]
  | append_singleton entries e ih =>
    by_cases computes : ∃ v, e.Computes v
    · obtain ⟨v, here⟩ := computes
      exact ⟨fun _ => ⟨e, by simp, v, here⟩,
        fun _ => ⟨v, (isLatest_concat_of_computes here).mpr rfl⟩⟩
    · have none (w : Value) : ¬e.Computes w := fun here => computes ⟨w, here⟩
      simp only [isLatest_concat_of_not_computes none, ih, List.mem_append, List.mem_singleton,
        or_and_right, exists_or, exists_eq_left, computes, or_false]

/-- None of the sources was read as a program that writes to the last result. -/
def Unwritten (entries : List Entry) : Prop :=
  ∀ e ∈ entries, ∀ t, e.program = .ok t → t.All fun s => s.writes lastResult = false

theorem unwritten_concat : Unwritten (entries ++ [e]) ↔ Unwritten entries ∧
    ∀ t, e.program = .ok t → t.All fun s => s.writes lastResult = false :=
  List.forall_mem_append.trans (and_congr_right' (List.forall_mem_singleton))

def unwriting : Policy :=
  having fun t => t.writes lastResult = false

section
variable {m m' : Machine} {t : Tree} {source : Utf8.Source} {fuel : Nat}
  (within : unwriting.Within m)
  (unwritten : ∀ t, Tree.parse source m.mode = .ok t → t.All fun s => s.writes lastResult = false)

include within unwritten

theorem within_unwriting {o : Outcome ProgramError Value} (run : eval m fuel source = o) :
    unwriting.KeptProgram (fun _ => True) o :=
  kept_eval (fun _ _ => id) sound_having within
    (free_having.observedIn within fun t read => nodes_having read (unwritten t read)) run

theorem leaves_lastResult (read : Tree.parse source m.mode = .ok t) {o : Outcome Failure Value}
    (ended : t.Ends { m with exiting := false } o) : o.Leaves fun m' =>
      m'.stack.globals.find? lastResult = m.stack.globals.find? lastResult := by
  have observed : unwriting.Observed (.tree t) { m with exiting := false } :=
    ⟨nodes_having read (unwritten t read), within.restart, fun _ _ _ _ _ _ => trivial⟩
  have left := (limits_unwritten lastResult).ends_tree observed.only ended
  exact left

theorem find?_lastResult_of_failed {e : ProgramError} (run : eval m fuel source = .error e m') :
    m'.stack.globals.find? lastResult = m.stack.globals.find? lastResult := by
  cases read : Tree.parse source m.mode with
  | error e' =>
    unfold eval at run
    rw [read] at run
    cases run
    rfl
  | ok t =>
    rw [eval_of_parse read] at run
    cases ran : t.eval fuel { m with exiting := false } with
    | ok | outOfFuel =>
      rw [ran] at run
      cases run
    | error f n =>
      have ended : t.Ends { m with exiting := false } (.error f n) := ⟨nofun, fuel, ran⟩
      have left : n.stack.globals.find? lastResult = m.stack.globals.find? lastResult :=
        leaves_lastResult within unwritten read ended
      rw [ran] at run
      cases run
      exact left

theorem find?_lastResult_of_answered {v : Value} (run : eval m fuel source = .ok v m') :
    ∃ t, Tree.parse source m.mode = .ok t ∧ m'.stack.globals.find? lastResult =
      if computes t then some v else m.stack.globals.find? lastResult := by
  cases read : Tree.parse source m.mode with
  | error e =>
    unfold eval at run
    rw [read] at run
    cases run
  | ok t =>
    obtain ⟨n, ended, bound⟩ := ends_of_eval_ok read run
    have left : n.stack.globals.find? lastResult = m.stack.globals.find? lastResult :=
      leaves_lastResult within unwritten read ended
    refine ⟨t, rfl, ?_⟩
    rw [← bound, bindResult]
    split
    · rw [CallStack.bindGlobal, Frame.find?_insert, if_pos rfl]
    · exact left

end

theorem find?_builtins_lastResult : Frame.builtins.find? lastResult = none :=
  Option.isNone_iff_eq_none.mp (by decide +kernel)

/-- In such a session the last result is bound to the latest value that was computed. -/
theorem Chronicle.find?_lastResult {entries : List Entry} {m : Machine}
    (chronicle : Chronicle entries m) (unwritten : Unwritten entries) :
    unwriting.Within m ∧
      ∀ v, m.stack.globals.find? lastResult = some v ↔ IsLatest entries v := by
  induction chronicle with
  | start mode programmer writer =>
    refine ⟨free_having.within_initial mode programmer writer, fun v => ?_⟩
    change Frame.builtins.find? lastResult = some v ↔ _
    simp [find?_builtins_lastResult, not_isLatest_nil]
  | @answered entries m m' fuel source v before run ih =>
    obtain ⟨earlier, unwritten⟩ := unwritten_concat.mp unwritten
    obtain ⟨within, latest⟩ := ih earlier
    dsimp only at unwritten
    refine ⟨(within_unwriting within unwritten run).2, fun w => ?_⟩
    obtain ⟨t, read, bound⟩ := find?_lastResult_of_answered within unwritten run
    rw [bound, read]
    -- A program that only looks at something binds nothing, and is no entry that computes.
    have computed (w : Value) := Entry.computes_iff (e := ⟨.ok t, some v⟩) (v := w) rfl
    split
    · rename_i computes
      have here : Entry.Computes ⟨.ok t, some v⟩ v := (computed v).mpr ⟨computes, rfl⟩
      rw [isLatest_concat_of_computes here, Option.some_inj]
    · rename_i looks
      rw [isLatest_concat_of_not_computes fun w here => looks ((computed w).mp here).1]
      exact latest w
  | @failed entries m m' fuel source e before run ih =>
    obtain ⟨earlier, unwritten⟩ := unwritten_concat.mp unwritten
    obtain ⟨within, latest⟩ := ih earlier
    dsimp only at unwritten
    refine ⟨(within_unwriting within unwritten run).2, fun w => ?_⟩
    have none (w : Value) : ¬Entry.Computes ⟨Tree.parse source m.mode, .none⟩ w := by
      rintro ⟨_, _, _, ⟨⟩⟩
    rw [find?_lastResult_of_failed within unwritten run, isLatest_concat_of_not_computes none]
    exact latest w
  | host mode programmer writer displays before ih =>
    obtain ⟨within, latest⟩ := ih unwritten
    exact ⟨⟨within.stack, trivial, fun _ _ => trivial⟩, latest⟩

/-- If no program writes to the last result, then it is bound once some program computed something,
and always to the value of the latest one that did. Sources that are not read or fail leave it as
it was. -/
theorem lastResult_is_latest (entries : List Entry) (m : Machine) (chronicle : Chronicle entries m)
    (unwritten : Unwritten entries) :
    (m.stack.globals.contains lastResult = true ↔ ∃ e ∈ entries, ∃ v, e.Computes v) ∧
      (∀ v, m.stack.globals.find? lastResult = some v ↔ IsLatest entries v) ∧
      ∀ source fuel e m',
        (∀ t, Tree.parse source m.mode = .ok t → t.All fun s => s.writes lastResult = false) →
        eval m fuel source = .error e m' →
          m'.stack.globals.find? lastResult = m.stack.globals.find? lastResult := by
  obtain ⟨within, latest⟩ := chronicle.find?_lastResult unwritten
  refine ⟨?_, latest, fun source fuel e m' unwritten => find?_lastResult_of_failed within unwritten⟩
  rw [Frame.contains, Option.isSome_iff_exists, ← exists_isLatest_iff]
  exact exists_congr latest

def addsDividesLooks : List Utf8.Source :=
  [.ofBytes [51, 43, 52], .ofBytes [120, 61, 95, 47, 48], .ofBytes [120]]

def keeps (n : Int) (sources : List Utf8.Source) : Bool :=
  match chronicle 10 sources (.initial .rational false .accepting) with
  | some (entries, m) =>
    (match m.stack.globals.find? lastResult with
      | some (.int i .dec) => i = n
      | _ => false) &&
    entries.all fun e =>
      match e.program with
      | .ok t => t.nodes.all fun s => !s.writes lastResult
      | .error _ => true
  | none => false

/-- Behind a failure and a look at a variable the sum is still the latest value. -/
theorem lastResult_is_latest_kept : ∃ entries m,
    chronicle 10 addsDividesLooks (.initial .rational false .accepting) = some (entries, m) ∧
      m.stack.globals.find? lastResult = some (.int 7 .dec) ∧ IsLatest entries (.int 7 .dec) := by
  have seven : keeps 7 addsDividesLooks = true := by decide +kernel
  unfold keeps at seven
  split at seven
  · rename_i entries m ran
    obtain ⟨bound, unwritten⟩ := Bool.and_eq_true_iff.mp seven
    split at bound
    · rename_i i found
      obtain rfl : i = 7 := of_decide_eq_true bound
      have history : Chronicle entries m := (Chronicle.start .rational false .accepting).append ran
      have spared : Unwritten entries := by
        intro e mem t read s inside
        have each := List.all_eq_true.mp unwritten e mem
        rw [read] at each
        simpa using List.all_eq_true.mp each s inside
      obtain ⟨-, latest, -⟩ := lastResult_is_latest entries m history spared
      exact ⟨entries, m, ran, found, (latest _).mp found⟩
    · cases bound
  · cases seven

end Session

end Calculator
