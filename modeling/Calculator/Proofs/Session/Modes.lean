import Calculator.Proofs.Session.Values

set_option autoImplicit false

namespace Calculator

def ProgramError.IsOfMode : ProgramError → Prop
  | .syntaxError e => e.cause = .realInUndefinedMode
  | .failure f => ∃ op line, f.error = .modeUndefined op line

/-- All values that are stored or displayed have the property. -/
structure Machine.HoldsOnly (D : Value → Prop) (m : Machine) : Prop where
  stored : m.stack.Holds (Value.Every D)
  displayed : ∀ d ∈ m.displays, d.value.Every D

namespace Session

/-- The machines of sessions that start in this mode and run such programs. The host changes the
other settings and takes the output, but leaves the mode to the programs. -/
inductive History (start : NumericMode) (asked : Machine → Utf8.Source → Prop) :
    Machine → Prop where
  | start (programmer : Bool) (writer : Writer) :
      History start asked (.initial start programmer writer)
  | answered {m m' : Machine} {fuel : Nat} {source : Utf8.Source} {v : Value}
      (before : History start asked m) (ask : asked m source)
      (run : eval m fuel source = .ok v m') : History start asked m'
  | failed {m m' : Machine} {fuel : Nat} {source : Utf8.Source} {e : ProgramError}
      (before : History start asked m) (ask : asked m source)
      (run : eval m fuel source = .error e m') : History start asked m'
  | host {m : Machine} (programmer : Bool) (writer : Writer) (before : History start asked m) :
      History start asked { m with programmer := programmer, writer := writer }
  | taken {m : Machine} (before : History start asked m) : History start asked m.withoutOutput

/-- The program that the text is read as comes to the part, on this machine. -/
def Underway (m : Machine) (source : Utf8.Source) (part : Part) (mₗ : Machine) : Prop :=
  ∃ t calls, Tree.parse source m.mode = .ok t ∧
    (Part.tree t).ComesTo { m with exiting := false } calls part mₗ

/-- The run of the program that the text is read as passes the machine. -/
def Passes (m : Machine) (source : Utf8.Source) (m' : Machine) : Prop :=
  ∃ t, Tree.parse source m.mode = .ok t ∧ (Part.tree t).Passes { m with exiting := false } m'

/-- The text has the tokens `@`, `:` and this name in a row, whatever blanks are between them. -/
def Sets (option : String) (source : Utf8.Source) : Prop :=
  Token.Sets option (Lexer.ofSource source).tokens

/-- The program calls builtin functions of these only. -/
def CallsOnly (functions : List Builtin) (m : Machine) (source : Utf8.Source) : Prop :=
  ∀ part mₗ b, Underway m source part mₗ → part.Applies mₗ b → b ∈ functions

/-- In all sessions that start in this mode and run such programs, the values that are stored or
displayed at any moment, and those that are answered, have the property. -/
def Confines (start : NumericMode) (asked : Machine → Utf8.Source → Prop) (D : Value → Prop) :
    Prop :=
  ∀ m, History start asked m → m.HoldsOnly D ∧ ∀ source, asked m source →
    (∀ m', Passes m source m' → m'.HoldsOnly D) ∧
      ∀ fuel v m', eval m fuel source = .ok v m' → v.Every D

open Policy

section
variable {P : Policy} {F : Failure → Prop} {D : Value → Prop} {start : NumericMode}
  {asked : Machine → Utf8.Source → Prop} {m : Machine} {source : Utf8.Source}
  (noted : ∀ f entry, F f → F (f.noted entry)) (sound : P.Sound F) (allowed : P.mode start)
  (values : ∀ b, P.datum (.builtin b))
  (observed : ∀ m source, P.Within m → asked m source → P.ObservedIn m source)

include noted sound allowed values observed

theorem History.within (h : History start asked m) : P.Within m := by
  induction h with
  | start programmer writer => exact within_initial allowed values programmer writer
  | answered before ask run ih | failed before ask run ih =>
    exact (kept_eval noted sound ih (observed _ _ ih ask) run).2
  | host programmer writer before ih => exact ⟨ih.stack, ih.mode, ih.displays⟩
  | taken before ih => exact ⟨ih.stack, ih.mode, nofun⟩

theorem confines (every : ∀ v, P.Allows v → v.Every D) (displayed : ∀ v, P.shown v → v.Every D) :
    Confines start asked D := by
  have only {m : Machine} (within : P.Within m) : m.HoldsOnly D :=
    ⟨within.stack.mono every, fun d mem => displayed d.value (within.displays d mem)⟩
  intro m h
  have within := h.within noted sound allowed values observed
  refine ⟨only within, fun source ask => ⟨?_, fun fuel v m' run => ?_⟩⟩
  · rintro m' ⟨t, read, passes⟩
    exact only ((observed m source within ask t read).passes noted sound passes)
  · exact every v (kept_eval noted sound within (observed m source within ask) run).1

end

section
variable {D shown : Value → Prop} {start : NumericMode} {asked : Machine → Utf8.Source → Prop}
  {m : Machine} {source : Utf8.Source} {fresh : Breadth → Prop} {M : NumericMode → Prop}
  {B : Builtin → Prop}

theorem observedIn_holding (inherited : Value.Inherited fresh D)
    (modes : ∀ mode, M mode → ∀ k ∈ mode.breadth?, fresh k)
    (settings : Token.SetsOnly M (Lexer.ofSource source).tokens)
    (called : ∀ part mₗ b, Underway m source part mₗ → part.Applies mₗ b → B b)
    (within : (holding D shown M B).Within m) : (holding D shown M B).ObservedIn m source := by
  intro t read
  refine ⟨nodes_holding inherited modes ?_, within.restart, fun calls last mₗ b comes applies => ?_⟩
  · exact Tree.readIn_of_parse within.mode settings read
  · exact called last mₗ b ⟨t, calls, read, comes⟩ applies

variable (fresh M B) in
/-- Sessions keep to the kinds of numbers that their modes and builtin functions make. -/
theorem confines_breadth (integer : fresh .integer) (date : fresh .date)
    (callable : fresh .callable) (modes : ∀ mode, M mode → ∀ k ∈ mode.breadth?, fresh k)
    (builtins : ∀ b, B b → ∀ k ∈ b.breadth?, fresh k) (allowed : M start)
    (settings : ∀ m source, asked m source → Token.SetsOnly M (Lexer.ofSource source).tokens)
    (called : ∀ m source, asked m source →
      ∀ part mₗ b, Underway m source part mₗ → part.Applies mₗ b → B b) :
    Confines start asked fun v => fresh v.breadth := by
  have inherited := Value.inherited_breadth integer date
  have sound : (holding (fun v => fresh v.breadth) (fun v => v.Every fun v => fresh v.breadth)
      M B).Sound fun _ => True :=
    sound_holding inherited modes builtins (fun _ => id) fun _ _ => trivial
  refine confines (fun _ _ => id) sound allowed (fun _ => callable) (fun m source within ask => ?_)
    (fun v => every_of_allows) (fun _ => id)
  exact observedIn_holding inherited modes (settings m source ask) (called m source ask) within

end

section
variable {start : NumericMode} {m mₗ : Machine} {source : Utf8.Source} {part : Part}
  {M : NumericMode → Prop}

/-- Programs may do whatever they like but make the mode undefined. -/
def defining (M : NumericMode → Prop) : Policy :=
  holding (fun _ => True) (fun _ => True) M fun _ => True

theorem sound_defining {F : Failure → Prop}
    (error : ∀ e : EvalError, (∀ op line, e = .modeUndefined op line → M .undefined) → F ⟨e, []⟩) :
    (defining M).Sound F :=
  sound_holding Value.inherited_trivial (fun _ _ _ _ => trivial) (fun _ _ _ _ => trivial)
    (fun _ _ => trivial) error

theorem observedIn_defining (float : M .float) (rational : M .rational)
    (within : (defining M).Within m) : (defining M).ObservedIn m source :=
  observedIn_holding Value.inherited_trivial (fun _ _ _ _ => trivial)
    ⟨fun _ => float, fun _ => rational⟩ (fun _ _ _ _ _ => trivial) within

theorem History.within_defining {asked : Machine → Utf8.Source → Prop} (float : M .float)
    (rational : M .rational) (allowed : M start) (h : History start asked m) :
    (defining M).Within m :=
  h.within (F := fun _ => True) (fun _ _ => id) (sound_defining fun _ _ => trivial) allowed
    (fun _ => trivial) fun _ _ within _ => observedIn_defining float rational within

theorem observed_defined (h : (defining fun _ => True).Observed part mₗ)
    (mode : mₗ.mode ≠ .undefined) : (defining (· ≠ .undefined)).Observed part mₗ := by
  have nodes {t : Tree} (all : t.All (defining fun _ => True).node) :
      t.All (defining (· ≠ .undefined)).node :=
    all.mono fun s both => ⟨both.1, fun line mode same =>
      ⟨(both.2 line mode same).2, (both.2 line mode same).2⟩⟩
  refine ⟨?_, ⟨h.within.stack.mono fun v allowed => ?_, mode, h.within.displays⟩,
    fun _ _ _ _ _ _ => trivial⟩
  · have all := h.nodes
    cases part with
    | tree t => exact nodes all
    | row ts => exact fun t mem => nodes (all t mem)
    | loop guard body step =>
      exact ⟨nodes all.1, nodes all.2.1, fun t mem => nodes (all.2.2 t mem)⟩
  · cases v with
    | function name params body => exact nodes allowed
    | int | float | rational | date | builtin => trivial

theorem mode_ne_undefined {asked : Machine → Utf8.Source → Prop} (h : History start asked m)
    (underway : Underway m source part mₗ) (mode : mₗ.mode ≠ .undefined) {m' : Machine}
    (passes : part.Passes mₗ m') : m'.mode ≠ .undefined := by
  have within : (defining fun _ => True).Within m := h.within_defining trivial trivial trivial
  obtain ⟨t, calls, read, comes⟩ := underway
  have observed : (defining fun _ => True).Observed part mₗ :=
    (observedIn_defining trivial trivial within t read).comesTo (F := fun _ => True)
      (fun _ _ => id) (sound_defining fun _ _ => trivial) comes
  exact ((observed_defined observed mode).passes (F := fun _ => True) (fun _ _ => id)
    (sound_defining fun _ _ => trivial) passes).mode

theorem not_isOfMode {asked : Machine → Utf8.Source → Prop} (defined : start ≠ .undefined)
    (h : History start asked m) {fuel : Nat} {e : ProgramError} {m' : Machine}
    (run : eval m fuel source = .error e m') : ¬e.IsOfMode := by
  have within : (defining (· ≠ .undefined)).Within m := h.within_defining nofun nofun defined
  have sound : (defining (· ≠ .undefined)).Sound fun f =>
      ∀ op line, f.error ≠ .modeUndefined op line :=
    sound_defining fun e never op line same => never op line same rfl
  have kept := kept_eval (fun _ _ => id) sound within (observedIn_defining nofun nofun within) run
  cases e with
  | failure f =>
    rintro ⟨op, line, same⟩
    exact kept.1 f rfl op line same
  | syntaxError e =>
    intro cause
    have refused : Tree.parse source m.mode = .error e := by
      unfold eval at run
      split at run
      · cases run
        assumption
      · split at run <;> cases run
    exact Tree.undefined_of_refused (M := (· ≠ .undefined)) within.mode
      ⟨fun _ => nofun, fun _ => nofun⟩ refused cause rfl

end

/-- No program makes the mode undefined, so sessions that start in another mode have no errors of
it. Without a setting to rationals there are none in a session of floats; without a setting to
floats there are none in a session of rationals, unless it calls builtin functions that compute with
floats; and without either of them there are neither where the mode is undefined. -/
theorem modes_confine_numbers :
    (∀ start m, History start (fun _ _ => True) m → ∀ source part mₗ, Underway m source part mₗ →
      mₗ.mode ≠ .undefined → ∀ m', part.Passes mₗ m' → m'.mode ≠ .undefined) ∧
    (∀ start m, start ≠ .undefined → History start (fun _ _ => True) m →
      ∀ fuel source e m', eval m fuel source = .error e m' → ¬e.IsOfMode) ∧
    Confines .float (fun _ source => ¬Sets "r" source) (fun v => v.breadth ≠ .rational) ∧
    Confines .rational
      (fun m source => ¬Sets "f" source ∧ CallsOnly [.abs, .floor, .ceil] m source)
      (fun v => v.breadth ≠ .float) ∧
    Confines .undefined
      (fun m source => ¬Sets "f" source ∧ ¬Sets "r" source ∧
        CallsOnly [.abs, .floor, .ceil] m source)
      (fun v => v.breadth ≠ .rational ∧ v.breadth ≠ .float) := by
  have makesNone (b : Builtin) (mem : b ∈ [Builtin.abs, .floor, .ceil]) {k : Breadth} :
      k ∉ b.breadth? := by
    simp only [List.mem_cons, List.not_mem_nil, or_false] at mem
    rcases mem with rfl | rfl | rfl <;> exact nofun
  -- What is confined are kinds of numbers; each part has its kinds, modes and builtin functions.
  refine ⟨fun _ _ h _ _ _ => mode_ne_undefined h,
    fun _ _ defined h _ _ _ _ => not_isOfMode defined h, ?_, ?_, ?_⟩
  · refine confines_breadth (· ≠ .rational) (· = .float) (fun _ => True) nofun nofun nofun ?_ ?_ rfl
      (fun m source ask => ⟨fun _ => rfl, fun sets => absurd sets ask⟩)
      fun _ _ _ _ _ _ _ _ => trivial
    · rintro _ rfl _ ⟨⟩
      exact nofun
    · intro b _ k made
      cases b <;> cases made <;> exact nofun
  · refine confines_breadth (· ≠ .float) (· = .rational) (· ∈ [Builtin.abs, .floor, .ceil])
      nofun nofun nofun ?_ (fun b mem k made => absurd made (makesNone b mem)) rfl
      (fun m source ask => ⟨fun sets => absurd sets ask.1, fun _ => rfl⟩)
      fun m source ask => ask.2
    rintro _ rfl _ ⟨⟩
    exact nofun
  · refine confines_breadth (fun k => k ≠ .rational ∧ k ≠ .float) (· = .undefined)
      (· ∈ [Builtin.abs, .floor, .ceil]) ⟨nofun, nofun⟩ ⟨nofun, nofun⟩ ⟨nofun, nofun⟩ ?_
      (fun b mem k made => absurd made (makesNone b mem)) rfl
      (fun m source ask => ⟨fun sets => absurd sets ask.1, fun sets => absurd sets ask.2.1⟩)
      fun m source ask => ask.2.2
    rintro _ rfl _ ⟨⟩

theorem callsOnly_of_callless {functions : List Builtin} {m : Machine} {source : Utf8.Source}
    (callless : ∀ t, Tree.parse source m.mode = .ok t → t.All fun s => s.isCall = false) :
    CallsOnly functions m source := by
  rintro part mₗ b ⟨t, calls, read, comes⟩ applies
  have last : part.All fun s => s.isCall = false := comes.all_of_callless (callless t read)
  cases applies with
  | call => cases last.root

def displaysQuotient : Utf8.Source :=
  .ofBytes [120, 61, 55, 47, 50, 59, 64, 120, 59, 120, 42, 48, 46, 53]

def isQuietAnswer (m : Machine) (source : Utf8.Source) : Bool :=
  match eval m 10 source, Tree.parse source m.mode with
  | .ok (.rational ..) _, .ok t =>
    t.nodes.all (fun s => !s.isCall) &&
      (Lexer.ofSource source).tokens.all fun token => token.kind ≠ .colon
  | _, _ => false

/-- Rationals are divided, displayed and multiplied. -/
theorem modes_confine_numbers_quotient : ∃ q flavor p m',
    eval (.initial .rational false .accepting) 10 displaysQuotient = .ok (.rational q flavor p) m' ∧
      ¬Sets "f" displaysQuotient ∧
      CallsOnly [.abs, .floor, .ceil] (.initial .rational false .accepting) displaysQuotient ∧
      m'.HoldsOnly fun v => v.breadth ≠ .float := by
  have quiet : isQuietAnswer (.initial .rational false .accepting) displaysQuotient = true := by
    decide +kernel
  unfold isQuietAnswer at quiet
  split at quiet
  · rename_i q flavor p m' t run read
    obtain ⟨callless, plain⟩ := Bool.and_eq_true_iff.mp quiet
    have sets : ¬Sets "f" displaysQuotient := by
      rintro ⟨sign, colon, name, row, -, isColon, -⟩
      have mem : colon ∈ (Lexer.ofSource displaysQuotient).tokens := row.subset (by simp)
      exact of_decide_eq_true (List.all_eq_true.mp plain colon mem) isColon
    have calls : CallsOnly [.abs, .floor, .ceil] (.initial .rational false .accepting)
        displaysQuotient := by
      refine callsOnly_of_callless fun t' read' => ?_
      rw [read] at read'
      cases read'
      exact fun s mem => (Bool.not_eq_true' _).mp (List.all_eq_true.mp callless s mem)
    have history : History .rational
        (fun m source => ¬Sets "f" source ∧ CallsOnly [.abs, .floor, .ceil] m source) m' :=
      .answered (.start false .accepting) ⟨sets, calls⟩ run
    exact ⟨q, flavor, p, m', run, sets, calls, (modes_confine_numbers.2.2.2.1 m' history).1⟩
  · cases quiet

end Session

end Calculator
