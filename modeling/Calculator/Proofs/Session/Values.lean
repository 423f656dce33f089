import Calculator.Proofs.Session.Policy
import Calculator.Proofs.Tree.Yield

set_option autoImplicit false

namespace Calculator

def Tree.RootHolds (D : Value → Prop) : Tree → Prop
  | .constant _ v => v.isCallable = false ∧ D v
  | _ => True

namespace Value

/-- The value has the property, or, if it is a function, the constants in its body have it. -/
def Every (D : Value → Prop) : Value → Prop
  | .function _ _ body => body.All (Tree.RootHolds D)
  | v => D v

def Inherited (fresh : Breadth → Prop) (D : Value → Prop) : Prop :=
  ∀ made vs v, (∀ k ∈ made, fresh k) → (∀ w ∈ vs, w.isCallable = false → D w) →
    Stems made vs v → D v

theorem inherited_trivial : Inherited (fun _ => True) fun _ => True :=
  fun _ _ _ _ _ _ => trivial

theorem inherited_wellFormed : Inherited (fun _ => True) WellFormed := by
  intro made vs v _ each stems
  refine stems.wellFormed fun w mem => ?_
  cases w with
  | function | builtin => trivial
  | int | float | rational | date => exact each _ mem rfl

theorem isCallable_of_breadth {v w : Value} (same : w.breadth = v.breadth) :
    w.isCallable = v.isCallable := by
  cases w <;> cases v <;> first | rfl | cases same

theorem inherited_breadth {fresh : Breadth → Prop} (integer : fresh .integer) (date : fresh .date) :
    Inherited fresh fun v => fresh v.breadth := by
  intro made vs v only each stems
  rcases stems.breadth with same | same | ⟨w, mem, same⟩ | made
  · exact same ▸ integer
  · exact same ▸ date
  · exact same ▸ each w mem ((isCallable_of_breadth same).trans stems.isDatum)
  · exact only _ made

end Value

namespace Policy

/-- Numbers and dates have the property, in these modes and with these builtin functions. -/
def holding (D shown : Value → Prop) (M : NumericMode → Prop) (B : Builtin → Prop) : Policy where
  node t := t.RootHolds D ∧ ∀ line mode, t = .setMode line mode → M mode ∧ mode ≠ .undefined
  datum := D
  shown := shown
  mode := M
  builtin := B

section
variable {fresh : Breadth → Prop} {D shown : Value → Prop} {M : NumericMode → Prop}
  {B : Builtin → Prop} {F : Failure → Prop} {v : Value}

theorem every_of_allows (h : (holding D shown M B).Allows v) : v.Every D := by
  cases v with
  | function name params body => exact Tree.All.mono h fun _ both => both.1
  | int | float | rational | date | builtin => exact h

theorem sound_holding (inherited : Value.Inherited fresh D)
    (modes : ∀ mode, M mode → ∀ k ∈ mode.breadth?, fresh k)
    (builtins : ∀ b, B b → ∀ k ∈ b.breadth?, fresh k) (displayed : ∀ v, v.Every D → shown v)
    (error : ∀ e : EvalError, (∀ op line, e = .modeUndefined op line → M .undefined) → F ⟨e, []⟩) :
    (holding D shown M B).Sound F where
  boolean b := inherited none [] _ nofun nofun (.boolean b)
  constant _ _ holds := (allows_iff holds.1.1).mpr holds.1.2
  setting line mode set := (set.2 line mode rfl).1
  shown _ allowed := displayed _ (every_of_allows allowed)
  operation mode vs v allowed each stems :=
    inherited _ vs v (modes mode allowed)
      (fun w mem isDatum => (allows_iff isDatum).mp (each w mem)) stems
  application b vs v called each stems :=
    inherited _ vs v (builtins b called)
      (fun w mem isDatum => (allows_iff isDatum).mp (each w mem)) stems
  error e arises := error e arises.ofMode
  prefixed _ _ _ _ _ := error _ nofun
  operator _ _ _ _ _ _ := error _ nofun

theorem nodes_holding (inherited : Value.Inherited fresh D)
    (modes : ∀ mode, M mode → ∀ k ∈ mode.breadth?, fresh k) {t : Tree}
    (h : t.All (Tree.RootReadIn M)) : t.All (holding D shown M B).node := by
  refine h.mono fun s read => ⟨?_, ?_⟩
  · cases s with
    | constant line v =>
      obtain ⟨mode, token, allowed, value⟩ := read
      have isValue := Literal.isValue_value mode token
      rw [value] at isValue
      exact ⟨isValue.isDatum, inherited _ [] v (modes mode allowed) nofun isValue⟩
    | _ => trivial
  · rintro line mode rfl
    exact read

end

def wellFormed : Policy :=
  holding Value.WellFormed (fun _ => True) (fun _ => True) fun _ => True

theorem sound_wellFormed : wellFormed.Sound fun _ => True :=
  sound_holding Value.inherited_wellFormed (fun _ _ _ _ => trivial) (fun _ _ _ _ => trivial)
    (fun _ _ => trivial) fun _ _ => trivial

theorem free_wellFormed : wellFormed.Free :=
  ⟨fun _ => trivial, fun _ => trivial, fun _ => trivial, fun _ => trivial⟩

theorem nodes_wellFormed {source : Utf8.Source} {mode : NumericMode} {t : Tree}
    (read : Tree.parse source mode = .ok t) : t.All wellFormed.node :=
  nodes_holding Value.inherited_wellFormed (fun _ _ _ _ => trivial)
    (Tree.readIn_of_parse trivial ⟨fun _ => trivial, fun _ => trivial⟩ read)

end Policy

namespace Session

open Policy

/-- In every session the values that names are bound to are well formed, and so are the constants
of functions that are stored and the values that programs answer. -/
theorem values_wellFormed {m : Machine} (h : Reachable m) :
    m.stack.Holds (Value.Every Value.WellFormed) ∧
      ∀ fuel source v m', eval m fuel source = .ok v m' → v.Every Value.WellFormed := by
  have within : Policy.wellFormed.Within m :=
    h.within (fun _ _ => id) sound_wellFormed free_wellFormed fun _ _ _ => nodes_wellFormed
  refine ⟨within.stack.mono fun _ => every_of_allows, fun fuel source v m' run => ?_⟩
  have observed : Policy.wellFormed.ObservedIn m source :=
    free_wellFormed.observedIn within fun _ => nodes_wellFormed
  exact every_of_allows (kept_eval (fun _ _ => id) sound_wellFormed within observed run).1

def definesQuarter : Utf8.Source :=
  .ofBytes [102, 117, 110, 99, 32, 102, 40, 120, 41, 123, 120, 42, 48, 46, 50, 53, 59, 125, 121, 61,
    49, 46, 53, 48, 42, 42, 51]

def callsQuarter : Utf8.Source :=
  .ofBytes [102, 40, 121, 41, 45, 121]

def showsAfter (m : Machine) (first second : Utf8.Source) (precision : Nat) : Bool :=
  match eval m 10 first with
  | .ok _ m' =>
    match eval m' 10 second with
    | .ok (.rational _ _ p) _ => p = precision
    | _ => false
  | _ => false

/-- A stored function is applied to a stored power. -/
theorem values_wellFormed_quarter : ∃ m m' q flavor, Reachable m ∧
    eval m 10 callsQuarter = .ok (.rational q flavor 8) m' ∧
    m.stack.Holds (Value.Every Value.WellFormed) ∧ (Value.rational q flavor 8).WellFormed := by
  have shows :
      showsAfter (.initial .rational false .accepting) definesQuarter callsQuarter 8 = true := by
    decide +kernel
  unfold showsAfter at shows
  split at shows
  · rename_i w m first
    split at shows
    · rename_i q flavor p m' second
      obtain rfl := of_decide_eq_true shows
      have reachable : Reachable m := .answered (.start _ _ _) first
      obtain ⟨stored, answers⟩ := values_wellFormed reachable
      exact ⟨m, m', q, flavor, reachable, second, stored, answers 10 _ _ _ second⟩
    · cases shows
  · cases shows

end Session

end Calculator
