import Calculator.Value.Arithmetic
import Mathlib.Data.List.Forall2

set_option autoImplicit false

namespace Calculator

inductive Value.SameDatum : Value → Value → Prop where
  | int (n : Int) (f g : Flavor) : SameDatum (.int n f) (.int n g)
  | float (x : Float) (f g : Flavor) : SameDatum (.float x f) (.float x g)
  | rational (q : Rat) (f g : Flavor) (p r : Nat) : SameDatum (.rational q f p) (.rational q g r)
  | date (d : Date) : SameDatum (.date d) (.date d)

mutual

/-- Values that are equal up to flavors and precisions. -/
inductive Value.Alike : Value → Value → Prop where
  | datum {a b : Value} (same : Value.SameDatum a b) : Value.Alike a b
  | function (name : String) (params : List String) {b b' : Tree} (body : Tree.Alike b b') :
      Value.Alike (.function name params b) (.function name params b')
  | builtin (b : Builtin) : Value.Alike (.builtin b) (.builtin b)

/-- Trees that are equal up to the flavors and precisions of their constants. -/
inductive Tree.Alike : Tree → Tree → Prop where
  | body (line : Position) {ts ts' : List Tree} (statements : List.Forall₂ Tree.Alike ts ts') :
      Tree.Alike (.body line ts) (.body line ts')
  | constant (line : Position) {v v' : Value} (value : Value.Alike v v') :
      Tree.Alike (.constant line v) (.constant line v')
  | reference (line : Position) (name : String) :
      Tree.Alike (.reference line name) (.reference line name)
  | unary (line : Position) (op : Kind) {t t' : Tree} (operand : Tree.Alike t t') :
      Tree.Alike (.unary line op t) (.unary line op t')
  | binary (line : Position) (op : Kind) {l l' r r' : Tree} (lhs : Tree.Alike l l')
      (rhs : Tree.Alike r r') : Tree.Alike (.binary line op l r) (.binary line op l' r')
  | assign (line : Position) (op : Kind) (target : String) {t t' : Tree} (value : Tree.Alike t t') :
      Tree.Alike (.assign line op target t) (.assign line op target t')
  | whileLoop (line : Position) {g g' b b' : Tree} (guard : Tree.Alike g g')
      (body : Tree.Alike b b') :
      Tree.Alike (.whileLoop line g b) (.whileLoop line g' b')
  | forLoop (line : Position) {i i' g g' s s' b b' : Tree} (init : Tree.Alike i i')
      (guard : Tree.Alike g g') (step : Tree.Alike s s') (body : Tree.Alike b b') :
      Tree.Alike (.forLoop line i g s b) (.forLoop line i' g' s' b')
  | conditional (line : Position) {g g' p p' : Tree} {o o' : Option Tree} (guard : Tree.Alike g g')
      (positive : Tree.Alike p p') (otherwise : Option.Rel Tree.Alike o o') :
      Tree.Alike (.conditional line g p o) (.conditional line g' p' o')
  | define (line : Position) (name : String) (params : List String) {b b' : Tree}
      (body : Tree.Alike b b') :
      Tree.Alike (.define line name params b) (.define line name params b')
  | call (line : Position) (name : String) {ts ts' : List Tree}
      (args : List.Forall₂ Tree.Alike ts ts') :
      Tree.Alike (.call line name ts) (.call line name ts')
  | display (line : Position) {t t' : Tree} (expression : Tree.Alike t t') :
      Tree.Alike (.display line t) (.display line t')
  | setMode (line : Position) (mode : NumericMode) :
      Tree.Alike (.setMode line mode) (.setMode line mode)
  | toggleProgrammer (line : Position) :
      Tree.Alike (.toggleProgrammer line) (.toggleProgrammer line)
  | exit (line : Position) : Tree.Alike (.exit line) (.exit line)

end

theorem Tree.Alike.line_eq {t t' : Tree} (h : t.Alike t') : t.line = t'.line := by
  cases h <;> rfl

def EvalError.OfValues (e : EvalError) : Prop :=
  ∀ op line, e ≠ .badOperator op line

/-- The same error on both sides, or results that are related. -/
def Concur {α : Type} (R : α → α → Prop) : Except EvalError α → Except EvalError α → Prop
  | .ok a, .ok b => R a b
  | .error e, .error f => e = f ∧ e.OfValues
  | _, _ => False

namespace Concur

variable {α β : Type} {R : α → α → Prop} {S : β → β → Prop}

theorem ok {a b : α} (h : R a b) : Concur R (.ok a) (.ok b) := h

theorem pure {a b : α} (h : R a b) : Concur R (Pure.pure a) (Pure.pure b) := h

theorem error {e : EvalError} (h : e.OfValues) : Concur R (.error e) (.error e) :=
  ⟨rfl, h⟩

theorem bind {x y : Except EvalError α} {f g : α → Except EvalError β} (head : Concur R x y)
    (tail : ∀ a b, R a b → Concur S (f a) (g b)) : Concur S (x >>= f) (y >>= g) := by
  cases x with
  | ok a =>
    cases y with
    | ok b => exact tail a b head
    | error f => exact head.elim
  | error e =>
    cases y with
    | ok b => exact head.elim
    | error f => exact head

theorem bind_eq {x y : Except EvalError α} {f g : α → Except EvalError β} (head : Concur Eq x y)
    (tail : ∀ a, Concur S (f a) (g a)) : Concur S (x >>= f) (y >>= g) :=
  head.bind fun a _ same => same ▸ tail a

end Concur

namespace Value

section
variable {a a' b b' : Value} (ha : a.Alike a') (hb : b.Alike b')

include ha

theorem Alike.kind_eq : a.kind = a'.kind := by
  cases ha with
  | datum same => cases same <;> rfl
  | function | builtin => rfl

theorem Alike.breadth_eq : a.breadth = a'.breadth := by
  cases ha with
  | datum same => cases same <;> rfl
  | function | builtin => rfl

theorem Alike.isCallable_eq : a.isCallable = a'.isCallable := by
  cases ha with
  | datum same => cases same <;> rfl
  | function | builtin => rfl

theorem toInt_alike (op : String) (line : Position) :
    Concur Eq (a.toInt op line) (a'.toInt op line) := by
  cases ha with
  | datum same => cases same <;> first | exact .ok rfl | exact .error nofun
  | function | builtin => exact .error nofun

theorem toRational_alike (op : String) (line : Position) :
    Concur Eq (a.toRational op line) (a'.toRational op line) := by
  cases ha with
  | datum same => cases same <;> first | exact .ok rfl | exact .error nofun
  | function | builtin => exact .error nofun

theorem toFloat_alike (op : String) (line : Position) :
    Concur Eq (a.toFloat op line) (a'.toFloat op line) := by
  cases ha with
  | datum same => cases same <;> first | exact .ok rfl | exact .error nofun
  | function | builtin => exact .error nofun

theorem toBool_alike (line : Position) : Concur Eq (a.toBool line) (a'.toBool line) := by
  cases ha with
  | datum same => cases same <;> first | exact .ok rfl | exact .error nofun
  | function | builtin => exact .error nofun

theorem dayCount_alike (op : Operation) (line : Position) :
    Concur Eq (a.dayCount op line) (a'.dayCount op line) := by
  refine (toInt_alike ha op.symbol line).bind_eq fun n => ?_
  split
  · exact .ok rfl
  · exact .error nofun

omit ha

theorem shiftDate_concur (d : Date) (days : Int) (line : Position) :
    Concur SameDatum (shiftDate d days line) (shiftDate d days line) := by
  unfold shiftDate
  split
  · exact .ok (.date _)
  · exact .error nofun

include ha hb

theorem Alike.widest_eq : a.widest b = a'.widest b' := by
  unfold widest
  rw [ha.breadth_eq, hb.breadth_eq]

theorem unsupported_alike {α : Type} {R : α → α → Prop} (op : Operation) (line : Position) :
    Concur R (.error (unsupported op a b line)) (.error (unsupported op a' b' line)) := by
  have same : unsupported op a b line = unsupported op a' b' line := by
    unfold unsupported
    rw [ha.widest_eq hb, ha.isCallable_eq, ha.kind_eq, hb.kind_eq]
  exact ⟨same, nofun⟩

theorem integer_alike {op : String} {line : Position} {f : Int → Int → Int} {g h : Flavor} :
    Concur SameDatum (do return .int (f (← a.toInt op line) (← b.toInt op line)) g)
      (do return .int (f (← a'.toInt op line) (← b'.toInt op line)) h) :=
  (toInt_alike ha op line).bind_eq fun _ => (toInt_alike hb op line).bind_eq fun _ =>
    .pure (.int _ g h)

theorem rational_alike {op : String} {line : Position} {f : Rat → Rat → Rat} {g h : Flavor}
    {p r : Nat} :
    Concur SameDatum (do return .rational (f (← a.toRational op line) (← b.toRational op line)) g p)
      (do return .rational (f (← a'.toRational op line) (← b'.toRational op line)) h r) :=
  (toRational_alike ha op line).bind_eq fun _ => (toRational_alike hb op line).bind_eq fun _ =>
    .pure (.rational _ g h p r)

theorem float_alike {op : String} {line : Position} {f : Float → Float → Float} {g h : Flavor} :
    Concur SameDatum (do return .float (f (← a.toFloat op line) (← b.toFloat op line)) g)
      (do return .float (f (← a'.toFloat op line) (← b'.toFloat op line)) h) :=
  (toFloat_alike ha op line).bind_eq fun _ => (toFloat_alike hb op line).bind_eq fun _ =>
    .pure (.float _ g h)

theorem add_alike (line : Position) : Concur SameDatum (a.add b line) (a'.add b' line) := by
  have unsupported := unsupported_alike (R := SameDatum) ha hb .add line
  have shift {v v' : Value} (h : v.Alike v') (d : Date) :
      Concur SameDatum (do shiftDate d (← v.dayCount .add line) line)
        (do shiftDate d (← v'.dayCount .add line) line) :=
    (dayCount_alike h .add line).bind_eq fun n => shiftDate_concur d n line
  unfold add
  rw [← ha.widest_eq hb]
  dsimp only
  split
  · exact integer_alike ha hb
  · exact rational_alike ha hb
  · exact float_alike ha hb
  · have first := ha
    cases ha with
    | datum same =>
      cases same with
      | date d => exact shift hb d
      | int | float | rational =>
        cases hb with
        | datum same => cases same <;> first | exact shift first _ | exact unsupported
        | function | builtin => exact unsupported
    | function | builtin =>
      cases hb with
      | datum same => cases same <;> first | exact shift first _ | exact unsupported
      | function | builtin => exact unsupported
  · exact unsupported

theorem subtract_alike (line : Position) :
    Concur SameDatum (a.subtract b line) (a'.subtract b' line) := by
  have unsupported := unsupported_alike (R := SameDatum) ha hb .subtract line
  have backwards {v v' : Value} (h : v.Alike v') (d : Date) :
      Concur SameDatum
        (do
          let days ← v.dayCount .subtract line
          if days = Word.least64 then .error (.domain .dayOffsetOutOfRange line)
          else shiftDate d (-days) line)
        (do
          let days ← v'.dayCount .subtract line
          if days = Word.least64 then .error (.domain .dayOffsetOutOfRange line)
          else shiftDate d (-days) line) := by
    refine (dayCount_alike h .subtract line).bind_eq fun days => ?_
    split
    · exact .error nofun
    · exact shiftDate_concur d (-days) line
  unfold subtract
  rw [← ha.widest_eq hb]
  dsimp only
  split
  · exact integer_alike ha hb
  · exact rational_alike ha hb
  · exact float_alike ha hb
  · cases ha with
    | datum same =>
      cases same with
      | date d =>
        have second := hb
        cases hb with
        | datum same => cases same <;> first | exact .ok (.int _ _ _) | exact backwards second d
        | function | builtin => exact backwards second d
      | int | float | rational => exact unsupported
    | function | builtin => exact unsupported
  · exact unsupported

theorem multiply_alike (line : Position) :
    Concur SameDatum (a.multiply b line) (a'.multiply b' line) := by
  have unsupported := unsupported_alike (R := SameDatum) ha hb .multiply line
  unfold multiply
  rw [← ha.widest_eq hb]
  dsimp only
  split
  · exact integer_alike ha hb
  · exact rational_alike ha hb
  · exact float_alike ha hb
  · exact unsupported
  · exact unsupported

theorem divideExactly_alike (line : Position) :
    Concur SameDatum (a.divideExactly b line) (a'.divideExactly b' line) := by
  refine (toRational_alike hb _ line).bind_eq fun divisor => ?_
  split
  · exact .error nofun
  · exact (toRational_alike ha _ line).bind_eq fun x => .pure (.rational _ _ _ _ _)

theorem divide_alike (mode : NumericMode) (line : Position) :
    Concur SameDatum (divide mode a b line) (divide mode a' b' line) := by
  have unsupported := unsupported_alike (R := SameDatum) ha hb .divide line
  have floats : Concur SameDatum (a.divideFloats b line) (a'.divideFloats b' line) :=
    float_alike ha hb
  unfold divide
  rw [← ha.widest_eq hb]
  split
  · exact unsupported
  · exact unsupported
  · exact .error nofun
  · exact floats
  · exact divideExactly_alike ha hb line
  · exact floats

theorem remainder_alike (line : Position) :
    Concur SameDatum (a.remainder b line) (a'.remainder b' line) := by
  have unsupported := unsupported_alike (R := SameDatum) ha hb .remainder line
  unfold remainder
  rw [← ha.widest_eq hb]
  dsimp only
  split
  · refine (toInt_alike hb _ line).bind_eq fun divisor => ?_
    split
    · exact .error nofun
    · exact (toInt_alike ha _ line).bind_eq fun x => .pure (.int _ _ _)
  · exact unsupported

omit ha hb in
theorem rationalPower_concur (base : Rat) (exponent : Int) (p r : Nat) (line : Position) :
    Concur SameDatum (rationalPower base exponent p line) (rationalPower base exponent r line) := by
  unfold rationalPower
  split
  · exact .error nofun
  · split
    · exact .error nofun
    · exact .ok (.rational _ _ _ _ _)

theorem floatPower_alike (line : Position) :
    Concur Eq (a.floatPower b line) (a'.floatPower b' line) :=
  (toFloat_alike ha _ line).bind_eq fun _ => (toFloat_alike hb _ line).bind_eq fun _ => .pure rfl

theorem fractionalPower_alike (mode : NumericMode) (line : Position) :
    Concur SameDatum (fractionalPower mode a b line) (fractionalPower mode a' b' line) := by
  refine (floatPower_alike ha hb line).bind_eq fun x => ?_
  split
  · exact .error nofun
  · exact .ok (.float _ _ _)
  · split
    · exact .error nofun
    · exact .ok (.rational _ _ _ _ _)

theorem integerPower_alike (mode : NumericMode) (line : Position) :
    Concur SameDatum (integerPower mode a b line) (integerPower mode a' b' line) := by
  refine (toInt_alike ha _ line).bind_eq fun base => ?_
  refine (toInt_alike hb _ line).bind_eq fun exponent => ?_
  split
  · split
    · exact .pure (.int _ _ _)
    · exact .error nofun
  · split
    · exact .error nofun
    · exact (floatPower_alike ha hb line).bind_eq fun x => .pure (.float _ _ _)
    · exact (toRational_alike ha _ line).bind_eq fun x => rationalPower_concur _ _ _ _ line

theorem power_alike (mode : NumericMode) (line : Position) :
    Concur SameDatum (power mode a b line) (power mode a' b' line) := by
  have unsupported := unsupported_alike (R := SameDatum) ha hb .power line
  unfold power
  rw [← ha.widest_eq hb]
  dsimp only
  split
  · exact integerPower_alike ha hb mode line
  · refine (toRational_alike ha _ line).bind_eq fun base => ?_
    refine (toRational_alike hb _ line).bind_eq fun exponent => ?_
    split
    · exact rationalPower_concur _ _ _ _ line
    · exact fractionalPower_alike ha hb mode line
  · exact (floatPower_alike ha hb line).bind_eq fun x => .pure (.float _ _ _)
  · exact unsupported
  · exact unsupported

theorem bitwise_alike (op : Operation) (f : Int → Int → Int) (line : Position) :
    Concur SameDatum (bitwise op f a b line) (bitwise op f a' b' line) := by
  have unsupported := unsupported_alike (R := SameDatum) ha hb op line
  unfold bitwise
  rw [← ha.widest_eq hb]
  split
  · exact integer_alike ha hb
  · exact unsupported

theorem logical_alike (f : Bool → Bool → Bool) (line : Position) :
    Concur SameDatum (logical f a b line) (logical f a' b' line) :=
  (toBool_alike ha line).bind_eq fun _ => (toBool_alike hb line).bind_eq fun _ =>
    .pure (.int _ _ _)

theorem compare?_alike (op : Operation) (line : Position) :
    Concur Eq (compare? op a b line) (compare? op a' b' line) := by
  have unsupported := unsupported_alike (R := Eq (α := Option Ordering)) ha hb op line
  unfold compare?
  rw [← ha.widest_eq hb]
  split
  · exact (toInt_alike ha _ line).bind_eq fun _ => (toInt_alike hb _ line).bind_eq fun _ =>
      .pure rfl
  · exact (toRational_alike ha _ line).bind_eq fun _ =>
      (toRational_alike hb _ line).bind_eq fun _ => .pure rfl
  · exact (toFloat_alike ha _ line).bind_eq fun _ => (toFloat_alike hb _ line).bind_eq fun _ =>
      .pure rfl
  · cases ha with
    | datum same =>
      cases same with
      | date d =>
        cases hb with
        | datum same => cases same <;> first | exact .ok rfl | exact unsupported
        | function | builtin => exact unsupported
      | int | float | rational => exact unsupported
    | function | builtin => exact unsupported
  · exact unsupported

theorem comparison_alike (op : Operation) (test : Option Ordering → Bool) (line : Position) :
    Concur SameDatum (comparison op test a b line) (comparison op test a' b' line) :=
  (compare?_alike ha hb op line).bind_eq fun _ => .pure (.int _ _ _)

/-- No operation looks at flavors or precisions for anything but these. -/
theorem apply_alike (op : Operation) (mode : NumericMode) (line : Position) :
    Concur SameDatum (a.apply op mode b line) (a'.apply op mode b' line) := by
  cases op with
  | add => exact add_alike ha hb line
  | subtract => exact subtract_alike ha hb line
  | multiply => exact multiply_alike ha hb line
  | divide => exact divide_alike ha hb mode line
  | remainder => exact remainder_alike ha hb line
  | power => exact power_alike ha hb mode line
  | logicalOr | logicalAnd => exact logical_alike ha hb _ line
  | bitOr | bitAnd => exact bitwise_alike ha hb _ _ line
  | equal | notEqual | greater | greaterEqual | less | lessEqual =>
    exact comparison_alike ha hb _ _ line

omit hb

theorem negate_alike (line : Position) : Concur SameDatum (a.negate line) (a'.negate line) := by
  cases ha with
  | datum same =>
    cases same with
    | int => exact .ok (.int _ _ _)
    | float => exact .ok (.float _ _ _)
    | rational => exact .ok (.rational _ _ _ _ _)
    | date => exact .error nofun
  | function | builtin => exact .error nofun

theorem not_alike (line : Position) : Concur SameDatum (a.not line) (a'.not line) := by
  cases ha with
  | datum same => cases same <;> first | exact .ok (.int _ _ _) | exact .error nofun
  | function | builtin => exact .error nofun

theorem transform_alike (t : Transformation) (line : Position) :
    Concur SameDatum (a.transform t line) (a'.transform t line) := by
  cases t with
  | negate => exact negate_alike ha line
  | not => exact not_alike ha line

theorem step_alike (s : Step) (line : Position) :
    Concur SameDatum (a.step s line) (a'.step s line) := by
  cases ha with
  | datum same =>
    cases same with
    | int => exact .ok (.int _ _ _)
    | float => exact .ok (.float _ _ _)
    | rational => exact .ok (.rational _ _ _ _ _)
    | date => exact .error nofun
  | function | builtin => exact .error nofun

end

end Value

namespace Builtin

open Value

section
variable {v v' : Value} (h : v.Alike v')
include h

theorem onFloat_alike (b : Builtin) (f : Float → Float) (line : Position) :
    Concur SameDatum (onFloat b f v line) (onFloat b f v' line) :=
  (toFloat_alike h b.name line).bind_eq fun _ => .pure (.float _ _ _)

theorem absolute_alike (line : Position) :
    Concur SameDatum (absolute v line) (absolute v' line) := by
  cases h with
  | datum same =>
    cases same with
    | int => exact .ok (.int _ _ _)
    | float => exact .ok (.float _ _ _)
    | rational => exact .ok (.rational _ _ _ _ _)
    | date => exact .error nofun
  | function | builtin => exact .error nofun

theorem rounded_alike (b : Builtin) (f : Rat → Int) (line : Position) :
    Concur SameDatum (rounded b f v line) (rounded b f v' line) := by
  cases h with
  | datum same =>
    cases same with
    | int => exact .ok (.int _ _ _)
    | float x =>
      simp only [rounded]
      split
      · exact .ok (.int _ _ _)
      · exact .error nofun
    | rational => exact .ok (.int _ _ _)
    | date => exact .error nofun
  | function | builtin => exact .error nofun

theorem applyTo_alike (b : Builtin) (line : Position) :
    Concur SameDatum (b.applyTo v line) (b.applyTo v' line) := by
  cases b with
  | abs => exact absolute_alike h line
  | floor | ceil => exact rounded_alike h _ _ line
  | acos | asin | atan | cos | cosh | ln | log10 | log2 | sin | sinh | sqrt | tan | tanh =>
    exact onFloat_alike h _ _ line

end

theorem single_alike (b : Builtin) {vs vs' : List Value} (h : List.Forall₂ Value.Alike vs vs')
    (line : Position) : Concur Value.Alike (b.single vs line) (b.single vs' line) := by
  cases h with
  | nil => exact .error nofun
  | cons head tail =>
    cases tail with
    | nil => exact .ok head
    | cons _ rest =>
      unfold single
      rw [List.length_cons, List.length_cons, rest.length_eq]
      exact .error nofun

theorem apply_alike (b : Builtin) {vs vs' : List Value} (h : List.Forall₂ Value.Alike vs vs')
    (line : Position) : Concur SameDatum (b.apply vs line) (b.apply vs' line) :=
  (b.single_alike h line).bind fun _ _ alike => applyTo_alike alike b line

end Builtin

mutual

theorem Value.Alike.refl : ∀ v : Value, v.Alike v
  | .int n f => .datum (.int n f f)
  | .float x f => .datum (.float x f f)
  | .rational q f p => .datum (.rational q f f p p)
  | .date d => .datum (.date d)
  | .function name params body => .function name params (Tree.Alike.refl body)
  | .builtin b => .builtin b

theorem Tree.Alike.refl : ∀ t : Tree, t.Alike t
  | .body line ts => .body line (Tree.Alike.refl_list ts)
  | .constant line v => .constant line (Value.Alike.refl v)
  | .reference line x => .reference line x
  | .unary line op t => .unary line op (Tree.Alike.refl t)
  | .binary line op l r => .binary line op (Tree.Alike.refl l) (Tree.Alike.refl r)
  | .assign line op x t => .assign line op x (Tree.Alike.refl t)
  | .whileLoop line g b => .whileLoop line (Tree.Alike.refl g) (Tree.Alike.refl b)
  | .forLoop line i g s b =>
    .forLoop line (Tree.Alike.refl i) (Tree.Alike.refl g) (Tree.Alike.refl s) (Tree.Alike.refl b)
  | .conditional line g p none => .conditional line (Tree.Alike.refl g) (Tree.Alike.refl p) .none
  | .conditional line g p (some o) =>
    .conditional line (Tree.Alike.refl g) (Tree.Alike.refl p) (.some (Tree.Alike.refl o))
  | .define line x params b => .define line x params (Tree.Alike.refl b)
  | .call line x ts => .call line x (Tree.Alike.refl_list ts)
  | .display line t => .display line (Tree.Alike.refl t)
  | .setMode line mode => .setMode line mode
  | .toggleProgrammer line => .toggleProgrammer line
  | .exit line => .exit line

theorem Tree.Alike.refl_list : ∀ ts : List Tree, List.Forall₂ Tree.Alike ts ts
  | [] => .nil
  | t :: ts => .cons (Tree.Alike.refl t) (Tree.Alike.refl_list ts)

end

end Calculator
