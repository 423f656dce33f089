import Calculator.Number.Integer.Lemmas
import Calculator.Proofs.Value.Likeness
import Calculator.Tree.Literal

set_option autoImplicit false

/-!
# What operations answer

Whatever an operation or a builtin function answers stems from its operands (`Value.Stems`): it is a
number or a date, of the kind of an operand or else of one that the operation may make afresh, and
well formed if they are. An error is never one of the tree, and one of the mode only if the mode is
undefined (`EvalError.Arises`). Literals are well formed, and the mode decides their kind.
-/
namespace Calculator

def NumericMode.breadth? : NumericMode → Option Breadth
  | .undefined => none
  | .float => some .float
  | .rational => some .rational

def Builtin.breadth? : Builtin → Option Breadth
  | .abs | .floor | .ceil => none
  | _ => some .float

/-- The error is not one of the tree, and one of the mode only under this condition. -/
structure EvalError.Arises (undefined : Prop) (e : EvalError) : Prop where
  ofValues : e.OfValues
  ofMode : ∀ op line, e = .modeUndefined op line → undefined

theorem EvalError.Arises.mono {u u' : Prop} {e : EvalError} (h : e.Arises u) (implies : u → u') :
    e.Arises u' :=
  ⟨h.ofValues, fun op line same => implies (h.ofMode op line same)⟩

/-- A result of this form, or an error that can arise. -/
def Computes {α : Type} (undefined : Prop) (Q : α → Prop) : Except EvalError α → Prop
  | .ok a => Q a
  | .error e => e.Arises undefined

namespace Computes

variable {α β : Type} {u : Prop} {Q : β → Prop} {R : α → Prop} {x : Except EvalError α}
  {f : α → Except EvalError β}

theorem bind (head : Computes u R x) (tail : ∀ a, R a → Computes u Q (f a)) :
    Computes u Q (x >>= f) := by
  cases x with
  | ok a => exact tail a head
  | error e => exact head

theorem pure {b : β} (h : Q b) : Computes u Q (pure b) := h

theorem mono {u' : Prop} {S : α → Prop} (h : Computes u R x) (undefined : u → u')
    (implies : ∀ a, R a → S a) : Computes u' S x := by
  cases x with
  | ok a => exact implies a h
  | error e => exact EvalError.Arises.mono h undefined

end Computes

def Flavor.Suits (flavor : Flavor) : Breadth → Prop
  | .integer => flavor ≠ .exp
  | .rational => flavor = .dec
  | .float => flavor = .dec ∨ flavor = .exp
  | _ => True

theorem Flavor.suits_dec (k : Breadth) : Flavor.dec.Suits k := by
  cases k with
  | integer => exact nofun
  | rational => rfl
  | float => exact .inl rfl
  | date | callable => trivial

theorem Flavor.merge_cases (f g : Flavor) :
    f.merge g = .dec ∨ f.merge g = f ∧ f.merge g = g := by
  unfold merge
  split
  · exact .inr ⟨rfl, ‹_›⟩
  · exact .inl rfl

namespace Value

/-- A number has a flavor of its kind. A rational is shown with 64 digits at most, and without any
only if it is an integer. -/
def WellFormed : Value → Prop
  | .int _ flavor => flavor ≠ .exp
  | .float _ flavor => flavor = .dec ∨ flavor = .exp
  | .rational q flavor precision =>
    precision ≤ 64 ∧ flavor = .dec ∧ (precision = 0 → q.den = 1)
  | .date _ | .function .. | .builtin _ => True

/-- The value is a number or a date that stems from others, of a kind that is among theirs or
fresh. -/
structure Stems (fresh : Option Breadth) (vs : List Value) (v : Value) : Prop where
  isDatum : v.isCallable = false
  breadth : v.breadth = .integer ∨ v.breadth = .date ∨ (∃ w ∈ vs, w.breadth = v.breadth) ∨
    v.breadth ∈ fresh
  wellFormed : (∀ w ∈ vs, w.WellFormed) → v.WellFormed

section
variable {v a b : Value} {q x y : Rat} {flavor : Flavor} {p : Nat}

theorem WellFormed.suits (h : v.WellFormed) : v.flavor.Suits v.breadth := by
  cases v with
  | int | float => exact h
  | rational => exact h.2.1
  | date | function | builtin => trivial

theorem WellFormed.precision_le (h : v.WellFormed) : v.precision ≤ 64 := by
  cases v with
  | rational => exact h.1
  | int | float | date | function | builtin => exact Nat.zero_le 64

theorem wellFormed_rational (small : p ≤ 64) (integral : p = 0 → q.den = 1) :
    (rational q .dec p).WellFormed :=
  ⟨small, rfl, integral⟩

theorem widest_mem (a b : Value) : ∃ w ∈ [a, b], w.breadth = a.widest b := by
  unfold widest Breadth.max
  split
  · exact ⟨b, by simp, rfl⟩
  · exact ⟨a, by simp, rfl⟩

theorem suits_merge (each : ∀ w ∈ [a, b], w.WellFormed) :
    (a.flavor.merge b.flavor).Suits (a.widest b) := by
  rcases Flavor.merge_cases a.flavor b.flavor with dec | ⟨left, right⟩
  · rw [dec]
    exact Flavor.suits_dec _
  · obtain ⟨w, mem, same⟩ := widest_mem a b
    have suits := (each w mem).suits
    rw [same] at suits
    rcases List.mem_pair.mp mem with rfl | rfl
    · rwa [left]
    · rwa [right]

theorem exists_int (h : q.den = 1) : ∃ n : Int, q = n :=
  ⟨q.num, (Rat.den_eq_one_iff q).mp h |>.symm⟩

theorem den_add (hx : x.den = 1) (hy : y.den = 1) : (x + y).den = 1 := by
  obtain ⟨n, rfl⟩ := exists_int hx
  obtain ⟨m, rfl⟩ := exists_int hy
  exact_mod_cast Rat.den_intCast (n + m)

theorem den_sub (hx : x.den = 1) (hy : y.den = 1) : (x - y).den = 1 := by
  obtain ⟨n, rfl⟩ := exists_int hx
  obtain ⟨m, rfl⟩ := exists_int hy
  exact_mod_cast Rat.den_intCast (n - m)

theorem den_mul (hx : x.den = 1) (hy : y.den = 1) : (x * y).den = 1 := by
  obtain ⟨n, rfl⟩ := exists_int hx
  obtain ⟨m, rfl⟩ := exists_int hy
  exact_mod_cast Rat.den_intCast (n * m)

end

namespace Stems

variable {fresh : Option Breadth} {vs : List Value} {flavor : Flavor} {p : Nat}

theorem int {n : Int} (suits : (∀ w ∈ vs, w.WellFormed) → flavor.Suits .integer) :
    Stems fresh vs (.int n flavor) :=
  ⟨rfl, .inl rfl, suits⟩

theorem boolean (b : Bool) : Stems fresh vs (.boolean b) :=
  .int fun _ => nofun

theorem date (d : Date) : Stems fresh vs (.date d) :=
  ⟨rfl, .inr (.inl rfl), fun _ => trivial⟩

theorem float {x : Float} (kind : (∃ w ∈ vs, w.breadth = .float) ∨ .float ∈ fresh)
    (suits : (∀ w ∈ vs, w.WellFormed) → flavor.Suits .float) : Stems fresh vs (.float x flavor) :=
  ⟨rfl, .inr (.inr kind), suits⟩

theorem rational {q : Rat} (kind : (∃ w ∈ vs, w.breadth = .rational) ∨ .rational ∈ fresh)
    (wellFormed : (∀ w ∈ vs, w.WellFormed) → (Value.rational q flavor p).WellFormed) :
    Stems fresh vs (.rational q flavor p) :=
  ⟨rfl, .inr (.inr kind), wellFormed⟩

end Stems

section
variable {u : Prop} {fresh : Option Breadth} {vs : List Value} (v : Value) (op : String)
  (line : Position)

theorem computes_mismatch {α : Type} {Q : α → Prop} : Computes u Q (.error (v.mismatch op line)) :=
  ⟨nofun, nofun⟩

theorem computes_domain {α : Type} {Q : α → Prop} (cause : DomainError) :
    Computes u Q (.error (.domain cause line)) :=
  ⟨nofun, nofun⟩

theorem computes_division {α : Type} {Q : α → Prop} :
    Computes u Q (.error (.divisionByZero line)) :=
  ⟨nofun, nofun⟩

theorem computes_undefined {α : Type} {Q : α → Prop} (h : u) :
    Computes u Q (.error (.modeUndefined op line)) :=
  ⟨nofun, fun _ _ _ => h⟩

theorem computes_toInt : Computes u (fun n => ∃ flavor, v = .int n flavor) (v.toInt op line) := by
  cases v with
  | int n flavor => exact ⟨flavor, rfl⟩
  | float | rational | date | function | builtin => exact computes_mismatch _ op line

theorem computes_toRational :
    Computes u (fun q => v.WellFormed → v.precision = 0 → q.den = 1) (v.toRational op line) := by
  cases v with
  | int n flavor => exact fun _ _ => Rat.den_intCast n
  | rational q flavor p => exact fun h zero => h.2.2 zero
  | float | date | function | builtin => exact computes_mismatch _ op line

theorem computes_toFloat : Computes u (fun _ => True) (v.toFloat op line) := by
  cases v with
  | int | rational | float => trivial
  | date | function | builtin => exact computes_mismatch _ op line

theorem computes_toBool : Computes u (fun _ => True) (v.toBool line) := by
  cases v with
  | int => trivial
  | rational | float | date | function | builtin => exact ⟨nofun, nofun⟩

theorem computes_dayCount (operation : Operation) :
    Computes u (fun _ => True) (v.dayCount operation line) := by
  refine (computes_toInt v _ line).bind fun n _ => ?_
  split
  · trivial
  · exact computes_domain line _

theorem computes_shiftDate (d : Date) (days : Int) :
    Computes u (Stems fresh vs) (shiftDate d days line) := by
  unfold shiftDate
  split
  · exact .date _
  · exact computes_domain line _

end

section
variable {u : Prop} {fresh : Option Breadth} {op : String} {p : Nat} {line : Position} (a b : Value)

theorem computes_unsupported {α : Type} {Q : α → Prop} (operation : Operation) :
    Computes u Q (.error (unsupported operation a b line)) :=
  ⟨nofun, nofun⟩

variable {a b}

theorem computes_integers (wide : a.widest b = .integer) (f : Int → Int → Int) :
    Computes u (Stems fresh [a, b]) (do
      return .int (f (← a.toInt op line) (← b.toInt op line)) (a.flavor.merge b.flavor)) :=
  (computes_toInt a op line).bind fun _ _ => (computes_toInt b op line).bind fun _ _ =>
    .pure (.int fun each => wide ▸ suits_merge each)

theorem computes_floats (wide : a.widest b = .float) (f : Float → Float → Float) :
    Computes u (Stems fresh [a, b]) (do
      return .float (f (← a.toFloat op line) (← b.toFloat op line))
        (a.flavor.merge b.flavor)) :=
  (computes_toFloat a op line).bind fun _ _ => (computes_toFloat b op line).bind fun _ _ =>
    .pure (.float (.inl (wide ▸ widest_mem a b)) fun each => wide ▸ suits_merge each)

theorem computes_rationals (wide : a.widest b = .rational) {f : Rat → Rat → Rat}
    (integral : ∀ {x y : Rat}, x.den = 1 → y.den = 1 → (f x y).den = 1)
    (small : a.precision ≤ 64 → b.precision ≤ 64 → p ≤ 64)
    (zero : p = 0 → a.precision = 0 ∧ b.precision = 0) :
    Computes u (Stems fresh [a, b]) (do
      return .rational (f (← a.toRational op line) (← b.toRational op line))
        (a.flavor.merge b.flavor) p) := by
  refine (computes_toRational a op line).bind fun x left => ?_
  refine (computes_toRational b op line).bind fun y right => ?_
  refine .pure (.rational (.inl (wide ▸ widest_mem a b)) fun each => ?_)
  have flavor : a.flavor.merge b.flavor = .dec := (wide ▸ suits_merge each :)
  have ha : a.WellFormed := each a (by simp)
  have hb : b.WellFormed := each b (by simp)
  rw [flavor]
  refine wellFormed_rational (small ha.precision_le hb.precision_le) fun none => ?_
  exact integral (left ha (zero none).1) (right hb (zero none).2)

theorem computes_add : Computes u (Stems fresh [a, b]) (a.add b line) := by
  have shift (d : Date) (v : Value) :
      Computes u (Stems fresh [a, b]) (do shiftDate d (← v.dayCount .add line) line) :=
    (computes_dayCount v line .add).bind fun n _ => computes_shiftDate line d n
  unfold add
  dsimp only
  split
  · exact computes_integers ‹_› _
  · refine computes_rationals ‹_› den_add ?_ ?_
    · omega
    · omega
  · exact computes_floats ‹_› _
  · split
    · exact shift _ _
    · exact shift _ _
    · exact computes_unsupported _ _ _
  · exact computes_unsupported _ _ _

theorem computes_subtract : Computes u (Stems fresh [a, b]) (a.subtract b line) := by
  unfold subtract
  dsimp only
  split
  · exact computes_integers ‹_› _
  · refine computes_rationals ‹_› den_sub ?_ ?_
    · omega
    · omega
  · exact computes_floats ‹_› _
  · split
    · exact .int fun _ => nofun
    · refine (computes_dayCount _ line _).bind fun days _ => ?_
      split
      · exact computes_domain line _
      · exact computes_shiftDate line _ _
    · exact computes_unsupported _ _ _
  · exact computes_unsupported _ _ _

theorem capped_le (p : Nat) : capped p ≤ 64 :=
  Nat.min_le_right p 64

theorem capped_eq_zero (h : capped p = 0) : p = 0 := by
  unfold capped maxPrecision at h
  omega

theorem computes_multiply : Computes u (Stems fresh [a, b]) (a.multiply b line) := by
  unfold multiply
  dsimp only
  split
  · exact computes_integers ‹_› _
  · refine computes_rationals ‹_› den_mul (fun _ _ => capped_le _) fun none => ?_
    have none := capped_eq_zero none
    omega
  · exact computes_floats ‹_› _
  · exact computes_unsupported _ _ _
  · exact computes_unsupported _ _ _

theorem wellFormed_headroom (q : Rat) (p : Nat) (enough : divisionHeadroom ≤ p) :
    (rational q .dec (capped p)).WellFormed := by
  refine wellFormed_rational (capped_le p) fun none => ?_
  have none := capped_eq_zero none
  unfold divisionHeadroom at enough
  omega

theorem computes_divideExactly (kind : (∃ w ∈ [a, b], w.breadth = .rational) ∨ .rational ∈ fresh) :
    Computes u (Stems fresh [a, b]) (a.divideExactly b line) := by
  refine (computes_toRational b _ line).bind fun divisor _ => ?_
  split
  · exact computes_division line
  · refine (computes_toRational a _ line).bind fun x _ => .pure (.rational kind fun _ => ?_)
    exact wellFormed_headroom _ _ (Nat.le_add_left _ _)

theorem computes_divideFloats (kind : (∃ w ∈ [a, b], w.breadth = .float) ∨ .float ∈ fresh) :
    Computes u (Stems fresh [a, b]) (a.divideFloats b line) :=
  (computes_toFloat a _ line).bind fun _ _ => (computes_toFloat b _ line).bind fun _ _ =>
    .pure (.float kind fun _ => .inl rfl)

theorem computes_divide (mode : NumericMode) :
    Computes (mode = .undefined) (Stems mode.breadth? [a, b]) (divide mode a b line) := by
  unfold divide
  split
  · exact computes_unsupported _ _ _
  · exact computes_unsupported _ _ _
  · exact computes_undefined _ line rfl
  · rename_i wide
    exact computes_divideFloats (.inl (wide ▸ widest_mem a b))
  · exact computes_divideExactly (.inr rfl)
  · exact computes_divideFloats (.inr rfl)

theorem computes_remainder : Computes u (Stems fresh [a, b]) (a.remainder b line) := by
  unfold remainder
  dsimp only
  split
  · rename_i wide
    refine (computes_toInt b _ line).bind fun divisor _ => ?_
    split
    · exact computes_division line
    · exact (computes_toInt a _ line).bind fun x _ =>
        .pure (.int fun each => wide ▸ suits_merge each)
  · exact computes_unsupported _ _ _

theorem computes_rationalPower {base : Rat} {exponent : Int}
    (kind : (∃ w ∈ [a, b], w.breadth = .rational) ∨ .rational ∈ fresh) (small : p ≤ 64)
    (zero : p = 0 → exponent = 0) :
    Computes u (Stems fresh [a, b]) (rationalPower base exponent p line) := by
  unfold rationalPower
  split
  · exact computes_domain line _
  split
  · exact computes_division line
  · refine .rational kind fun _ => wellFormed_rational small fun none => ?_
    rw [Power.rat_eq_zpow, zero none, zpow_zero]
    rfl

theorem computes_floatPower : Computes u (fun _ => True) (floatPower a b line) :=
  (computes_toFloat a _ line).bind fun _ _ =>
    (computes_toFloat b _ line).bind fun _ _ => .pure trivial

theorem computes_fractionalPower (mode : NumericMode) :
    Computes (mode = .undefined) (Stems mode.breadth? [a, b])
      (fractionalPower mode a b line) := by
  refine computes_floatPower.bind fun x _ => ?_
  split
  · exact computes_undefined _ line rfl
  · exact .float (.inr rfl) fun _ => .inl rfl
  · split
    · exact computes_domain line _
    · exact .rational (.inr rfl) fun _ => wellFormed_headroom _ _ (Nat.le_max_right _ _)

theorem computes_integerPower (mode : NumericMode) :
    Computes (mode = .undefined) (Stems mode.breadth? [a, b])
      (integerPower mode a b line) := by
  refine (computes_toInt a _ line).bind fun base left => ?_
  refine (computes_toInt b _ line).bind fun exponent _ => ?_
  split
  · split
    · obtain ⟨flavor, rfl⟩ := left
      exact .pure (.int fun each => (each _ List.mem_cons_self).suits)
    · exact computes_domain line _
  · split
    · exact computes_undefined _ line rfl
    · exact computes_floatPower.bind fun x _ => .pure (.float (.inr rfl) fun _ => .inl rfl)
    · exact (computes_toRational a _ line).bind fun x _ =>
        computes_rationalPower (.inr rfl) (by decide) nofun

theorem computes_power (mode : NumericMode) :
    Computes (mode = .undefined) (Stems mode.breadth? [a, b]) (power mode a b line) := by
  unfold power
  dsimp only
  split
  · exact computes_integerPower mode
  · rename_i wide
    refine (computes_toRational a _ line).bind fun base _ => ?_
    refine (computes_toRational b _ line).bind fun exponent _ => ?_
    split
    · refine computes_rationalPower (.inl (wide ▸ widest_mem a b)) (capped_le _) fun none => ?_
      rcases Nat.mul_eq_zero.mp (capped_eq_zero none) with none | none <;> omega
    · exact computes_fractionalPower mode
  · rename_i wide
    exact computes_floatPower.bind fun x _ =>
      .pure (.float (.inl (wide ▸ widest_mem a b)) fun _ => .inl rfl)
  · exact computes_unsupported _ _ _
  · exact computes_unsupported _ _ _

theorem computes_bitwise (operation : Operation) (f : Int → Int → Int) :
    Computes u (Stems fresh [a, b]) (bitwise operation f a b line) := by
  unfold bitwise
  split
  · exact computes_integers ‹_› f
  · exact computes_unsupported _ _ _

theorem computes_logical (f : Bool → Bool → Bool) :
    Computes u (Stems fresh [a, b]) (logical f a b line) :=
  (computes_toBool a line).bind fun _ _ =>
    (computes_toBool b line).bind fun _ _ => .pure (.boolean _)

theorem computes_compare? (operation : Operation) :
    Computes u (fun _ => True) (compare? operation a b line) := by
  unfold compare?
  split
  · exact (computes_toInt a _ line).bind fun _ _ => (computes_toInt b _ line).bind fun _ _ =>
      .pure trivial
  · exact (computes_toRational a _ line).bind fun _ _ =>
      (computes_toRational b _ line).bind fun _ _ => .pure trivial
  · exact (computes_toFloat a _ line).bind fun _ _ => (computes_toFloat b _ line).bind fun _ _ =>
      .pure trivial
  · split
    · trivial
    · exact computes_unsupported _ _ _
  · exact computes_unsupported _ _ _

theorem computes_comparison (operation : Operation) (test : Option Ordering → Bool) :
    Computes u (Stems fresh [a, b]) (comparison operation test a b line) :=
  (computes_compare? operation).bind fun _ _ => .pure (.boolean _)

/-- The result of an operation stems from the operands and the mode. -/
theorem computes_apply (a b : Value) (op : Operation) (mode : NumericMode) (line : Position) :
    Computes (mode = .undefined) (Stems mode.breadth? [a, b])
      (a.apply op mode b line) := by
  cases op with
  | add => exact computes_add
  | subtract => exact computes_subtract
  | multiply => exact computes_multiply
  | divide => exact computes_divide mode
  | remainder => exact computes_remainder
  | power => exact computes_power mode
  | logicalOr | logicalAnd => exact computes_logical _
  | bitOr | bitAnd => exact computes_bitwise _ _
  | equal | notEqual | greater | greaterEqual | less | lessEqual => exact computes_comparison _ _

end

section
variable {u : Prop} {fresh : Option Breadth} (v : Value) (line : Position)

theorem computes_transform (t : Transformation) :
    Computes u (Stems fresh [v]) (v.transform t line) := by
  cases t with
  | negate =>
    cases v with
    | int n flavor => exact .int fun each => (each _ List.mem_cons_self).suits
    | float x flavor =>
      exact .float (.inl ⟨_, List.mem_cons_self, rfl⟩) fun each =>
        (each _ List.mem_cons_self).suits
    | rational q flavor p =>
      exact .rational (.inl ⟨_, List.mem_cons_self, rfl⟩) fun each =>
        (each (.rational q flavor p) List.mem_cons_self :)
    | date | function | builtin => exact computes_mismatch _ _ line
  | not =>
    cases v with
    | int n flavor => exact .boolean _
    | float | rational | date | function | builtin => exact computes_mismatch _ _ line

theorem computes_step (s : Step) : Computes u (Stems fresh [v]) (v.step s line) := by
  cases v with
  | int n flavor => exact .int fun each => (each _ List.mem_cons_self).suits
  | float x flavor =>
    exact .float (.inl ⟨_, List.mem_cons_self, rfl⟩) fun each => (each _ List.mem_cons_self).suits
  | rational q flavor p =>
    refine .rational (.inl ⟨_, List.mem_cons_self, rfl⟩) fun each => ?_
    obtain ⟨small, dec, integral⟩ := each _ List.mem_cons_self
    exact ⟨small, dec, fun none => den_add (integral none) (Rat.den_intCast _)⟩
  | date | function | builtin => exact computes_mismatch _ _ line

end

end Value

namespace Builtin

open Value

variable {u : Prop} (v : Value) (line : Position)

theorem computes_onFloat {b : Builtin} (f : Float → Float) (makes : b.breadth? = some .float) :
    Computes u (Stems b.breadth? [v]) (onFloat b f v line) :=
  (computes_toFloat v b.name line).bind fun _ _ => .pure (.float (.inr makes) fun _ => .inl rfl)

theorem computes_absolute {fresh : Option Breadth} :
    Computes u (Stems fresh [v]) (absolute v line) := by
  cases v with
  | int n flavor => exact .int fun each => (each _ List.mem_cons_self).suits
  | float x flavor =>
    exact .float (.inl ⟨_, List.mem_cons_self, rfl⟩) fun each => (each _ List.mem_cons_self).suits
  | rational q flavor p =>
    refine .rational (.inl ⟨_, List.mem_cons_self, rfl⟩) fun each => ?_
    obtain ⟨small, dec, integral⟩ := each _ List.mem_cons_self
    refine ⟨small, dec, fun none => ?_⟩
    split
    · exact integral none
    · exact integral none
  | date | function | builtin => exact computes_mismatch _ _ line

theorem computes_rounded {fresh : Option Breadth} (b : Builtin) (f : Rat → Int) :
    Computes u (Stems fresh [v]) (rounded b f v line) := by
  cases v with
  | int n flavor => exact .int fun each => (each _ List.mem_cons_self).suits
  | rational q flavor p => exact .int fun _ => nofun
  | float x flavor =>
    unfold rounded
    dsimp only
    split
    · exact .int fun _ => nofun
    · exact computes_domain line _
  | date | function | builtin => exact computes_mismatch _ _ line

theorem computes_applyTo (b : Builtin) :
    Computes u (Stems b.breadth? [v]) (b.applyTo v line) := by
  cases b with
  | abs => exact computes_absolute v line
  | floor | ceil => exact computes_rounded v line _ _
  | _ => exact computes_onFloat v line _ rfl

/-- The result of a builtin function stems from its arguments, and may be a float. -/
theorem computes_apply (b : Builtin) (args : List Value) :
    Computes u (Stems b.breadth? args) (b.apply args line) := by
  refine Computes.bind (R := fun v => args = [v]) ?_ ?_
  · unfold single
    split
    · exact rfl
    · exact ⟨nofun, nofun⟩
  · rintro v rfl
    exact computes_applyTo v line b

end Builtin

namespace Literal

def IsValue (mode : NumericMode) : Except SyntaxCause Value → Prop
  | .ok v => v.Stems mode.breadth? []
  | .error cause => cause = .realInUndefinedMode → mode = .undefined

variable (mode : NumericMode) (text : String)

theorem isValue_integer (base : Nat) (digits : List Char) {flavor : Flavor}
    (suits : flavor ≠ .exp) : IsValue mode (integer text base digits flavor) := by
  unfold integer
  split
  · exact .int fun _ => suits
  · exact nofun

theorem isValue_real : IsValue mode (real mode text) := by
  unfold real
  split
  · exact fun _ => rfl
  · split
    · refine .float (.inr rfl) fun _ => ?_
      split
      · exact .inr rfl
      · exact .inl rfl
    · exact nofun
  · split
    · split
      · refine .rational (.inr rfl) fun _ => Value.wellFormed_rational (Nat.min_le_left _ _) ?_
        intro none
        unfold exactPrecision at none
        omega
      · exact nofun
    · exact nofun

theorem isValue_date : IsValue mode (date text) := by
  unfold date
  split
  · exact .date _
  · exact nofun

theorem isValue_time : IsValue mode (time text) := by
  unfold time
  split
  · exact .int fun _ => nofun
  · exact nofun

theorem isValue_value (token : Token) : IsValue mode (value mode token) := by
  unfold value
  dsimp only
  split
  · exact isValue_integer mode _ _ _ nofun
  · exact isValue_integer mode _ _ _ nofun
  · exact isValue_real mode _
  · exact isValue_date mode _
  · exact isValue_time mode _
  · exact isValue_integer mode _ _ _ nofun

end Literal

end Calculator
