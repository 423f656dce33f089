import Calculator.Proofs.Value.Exact
import Calculator.Proofs.Value.Results

set_option autoImplicit false

namespace Calculator

namespace Breadth

def IsNumber : Breadth → Prop
  | .integer | .rational | .float => True
  | .date | .callable => False

theorem isNumber_iff_rank_le {k : Breadth} : k.IsNumber ↔ k.rank ≤ Breadth.float.rank := by
  cases k <;> simp [IsNumber, rank]

theorem IsNumber.cases {k : Breadth} (h : k.IsNumber) :
    k = .integer ∨ k = .rational ∨ k = .float := by
  cases k with
  | integer => exact .inl rfl
  | rational => exact .inr (.inl rfl)
  | float => exact .inr (.inr rfl)
  | date | callable => exact h.elim

theorem eq_integer_of_rank_le {k : Breadth} (h : k.rank ≤ Breadth.integer.rank) : k = .integer :=
  rank_injective (Nat.le_zero.mp h)

theorem integer_or_rational_of_rank_le {k : Breadth} (h : k.rank ≤ Breadth.rational.rank) :
    k = .integer ∨ k = .rational := by
  cases k <;> simp [rank] at h ⊢

end Breadth

namespace Operation

def ofIntegers : List Operation :=
  [.remainder, .bitOr, .bitAnd, .logicalOr, .logicalAnd]

def comparisons : List Operation :=
  [.equal, .notEqual, .greater, .greaterEqual, .less, .lessEqual]

theorem mem_ofIntegers {op : Operation} : op ∈ ofIntegers ↔
    op = .remainder ∨ op = .bitOr ∨ op = .bitAnd ∨ op = .logicalOr ∨ op = .logicalAnd := by
  simp only [ofIntegers, List.mem_cons, List.not_mem_nil, or_false]

theorem mem_comparisons {op : Operation} : op ∈ comparisons ↔ op = .equal ∨ op = .notEqual ∨
    op = .greater ∨ op = .greaterEqual ∨ op = .less ∨ op = .lessEqual := by
  simp only [comparisons, List.mem_cons, List.not_mem_nil, or_false]

def TakesDates : Operation → Breadth → Breadth → Prop
  | .add, j, k => j = .date ∧ k = .integer ∨ j = .integer ∧ k = .date
  | .subtract, j, k => j = .date ∧ (k = .integer ∨ k = .date)
  | op, j, k => op ∈ comparisons ∧ j = .date ∧ k = .date

/-- The kinds of operands that an operation is made for. -/
def Takes (op : Operation) (j k : Breadth) : Prop :=
  if op ∈ ofIntegers then j = .integer ∧ k = .integer
  else j.IsNumber ∧ k.IsNumber ∨ op.TakesDates j k

theorem takes_comparison_iff {op : Operation} {j k : Breadth} (mem : op ∈ comparisons) :
    op.Takes j k ↔ j.IsNumber ∧ k.IsNumber ∨ j = .date ∧ k = .date := by
  rcases mem_comparisons.mp mem with rfl | rfl | rfl | rfl | rfl | rfl <;>
    simp [Takes, TakesDates, comparisons, ofIntegers]

theorem Takes.ofDates {op : Operation} {j k : Breadth} (h : op.Takes j k)
    (date : j = .date ∨ k = .date) : op.TakesDates j k := by
  unfold Takes at h
  split at h
  · rcases date with rfl | rfl
    · cases h.1
    · cases h.2
  · refine h.resolve_left fun numbers => ?_
    rcases date with rfl | rfl
    · exact numbers.1
    · exact numbers.2

theorem TakesDates.noCallable {op : Operation} {j k : Breadth} (h : op.TakesDates j k) :
    j ≠ .callable ∧ k ≠ .callable := by
  unfold TakesDates at h
  split at h
  · rcases h with ⟨rfl, rfl⟩ | ⟨rfl, rfl⟩ <;> exact ⟨nofun, nofun⟩
  · rcases h with ⟨rfl, rfl | rfl⟩ <;> exact ⟨nofun, nofun⟩
  · obtain ⟨-, rfl, rfl⟩ := h
    exact ⟨nofun, nofun⟩

theorem Takes.noCallable {op : Operation} {j k : Breadth} (h : op.Takes j k) :
    j ≠ .callable ∧ k ≠ .callable := by
  unfold Takes at h
  split at h
  · obtain ⟨rfl, rfl⟩ := h
    exact ⟨nofun, nofun⟩
  · rcases h with ⟨left, right⟩ | dates
    · constructor <;> rintro rfl
      · exact left
      · exact right
    · exact dates.noCallable

end Operation

namespace Value

/-- The answer is an error that names the kind of an operand. -/
def IsRefusal : Except EvalError Value → Prop
  | .error (.typeMismatch ..) | .error (.notABoolean ..) => True
  | _ => False

def IsNumber (v : Value) : Prop :=
  v.breadth.IsNumber

variable {a b v : Value} {op : String} {line : Position}

theorem rank_le_widest_left (a b : Value) : a.breadth.rank ≤ (a.widest b).rank := by
  rw [widest, Breadth.rank_max]
  exact Nat.le_max_left _ _

theorem rank_le_widest_right (a b : Value) : b.breadth.rank ≤ (a.widest b).rank := by
  rw [widest, Breadth.rank_max]
  exact Nat.le_max_right _ _

theorem isNumber_widest_iff : (a.widest b).IsNumber ↔ a.IsNumber ∧ b.IsNumber := by
  rw [widest, Breadth.isNumber_iff_rank_le, Breadth.rank_max, IsNumber, IsNumber,
    Breadth.isNumber_iff_rank_le, Breadth.isNumber_iff_rank_le]
  exact Nat.max_le

theorem numbers_of_widest {k : Breadth} (wide : a.widest b = k) (number : k.IsNumber) :
    a.IsNumber ∧ b.IsNumber :=
  isNumber_widest_iff.mp (wide ▸ number)

theorem widest_of_numbers (numbers : a.IsNumber ∧ b.IsNumber) :
    a.widest b = .integer ∨ a.widest b = .rational ∨ a.widest b = .float :=
  (isNumber_widest_iff.mpr numbers).cases

theorem widest_eq_integer_iff :
    a.widest b = .integer ↔ a.breadth = .integer ∧ b.breadth = .integer := by
  constructor
  · intro wide
    exact ⟨Breadth.eq_integer_of_rank_le (wide ▸ rank_le_widest_left a b),
      Breadth.eq_integer_of_rank_le (wide ▸ rank_le_widest_right a b)⟩
  · rintro ⟨left, right⟩
    rw [widest, left, right]
    rfl

theorem exists_int_of_breadth (h : v.breadth = .integer) : ∃ n flavor, v = .int n flavor := by
  cases v with
  | int n flavor => exact ⟨n, flavor, rfl⟩
  | rational | float | date | function | builtin => cases h

theorem exists_date_of_breadth (h : v.breadth = .date) : ∃ d, v = .date d := by
  cases v with
  | date d => exact ⟨d, rfl⟩
  | int | rational | float | function | builtin => cases h

theorem exists_denotes (h : v.breadth = .integer ∨ v.breadth = .rational) : ∃ q, v.Denotes q := by
  cases v with
  | int n flavor => exact ⟨n, denotes_int n flavor⟩
  | rational q flavor p => exact ⟨q, denotes_rational q flavor p⟩
  | float | date | function | builtin => exact h.elim nofun nofun

theorem exists_toFloat (h : v.IsNumber) : ∃ x, ∀ op line, v.toFloat op line = .ok x := by
  cases v with
  | int | rational | float => exact ⟨_, fun _ _ => rfl⟩
  | date | function | builtin => exact h.elim

theorem dayCount_refused (h : v.breadth ≠ .integer) (operation : Operation) :
    v.dayCount operation line = .error (v.mismatch operation.symbol line) := by
  cases v with
  | int => exact absurd rfl h
  | rational | float | date | function | builtin => rfl

theorem toBool_refused (h : v.breadth ≠ .integer) :
    v.toBool line = .error (.notABoolean v.kind line) := by
  cases v with
  | int => exact absurd rfl h
  | rational | float | date | function | builtin => rfl

theorem exists_ints (h : a.breadth = .integer ∧ b.breadth = .integer) :
    (∃ n f, a = .int n f) ∧ ∃ m g, b = .int m g :=
  h.imp exists_int_of_breadth exists_int_of_breadth

theorem exists_ints_of_widest (wide : a.widest b = .integer) :
    (∃ n f, a = .int n f) ∧ ∃ m g, b = .int m g :=
  exists_ints (widest_eq_integer_iff.mp wide)

theorem exists_denotes_of_widest (exact : a.widest b = .integer ∨ a.widest b = .rational) :
    (∃ x, a.Denotes x) ∧ ∃ y, b.Denotes y := by
  have wide : (a.widest b).rank ≤ Breadth.rational.rank := by
    rcases exact with wide | wide <;> simp [wide, Breadth.rank]
  exact ⟨exists_denotes (Breadth.integer_or_rational_of_rank_le
      ((rank_le_widest_left a b).trans wide)),
    exists_denotes (Breadth.integer_or_rational_of_rank_le
      ((rank_le_widest_right a b).trans wide))⟩

theorem exists_toFloat_of_numbers (numbers : a.IsNumber ∧ b.IsNumber) :
    (∃ x, ∀ op line, a.toFloat op line = .ok x) ∧ ∃ y, ∀ op line, b.toFloat op line = .ok y :=
  numbers.imp exists_toFloat exists_toFloat

theorem integers_answer (wide : a.widest b = .integer) (f : Int → Int → Int) (flavor : Flavor) :
    ∃ v, (do return .int (f (← a.toInt op line) (← b.toInt op line)) flavor) =
      (.ok v : Except EvalError Value) ∧ v.breadth = .integer := by
  obtain ⟨⟨n, f', rfl⟩, m, g', rfl⟩ := exists_ints_of_widest wide
  exact ⟨_, rfl, rfl⟩

theorem rationals_answer (wide : a.widest b = .rational) (f : Rat → Rat → Rat) (flavor : Flavor)
    (p : Nat) :
    ∃ v, (do return .rational (f (← a.toRational op line) (← b.toRational op line)) flavor p) =
      (.ok v : Except EvalError Value) ∧ v.breadth = .rational := by
  obtain ⟨⟨x, left⟩, y, right⟩ := exists_denotes_of_widest (.inr wide)
  rw [left, right]
  exact ⟨_, rfl, rfl⟩

theorem floats_answer (wide : a.widest b = .float) (f : Float → Float → Float) (flavor : Flavor) :
    ∃ v, (do return .float (f (← a.toFloat op line) (← b.toFloat op line)) flavor) =
      (.ok v : Except EvalError Value) ∧ v.breadth = .float := by
  obtain ⟨⟨x, left⟩, y, right⟩ := exists_toFloat_of_numbers (numbers_of_widest wide trivial)
  rw [left, right]
  exact ⟨_, rfl, rfl⟩

theorem add_answers (numbers : a.IsNumber ∧ b.IsNumber) :
    ∃ v, a.add b line = .ok v ∧ v.breadth = a.widest b := by
  unfold add
  rcases widest_of_numbers numbers with wide | wide | wide <;> rw [wide]
  · exact integers_answer wide _ _
  · exact rationals_answer wide _ _ _
  · exact floats_answer wide _ _

theorem subtract_answers (numbers : a.IsNumber ∧ b.IsNumber) :
    ∃ v, a.subtract b line = .ok v ∧ v.breadth = a.widest b := by
  unfold subtract
  rcases widest_of_numbers numbers with wide | wide | wide <;> rw [wide]
  · exact integers_answer wide _ _
  · exact rationals_answer wide _ _ _
  · exact floats_answer wide _ _

theorem multiply_answers (numbers : a.IsNumber ∧ b.IsNumber) :
    ∃ v, a.multiply b line = .ok v ∧ v.breadth = a.widest b := by
  unfold multiply
  rcases widest_of_numbers numbers with wide | wide | wide <;> rw [wide]
  · exact integers_answer wide _ _
  · exact rationals_answer wide _ _ _
  · exact floats_answer wide _ _

inductive Divides (a b : Value) (line : Position) :
    NumericMode → Except EvalError Value → Prop where
  | undefined : Divides a b line .undefined (.error (.modeUndefined "/" line))
  | floats (x : Float) : Divides a b line .float (.ok (.float x .dec))
  | floatOperand (x : Float) (operand : a.breadth = .float ∨ b.breadth = .float) :
      Divides a b line .rational (.ok (.float x .dec))
  | zero (left : a.breadth ≠ .float) (right : b.breadth ≠ .float) (divisor : b.Denotes 0) :
      Divides a b line .rational (.error (.divisionByZero line))
  | exact (left : a.breadth ≠ .float) (right : b.breadth ≠ .float) (divisor : ¬b.Denotes 0)
      (q : Rat) (p : Nat) : Divides a b line .rational (.ok (.rational q .dec p))

theorem divideFloats_answers (numbers : a.IsNumber ∧ b.IsNumber) :
    ∃ x, a.divideFloats b line = .ok (.float x .dec) := by
  obtain ⟨⟨x, left⟩, y, right⟩ := exists_toFloat_of_numbers numbers
  rw [divideFloats, left, right]
  exact ⟨_, rfl⟩

theorem ne_float_of_denotes {q : Rat} (h : v.Denotes q) : v.breadth ≠ .float := by
  obtain ⟨n, f, rfl, -⟩ | ⟨f, p, rfl⟩ := h.cases <;> exact nofun

theorem divideExactly_divides (exact : a.widest b = .integer ∨ a.widest b = .rational) :
    Divides a b line .rational (a.divideExactly b line) := by
  obtain ⟨⟨x, left⟩, y, right⟩ := exists_denotes_of_widest exact
  have notFloats := And.intro (ne_float_of_denotes left) (ne_float_of_denotes right)
  rw [divideExactly, left, right]
  change Divides a b line .rational (if y = 0 then _ else _)
  split
  · rename_i zero
    exact .zero notFloats.1 notFloats.2 (zero ▸ right)
  · rename_i nonzero
    exact .exact notFloats.1 notFloats.2 (fun zero => nonzero (right.unique zero)) _ _

theorem Divides.fits {mode : NumericMode} {r : Except EvalError Value}
    (h : Divides a b line mode r) : ¬IsRefusal r := by
  cases h with
  | undefined | zero | floats | floatOperand | exact => exact id

theorem divide_divides (numbers : a.IsNumber ∧ b.IsNumber) (mode : NumericMode) :
    Divides a b line mode (divide mode a b line) := by
  obtain ⟨x, floats⟩ : ∃ x, a.divideFloats b line = .ok (.float x .dec) :=
    divideFloats_answers numbers
  unfold divide
  rcases widest_of_numbers numbers with wide | wide | wide <;> rw [wide] <;> cases mode with
  | undefined => exact .undefined
  | float =>
    dsimp only
    rw [floats]
    exact .floats x
  | rational => ?_
  · exact divideExactly_divides (.inl wide)
  · exact divideExactly_divides (.inr wide)
  · dsimp only
    rw [floats]
    obtain ⟨w, mem, float⟩ := widest_mem a b
    rw [wide] at float
    refine .floatOperand x ?_
    rcases List.mem_pair.mp mem with rfl | rfl
    · exact .inl float
    · exact .inr float

theorem rationalPower_fits (base : Rat) (exponent : Int) (p : Nat) (line : Position) :
    ¬IsRefusal (rationalPower base exponent p line) := by
  unfold rationalPower
  split
  · exact id
  · split <;> exact id

theorem floatPower_answers (numbers : a.IsNumber ∧ b.IsNumber) :
    ∃ x, floatPower a b line = .ok x := by
  obtain ⟨⟨x, left⟩, y, right⟩ := exists_toFloat_of_numbers numbers
  rw [floatPower, left, right]
  exact ⟨_, rfl⟩

theorem fractionalPower_fits (numbers : a.IsNumber ∧ b.IsNumber) (mode : NumericMode) :
    ¬IsRefusal (fractionalPower mode a b line) := by
  obtain ⟨x, answer⟩ : ∃ x, floatPower a b line = .ok x := floatPower_answers numbers
  rw [fractionalPower, answer]
  cases mode with
  | undefined | float => exact id
  | rational =>
    dsimp only [bind, Except.bind]
    split <;> exact id

theorem integerPower_fits (mode : NumericMode) (n m : Int) (f g : Flavor) :
    ¬IsRefusal (integerPower mode (.int n f) (.int m g) line) := by
  dsimp only [integerPower, toInt, bind, Except.bind]
  split
  · split <;> exact id
  · cases mode with
    | undefined | float => exact id
    | rational => exact rationalPower_fits _ _ _ _

theorem power_fits (numbers : a.IsNumber ∧ b.IsNumber) (mode : NumericMode) :
    ¬IsRefusal (power mode a b line) := by
  unfold power
  rcases widest_of_numbers numbers with wide | wide | wide <;> rw [wide] <;> dsimp only
  · obtain ⟨⟨n, f, rfl⟩, m, g, rfl⟩ := exists_ints_of_widest wide
    exact integerPower_fits mode n m f g
  · obtain ⟨⟨x, left⟩, y, right⟩ := exists_denotes_of_widest (.inr wide)
    rw [left, right]
    change ¬IsRefusal (if y.den = 1 then _ else _)
    split
    · exact rationalPower_fits _ _ _ _
    · exact fractionalPower_fits numbers mode
  · obtain ⟨x, answer⟩ : ∃ x, floatPower a b line = .ok x := floatPower_answers numbers
    rw [answer]
    exact id

theorem compare?_answers (operation : Operation)
    (h : a.IsNumber ∧ b.IsNumber ∨ a.breadth = .date ∧ b.breadth = .date) :
    ∃ o, compare? operation a b line = .ok o := by
  rcases h with numbers | ⟨left, right⟩
  · unfold compare?
    rcases widest_of_numbers numbers with wide | wide | wide <;> rw [wide] <;> dsimp only
    · obtain ⟨⟨n, f, rfl⟩, m, g, rfl⟩ := exists_ints_of_widest wide
      exact ⟨_, rfl⟩
    · obtain ⟨⟨x, left⟩, y, right⟩ := exists_denotes_of_widest (.inr wide)
      rw [left, right]
      exact ⟨_, rfl⟩
    · obtain ⟨⟨x, left⟩, y, right⟩ := exists_toFloat_of_numbers numbers
      rw [left, right]
      exact ⟨_, rfl⟩
  · obtain ⟨d, rfl⟩ := exists_date_of_breadth left
    obtain ⟨e, rfl⟩ := exists_date_of_breadth right
    exact ⟨_, rfl⟩

theorem exists_comparison {operation : Operation} (mem : operation ∈ Operation.comparisons) :
    ∃ test, ∀ a b mode line,
      apply operation mode a b line = comparison operation test a b line := by
  rcases Operation.mem_comparisons.mp mem with rfl | rfl | rfl | rfl | rfl | rfl <;>
    exact ⟨_, fun _ _ _ _ => rfl⟩

theorem comparison_answers {operation : Operation} (mode : NumericMode)
    (mem : operation ∈ Operation.comparisons)
    (h : operation.Takes a.breadth b.breadth) :
    ∃ t, a.apply operation mode b line = .ok (boolean t) := by
  obtain ⟨test, same⟩ := exists_comparison mem
  obtain ⟨o, answer⟩ : ∃ o, compare? operation a b line = .ok o :=
    compare?_answers operation ((Operation.takes_comparison_iff mem).mp h)
  rw [same, comparison, answer]
  exact ⟨_, rfl⟩

theorem comparison_fits {operation : Operation} (h : operation.Takes a.breadth b.breadth)
    (mode : NumericMode) (mem : operation ∈ Operation.comparisons) :
    ¬IsRefusal (a.apply operation mode b line) := by
  obtain ⟨t, answer⟩ : ∃ t, a.apply operation mode b line = .ok (boolean t) :=
    comparison_answers mode mem h
  rw [answer]
  exact id

theorem remainder_int (n m : Int) (f g : Flavor) (line : Position) :
    (int n f).remainder (.int m g) line =
      if m = 0 then .error (.divisionByZero line) else .ok (.int (n % m) (f.merge g)) :=
  rfl

theorem integers_fit (h : a.breadth = .integer ∧ b.breadth = .integer) (mode : NumericMode)
    {operation : Operation} (mem : operation ∈ Operation.ofIntegers) :
    ¬IsRefusal (a.apply operation mode b line) := by
  obtain ⟨⟨n, f, rfl⟩, m, g, rfl⟩ := exists_ints h
  rcases Operation.mem_ofIntegers.mp mem with rfl | rfl | rfl | rfl | rfl
  · change ¬IsRefusal ((int n f).remainder (.int m g) line)
    rw [remainder_int]
    split <;> exact id
  all_goals exact id

theorem denotes_zero_int_iff {n : Int} {flavor : Flavor} : (int n flavor).Denotes 0 ↔ n = 0 := by
  constructor
  · exact fun zero => Int.cast_eq_zero.mp ((denotes_int n flavor).unique zero)
  · rintro rfl
    exact denotes_int 0 flavor

theorem logical_answers (f : Bool → Bool → Bool)
    (h : a.breadth = .integer ∧ b.breadth = .integer) :
    ∃ t, logical f a b line = .ok (boolean t) := by
  obtain ⟨⟨n, g, rfl⟩, m, g', rfl⟩ := exists_ints h
  exact ⟨_, rfl⟩

theorem shiftDate_fits (d : Date) (days : Int) : ¬IsRefusal (shiftDate d days line) := by
  unfold shiftDate
  split <;> exact id

theorem add_fits (h : Operation.add.TakesDates a.breadth b.breadth) :
    ¬IsRefusal (a.add b line) := by
  have shift (d : Date) (n : Int) (flavor : Flavor) :
      ¬IsRefusal (do shiftDate d (← (Value.int n flavor).dayCount .add line) line) := by
    change ¬IsRefusal ((if Word.fits64 n then .ok n else .error _) >>= fun days =>
      shiftDate d days line)
    split
    · exact shiftDate_fits d n
    · exact id
  rcases h with ⟨left, right⟩ | ⟨left, right⟩
  · obtain ⟨d, rfl⟩ := exists_date_of_breadth left
    obtain ⟨n, flavor, rfl⟩ := exists_int_of_breadth right
    exact shift d n flavor
  · obtain ⟨n, flavor, rfl⟩ := exists_int_of_breadth left
    obtain ⟨d, rfl⟩ := exists_date_of_breadth right
    exact shift d n flavor

theorem subtract_fits (h : Operation.subtract.TakesDates a.breadth b.breadth) :
    ¬IsRefusal (a.subtract b line) := by
  obtain ⟨left, right⟩ := h
  obtain ⟨d, rfl⟩ := exists_date_of_breadth left
  rcases right with right | right
  · obtain ⟨n, flavor, rfl⟩ := exists_int_of_breadth right
    change ¬IsRefusal ((if Word.fits64 n then .ok n else .error _) >>= fun days =>
      if days = Word.least64 then _ else shiftDate d (-days) line)
    split
    · change ¬IsRefusal (if n = Word.least64 then _ else _)
      split
      · exact id
      · exact shiftDate_fits d (-n)
    · exact id
  · obtain ⟨e, rfl⟩ := exists_date_of_breadth right
    exact id

theorem apply_fits {operation : Operation} (mode : NumericMode)
    (h : operation.Takes a.breadth b.breadth) : ¬IsRefusal (a.apply operation mode b line) := by
  have ofAnswer {r : Except EvalError Value} {P : Value → Prop} (answers : ∃ v, r = .ok v ∧ P v) :
      ¬IsRefusal r := by
    obtain ⟨v, rfl, -⟩ := answers
    exact id
  cases operation with
  | add => exact h.elim (fun numbers => ofAnswer (add_answers numbers)) add_fits
  | subtract => exact h.elim (fun numbers => ofAnswer (subtract_answers numbers)) subtract_fits
  | multiply => exact h.elim (fun numbers => ofAnswer (multiply_answers numbers)) nofun
  | divide => exact h.elim (fun numbers => (divide_divides numbers mode).fits) nofun
  | power => exact h.elim (power_fits · mode) nofun
  | remainder | bitOr | bitAnd | logicalOr | logicalAnd => exact integers_fit h mode (by decide)
  | equal | notEqual | greater | greaterEqual | less | lessEqual =>
    exact comparison_fits h mode (by decide)

theorem widest_of_not_numbers (h : ¬(a.IsNumber ∧ b.IsNumber)) :
    a.widest b = .date ∨ a.widest b = .callable := by
  rw [← isNumber_widest_iff] at h
  cases wide : a.widest b with
  | date => exact .inl rfl
  | callable => exact .inr rfl
  | integer | rational | float => exact absurd (wide ▸ trivial) h

theorem add_refuses (h : ¬Operation.add.Takes a.breadth b.breadth) : IsRefusal (a.add b line) := by
  obtain ⟨notNumbers, notDates⟩ := not_or.mp h
  have shift (d : Date) {offset : Value} (other : offset.breadth ≠ .integer) :
      IsRefusal (do shiftDate d (← offset.dayCount .add line) line) := by
    rw [dayCount_refused other]
    exact trivial
  unfold add
  dsimp only
  rcases widest_of_not_numbers notNumbers with wide | wide <;> rw [wide] <;> dsimp only
  · split
    · exact shift _ fun integer => notDates (.inl ⟨rfl, integer⟩)
    · exact shift _ fun integer => notDates (.inr ⟨integer, rfl⟩)
    · exact trivial
  · exact trivial

theorem subtract_refuses (h : ¬Operation.subtract.Takes a.breadth b.breadth) :
    IsRefusal (a.subtract b line) := by
  obtain ⟨notNumbers, notDates⟩ := not_or.mp h
  unfold subtract
  dsimp only
  rcases widest_of_not_numbers notNumbers with wide | wide <;> rw [wide] <;> dsimp only
  · split
    · exact absurd ⟨rfl, .inr rfl⟩ notDates
    · rw [dayCount_refused fun integer => notDates ⟨rfl, .inl integer⟩]
      exact trivial
    · exact trivial
  · exact trivial

section
variable (notNumbers : ¬(a.IsNumber ∧ b.IsNumber)) (mode : NumericMode)
include notNumbers

theorem multiply_refuses : IsRefusal (a.multiply b line) := by
  unfold multiply
  rcases widest_of_not_numbers notNumbers with wide | wide <;> rw [wide] <;> exact trivial

theorem divide_refuses : IsRefusal (divide mode a b line) := by
  unfold divide
  rcases widest_of_not_numbers notNumbers with wide | wide <;> rw [wide] <;> exact trivial

theorem power_refuses : IsRefusal (power mode a b line) := by
  unfold power
  rcases widest_of_not_numbers notNumbers with wide | wide <;> rw [wide] <;> exact trivial

end

theorem logical_refused (f : Bool → Bool → Bool)
    (h : ¬(a.breadth = .integer ∧ b.breadth = .integer)) :
    logical f a b line =
      .error (.notABoolean (if a.breadth = .integer then b.kind else a.kind) line) := by
  by_cases left : a.breadth = .integer
  · have right : b.toBool line = .error (.notABoolean b.kind line) :=
      toBool_refused fun right => h ⟨left, right⟩
    obtain ⟨n, flavor, rfl⟩ := exists_int_of_breadth left
    rw [if_pos left, logical, right]
    rfl
  · rw [if_neg left, logical, toBool_refused left]
    rfl

section
variable (h : ¬(a.breadth = .integer ∧ b.breadth = .integer))
include h

theorem logical_refuses (f : Bool → Bool → Bool) : IsRefusal (logical f a b line) := by
  rw [logical_refused f h]
  exact trivial

theorem bitwise_refuses (op : Operation) (f : Int → Int → Int) :
    IsRefusal (bitwise op f a b line) := by
  unfold bitwise
  split
  · exact absurd ‹_› (widest_eq_integer_iff.not.mpr h)
  · exact trivial

theorem remainder_refuses : IsRefusal (a.remainder b line) := by
  unfold remainder
  split
  · exact absurd ‹_› (widest_eq_integer_iff.not.mpr h)
  · exact trivial

end

theorem comparison_refuses (op : Operation) (test : Option Ordering → Bool)
    (h : ¬(a.IsNumber ∧ b.IsNumber ∨ a.breadth = .date ∧ b.breadth = .date)) :
    IsRefusal (comparison op test a b line) := by
  obtain ⟨notNumbers, notDates⟩ := not_or.mp h
  unfold comparison compare?
  rcases widest_of_not_numbers notNumbers with wide | wide <;> rw [wide] <;> dsimp only
  · split
    · exact absurd ⟨rfl, rfl⟩ notDates
    · exact trivial
  · exact trivial

/-- Operands of kinds that an operation is not made for are refused. -/
theorem apply_refuses {operation : Operation} (mode : NumericMode)
    (h : ¬operation.Takes a.breadth b.breadth) : IsRefusal (a.apply operation mode b line) := by
  cases operation with
  | add => exact add_refuses h
  | subtract => exact subtract_refuses h
  | multiply => exact multiply_refuses fun numbers => h (.inl numbers)
  | divide => exact divide_refuses (fun numbers => h (.inl numbers)) mode
  | power => exact power_refuses (fun numbers => h (.inl numbers)) mode
  | remainder => exact remainder_refuses h
  | bitOr | bitAnd => exact bitwise_refuses h _ _
  | logicalOr | logicalAnd => exact logical_refuses h _
  | equal | notEqual | greater | greaterEqual | less | lessEqual =>
    exact comparison_refuses _ _ ((Operation.takes_comparison_iff (by decide)).not.mp h)

theorem isRefusal_apply_iff (operation : Operation) (mode : NumericMode) :
    IsRefusal (a.apply operation mode b line) ↔ ¬operation.Takes a.breadth b.breadth :=
  ⟨fun refused takes => apply_fits mode takes refused, apply_refuses mode⟩

theorem takes_of_ok {operation : Operation} {mode : NumericMode}
    (h : a.apply operation mode b line = .ok v) : operation.Takes a.breadth b.breadth := by
  by_contra other
  have refused : IsRefusal (a.apply operation mode b line) := apply_refuses mode other
  rw [h] at refused
  exact refused

theorem IsRefusal.exists_error {r : Except EvalError Value} (h : IsRefusal r) :
    ∃ e, r = .error e := by
  cases r with
  | ok v => exact h.elim
  | error e => exact ⟨e, rfl⟩

/-- How the kinds of the operands decide what the operations answer. -/
structure Dispatches (a b : Value) (mode : NumericMode) (line : Position) : Prop where
  /-- Operands are refused because of their kinds just where an operation is not made for them. -/
  refusal : ∀ op, IsRefusal (a.apply op mode b line) ↔ ¬op.Takes a.breadth b.breadth
  ring : a.IsNumber → b.IsNumber → ∀ op ∈ [Operation.add, .subtract, .multiply],
    ∃ v, a.apply op mode b line = .ok v ∧ v.breadth = a.widest b
  quotient : a.IsNumber → b.IsNumber → Divides a b line mode (a.apply .divide mode b line)
  /-- The power of two numbers may fail, but not because of their kinds. -/
  power : a.IsNumber → b.IsNumber →
    ∀ op kind at_, a.apply .power mode b line ≠ .error (.typeMismatch op kind at_)
  comparison : ∀ op ∈ Operation.comparisons,
    ((∃ v, a.apply op mode b line = .ok v) ↔
      a.IsNumber ∧ b.IsNumber ∨ a.breadth = .date ∧ b.breadth = .date) ∧
    ∀ v, a.apply op mode b line = .ok v → v = .int 0 .dec ∨ v = .int 1 .dec
  integers : ∀ op ∈ [Operation.remainder, .bitAnd, .bitOr],
    (∃ v, a.apply op mode b line = .ok v) ↔
      (a.breadth = .integer ∧ b.breadth = .integer) ∧ (op = .remainder → ¬b.Denotes 0)
  /-- The first operand that is no integer is the one that is named. -/
  logical : ∀ op ∈ [Operation.logicalOr, .logicalAnd],
    (a.breadth = .integer ∧ b.breadth = .integer → ∃ t, a.apply op mode b line = .ok (boolean t)) ∧
    (a.breadth ≠ .integer → a.apply op mode b line = .error (.notABoolean a.kind line)) ∧
    (a.breadth = .integer → b.breadth ≠ .integer →
      a.apply op mode b line = .error (.notABoolean b.kind line))
  dates : a.breadth = .date ∨ b.breadth = .date →
    ∀ op v, a.apply op mode b line = .ok v → op.TakesDates a.breadth b.breadth
  functions : a.isCallable ∨ b.isCallable → ∀ op, ∃ e, a.apply op mode b line = .error e
  data : ∀ op v, a.apply op mode b line = .ok v → v.isCallable = false

theorem ring_answers (numbers : a.IsNumber ∧ b.IsNumber) (mode : NumericMode) {op : Operation}
    (ring : op ∈ [Operation.add, .subtract, .multiply]) :
    ∃ v, a.apply op mode b line = .ok v ∧ v.breadth = a.widest b := by
  simp only [List.mem_cons, List.not_mem_nil, or_false] at ring
  rcases ring with rfl | rfl | rfl
  · exact add_answers numbers
  · exact subtract_answers numbers
  · exact multiply_answers numbers

theorem exists_integers_iff (mode : NumericMode) {operation : Operation}
    (mem : operation ∈ [Operation.remainder, .bitAnd, .bitOr]) :
    (∃ v, a.apply operation mode b line = .ok v) ↔
      (a.breadth = .integer ∧ b.breadth = .integer) ∧
        (operation = .remainder → ¬b.Denotes 0) := by
  simp only [List.mem_cons, List.not_mem_nil, or_false] at mem
  constructor
  · rintro ⟨v, same⟩
    have both : a.breadth = .integer ∧ b.breadth = .integer := by
      have takes := takes_of_ok same
      rcases mem with rfl | rfl | rfl <;> exact takes
    refine ⟨both, ?_⟩
    rintro rfl zero
    obtain ⟨⟨n, f, rfl⟩, m, g, rfl⟩ := exists_ints both
    change (int n f).remainder (.int m g) line = _ at same
    rw [remainder_int, if_pos (denotes_zero_int_iff.mp zero)] at same
    cases same
  · rintro ⟨both, nonzero⟩
    obtain ⟨⟨n, f, rfl⟩, m, g, rfl⟩ := exists_ints both
    rcases mem with rfl | rfl | rfl
    · change ∃ v, (int n f).remainder (.int m g) line = _
      rw [remainder_int, if_neg fun zero => nonzero rfl (denotes_zero_int_iff.mpr zero)]
      exact ⟨_, rfl⟩
    · exact ⟨_, rfl⟩
    · exact ⟨_, rfl⟩

theorem exists_comparison_iff (mode : NumericMode) {operation : Operation}
    (mem : operation ∈ Operation.comparisons) :
    (∃ v, a.apply operation mode b line = .ok v) ↔
      a.IsNumber ∧ b.IsNumber ∨ a.breadth = .date ∧ b.breadth = .date := by
  refine Iff.trans ⟨fun ⟨v, same⟩ => takes_of_ok same, fun takes => ?_⟩
    (Operation.takes_comparison_iff mem)
  obtain ⟨t, answer⟩ := comparison_answers mode mem takes
  exact ⟨_, answer⟩

theorem comparison_zero_or_one {mode : NumericMode} {operation : Operation}
    (mem : operation ∈ Operation.comparisons) (h : a.apply operation mode b line = .ok v) :
    v = .int 0 .dec ∨ v = .int 1 .dec := by
  obtain ⟨t, answer⟩ : ∃ t, a.apply operation mode b line = .ok (boolean t) :=
    comparison_answers mode mem (takes_of_ok h)
  obtain rfl : boolean t = v := Except.ok.inj (answer.symm.trans h)
  cases t with
  | false => exact .inl rfl
  | true => exact .inr rfl

theorem breadth_of_isCallable (h : v.isCallable = true) : v.breadth = .callable := by
  cases v with
  | function | builtin => rfl
  | int | float | rational | date => cases h

/-- What an operation answers goes by the kinds of its operands, in the widest of which it computes:
no conversion of an operand to that kind fails where the operation is made for the kinds. -/
theorem dispatches (a b : Value) (mode : NumericMode) (line : Position) :
    Dispatches a b mode line where
  refusal op := isRefusal_apply_iff op mode
  ring left right _ mem := ring_answers ⟨left, right⟩ mode mem
  quotient left right := divide_divides ⟨left, right⟩ mode
  power left right _ _ _ same := by
    have fits : ¬IsRefusal (a.apply .power mode b line) := apply_fits mode (.inl ⟨left, right⟩)
    rw [same] at fits
    exact fits trivial
  comparison _ mem := ⟨exists_comparison_iff mode mem, fun _ => comparison_zero_or_one mem⟩
  integers _ mem := exists_integers_iff mode mem
  logical op mem := by
    obtain ⟨f, same⟩ : ∃ f, a.apply op mode b line = logical f a b line := by
      simp only [List.mem_cons, List.not_mem_nil, or_false] at mem
      rcases mem with rfl | rfl <;> exact ⟨_, rfl⟩
    rw [same]
    -- Both operands are converted before the operation, the left one first.
    refine ⟨logical_answers f, fun left => ?_, fun left right => ?_⟩
    · rw [logical_refused f fun both => left both.1, if_neg left]
    · rw [logical_refused f fun both => right both.2, if_pos left]
  dates date _ _ same := (takes_of_ok same).ofDates date
  functions callable op := by
    refine (apply_refuses mode fun takes => ?_).exists_error
    rcases callable with left | right
    · exact takes.noCallable.1 (breadth_of_isCallable left)
    · exact takes.noCallable.2 (breadth_of_isCallable right)
  data op v same := by
    have stems := computes_apply a b op mode line
    rw [same] at stems
    exact stems.isDatum

/-- The sum of a rational and an integer is a rational, and a date is no factor. -/
theorem dispatches_mixed :
    (∃ v, (rational (1 / 2) .dec 1).apply .add .undefined (.int 2 .hex) 1 = .ok v ∧
        v.breadth = .rational) ∧
      IsRefusal ((date ⟨0, by decide⟩).apply .multiply .rational (.int 2 .dec) 1) :=
  ⟨(dispatches (rational (1 / 2) .dec 1) (.int 2 .hex) .undefined 1).ring trivial trivial .add
      (by decide),
    ((dispatches (date ⟨0, by decide⟩) (.int 2 .dec) .rational 1).refusal .multiply).mpr
      fun takes => takes.elim And.left nofun⟩

end Value

end Calculator
