import Calculator.Proofs.Date
import Calculator.Proofs.Value.Dispatch
import Mathlib.Tactic.NormNum

set_option autoImplicit false

namespace Calculator

def Operation.mirror : Operation → Operation
  | .less => .greater
  | .lessEqual => .greaterEqual
  | .greater => .less
  | .greaterEqual => .lessEqual
  | op => op

theorem Operation.mirror_mirror (op : Operation) : op.mirror.mirror = op := by
  cases op <;> rfl

theorem Operation.mirror_mem {op : Operation} (mem : op ∈ comparisons) :
    op.mirror ∈ comparisons := by
  rcases mem_comparisons.mp mem with rfl | rfl | rfl | rfl | rfl | rfl <;> decide

namespace Value

variable {a b c v w : Value} {x y z : Rat}

/-- Two exact values or two dates, and where they are on the line of the rationals. -/
inductive Placed : Value → Value → Rat → Rat → Prop where
  | exact {a b : Value} {x y : Rat} (left : a.Denotes x) (right : b.Denotes y) : Placed a b x y
  | dates (d e : Date) : Placed (.date d) (.date e) d.day e.day

theorem Placed.swap (h : Placed a b x y) : Placed b a y x := by
  cases h with
  | exact left right => exact .exact right left
  | dates d e => exact .dates e d

theorem not_denotes_date {d : Date} : ¬(date d).Denotes x := fun denotes =>
  nomatch denotes "" 0

theorem Placed.trans {y' : Rat} (hab : Placed a b x y) (hbc : Placed b c y' z) :
    y = y' ∧ Placed a c x z := by
  cases hab with
  | exact left middle =>
    cases hbc with
    | exact middle' right => exact ⟨middle.unique middle', .exact left right⟩
    | dates d e => exact absurd middle not_denotes_date
  | dates d e =>
    cases hbc with
    | exact middle right => exact absurd middle not_denotes_date
    | dates e f => exact ⟨rfl, .dates d f⟩

theorem Placed.compare? (h : Placed a b x y) (op : Operation) (line : Position) :
    compare? op a b line = .ok (some (orderingOf (x < y) (x = y))) := by
  cases h with
  | exact left right => exact compare?_exact left right op line
  | dates d e =>
    simp only [Int.cast_lt, Int.cast_inj]
    rfl

/-- What the six comparisons answer to operands in one of the three orders. -/
structure Ordered (a b : Value) (isLess isEqual isGreater : Bool) : Prop where
  one : [isLess, isEqual, isGreater].count true = 1
  less : Gives .less a b (boolean isLess)
  lessEqual : Gives .lessEqual a b (boolean !isGreater)
  greater : Gives .greater a b (boolean isGreater)
  greaterEqual : Gives .greaterEqual a b (boolean !isLess)
  equal : Gives .equal a b (boolean isEqual)
  notEqual : Gives .notEqual a b (boolean !isEqual)

theorem ordered_of_compare? {o : Ordering} (h : ∀ op line, compare? op a b line = .ok (some o)) :
    Ordered a b (o == .lt) (o == .eq) (o == .gt) := by
  have answers (op : Operation) (test : Option Ordering → Bool) (line : Position) :
      comparison op test a b line = .ok (boolean (test (some o))) := by
    rw [comparison, h]
    rfl
  cases o <;> exact ⟨rfl, fun _ => answers _ _, fun _ => answers _ _, fun _ => answers _ _,
    fun _ => answers _ _, fun _ => answers _ _, fun _ => answers _ _⟩

theorem Placed.ordered (h : Placed a b x y) : Ordered a b (x < y) (x = y) (y < x) := by
  have compares := orderingOf_compares x y
  have tests (o : Ordering) (p : Prop) [Decidable p] (same : orderingOf (x < y) (x = y) = o ↔ p) :
      (orderingOf (x < y) (x = y) == o) = decide p := by
    rw [Bool.eq_iff_iff, beq_iff_eq, decide_eq_true_iff]
    exact same
  have ordered := ordered_of_compare? h.compare?
  rwa [tests _ _ compares.eq_lt, tests _ _ compares.eq_eq, tests _ _ compares.eq_gt] at ordered

theorem boolean_injective {s t : Bool} (same : boolean s = boolean t) : s = t := by
  cases s <;> cases t <;> first | rfl | cases same

theorem Placed.mirror (h : Placed a b x y) {op : Operation} (mem : op ∈ Operation.comparisons) :
    ∃ v, Gives op a b v ∧ Gives op.mirror b a v := by
  have forward := h.ordered
  have backward := h.swap.ordered
  rcases Operation.mem_comparisons.mp mem with rfl | rfl | rfl | rfl | rfl | rfl
  · have equal := backward.equal
    rw [decide_eq_decide.mpr (eq_comm (a := y))] at equal
    exact ⟨_, forward.equal, equal⟩
  · have notEqual := backward.notEqual
    rw [decide_eq_decide.mpr (eq_comm (a := y))] at notEqual
    exact ⟨_, forward.notEqual, notEqual⟩
  · exact ⟨_, forward.greater, backward.less⟩
  · exact ⟨_, forward.greaterEqual, backward.lessEqual⟩
  · exact ⟨_, forward.less, backward.greater⟩
  · exact ⟨_, forward.lessEqual, backward.greaterEqual⟩

/-- The difference of two values is how far they are apart on the line. -/
theorem Placed.exists_difference (h : Placed a b x y) :
    ∃ d, Gives .subtract b a d ∧ d.Denotes (y - x) := by
  cases h with
  | exact left right =>
    obtain ⟨d, gives, parts⟩ := Value.exists_difference right left
    exact ⟨d, gives, parts.denotes⟩
  | dates d e =>
    refine ⟨.int (e.daysSince d) .dec, fun _ _ => rfl, ?_⟩
    rw [← Int.cast_sub]
    exact denotes_int _ _

theorem Placed.less_difference (h : Placed a b x y) : ∃ d, Gives .subtract b a d ∧
    d.Denotes (y - x) ∧ Gives .less a b (boolean (x < y)) ∧
    Gives .less zero d (boolean (x < y)) := by
  obtain ⟨d, gives, denotes⟩ := h.exists_difference
  have none : zero.Denotes 0 := denotes_int 0 .dec
  have positive := (Placed.exact none denotes).ordered.less
  rw [decide_eq_decide.mpr sub_pos] at positive
  exact ⟨d, gives, denotes, h.ordered.less, positive⟩

theorem exists_placed_of_ok {op : Operation} {mode : NumericMode} {line : Position}
    (left : a.breadth ≠ .float) (right : b.breadth ≠ .float) (mem : op ∈ Operation.comparisons)
    (h : a.apply op mode b line = .ok v) : ∃ x y, Placed a b x y := by
  have exists_number {v : Value} (number : v.IsNumber) (notFloat : v.breadth ≠ .float) :
      ∃ q, v.Denotes q :=
    exists_denotes ((or_assoc.mpr number.cases).resolve_right notFloat)
  rcases (Operation.takes_comparison_iff mem).mp (takes_of_ok h) with ⟨first, second⟩ | dates
  · obtain ⟨x, denotes⟩ := exists_number first left
    obtain ⟨y, denotes'⟩ := exists_number second right
    exact ⟨x, y, .exact denotes denotes'⟩
  · obtain ⟨d, rfl⟩ := exists_date_of_breadth dates.1
    obtain ⟨e, rfl⟩ := exists_date_of_breadth dates.2
    exact ⟨_, _, .dates d e⟩

theorem apply_mirror {op : Operation} {mode : NumericMode} {line : Position}
    (left : a.breadth ≠ .float) (right : b.breadth ≠ .float) (mem : op ∈ Operation.comparisons)
    (h : a.apply op mode b line = .ok v) : b.apply op.mirror mode a line = .ok v := by
  obtain ⟨x, y, placed⟩ := exists_placed_of_ok left right mem h
  obtain ⟨w, forward, backward⟩ := placed.mirror mem
  obtain rfl : w = v := Except.ok.inj ((forward mode line).symm.trans h)
  exact backward mode line

theorem apply_mirror_iff {op : Operation} {mode : NumericMode} {line : Position}
    (left : a.breadth ≠ .float) (right : b.breadth ≠ .float) (mem : op ∈ Operation.comparisons) :
    a.apply op mode b line = .ok v ↔ b.apply op.mirror mode a line = .ok v := by
  refine ⟨apply_mirror left right mem, fun h => ?_⟩
  have back := apply_mirror right left (Operation.mirror_mem mem) h
  rwa [Operation.mirror_mirror] at back

theorem lt_of_less (h : Placed a b x y) {mode : NumericMode} {line : Position}
    (less : a.apply .less mode b line = .ok (boolean true)) : x < y := by
  have same := (h.ordered.less mode line).symm.trans less
  exact of_decide_eq_true (boolean_injective (Except.ok.inj same))

theorem less_trans {mode : NumericMode} {line : Position} (left : a.breadth ≠ .float)
    (middle : b.breadth ≠ .float) (right : c.breadth ≠ .float)
    (hab : a.apply .less mode b line = .ok (boolean true))
    (hbc : b.apply .less mode c line = .ok (boolean true)) :
    a.apply .less mode c line = .ok (boolean true) := by
  obtain ⟨x, y, first⟩ := exists_placed_of_ok left middle (by decide) hab
  obtain ⟨y', z, second⟩ := exists_placed_of_ok middle right (by decide) hbc
  obtain ⟨rfl, both⟩ := first.trans second
  have less : x < z := (lt_of_less first hab).trans (lt_of_less second hbc)
  rw [← decide_eq_true less]
  exact both.ordered.less mode line

theorem dates_ordered (d e : Date) : Ordered (.date d) (.date e) (d.civil.Before e.civil) (d = e)
    (e.civil.Before d.civil) := by
  have ordered := (Placed.dates d e).ordered
  have same : d.day = e.day ↔ d = e := by
    cases d
    cases e
    rw [Date.mk.injEq]
  simpa only [Int.cast_lt, Int.cast_inj, Date.day_lt_iff, same] using ordered

/-- The comparisons decide one linear order: that of the numbers on exact values, and that of the
calendar on dates. -/
structure LinearlyOrdered : Prop where
  exact : ∀ (a b : Value) (x y : Rat), a.Denotes x → b.Denotes y →
    Ordered a b (x < y) (x = y) (y < x)
  dates : ∀ d e : Date, Ordered (.date d) (.date e) (d.civil.Before e.civil) (d = e)
    (e.civil.Before d.civil)
  trans : ∀ a b c : Value, a.breadth ≠ .float → b.breadth ≠ .float → c.breadth ≠ .float →
    ∀ mode line, a.apply .less mode b line = .ok (boolean true) →
      b.apply .less mode c line = .ok (boolean true) →
      a.apply .less mode c line = .ok (boolean true)
  mirror : ∀ a b : Value, a.breadth ≠ .float → b.breadth ≠ .float →
    ∀ op ∈ Operation.comparisons, ∀ mode line v,
      a.apply op mode b line = .ok v ↔ b.apply op.mirror mode a line = .ok v
  difference : ∀ (a b : Value) (x y : Rat), Placed a b x y → ∃ d, Gives .subtract b a d ∧
    d.Denotes (y - x) ∧ Gives .less a b (boolean (x < y)) ∧ Gives .less zero d (boolean (x < y))

/-- Values other than floats are compared by a linear order, in any mode. -/
theorem linearlyOrdered : LinearlyOrdered where
  exact _ _ _ _ left right := (Placed.exact left right).ordered
  dates := dates_ordered
  trans _ _ _ left middle right _ _ := less_trans left middle right
  mirror _ _ left right _ mem _ _ _ := apply_mirror_iff left right mem
  difference _ _ _ _ := Placed.less_difference

/-- An integer is less than a rational. -/
theorem linearlyOrdered_mixed :
    Ordered (.int 1 .hex) (rational (3 / 2) .dec 1) true false false := by
  have ordered := linearlyOrdered.exact (.int 1 .hex) (rational (3 / 2) .dec 1) _ _
    (denotes_int 1 .hex) (denotes_rational (3 / 2) .dec 1)
  have less : ((1 : Int) : Rat) < 3 / 2 := by norm_num
  rwa [decide_eq_true less, decide_eq_false less.ne, decide_eq_false less.not_gt] at ordered

end Value

end Calculator
