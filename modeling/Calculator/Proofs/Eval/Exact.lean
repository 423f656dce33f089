import Calculator.Proofs.Eval.Congruence
import Calculator.Proofs.Value.Exact
import Calculator.Tree.Text

set_option autoImplicit false

namespace Calculator

namespace Tree

section
variable {t l r : Tree} {m m' : Machine} {line : Position} {op : Kind} {a b : Value} {e : Failure}

theorem Ends.eventually {o : Outcome Failure Value} (h : t.Ends m o) :
    ∃ n, ∀ fuel, n ≤ fuel → t.eval fuel m = o := by
  obtain ⟨answered, n, rfl⟩ := h
  exact ⟨n, fun fuel enough => t.eval_of_le enough m answered⟩

theorem ends_constant (v : Value) : (constant line v).Ends m (.ok v m) :=
  ⟨by rintro ⟨⟩, 1, rfl⟩

theorem Ends.transform {f : Transformation} (h : t.Ends m (.ok a m'))
    (unary : op.unary = some (.transform f)) :
    (Tree.unary line op t).Ends m (Run.ofExcept (a.transform f line) m') := by
  obtain ⟨-, fuel, run⟩ := h
  refine ⟨by unfold Run.ofExcept; split <;> rintro ⟨⟩, fuel + 1, ?_⟩
  rw [eval, unary]
  exact Run.bind_of_ok run

theorem Ends.transform_error {f : Transformation} (h : t.Ends m (.error e m'))
    (unary : op.unary = some (.transform f)) : (Tree.unary line op t).Ends m (.error e m') := by
  obtain ⟨-, fuel, run⟩ := h
  refine ⟨by rintro ⟨⟩, fuel + 1, ?_⟩
  rw [eval, unary]
  exact Run.bind_of_error run

variable {operation : Operation} {m'' : Machine}

theorem Ends.binary (left : l.Ends m (.ok a m')) (right : r.Ends m' (.ok b m''))
    (binary : op.operation = some operation) :
    (Tree.binary line op l r).Ends m
      (Run.ofExcept (a.apply operation m''.mode b line) m'') := by
  obtain ⟨n, runLeft⟩ := left.eventually
  obtain ⟨k, runRight⟩ := right.eventually
  refine ⟨by unfold Run.ofExcept; split <;> rintro ⟨⟩, max n k + 1, ?_⟩
  rw [eval, binary]
  refine (Run.bind_of_ok (runLeft _ (le_max_left n k))).trans ?_
  exact Run.bind_of_ok (runRight _ (le_max_right n k))

theorem Ends.binary_left_error (left : l.Ends m (.error e m'))
    (binary : op.operation = some operation) :
    (Tree.binary line op l r).Ends m (.error e m') := by
  obtain ⟨-, fuel, run⟩ := left
  refine ⟨by rintro ⟨⟩, fuel + 1, ?_⟩
  rw [eval, binary]
  exact Run.bind_of_error run

theorem Ends.binary_right_error (left : l.Ends m (.ok a m')) (right : r.Ends m' (.error e m''))
    (binary : op.operation = some operation) :
    (Tree.binary line op l r).Ends m (.error e m'') := by
  obtain ⟨n, runLeft⟩ := left.eventually
  obtain ⟨k, runRight⟩ := right.eventually
  refine ⟨by rintro ⟨⟩, max n k + 1, ?_⟩
  rw [eval, binary]
  refine (Run.bind_of_ok (runLeft _ (le_max_left n k))).trans ?_
  exact Run.bind_of_error (runRight _ (le_max_right n k))

end

/-- The expressions over integers and rationals with `-`, `+`, `*`, `/` and `**`. -/
inductive IsArithmetic : Tree → Prop where
  | int (line : Position) (n : Int) (flavor : Flavor) :
      IsArithmetic (.constant line (.int n flavor))
  | rational (line : Position) (q : Rat) (flavor : Flavor) (precision : Nat) :
      IsArithmetic (.constant line (.rational q flavor precision))
  | negation (line : Position) {t : Tree} (operand : IsArithmetic t) :
      IsArithmetic (.unary line .minus t)
  | binary (line : Position) {op : Kind} {l r : Tree}
      (exact : op ∈ [Kind.plus, .minus, .star, .slash, .starStar])
      (lhs : IsArithmetic l) (rhs : IsArithmetic r) : IsArithmetic (.binary line op l r)

/-- The value of an expression in the field of rationals, none where it has no value. -/
def exactValue : Tree → Option Rat
  | .constant _ (.int n _) => some n
  | .constant _ (.rational q _ _) => some q
  | .unary _ .minus t => t.exactValue.map (-·)
  | .binary _ op l r => do (← op.operation).onRationals (← l.exactValue) (← r.exactValue)
  | _ => none

/-- The exponents in an expression that have a value are integers of less than 32 bits. -/
def ExponentsFit (t : Tree) : Prop :=
  ∀ line l r, .binary line .starStar l r ∈ t.nodes → ∀ y : Rat, r.exactValue = some y →
    ∃ n : Int, y = n ∧ |n| < 2 ^ 31

/-- At the root an exact zero is a divisor, or is raised to a negative power. -/
def DividesByZero : Tree → Prop
  | .binary _ .slash _ r => r.exactValue = some 0
  | .binary _ .starStar l r => l.exactValue = some 0 ∧ ∃ y, r.exactValue = some y ∧ y < 0
  | _ => False

section
variable {t l r : Tree} {line : Position} {op : Kind}

theorem operation_of_exact (h : op ∈ [Kind.plus, .minus, .star, .slash, .starStar]) :
    ∃ operation ∈ Value.exactOperations, op.operation = some operation ∧
      (operation = .power → op = .starStar) := by
  simp only [List.mem_cons, List.not_mem_nil, or_false] at h
  rcases h with rfl | rfl | rfl | rfl | rfl <;> exact ⟨_, by decide, rfl, by decide⟩

theorem exactValue_binary {operation : Operation} (h : op.operation = some operation) :
    (binary line op l r).exactValue =
      l.exactValue.bind fun x => r.exactValue.bind fun y => operation.onRationals x y := by
  change op.operation.bind _ = _
  rw [h]
  rfl

theorem ExponentsFit.operand (h : (unary line op t).ExponentsFit) : t.ExponentsFit :=
  fun _ _ _ mem => h _ _ _ (List.mem_cons_of_mem _ mem)

theorem ExponentsFit.lhs (h : (binary line op l r).ExponentsFit) : l.ExponentsFit :=
  fun _ _ _ mem => h _ _ _ (List.mem_cons_of_mem _ (List.mem_append_left _ mem))

theorem ExponentsFit.rhs (h : (binary line op l r).ExponentsFit) : r.ExponentsFit :=
  fun _ _ _ mem => h _ _ _ (List.mem_cons_of_mem _ (List.mem_append_right _ mem))

theorem onRationals_eq_none_iff {operation : Operation} {x y : Rat}
    (exact : op ∈ [Kind.plus, .minus, .star, .slash, .starStar])
    (h : op.operation = some operation) (left : l.exactValue = some x)
    (right : r.exactValue = some y) :
    operation.onRationals x y = none ↔ (binary line op l r).DividesByZero := by
  simp only [List.mem_cons, List.not_mem_nil, or_false] at exact
  rcases exact with rfl | rfl | rfl | rfl | rfl <;> cases h
  · simp [Operation.onRationals, DividesByZero]
  · simp [Operation.onRationals, DividesByZero]
  · simp [Operation.onRationals, DividesByZero]
  · simp [Operation.onRationals, DividesByZero, right]
  · simp [Operation.onRationals, DividesByZero, left, right]

theorem IsArithmetic.exactValue_eq_none_iff (h : t.IsArithmetic) :
    t.exactValue = none ↔ ∃ s ∈ t.nodes, s.DividesByZero := by
  induction h with
  | int line n flavor => simp [exactValue, nodes, DividesByZero]
  | rational line q flavor precision => simp [exactValue, nodes, DividesByZero]
  | negation line operand ih =>
    simp only [exactValue, Option.map_eq_none_iff, ih, nodes, List.mem_cons, exists_eq_or_imp,
      DividesByZero, false_or]
  | @binary line op l r exact lhs rhs ihl ihr =>
    obtain ⟨operation, -, binary, -⟩ := operation_of_exact exact
    simp only [nodes, List.mem_cons, List.mem_append, or_and_right, exists_or,
      ← ihl, ← ihr, exactValue_binary binary]
    cases left : l.exactValue with
    | none => simp
    | some x =>
      cases right : r.exactValue with
      | none => simp
      | some y => simpa using onRationals_eq_none_iff exact binary left right

def Shows (m : Machine) : Option Rat → Outcome Failure Value → Prop
  | some q, o => ∃ v, v.Denotes q ∧ o = .ok v m
  | none, o => ∃ line, o = .error ⟨.divisionByZero line, []⟩ m

theorem shows_ofExcept {m : Machine} {q : Option Rat} {r : Except EvalError Value}
    (h : Value.Answers line q r) : Shows m q (Run.ofExcept r m) := by
  cases q with
  | none =>
    obtain rfl := h
    exact ⟨line, rfl⟩
  | some q =>
    obtain ⟨v, rfl, denotes⟩ := h
    exact ⟨v, denotes, rfl⟩

theorem IsArithmetic.ends (h : t.IsArithmetic) (fit : t.ExponentsFit) {m : Machine}
    (rational : m.mode = .rational) : ∃ o, t.Ends m o ∧ Shows m t.exactValue o := by
  induction h with
  | int line n flavor => exact ⟨_, ends_constant _, _, Value.denotes_int n flavor, rfl⟩
  | rational line q flavor precision =>
    exact ⟨_, ends_constant _, _, Value.denotes_rational q flavor precision, rfl⟩
  | @negation line t operand ih =>
    obtain ⟨o, ends, shown⟩ := ih fit.operand
    rw [exactValue]
    cases value : t.exactValue with
    | none =>
      rw [value] at shown
      obtain ⟨at_, rfl⟩ := shown
      exact ⟨_, ends.transform_error rfl, at_, rfl⟩
    | some x =>
      rw [value] at shown
      obtain ⟨a, denotes, rfl⟩ := shown
      obtain ⟨v, negated, denotes'⟩ := Value.negate_exact denotes line
      have answers : Value.Answers line (some (-x)) (a.transform .negate line) :=
        ⟨v, negated, denotes'⟩
      exact ⟨_, ends.transform rfl, shows_ofExcept answers⟩
  | @binary line op l r exact lhs rhs ihl ihr =>
    obtain ⟨operation, mem, binary, isPower⟩ := operation_of_exact exact
    obtain ⟨o, endsLeft, left⟩ := ihl fit.lhs
    rw [exactValue_binary binary]
    -- The first operand without a value is the one that fails the whole.
    cases valueLeft : l.exactValue with
    | none =>
      rw [valueLeft] at left
      obtain ⟨at_, rfl⟩ := left
      exact ⟨_, endsLeft.binary_left_error binary, at_, rfl⟩
    | some x =>
      rw [valueLeft] at left
      obtain ⟨a, denotesLeft, rfl⟩ := left
      obtain ⟨o, endsRight, right⟩ := ihr fit.rhs
      cases valueRight : r.exactValue with
      | none =>
        rw [valueRight] at right
        obtain ⟨at_, rfl⟩ := right
        exact ⟨_, endsLeft.binary_right_error endsRight binary, at_, rfl⟩
      | some y =>
        rw [valueRight] at right
        obtain ⟨b, denotesRight, rfl⟩ := right
        refine ⟨_, endsLeft.binary endsRight binary, ?_⟩
        rw [rational]
        refine shows_ofExcept (Value.apply_exact denotesLeft denotesRight line mem fun power => ?_)
        obtain rfl := isPower power
        exact fit line l r List.mem_cons_self y valueRight

end

/-- In the rational mode the value of an expression is the exact one. If there is none, then the
evaluation fails with a division by zero, and it does so only where a part divides by zero. The
machine stays as it was. -/
theorem ends_exactly (t : Tree) (m : Machine) (rational : m.mode = .rational)
    (arithmetic : t.IsArithmetic) (fit : t.ExponentsFit) :
    (∀ q, t.exactValue = some q → ∃ v, v.Denotes q ∧ t.Ends m (.ok v m)) ∧
      (t.exactValue = none → ∃ line, t.Ends m (.error ⟨.divisionByZero line, []⟩ m)) ∧
      ((∃ line trace m', t.Ends m (.error ⟨.divisionByZero line, trace⟩ m')) ↔
        ∃ s ∈ t.nodes, s.DividesByZero) := by
  obtain ⟨o, ends, shown⟩ := arithmetic.ends fit rational
  rw [← arithmetic.exactValue_eq_none_iff]
  cases value : t.exactValue with
  | none =>
    rw [value] at shown
    obtain ⟨line, rfl⟩ := shown
    refine ⟨fun _ h => (nomatch h), fun _ => ⟨line, ends⟩, fun _ => rfl, ?_⟩
    exact fun _ => ⟨line, [], m, ends⟩
  | some q =>
    rw [value] at shown
    obtain ⟨v, denotes, rfl⟩ := shown
    refine ⟨?_, fun h => (nomatch h), ?_, fun h => (nomatch h)⟩
    · rintro _ ⟨⟩
      exact ⟨v, denotes, ends⟩
    · rintro ⟨line, trace, m', failed⟩
      cases ends.unique failed

/-- `(2 ** -3 - 0.125) ** 0 / 0.5`, where an exact zero is raised to the power zero. -/
def zerothPower : Tree :=
  .binary 1 .slash
    (.binary 1 .starStar
      (.binary 1 .minus
        (.binary 1 .starStar (.constant 1 (.int 2 .hex))
          (.unary 1 .minus (.constant 1 (.int 3 .dec))))
        (.constant 1 (.rational (1 / 8) .dec 3)))
      (.constant 1 (.int 0 .dec)))
    (.constant 1 (.rational (1 / 2) .dec 1))

theorem ends_exactly_zerothPower :
    ∃ v, v.Denotes 2 ∧ zerothPower.Ends (.initial .rational true (.refusing "write failed"))
      (.ok v (.initial .rational true (.refusing "write failed"))) := by
  have arithmetic : zerothPower.IsArithmetic :=
    .binary 1 (by decide)
      (.binary 1 (by decide)
        (.binary 1 (by decide)
          (.binary 1 (by decide) (.int 1 2 .hex) (.negation 1 (.int 1 3 .dec)))
          (.rational 1 _ .dec 3))
        (.int 1 0 .dec))
      (.rational 1 _ .dec 1)
  have fit : zerothPower.ExponentsFit := by
    intro line l r mem y value
    simp only [zerothPower, nodes, List.mem_cons, List.mem_append, List.not_mem_nil, or_false,
      reduceCtorEq, binary.injEq, false_and, and_false, false_or, or_self] at mem
    rcases mem with ⟨-, -, -, rfl⟩ | ⟨-, -, -, rfl⟩
    · exact ⟨0, (Option.some.inj value).symm, by decide⟩
    · exact ⟨-3, by simpa using (Option.some.inj value).symm, by decide⟩
  have value : zerothPower.exactValue = some 2 := by decide +kernel
  exact (ends_exactly zerothPower _ rfl arithmetic fit).1 2 value

end Tree

end Calculator
