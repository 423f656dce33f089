import Calculator.Tree.Text
import Calculator.Value.Arithmetic

set_option autoImplicit false

namespace Calculator

mutual

def Tree.mapLines (f : Position → Position) : Tree → Tree
  | .body line ts => .body (f line) (mapTreeLines f ts)
  | .constant line v => .constant (f line) v
  | .reference line x => .reference (f line) x
  | .unary line op t => .unary (f line) op (t.mapLines f)
  | .binary line op t u => .binary (f line) op (t.mapLines f) (u.mapLines f)
  | .assign line op x t => .assign (f line) op x (t.mapLines f)
  | .whileLoop line g b => .whileLoop (f line) (g.mapLines f) (b.mapLines f)
  | .forLoop line i g s b =>
    .forLoop (f line) (i.mapLines f) (g.mapLines f) (s.mapLines f) (b.mapLines f)
  | .conditional line g t o =>
    .conditional (f line) (g.mapLines f) (t.mapLines f) (mapOptionLines f o)
  | .define line x params b => .define (f line) x params (b.mapLines f)
  | .call line x ts => .call (f line) x (mapTreeLines f ts)
  | .display line t => .display (f line) (t.mapLines f)
  | .setMode line mode => .setMode (f line) mode
  | .toggleProgrammer line => .toggleProgrammer (f line)
  | .exit line => .exit (f line)

def mapTreeLines (f : Position → Position) : List Tree → List Tree
  | [] => []
  | t :: ts => t.mapLines f :: mapTreeLines f ts

def mapOptionLines (f : Position → Position) : Option Tree → Option Tree
  | none => none
  | some t => some (t.mapLines f)

end

@[simp] theorem mapTreeLines_eq_map (f : Position → Position) (ts : List Tree) :
    mapTreeLines f ts = ts.map (Tree.mapLines f) := by
  induction ts with
  | nil => rfl
  | cons t ts ih => simp [mapTreeLines, ih]

@[simp] theorem mapOptionLines_eq_map (f : Position → Position) (o : Option Tree) :
    mapOptionLines f o = o.map (Tree.mapLines f) := by
  cases o <;> rfl

theorem Tree.line_mapLines (f : Position → Position) (t : Tree) :
    (t.mapLines f).line = f t.line := by
  cases t <;> rfl

mutual

theorem Tree.nodes_mapLines (f : Position → Position) (t : Tree) :
    (t.mapLines f).nodes = t.nodes.map (Tree.mapLines f) := by
  cases t with
  | body line ts => simpa [Tree.mapLines, Tree.nodes] using treeNodes_mapLines f ts
  | constant | reference | setMode | toggleProgrammer | exit => rfl
  | unary line op t | assign line op x t | define line x params t | display line t =>
    simpa [Tree.mapLines, Tree.nodes] using t.nodes_mapLines f
  | binary line op t u | whileLoop line t u =>
    simp [Tree.mapLines, Tree.nodes, t.nodes_mapLines f, u.nodes_mapLines f]
  | forLoop line i g s b =>
    simp [Tree.mapLines, Tree.nodes, i.nodes_mapLines f, g.nodes_mapLines f, s.nodes_mapLines f,
      b.nodes_mapLines f]
  | conditional line g t o =>
    simpa [Tree.mapLines, Tree.nodes, g.nodes_mapLines f, t.nodes_mapLines f] using
      otherwiseNodes_mapLines f o
  | call line x ts => simpa [Tree.mapLines, Tree.nodes] using treeNodes_mapLines f ts

theorem treeNodes_mapLines (f : Position → Position) (ts : List Tree) :
    treeNodes (ts.map (Tree.mapLines f)) = (treeNodes ts).map (Tree.mapLines f) := by
  cases ts with
  | nil => rfl
  | cons t ts => simp [treeNodes, t.nodes_mapLines f, treeNodes_mapLines f ts]

theorem otherwiseNodes_mapLines (f : Position → Position) (o : Option Tree) :
    otherwiseNodes (o.map (Tree.mapLines f)) = (otherwiseNodes o).map (Tree.mapLines f) := by
  cases o with
  | none => rfl
  | some t => exact t.nodes_mapLines f

end

mutual

def Tree.bare : Tree → Tree
  | .body _ ts => .body 0 (bareTrees ts)
  | .constant _ v => .constant 0 v
  | .reference _ x => .reference 0 x
  | .unary _ op t => .unary 0 op t.bare
  | .binary _ op t u => .binary 0 op t.bare u.bare
  | .assign _ op x t => .assign 0 op x t.bare
  | .whileLoop _ g b => .whileLoop 0 g.bare b.bare
  | .forLoop _ i g s b => .forLoop 0 i.bare g.bare s.bare b.bare
  | .conditional _ g t o => .conditional 0 g.bare t.bare (bareOption o)
  | .define _ x params b => .define 0 x params b.bare
  | .call _ x ts => .call 0 x (bareTrees ts)
  | .display _ t => .display 0 t.bare
  | .setMode _ mode => .setMode 0 mode
  | .toggleProgrammer _ => .toggleProgrammer 0
  | .exit _ => .exit 0

def bareTrees : List Tree → List Tree
  | [] => []
  | t :: ts => t.bare :: bareTrees ts

def bareOption : Option Tree → Option Tree
  | none => none
  | some t => some t.bare

end

@[simp] theorem bareTrees_eq_map (ts : List Tree) : bareTrees ts = ts.map Tree.bare := by
  induction ts with
  | nil => rfl
  | cons t ts ih => simp [bareTrees, ih]

@[simp] theorem bareOption_eq_map (o : Option Tree) : bareOption o = o.map Tree.bare := by
  cases o <;> rfl

@[simp] theorem Tree.line_bare (t : Tree) : t.bare.line = 0 := by
  cases t <;> rfl

mutual

theorem Tree.mapLines_zero (t : Tree) : t.mapLines (fun _ => 0) = t.bare := by
  cases t with
  | body line ts => simpa [Tree.mapLines, Tree.bare] using mapTreeLines_zero ts
  | constant | reference | setMode | toggleProgrammer | exit => rfl
  | unary line op t | assign line op x t | define line x params t | display line t =>
    simp [Tree.mapLines, Tree.bare, t.mapLines_zero]
  | binary line op t u | whileLoop line t u =>
    simp [Tree.mapLines, Tree.bare, t.mapLines_zero, u.mapLines_zero]
  | forLoop line i g s b =>
    simp [Tree.mapLines, Tree.bare, i.mapLines_zero, g.mapLines_zero, s.mapLines_zero,
      b.mapLines_zero]
  | conditional line g t o =>
    simpa [Tree.mapLines, Tree.bare, g.mapLines_zero, t.mapLines_zero] using mapOptionLines_zero o
  | call line x ts => simpa [Tree.mapLines, Tree.bare] using mapTreeLines_zero ts

theorem mapTreeLines_zero (ts : List Tree) :
    ts.map (Tree.mapLines fun _ => 0) = ts.map Tree.bare := by
  cases ts with
  | nil => rfl
  | cons t ts => rw [List.map_cons, List.map_cons, t.mapLines_zero, mapTreeLines_zero ts]

theorem mapOptionLines_zero (o : Option Tree) :
    o.map (Tree.mapLines fun _ => 0) = o.map Tree.bare := by
  cases o with
  | none => rfl
  | some t => exact congrArg some t.mapLines_zero

end

theorem Tree.nodes_bare (t : Tree) : t.bare.nodes = t.nodes.map Tree.bare := by
  rw [← t.mapLines_zero, t.nodes_mapLines]
  exact List.map_congr_left fun s _ => s.mapLines_zero

def Value.bare : Value → Value
  | .function name params body => .function name params body.bare
  | v => v

def EvalError.bare : EvalError → EvalError
  | .undefinedVariable name _ => .undefinedVariable name 0
  | .arityMismatch name given expected _ => .arityMismatch name given expected 0
  | .typeMismatch op operand _ => .typeMismatch op operand 0
  | .modeUndefined op _ => .modeUndefined op 0
  | .notCallable name _ => .notCallable name 0
  | .divisionByZero _ => .divisionByZero 0
  | .notABoolean operand _ => .notABoolean operand 0
  | .domain cause _ => .domain cause 0
  | .badOperator op _ => .badOperator op 0
  | .writeFailure reason => .writeFailure reason

section
variable (line : Position)

@[simp] theorem EvalError.bare_modeUndefined (op : String) :
    (modeUndefined op line).bare = .modeUndefined op 0 := rfl

@[simp] theorem EvalError.bare_divisionByZero :
    (divisionByZero line).bare = .divisionByZero 0 := rfl

@[simp] theorem EvalError.bare_domain (cause : DomainError) :
    (domain cause line).bare = .domain cause 0 := rfl

@[simp] theorem EvalError.bare_arityMismatch (name : String) (given expected : Nat) :
    (arityMismatch name given expected line).bare = .arityMismatch name given expected 0 := rfl

end

-- Each function below is the same before and behind `bare`, but for the line of its error.

abbrev bareError {α : Type} (x : Except EvalError α) : Except EvalError α :=
  x.mapError EvalError.bare

section
variable {α β : Type}

@[simp] theorem bareError_ok (a : α) : bareError (.ok a) = .ok a := rfl

@[simp] theorem bareError_pure (a : α) : bareError (pure a) = pure a := rfl

@[simp] theorem bareError_error (e : EvalError) :
    bareError (.error e : Except EvalError α) = .error e.bare := rfl

@[simp] theorem bareError_bind (x : Except EvalError α) (f : α → Except EvalError β) :
    bareError (x >>= f) = bareError x >>= fun a => bareError (f a) := by
  cases x <;> rfl

@[simp] theorem bareError_map (f : α → β) (x : Except EvalError α) :
    bareError (f <$> x) = f <$> bareError x := by
  cases x <;> rfl

@[simp] theorem bareError_ite {p : Prop} [Decidable p] (x y : Except EvalError α) :
    bareError (if p then x else y) = if p then bareError x else bareError y := by
  split <;> rfl

end

namespace Value

variable (a b v : Value) (line : Position)

@[simp] theorem kind_bare : v.bare.kind = v.kind := by
  cases v <;> rfl

@[simp] theorem flavor_bare : v.bare.flavor = v.flavor := by
  cases v <;> rfl

@[simp] theorem precision_bare : v.bare.precision = v.precision := by
  cases v <;> rfl

@[simp] theorem isCallable_bare : v.bare.isCallable = v.isCallable := by
  cases v <;> rfl

@[simp] theorem widest_bare : a.bare.widest b.bare = a.widest b := by
  cases a <;> cases b <;> rfl

@[simp] theorem toInt_bare (op : String) : bareError (v.toInt op line) = v.bare.toInt op 0 := by
  cases v <;> rfl

@[simp] theorem toRational_bare (op : String) :
    bareError (v.toRational op line) = v.bare.toRational op 0 := by
  cases v <;> rfl

@[simp] theorem toFloat_bare (op : String) :
    bareError (v.toFloat op line) = v.bare.toFloat op 0 := by
  cases v <;> rfl

@[simp] theorem toBool_bare : bareError (v.toBool line) = v.bare.toBool 0 := by
  cases v <;> rfl

@[simp] theorem unsupported_bare (op : Operation) :
    (unsupported op a b line).bare = unsupported op a.bare b.bare 0 := by
  simp only [unsupported, EvalError.bare, widest_bare, isCallable_bare, kind_bare]

@[simp] theorem dayCount_bare (op : Operation) :
    bareError (v.dayCount op line) = v.bare.dayCount op 0 := by
  simp [dayCount]

@[simp] theorem shiftDate_bare (d : Date) (days : Int) :
    bareError (shiftDate d days line) = shiftDate d days 0 := by
  unfold shiftDate
  split <;> rfl

-- An operation goes by the widest kind of its operands, which a function has without its body too.

@[simp] theorem add_bare : bareError (a.add b line) = a.bare.add b.bare 0 := by
  unfold add
  simp only [widest_bare, flavor_bare, precision_bare]
  split
  · simp
  · simp
  · simp
  · cases a <;> cases b <;> simp [bare]
  · simp

@[simp] theorem subtract_bare : bareError (a.subtract b line) = a.bare.subtract b.bare 0 := by
  unfold subtract
  simp only [widest_bare, flavor_bare, precision_bare]
  split
  · simp
  · simp
  · simp
  · cases a <;> cases b <;> simp [bare]
  · simp

@[simp] theorem multiply_bare : bareError (a.multiply b line) = a.bare.multiply b.bare 0 := by
  unfold multiply
  simp only [widest_bare, flavor_bare, precision_bare]
  split <;> simp

@[simp] theorem divide_bare (mode : NumericMode) :
    bareError (divide mode a b line) = divide mode a.bare b.bare 0 := by
  unfold divide divideExactly divideFloats
  simp only [widest_bare, precision_bare]
  split <;> simp

@[simp] theorem remainder_bare : bareError (a.remainder b line) = a.bare.remainder b.bare 0 := by
  unfold remainder
  simp only [widest_bare, flavor_bare]
  split <;> simp

@[simp] theorem rationalPower_bare (base : Rat) (exponent : Int) (precision : Nat) :
    bareError (rationalPower base exponent precision line) =
      rationalPower base exponent precision 0 := by
  simp [rationalPower]

@[simp] theorem floatPower_bare : bareError (a.floatPower b line) = a.bare.floatPower b.bare 0 := by
  simp [floatPower]

@[simp] theorem fractionalPower_bare (mode : NumericMode) :
    bareError (fractionalPower mode a b line) = fractionalPower mode a.bare b.bare 0 := by
  simp only [fractionalPower, bareError_bind, floatPower_bare, precision_bare]
  congr 1
  funext x
  cases mode with
  | undefined | float => rfl
  | rational => cases Binary64.toRat? x <;> rfl

@[simp] theorem integerPower_bare (mode : NumericMode) :
    bareError (integerPower mode a b line) = integerPower mode a.bare b.bare 0 := by
  cases mode <;> simp [integerPower]

@[simp] theorem power_bare (mode : NumericMode) :
    bareError (power mode a b line) = power mode a.bare b.bare 0 := by
  unfold power
  simp only [widest_bare, precision_bare]
  split <;> simp

@[simp] theorem bitwise_bare (op : Operation) (f : Int → Int → Int) :
    bareError (bitwise op f a b line) = bitwise op f a.bare b.bare 0 := by
  unfold bitwise
  simp only [widest_bare, flavor_bare]
  split <;> simp

@[simp] theorem logical_bare (f : Bool → Bool → Bool) :
    bareError (logical f a b line) = logical f a.bare b.bare 0 := by
  simp [logical]

@[simp] theorem compare?_bare (op : Operation) :
    bareError (compare? op a b line) = compare? op a.bare b.bare 0 := by
  unfold compare?
  simp only [widest_bare]
  split
  · simp
  · simp
  · simp
  · cases a <;> cases b <;> simp [bare]
  · simp

@[simp] theorem comparison_bare (op : Operation) (test : Option Ordering → Bool) :
    bareError (comparison op test a b line) = comparison op test a.bare b.bare 0 := by
  simp [comparison]

theorem apply_bare (op : Operation) (mode : NumericMode) :
    bareError (a.apply op mode b line) = a.bare.apply op mode b.bare 0 := by
  cases op <;> simp [apply]

theorem transform_bare (t : Transformation) :
    bareError (v.transform t line) = v.bare.transform t 0 := by
  cases t <;> cases v <;> rfl

theorem step_bare (s : Step) : bareError (v.step s line) = v.bare.step s 0 := by
  cases v <;> rfl

end Value

namespace Builtin

variable (b : Builtin) (v : Value) (line : Position)

theorem absolute_bare : bareError (absolute v line) = absolute v.bare 0 := by
  cases v <;> rfl

theorem rounded_bare (f : Rat → Int) : bareError (rounded b f v line) = rounded b f v.bare 0 := by
  cases v with
  | float x =>
    unfold rounded Value.bare
    dsimp only
    cases Binary64.toRat? x <;> rfl
  | _ => rfl

theorem onFloat_bare (f : Float → Float) :
    bareError (onFloat b f v line) = onFloat b f v.bare 0 := by
  simp [onFloat]

theorem applyTo_bare : bareError (b.applyTo v line) = b.applyTo v.bare 0 := by
  cases b <;> simp only [applyTo, absolute_bare, rounded_bare, onFloat_bare]

theorem apply_bare (args : List Value) :
    bareError (b.apply args line) = b.apply (args.map Value.bare) 0 := by
  unfold apply single
  rcases args with _ | ⟨v, _ | ⟨w, args⟩⟩
  · rfl
  · exact b.applyTo_bare v line
  · simp [Bind.bind, Except.bind]

end Builtin

end Calculator
