import Calculator.Tree.Text
import Mathlib.Data.List.Basic

set_option autoImplicit false

namespace Calculator

namespace Tree

def isBody : Tree → Bool
  | .body .. => true
  | _ => false

def isReference : Tree → Bool
  | .reference .. => true
  | _ => false

def isConditional : Tree → Bool
  | .conditional .. => true
  | _ => false

def isDefinition : Tree → Bool
  | .define .. => true
  | _ => false

def isSetting : Tree → Bool
  | .setMode .. => true
  | _ => false

def isCall : Tree → Bool
  | .call .. => true
  | _ => false

def AppliesTo (op : Kind) (operand : Tree) : Prop :=
  match op.unary with
  | none => False
  | some (.transform _) => True
  | some (.step _) => operand.isReference = true

def RootFits : Tree → Prop
  | .constant _ v => v.isCallable = false
  | .unary _ op operand => AppliesTo op operand
  | .binary _ op _ _ => op.operation.isSome = true
  | .assign _ op _ _ => op.assigns = true
  | .whileLoop _ _ b => b.isBody = true
  | .forLoop _ _ _ _ b => b.isBody = true
  | .conditional _ _ positive otherwise =>
    positive.isBody = true ∧ ∀ t ∈ otherwise, t.isBody = true ∨ t.isConditional = true
  | .define _ _ _ b => b.isBody = true
  | _ => True

def All (P : Tree → Prop) (t : Tree) : Prop :=
  ∀ s ∈ t.nodes, P s

section
variable {P : Tree → Prop} {line : Position} {op : Kind} {x : String} {t u : Tree} {ts : List Tree}

theorem nodes_eq_cons (t : Tree) : t.nodes = t :: t.nodes.tail := by
  cases t <;> rfl

theorem all_iff : t.All P ↔ P t ∧ ∀ s ∈ t.nodes.tail, P s := by
  rw [All, nodes_eq_cons, List.forall_mem_cons]
  rfl

theorem forall_mem_treeNodes : (∀ s ∈ treeNodes ts, P s) ↔ ∀ t ∈ ts, t.All P := by
  induction ts with
  | nil => simp [treeNodes]
  | cons t ts ih => simp only [treeNodes, List.forall_mem_append, List.forall_mem_cons, ih, All]

theorem All.root (h : t.All P) : P t :=
  (all_iff.mp h).1

theorem All.mono {Q : Tree → Prop} (h : t.All P) (implies : ∀ s, P s → Q s) : t.All Q :=
  fun s mem => implies s (h s mem)

theorem all_body : (body line ts).All P ↔ P (body line ts) ∧ ∀ t ∈ ts, t.All P :=
  all_iff.trans (and_congr_right' forall_mem_treeNodes)

theorem all_constant {v : Value} : (constant line v).All P ↔ P (constant line v) :=
  all_iff.trans (and_iff_left (List.forall_mem_nil _))

theorem all_reference : (reference line x).All P ↔ P (reference line x) :=
  all_iff.trans (and_iff_left (List.forall_mem_nil _))

theorem all_unary : (unary line op t).All P ↔ P (unary line op t) ∧ t.All P :=
  all_iff

theorem all_binary :
    (binary line op t u).All P ↔ P (binary line op t u) ∧ t.All P ∧ u.All P :=
  all_iff.trans (and_congr_right' List.forall_mem_append)

theorem all_assign : (assign line op x t).All P ↔ P (assign line op x t) ∧ t.All P :=
  all_iff

theorem all_whileLoop :
    (whileLoop line t u).All P ↔ P (whileLoop line t u) ∧ t.All P ∧ u.All P :=
  all_iff.trans (and_congr_right' List.forall_mem_append)

theorem all_forLoop {init step : Tree} : (forLoop line init t step u).All P ↔
    P (forLoop line init t step u) ∧ init.All P ∧ t.All P ∧ step.All P ∧ u.All P := by
  refine all_iff.trans (and_congr_right' ?_)
  simp only [nodes, List.tail_cons, List.forall_mem_append, and_assoc, All]

theorem all_conditional {otherwise : Option Tree} : (conditional line t u otherwise).All P ↔
    P (conditional line t u otherwise) ∧ t.All P ∧ u.All P ∧ ∀ s ∈ otherwise, s.All P := by
  refine all_iff.trans (and_congr_right' ?_)
  cases otherwise <;>
    simp [nodes, otherwiseNodes, All, or_imp, forall_and]

theorem all_define {params : List String} :
    (define line x params t).All P ↔ P (define line x params t) ∧ t.All P :=
  all_iff

theorem all_call : (call line x ts).All P ↔ P (call line x ts) ∧ ∀ t ∈ ts, t.All P :=
  all_iff.trans (and_congr_right' forall_mem_treeNodes)

theorem all_display : (display line t).All P ↔ P (display line t) ∧ t.All P :=
  all_iff

theorem all_setMode {mode : NumericMode} :
    (setMode line mode).All P ↔ P (setMode line mode) :=
  all_iff.trans (and_iff_left (List.forall_mem_nil _))

theorem all_toggleProgrammer :
    (toggleProgrammer line).All P ↔ P (toggleProgrammer line) :=
  all_iff.trans (and_iff_left (List.forall_mem_nil _))

theorem all_exit : (exit line).All P ↔ P (exit line) :=
  all_iff.trans (and_iff_left (List.forall_mem_nil _))

end

/-- A program: statements in a row of which each node fits, with definitions among the statements
themselves but not inside of them. -/
structure IsProgram (t : Tree) : Prop where
  fits : t.All RootFits
  top : ∃ line statements, t = .body line statements ∧
    ∀ s ∈ statements, ∀ u ∈ s.nodes.tail, u.isDefinition = false

/-- An expression: nothing but values, variables, operators, assignments and calls. -/
inductive IsFormula : Tree → Prop where
  | constant {line : Position} {v : Value} (isDatum : v.isCallable = false) :
      IsFormula (.constant line v)
  | reference {line : Position} {x : String} : IsFormula (.reference line x)
  | unary {line : Position} {op : Kind} {t : Tree} (applies : AppliesTo op t)
      (operand : IsFormula t) : IsFormula (.unary line op t)
  | binary {line : Position} {op : Kind} {t u : Tree} (isOperator : op.operation.isSome = true)
      (lhs : IsFormula t) (rhs : IsFormula u) : IsFormula (.binary line op t u)
  | assign {line : Position} {op : Kind} {x : String} {t : Tree} (assigns : op.assigns = true)
      (value : IsFormula t) : IsFormula (.assign line op x t)
  | call {line : Position} {x : String} {args : List Tree} (each : ∀ t ∈ args, IsFormula t) :
      IsFormula (.call line x args)

def InPlace : Tree → Prop
  | .whileLoop _ guard _ => guard.IsFormula
  | .forLoop _ init guard step _ => init.IsFormula ∧ guard.IsFormula ∧ step.IsFormula
  | .conditional _ guard _ _ => guard.IsFormula
  | .display _ expression => expression.IsFormula
  | .body .. | .define .. | .setMode .. | .toggleProgrammer .. | .exit .. => True
  | t => t.IsFormula

def Inner (t : Tree) : Prop :=
  t.RootFits ∧ t.isDefinition = false ∧ t.InPlace

def Nested (t : Tree) : Prop :=
  t.All Inner

def TopLevel (t : Tree) : Prop :=
  t.RootFits ∧ t.InPlace ∧ ∀ s ∈ t.nodes.tail, s.Inner

def Allowed (top : Bool) (t : Tree) : Prop :=
  if top then t.TopLevel else t.Nested

section
variable {line : Position} {x : String} {t : Tree} {ts : List Tree}

theorem IsFormula.nested (h : t.IsFormula) : t.Nested := by
  induction h with
  | constant isDatum => exact all_constant.mpr ⟨isDatum, rfl, .constant isDatum⟩
  | reference => exact all_reference.mpr ⟨trivial, rfl, .reference⟩
  | unary applies operand ih => exact all_unary.mpr ⟨⟨applies, rfl, .unary applies operand⟩, ih⟩
  | binary isOperator lhs rhs ihl ihr =>
    exact all_binary.mpr ⟨⟨isOperator, rfl, .binary isOperator lhs rhs⟩, ihl, ihr⟩
  | assign assigns value ih => exact all_assign.mpr ⟨⟨assigns, rfl, .assign assigns value⟩, ih⟩
  | call each ih => exact all_call.mpr ⟨⟨trivial, rfl, .call each⟩, ih⟩

theorem Nested.allowed (h : t.Nested) (top : Bool) : t.Allowed top := by
  cases top with
  | false => exact h
  | true => exact ⟨h.root.1, h.root.2.2, (all_iff.mp h).2⟩

theorem topLevel_define {params : List String} (isBody : t.isBody = true) (inner : t.Nested) :
    (define line x params t).TopLevel :=
  ⟨isBody, trivial, inner⟩

theorem TopLevel.inPlace (h : t.TopLevel) : t.All InPlace :=
  all_iff.mpr ⟨h.2.1, fun s inside => (h.2.2 s inside).2.2⟩

theorem isProgram_body (h : ∀ t ∈ ts, t.TopLevel) : (body line ts).IsProgram := by
  constructor
  · intro s mem
    rw [nodes, List.mem_cons] at mem
    rcases mem with rfl | mem
    · trivial
    · refine forall_mem_treeNodes.mpr (fun t mem => all_iff.mpr ⟨(h t mem).1, ?_⟩) s mem
      exact fun u inside => ((h t mem).2.2 u inside).1
  · exact ⟨line, ts, rfl, fun s mem u inside => ((h s mem).2.2 u inside).2.1⟩

end

end Tree

end Calculator
