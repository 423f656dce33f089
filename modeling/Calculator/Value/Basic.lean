import Calculator.Date
import Calculator.Operation
import Calculator.Token.Basic

set_option autoImplicit false

namespace Calculator

/-- The preferred presentation of a number. -/
inductive Flavor where
  | dec
  | oct
  | hex
  /-- A float written with an exponent. -/
  | exp
  /-- A number of seconds shown as a duration. -/
  | time
  deriving DecidableEq

/-- The flavor of a result: the common one of the operands, or else decimal. -/
def Flavor.merge (f g : Flavor) : Flavor :=
  if f = g then f else .dec

theorem Flavor.merge_self (f : Flavor) : f.merge f = f :=
  if_pos rfl

theorem Flavor.merge_comm (f g : Flavor) : f.merge g = g.merge f := by
  unfold merge
  split
  · rename_i h
    rw [if_pos h.symm, h]
  · rename_i h
    rw [if_neg fun e => h e.symm]

theorem Flavor.merge_assoc (f g h : Flavor) : (f.merge g).merge h = f.merge (g.merge h) := by
  cases f <;> cases g <;> cases h <;> rfl

theorem Flavor.merge_merge_self_left (f g h : Flavor) :
    f.merge (g.merge h) = (f.merge g).merge (f.merge h) :=
  calc f.merge (g.merge h)
    _ = (f.merge f).merge (g.merge h) := by rw [merge_self]
    _ = f.merge ((g.merge f).merge h) := by rw [merge_assoc, ← merge_assoc f g h, merge_comm f g]
    _ = (f.merge g).merge (f.merge h) := by rw [merge_assoc, merge_assoc]

mutual

inductive Value where
  | int (n : Int) (flavor : Flavor)
  | float (x : Float) (flavor : Flavor)
  /-- An exact rational, shown with so many digits behind the point. -/
  | rational (q : Rat) (flavor : Flavor) (precision : Nat)
  | date (d : Date)
  | function (name : String) (params : List String) (body : Tree)
  | builtin (b : Builtin)

inductive Tree where
  /-- Statements in a row; the value is that of the last one. -/
  | body (line : Position) (statements : List Tree)
  | constant (line : Position) (value : Value)
  | reference (line : Position) (name : String)
  | unary (line : Position) (op : Kind) (operand : Tree)
  | binary (line : Position) (op : Kind) (lhs rhs : Tree)
  /-- An assignment, with an operation on the old value first if `op` has one. -/
  | assign (line : Position) (op : Kind) (target : String) (value : Tree)
  | whileLoop (line : Position) (guard body : Tree)
  | forLoop (line : Position) (init guard step body : Tree)
  | conditional (line : Position) (guard positive : Tree) (otherwise : Option Tree)
  | define (line : Position) (name : String) (params : List String) (body : Tree)
  | call (line : Position) (name : String) (args : List Tree)
  /-- Writes a value with its kind. -/
  | display (line : Position) (expression : Tree)
  | setMode (line : Position) (mode : NumericMode)
  | toggleProgrammer (line : Position)
  | exit (line : Position)

end

def Tree.line : Tree → Position
  | .body line _ | .constant line _ | .reference line _ | .unary line _ _ | .binary line _ _ _
  | .assign line _ _ _ | .whileLoop line _ _ | .forLoop line _ _ _ _ | .conditional line _ _ _
  | .define line _ _ _ | .call line _ _ | .display line _ | .setMode line _
  | .toggleProgrammer line | .exit line => line

inductive ValueKind where
  | integer
  | rational
  | float
  | date
  | function
  | builtin
  deriving DecidableEq

def ValueKind.name : ValueKind → String
  | .integer => "integer"
  | .rational => "rational"
  | .float => "float"
  | .date => "date"
  | .function => "function"
  | .builtin => "builtin"

/-- The kinds that operators distinguish, from the narrowest to the widest. -/
inductive Breadth where
  | integer
  | rational
  | float
  | date
  | callable
  deriving DecidableEq

namespace Breadth

def rank : Breadth → Nat
  | .integer => 0
  | .rational => 1
  | .float => 2
  | .date => 3
  | .callable => 4

def kind : Breadth → ValueKind
  | .integer => .integer
  | .rational => .rational
  | .float => .float
  | .date => .date
  | .callable => .function

def max (a b : Breadth) : Breadth :=
  if a.rank ≤ b.rank then b else a

theorem rank_injective {a b : Breadth} (same : a.rank = b.rank) : a = b := by
  cases a <;> cases b <;> first | rfl | cases same

theorem rank_max (a b : Breadth) : (a.max b).rank = Max.max a.rank b.rank := by
  unfold max
  split <;> omega

theorem max_comm (a b : Breadth) : a.max b = b.max a :=
  rank_injective (by rw [rank_max, rank_max, Nat.max_comm])

theorem max_assoc (a b c : Breadth) : (a.max b).max c = a.max (b.max c) :=
  rank_injective (by simp only [rank_max, Nat.max_assoc])

theorem max_max_self_left (a b c : Breadth) : a.max (b.max c) = (a.max b).max (a.max c) :=
  rank_injective (by simp only [rank_max]; omega)

end Breadth

namespace Value

def zero : Value := .int 0 .dec

def boolean (b : Bool) : Value := .int (if b then 1 else 0) .dec

def kind : Value → ValueKind
  | .int .. => .integer
  | .float .. => .float
  | .rational .. => .rational
  | .date _ => .date
  | .function .. => .function
  | .builtin _ => .builtin

def breadth : Value → Breadth
  | .int .. => .integer
  | .rational .. => .rational
  | .float .. => .float
  | .date _ => .date
  | .function .. | .builtin _ => .callable

/-- The breadth of an operation on two values. -/
def widest (a b : Value) : Breadth :=
  a.breadth.max b.breadth

def isCallable : Value → Bool
  | .function .. | .builtin _ => true
  | _ => false

def flavor : Value → Flavor
  | .int _ f | .float _ f | .rational _ f _ => f
  | _ => .dec

/-- The digits that a rational is shown with; zero for all other values. -/
def precision : Value → Nat
  | .rational _ _ p => p
  | _ => 0

end Value

end Calculator
