import Calculator.Tree.Parser
import Mathlib.Tactic.SplitIfs

set_option autoImplicit false

/-!
# Chains of operands

The trees over the operands of a chain, with the operands as leaves. Operands and operators in
their order and the priorities of the operators leave one tree only (`Chain.Ordered.unique`). It is
the one that precedence climbing builds, and the one that the two stacks of the parser come to.
-/
namespace Calculator

inductive Chain where
  | leaf (t : Tree)
  | node (op : Token) (l r : Chain)

namespace Chain

def level (op : Token) : Nat :=
  op.kind.priority.getD 0

def toTree : Chain → Tree
  | leaf t => t
  | node op l r => .binary op.line op.kind l.toTree r.toTree

def spelling : Chain → List (Tree ⊕ Token)
  | leaf t => [.inl t]
  | node op l r => l.spelling ++ .inr op :: r.spelling

/-- A single operand, or an operator of this priority or a higher one at the root. -/
def AtLeast (p : Nat) : Chain → Prop
  | leaf _ => True
  | node op _ _ => p ≤ level op

/-- No operator stands below one of a higher priority, nor to the right below one of its own. -/
def Ordered : Chain → Prop
  | leaf _ => True
  | node op l r => l.Ordered ∧ r.Ordered ∧ l.AtLeast (level op) ∧ r.AtLeast (level op + 1)

def linked (links : List (Token × Tree)) : List (Tree ⊕ Token) :=
  links.flatMap fun link => [.inr link.1, .inl link.2]

theorem Ordered.level_ge {c : Chain} {p : Nat} (h : c.Ordered) (root : c.AtLeast p) {op : Token}
    (mem : .inr op ∈ c.spelling) : p ≤ level op := by
  induction c generalizing p with
  | leaf t => cases List.mem_singleton.mp mem
  | node top l r ihl ihr =>
    obtain ⟨left, right, onLeft, onRight⟩ := h
    change p ≤ level top at root
    rcases List.mem_append.mp mem with mem | mem
    · have := ihl left onLeft mem
      omega
    · rcases List.mem_cons.mp mem with same | mem
      · rw [Sum.inr.inj same]
        exact root
      · have := ihr right onRight mem
        omega

theorem length_spelling_pos (c : Chain) : 0 < c.spelling.length := by
  cases c with
  | leaf t => exact Nat.zero_lt_one
  | node op l r =>
    rw [spelling, List.length_append, List.length_cons]
    omega

theorem leaf_spelling_ne (t : Tree) (op : Token) (l r : Chain) :
    (leaf t).spelling ≠ (node op l r).spelling := by
  intro same
  have lengths := congrArg List.length same
  have := l.length_spelling_pos
  simp only [spelling, List.length_append, List.length_cons, List.length_nil] at lengths
  omega

theorem Ordered.root_eq {op op' : Token} {l r l' r' : Chain} {between : List (Tree ⊕ Token)}
    (h : (node op l r).Ordered) (h' : (node op' l' r').Ordered)
    (left : l'.spelling = l.spelling ++ between)
    (right : .inr op :: r.spelling = between ++ .inr op' :: r'.spelling) : between = [] := by
  cases between with
  | nil => rfl
  | cons item between =>
    obtain ⟨rfl, after⟩ := List.cons.inj right
    have inLeft : .inr op ∈ l'.spelling := by
      rw [left]
      exact List.mem_append_right _ List.mem_cons_self
    have inRight : .inr op' ∈ r.spelling := by
      rw [after]
      exact List.mem_append_right _ List.mem_cons_self
    have below := h'.1.level_ge h'.2.2.1 inLeft
    have above := h.2.1.level_ge h.2.2.2 inRight
    omega

theorem Ordered.unique {c d : Chain} (hc : c.Ordered) (hd : d.Ordered)
    (same : c.spelling = d.spelling) : c = d := by
  induction c generalizing d with
  | leaf t =>
    cases d with
    | leaf u => rw [Sum.inl.inj (List.cons.inj same).1]
    | node op l r => exact absurd same (leaf_spelling_ne t op l r)
  | node op l r ihl ihr =>
    cases d with
    | leaf u => exact absurd same.symm (leaf_spelling_ne u op l r)
    | node op' l' r' =>
      -- One root inside an operand of the other would be lower and not lower than it.
      have parts : l.spelling = l'.spelling ∧
          (.inr op :: r.spelling : List (Tree ⊕ Token)) = .inr op' :: r'.spelling := by
        rcases List.append_eq_append_iff.mp same with
          ⟨between, left, right⟩ | ⟨between, left, right⟩
        · obtain rfl := hc.root_eq hd left right
          exact ⟨(left.trans (List.append_nil _)).symm, right⟩
        · obtain rfl := hd.root_eq hc left right
          exact ⟨left.trans (List.append_nil _), right.symm⟩
      obtain ⟨root, right⟩ := List.cons.inj parts.2
      rw [Sum.inr.inj root, ihl hc.1 hd.1 parts.1, ihr hc.2.1 hd.2.1 right]

/-- Takes operators of priority `p` or higher behind a chain, each with all that binds more tightly
behind it, and leaves the rest. -/
def climb (p : Nat) (lhs : Chain) (links : List (Token × Tree)) :
    Chain × { rest : List (Token × Tree) // rest.length ≤ links.length } :=
  match links with
  | [] => (lhs, ⟨[], Nat.le_refl _⟩)
  | (op, t) :: links =>
    if level op < p then (lhs, ⟨(op, t) :: links, Nat.le_refl _⟩)
    else
      let right := climb (level op + 1) (leaf t) links
      let whole := climb p (node op lhs right.1) right.2.1
      (whole.1, ⟨whole.2.1, Nat.le_succ_of_le (Nat.le_trans whole.2.2 right.2.2)⟩)
  termination_by links.length
  decreasing_by
    · exact Nat.lt_succ_self _
    · exact Nat.lt_succ_of_le right.2.2

/-- The tree of the chain by left associative precedence climbing. -/
def climbed (first : Tree) (links : List (Token × Tree)) : Chain :=
  (climb 0 (leaf first) links).1

theorem climb_spec (p : Nat) (lhs : Chain) (links : List (Token × Tree)) (ordered : lhs.Ordered)
    (root : lhs.AtLeast p) (before : ∀ link ∈ links.head?, lhs.AtLeast (level link.1)) :
    (climb p lhs links).1.Ordered ∧ (climb p lhs links).1.AtLeast p ∧
      (climb p lhs links).1.spelling ++ linked (climb p lhs links).2.1 =
        lhs.spelling ++ linked links ∧
      ∀ link ∈ (climb p lhs links).2.1.head?, level link.1 < p := by
  induction p, lhs, links using climb.induct with
  | case1 p lhs =>
    rw [climb]
    exact ⟨ordered, root, rfl, fun _ none => nomatch none⟩
  | case2 p lhs op t links low =>
    rw [climb, if_pos low]
    refine ⟨ordered, root, rfl, fun link head => ?_⟩
    rw [← Option.some.inj head]
    exact low
  | case3 p lhs op t links high right ihr ihw =>
    -- The operator takes all higher ones behind it, and the climb goes on with the node it makes.
    have onRight := ihr trivial trivial (fun _ _ => trivial)
    obtain ⟨orderedR, rootR, spelledR, stopR⟩ := onRight
    have node : (node op lhs right.1).Ordered :=
      ⟨ordered, orderedR, before (op, t) rfl, rootR⟩
    have onWhole := ihw node (Nat.le_of_not_lt high)
      fun link head => Nat.le_of_lt_succ (stopR link head)
    obtain ⟨orderedW, rootW, spelledW, stopW⟩ := onWhole
    rw [climb, if_neg high]
    refine ⟨orderedW, rootW, ?_, stopW⟩
    refine spelledW.trans ?_
    rw [spelling, List.append_assoc, List.cons_append, spelledR]
    rfl

theorem climbed_ordered (first : Tree) (links : List (Token × Tree)) :
    (climbed first links).Ordered :=
  (climb_spec 0 (leaf first) links trivial trivial fun _ _ => trivial).1

theorem climbed_spelling (first : Tree) (links : List (Token × Tree)) :
    (climbed first links).spelling = .inl first :: linked links := by
  obtain ⟨-, -, spelled, stop⟩ := climb_spec 0 (leaf first) links trivial trivial fun _ _ => trivial
  have none : (climb 0 (leaf first) links).2.1 = [] := by
    cases rest : (climb 0 (leaf first) links).2.1 with
    | nil => rfl
    | cons link rest' =>
      rw [rest] at stop
      exact absurd (stop link rfl) (Nat.not_lt_zero _)
  rw [none] at spelled
  exact (List.append_nil _).symm.trans spelled

/-- Chains and the operators between them, the last ones first: what stands before an operator is
not lower, what stands behind it is higher, and each operator is higher than those before. -/
inductive Stacked : List Chain → List Token → Prop where
  | single {c : Chain} (ordered : c.Ordered) : Stacked [c] []
  | push {operands : List Chain} {operators : List Token} {op : Token} {l c : Chain}
      (below : Stacked (l :: operands) operators)
      (higher : ∀ q ∈ operators.head?, level q < level op) (left : l.AtLeast (level op))
      (ordered : c.Ordered) (right : c.AtLeast (level op + 1)) :
      Stacked (c :: l :: operands) (op :: operators)

def stackSpelling : List Chain → List Token → List (Tree ⊕ Token)
  | c :: operands, op :: operators => stackSpelling operands operators ++ .inr op :: c.spelling
  | c :: _, [] => c.spelling
  | [], _ => []

section
variable {c : Chain} {operands : List Chain} {operators : List Token}

theorem Stacked.ordered (h : Stacked (c :: operands) operators) : c.Ordered := by
  cases h with
  | single ordered => exact ordered
  | push _ _ _ ordered _ => exact ordered

theorem Stacked.replace {d : Chain} (h : Stacked (c :: operands) operators) (ordered : d.Ordered)
    (right : ∀ q ∈ operators.head?, d.AtLeast (level q + 1)) :
    Stacked (d :: operands) operators := by
  cases h with
  | single _ => exact .single ordered
  | push below higher left _ _ => exact .push below higher left ordered (right _ rfl)

theorem stackSpelling_node (op : Token) (l r : Chain) (operands : List Chain)
    (operators : List Token) :
    stackSpelling (node op l r :: operands) operators =
      stackSpelling (l :: operands) operators ++ .inr op :: r.spelling := by
  cases operators with
  | nil => rfl
  | cons q operators => simp only [stackSpelling, spelling, List.append_assoc, List.cons_append]

/-- The stacks as they are when an operator of priority `p` can be pushed. -/
def Reduced (p : Nat) (c : Chain) (operators : List Token) : Prop :=
  c.AtLeast p ∧ ∀ q ∈ operators.head?, level q < p

theorem reduceBefore_stacked (p : Nat) (h : Stacked (c :: operands) operators)
    (top : c.AtLeast p) : ∃ d operands' operators',
      Parser.reduceBefore p ((c :: operands).map toTree) operators =
        some ((d :: operands').map toTree, operators') ∧
      Stacked (d :: operands') operators' ∧ Reduced p d operators' ∧
      stackSpelling (d :: operands') operators' = stackSpelling (c :: operands) operators := by
  induction operators generalizing c operands with
  | nil => exact ⟨c, operands, [], rfl, h, ⟨top, fun _ none => nomatch none⟩, rfl⟩
  | cons op operators ih =>
    by_cases low : level op < p
    · refine ⟨c, operands, op :: operators, ?_, h, ⟨top, fun q head => ?_⟩, rfl⟩
      · exact if_pos low
      · rw [← Option.some.inj head]
        exact low
    · cases h with
      | @push operands _ _ l _ below higher left ordered right =>
        -- Applied, the operator is the root of the new top, and what is below stays in order.
        have node : (node op l c).Ordered := ⟨below.ordered, ordered, left, right⟩
        have onTop := below.replace node fun q head => higher q head
        obtain ⟨d, operands', operators', reduced, stacked, ready, spelled⟩ :=
          ih onTop (Nat.le_of_not_lt low)
        refine ⟨d, operands', operators', ?_, stacked, ready, ?_⟩
        · rw [← reduced]
          exact if_neg low
        · rw [spelled, stackSpelling_node]
          rfl

theorem reduceAll_stacked (h : Stacked (c :: operands) operators) :
    ∃ d : Chain, Parser.reduceAll ((c :: operands).map toTree) operators = some d.toTree ∧
      d.Ordered ∧ d.spelling = stackSpelling (c :: operands) operators := by
  have top : c.AtLeast 0 := by
    cases c with
    | leaf t => trivial
    | node op l r => exact Nat.zero_le _
  obtain ⟨d, operands', operators', reduced, stacked, ready, spelled⟩ :=
    reduceBefore_stacked 0 h top
  cases stacked with
  | single ordered =>
    refine ⟨d, ?_, ordered, spelled⟩
    rw [Parser.reduceAll, reduced]
    rfl
  | push _ _ _ _ _ => exact absurd (ready.2 _ rfl) (Nat.not_lt_zero _)

end

end Chain

end Calculator
