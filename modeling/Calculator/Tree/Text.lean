import Calculator.Value.Text

set_option autoImplicit false

namespace Calculator

mutual

def Tree.text : Tree → String
  | .body _ statements => "Body<[" ++ " ".intercalate (treeTexts statements) ++ "]>"
  | .constant _ v => "Const<" ++ v.render false ++ ">"
  | .reference _ name => "Var<" ++ name ++ ">"
  | .unary _ op operand => "UniOp<" ++ op.name ++ ", " ++ operand.text ++ ">"
  | .binary _ op lhs rhs => "BinOp<" ++ op.name ++ ", " ++ lhs.text ++ ", " ++ rhs.text ++ ">"
  | .assign _ op target value => "Set<" ++ op.name ++ ", " ++ target ++ ", " ++ value.text ++ ">"
  | .whileLoop _ guard body => "While<" ++ guard.text ++ ", " ++ body.text ++ ">"
  | .forLoop _ init guard step body =>
    "For<" ++ init.text ++ ", " ++ guard.text ++ ", " ++ step.text ++ ", " ++ body.text ++ ">"
  | .conditional _ guard positive otherwise =>
    "If<" ++ guard.text ++ ", " ++ positive.text ++ ", " ++ otherwiseText otherwise ++ ">"
  | .define _ name params body =>
    "FnDef<" ++ name ++ ", [" ++ " ".intercalate params ++ "], " ++ body.text ++ ">"
  | .call _ name args => "Call<" ++ name ++ ", [" ++ " ".intercalate (treeTexts args) ++ "]>"
  | .display _ expression => "Dpy<" ++ expression.text ++ ">"
  | .setMode _ mode => "Dpy<mode " ++ mode.name ++ ">"
  | .toggleProgrammer _ => "Dpy<toggleProg>"
  | .exit _ => "Exit<>"

def treeTexts : List Tree → List String
  | [] => []
  | tree :: rest => tree.text :: treeTexts rest

def otherwiseText : Option Tree → String
  | none => "nil"
  | some tree => tree.text

end

mutual

/-- The nodes of a tree from the root, each before its children. -/
def Tree.nodes : Tree → List Tree
  | .body line ts => .body line ts :: treeNodes ts
  | .constant line v => [.constant line v]
  | .reference line name => [.reference line name]
  | .unary line op t => .unary line op t :: t.nodes
  | .binary line op t u => .binary line op t u :: (t.nodes ++ u.nodes)
  | .assign line op x t => .assign line op x t :: t.nodes
  | .whileLoop line g b => .whileLoop line g b :: (g.nodes ++ b.nodes)
  | .forLoop line i g s b => .forLoop line i g s b :: (i.nodes ++ g.nodes ++ s.nodes ++ b.nodes)
  | .conditional line g t o => .conditional line g t o :: (g.nodes ++ t.nodes ++ otherwiseNodes o)
  | .define line name params b => .define line name params b :: b.nodes
  | .call line name args => .call line name args :: treeNodes args
  | .display line t => .display line t :: t.nodes
  | .setMode line mode => [.setMode line mode]
  | .toggleProgrammer line => [.toggleProgrammer line]
  | .exit line => [.exit line]

def treeNodes : List Tree → List Tree
  | [] => []
  | tree :: rest => tree.nodes ++ treeNodes rest

def otherwiseNodes : Option Tree → List Tree
  | none => []
  | some tree => tree.nodes

end

def Tree.constant? : Tree → Option Value
  | .constant _ v => some v
  | _ => none

end Calculator
