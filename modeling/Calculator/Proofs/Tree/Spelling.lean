import Calculator.Proofs.Token.Spacing
import Calculator.Proofs.Tree.Grammar
import Calculator.Proofs.Tree.Shape

set_option autoImplicit false

namespace Calculator

def Kind.token (line : Position) (kind : Kind) : Token :=
  ⟨kind, kind.shown, line⟩

namespace Token

def name (line : Position) (x : String) : Token :=
  ⟨.symbol, x, line⟩

def keyword (line : Position) (word : String) : Token :=
  ⟨.keyword, word, line⟩

def literal (line : Position) : Value → Token
  | .int n .hex => ⟨.hex, String.ofList (Value.hexText n), line⟩
  | .int n .oct => ⟨.oct, String.ofList (Value.octText n), line⟩
  | .int n _ => ⟨.int, String.ofList (Numeral.integer n), line⟩
  | v => .error (v.render false) line

def parenthesized (line : Position) (ts : List Token) : List Token :=
  Kind.leftParen.token line :: (ts ++ [Kind.rightParen.token line])

def braced (line : Position) (ts : List Token) : List Token :=
  Kind.leftCurly.token line :: (ts ++ [Kind.rightCurly.token line])

def separated (line : Position) (groups : List (List Token)) : List Token :=
  [Kind.comma.token line].intercalate groups

section
variable (line : Position) (ts us : List Token)

theorem parenthesized_append : parenthesized line ts ++ us =
    Kind.leftParen.token line :: (ts ++ Kind.rightParen.token line :: us) := by
  rw [parenthesized, List.cons_append, List.append_assoc, List.singleton_append]

theorem separated_singleton : separated line [ts] = ts :=
  List.intercalate_singleton

theorem separated_cons_cons (groups : List (List Token)) :
    separated line (ts :: us :: groups) =
      ts ++ Kind.comma.token line :: separated line (us :: groups) := by
  rw [separated, List.intercalate_cons_cons, List.append_assoc, List.singleton_append, separated]

end

end Token

def NumericMode.option : NumericMode → String
  | .float => "f"
  | .rational => "r"
  | .undefined => ""

namespace Tree

def isCompound : Tree → Bool
  | .binary .. | .assign .. => true
  | _ => false

def isSimple : Tree → Bool
  | .whileLoop .. | .forLoop .. | .conditional .. | .define .. => false
  | _ => true

def enclosed (line : Position) (t : Tree) (ts : List Token) : List Token :=
  if t.isCompound then Token.parenthesized line ts else ts

def ended (line : Position) (t : Tree) (ts : List Token) : List Token :=
  if t.isSimple then ts ++ [Kind.semicolon.token line] else ts

section
variable {line : Position} {t : Tree} {ts : List Token}

theorem enclosed_of_isCompound (h : t.isCompound = true) :
    t.enclosed line ts = Token.parenthesized line ts :=
  if_pos h

theorem enclosed_of_not_isCompound (h : t.isCompound = false) : t.enclosed line ts = ts :=
  if_neg (ne_true_of_eq_false h)

theorem ended_of_isSimple (h : t.isSimple = true) :
    t.ended line ts = ts ++ [Kind.semicolon.token line] :=
  if_pos h

theorem ended_of_not_isSimple (h : t.isSimple = false) : t.ended line ts = ts :=
  if_neg (ne_true_of_eq_false h)

end

end Tree

mutual

/-- The tokens that write a tree. -/
def Tree.tokens (line : Position) : Tree → List Token
  | .body _ ts => statementTokens line ts
  | .constant _ v => [.literal line v]
  | .reference _ x => [.name line x]
  | .unary _ op t =>
    if op = .plusPlus ∨ op = .minusMinus then t.tokens line ++ [op.token line]
    else op.token line :: t.enclosed line (t.tokens line)
  | .binary _ op t u =>
    t.enclosed line (t.tokens line) ++ op.token line :: u.enclosed line (u.tokens line)
  | .assign _ op x t => .name line x :: op.token line :: t.enclosed line (t.tokens line)
  | .whileLoop _ g b =>
    .keyword line "while" :: (Token.parenthesized line (g.tokens line) ++
      Token.braced line (b.tokens line))
  | .forLoop _ i g s b =>
    .keyword line "for" :: (Token.parenthesized line
      (i.tokens line ++ Kind.semicolon.token line :: (g.tokens line ++
        Kind.semicolon.token line :: s.tokens line)) ++ Token.braced line (b.tokens line))
  | .conditional _ g b o =>
    .keyword line "if" :: (Token.parenthesized line (g.tokens line) ++
      (Token.braced line (b.tokens line) ++ alternativeTokens line o))
  | .define _ x params b =>
    .keyword line "func" :: .name line x ::
      (Token.parenthesized line (Token.separated line (params.map fun p => [.name line p])) ++
        Token.braced line (b.tokens line))
  | .call _ x args =>
    .name line x :: Token.parenthesized line (Token.separated line (treeTokens line args))
  | .display _ t => Kind.at.token line :: t.tokens line
  | .setMode _ mode => [Kind.at.token line, Kind.colon.token line, .name line mode.option]
  | .toggleProgrammer _ => [Kind.at.token line, Kind.colon.token line, .name line "p"]
  | .exit _ => [.keyword line "exit"]

def treeTokens (line : Position) : List Tree → List (List Token)
  | [] => []
  | t :: ts => t.tokens line :: treeTokens line ts

def statementTokens (line : Position) : List Tree → List Token
  | [] => []
  | t :: ts => t.ended line (t.tokens line) ++ statementTokens line ts

def alternativeTokens (line : Position) : Option Tree → List Token
  | none => []
  | some t =>
    .keyword line "else" ::
      if t.isBody then Token.braced line (t.tokens line) else t.tokens line

end

def Tree.canonical (t : Tree) : String :=
  Token.written (t.tokens 1)

mutual

/-- The same tree with all its nodes on one line. -/
def Tree.onLine (line : Position) : Tree → Tree
  | .body _ ts => .body line (treesOnLine line ts)
  | .constant _ v => .constant line v
  | .reference _ x => .reference line x
  | .unary _ op t => .unary line op (t.onLine line)
  | .binary _ op t u => .binary line op (t.onLine line) (u.onLine line)
  | .assign _ op x t => .assign line op x (t.onLine line)
  | .whileLoop _ g b => .whileLoop line (g.onLine line) (b.onLine line)
  | .forLoop _ i g s b =>
    .forLoop line (i.onLine line) (g.onLine line) (s.onLine line) (b.onLine line)
  | .conditional _ g b o =>
    .conditional line (g.onLine line) (b.onLine line) (alternativeOnLine line o)
  | .define _ x params b => .define line x params (b.onLine line)
  | .call _ x args => .call line x (treesOnLine line args)
  | .display _ t => .display line (t.onLine line)
  | .setMode _ mode => .setMode line mode
  | .toggleProgrammer _ => .toggleProgrammer line
  | .exit _ => .exit line

def treesOnLine (line : Position) : List Tree → List Tree
  | [] => []
  | t :: ts => t.onLine line :: treesOnLine line ts

def alternativeOnLine (line : Position) : Option Tree → Option Tree
  | none => none
  | some t => some (t.onLine line)

end

/-- Integers that a literal denotes. A zero in octal digits has none of its own. -/
inductive Value.IsLiteral : Value → Prop where
  | dec (n : Nat) : IsLiteral (.int n .dec)
  | hex (n : Nat) : IsLiteral (.int n .hex)
  | oct (n : Nat) (positive : 0 < n) : IsLiteral (.int n .oct)

namespace Tree

inductive IsExpression : Tree → Prop where
  | constant {line : Position} {v : Value} (isLiteral : v.IsLiteral) :
      IsExpression (.constant line v)
  | reference {line : Position} {x : String} (isName : IsName x) : IsExpression (.reference line x)
  | step {line line' : Position} {op : Kind} {x : String}
      (isStep : op = .plusPlus ∨ op = .minusMinus)
      (isName : IsName x) : IsExpression (.unary line op (.reference line' x))
  | unary {line : Position} {op : Kind} {t : Tree} (isSign : op = .minus ∨ op = .bang)
      (operand : IsExpression t) : IsExpression (.unary line op t)
  | binary {line : Position} {op : Kind} {t u : Tree} (isOperator : 1 ≤ op.priority.getD 0)
      (lhs : IsExpression t) (rhs : IsExpression u) : IsExpression (.binary line op t u)
  | assign {line : Position} {op : Kind} {x : String} {t : Tree} (assigns : op.assigns = true)
      (isName : IsName x) (value : IsExpression t) : IsExpression (.assign line op x t)
  | call {line : Position} {x : String} {args : List Tree} (isName : IsName x)
      (each : ∀ t ∈ args, IsExpression t) : IsExpression (.call line x args)

open Grammar in
/-- The tree has the shape of what the parser returns for a clause: a statement, statements in a
row, those of a block, or a conditional. The flag tells the top level, where functions are
defined. -/
inductive HasShape : Clause → Tree → Prop where
  | expression {top : Bool} {t : Tree} (shape : t.IsExpression) : HasShape (.statement top) t
  | display {top : Bool} {line : Position} {t : Tree} (shape : t.IsExpression) :
      HasShape (.statement top) (.display line t)
  | setMode {top : Bool} {line : Position} {mode : NumericMode}
      (isMode : mode = .float ∨ mode = .rational) :
      HasShape (.statement top) (.setMode line mode)
  | toggleProgrammer {top : Bool} {line : Position} :
      HasShape (.statement top) (.toggleProgrammer line)
  | exit {top : Bool} {line : Position} : HasShape (.statement top) (.exit line)
  | conditional {top : Bool} {t : Tree} (shape : HasShape .conditional t) :
      HasShape (.statement top) t
  | whileLoop {top : Bool} {line : Position} {g b : Tree} (guard : g.IsExpression)
      (inner : HasShape .block b) : HasShape (.statement top) (.whileLoop line g b)
  | forLoop {top : Bool} {line : Position} {i g s b : Tree} (start : i.IsExpression)
      (guard : g.IsExpression) (next : s.IsExpression) (inner : HasShape .block b) :
      HasShape (.statement top) (.forLoop line i g s b)
  | define {line : Position} {x : String} {params : List String} {b : Tree} (isName : IsName x)
      (areNames : ∀ p ∈ params, IsName p) (inner : HasShape .block b) :
      HasShape (.statement true) (.define line x params b)
  | statements {top : Bool} {line : Position} {ts : List Tree}
      (each : ∀ t ∈ ts, HasShape (.statement top) t) : HasShape (.statements top) (.body line ts)
  | block {t : Tree} (inner : HasShape (.statements false) t) : HasShape .block t
  | alone {line : Position} {g b : Tree} (guard : g.IsExpression) (inner : HasShape .block b) :
      HasShape .conditional (.conditional line g b none)
  | otherwise {line : Position} {g b t : Tree} {branch : Clause} (guard : g.IsExpression)
      (inner : HasShape .block b) (isBranch : branch = .block ∨ branch = .conditional)
      (last : HasShape branch t) : HasShape .conditional (.conditional line g b (some t))

section
variable {t : Tree}

theorem IsExpression.isSimple (h : t.IsExpression) : t.isSimple = true := by
  cases h <;> rfl

theorem HasShape.isBody (h : t.HasShape .block) : t.isBody = true := by
  cases h with
  | block inner =>
    cases inner with
    | statements each => rfl

theorem HasShape.isBody_eq_false (h : t.HasShape .conditional) : t.isBody = false := by
  cases h <;> rfl

theorem HasShape.isSimple_eq_false (h : t.HasShape .conditional) : t.isSimple = false := by
  cases h <;> rfl

end

end Tree

end Calculator
