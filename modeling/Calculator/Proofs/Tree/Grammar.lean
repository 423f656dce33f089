import Calculator.Proofs.Tree.Precedence

set_option autoImplicit false

/-!
# The grammar of programs

Which tokens make up expressions, statements and programs, with all texts of tokens but those of
keywords, settings and literals left open. A literal must have a value in the mode in force, and a
setting changes the mode for what stands behind it.
-/
namespace Calculator.Grammar

inductive Phrase where
  | operand
  | chain
  | expression
  | arguments
  deriving DecidableEq

/-- Expressions and their parts. The mode does not change in them. -/
inductive IsPhrase (m : NumericMode) : Phrase → List Token → Prop where
  | literal {t : Token} {v : Value} (isLiteral : t.kind.isLiteral = true)
      (value : Literal.value m t = .ok v) : IsPhrase m .operand [t]
  | step {name op : Token} (isName : name.kind = .symbol)
      (isStep : op.kind = .plusPlus ∨ op.kind = .minusMinus) : IsPhrase m .operand [name, op]
  | call {name left right : Token} (isName : name.kind = .symbol) (opens : left.kind = .leftParen)
      (closes : right.kind = .rightParen) : IsPhrase m .operand [name, left, right]
  | callWith {name left right : Token} {ts : List Token} (isName : name.kind = .symbol)
      (opens : left.kind = .leftParen) (inner : IsPhrase m .arguments ts)
      (closes : right.kind = .rightParen) : IsPhrase m .operand (name :: left :: (ts ++ [right]))
  | name {name : Token} (isName : name.kind = .symbol) : IsPhrase m .operand [name]
  | plus {sign : Token} {ts : List Token} (isPlus : sign.kind = .plus)
      (inner : IsPhrase m .operand ts) : IsPhrase m .operand (sign :: ts)
  | unary {sign : Token} {ts : List Token} (isSign : sign.kind = .minus ∨ sign.kind = .bang)
      (inner : IsPhrase m .operand ts) : IsPhrase m .operand (sign :: ts)
  | parentheses {left right : Token} {ts : List Token} (opens : left.kind = .leftParen)
      (inner : IsPhrase m .expression ts) (closes : right.kind = .rightParen) :
      IsPhrase m .operand (left :: (ts ++ [right]))
  | single {ts : List Token} (only : IsPhrase m .operand ts) : IsPhrase m .chain ts
  | link {op : Token} {ts us : List Token} (first : IsPhrase m .operand ts)
      (isOperator : 1 ≤ op.kind.priority.getD 0) (more : IsPhrase m .chain us) :
      IsPhrase m .chain (ts ++ op :: us)
  | assignment {name op : Token} {ts : List Token} (isName : name.kind = .symbol)
      (assigns : op.kind.assigns = true) (value : IsPhrase m .chain ts) :
      IsPhrase m .expression (name :: op :: ts)
  | plain {ts : List Token} (inner : IsPhrase m .chain ts) : IsPhrase m .expression ts
  | argument {ts : List Token} (only : IsPhrase m .expression ts) : IsPhrase m .arguments ts
  | arguments {comma : Token} {ts us : List Token} (first : IsPhrase m .expression ts)
      (isComma : comma.kind = .comma) (more : IsPhrase m .arguments us) :
      IsPhrase m .arguments (ts ++ comma :: us)

/-- Statements that a semicolon ends. A display sign alone shows the last result. -/
inductive IsSimple (m : NumericMode) : List Token → Prop where
  | expression {ts : List Token} (inner : IsPhrase m .expression ts) : IsSimple m ts
  | display {sign : Token} {ts : List Token} (isSign : sign.kind = .at)
      (inner : IsPhrase m .expression ts) : IsSimple m (sign :: ts)
  | last {sign : Token} (isSign : sign.kind = .at) : IsSimple m [sign]
  | exit {word : Token} (isExit : word.hasKeyword "exit" = true) : IsSimple m [word]

def modeAfter (m : NumericMode) (option : String) : Option NumericMode :=
  if option = "p" then some m
  else if option = "f" then some .float
  else if option = "r" then some .rational
  else none

inductive IsSetting (m : NumericMode) : List Token → NumericMode → Prop where
  | intro {sign colon option : Token} {m' : NumericMode} (isSign : sign.kind = .at)
      (isColon : colon.kind = .colon) (isName : option.kind = .symbol)
      (after : modeAfter m option.text = some m') : IsSetting m [sign, colon, option] m'

inductive IsNames : List Token → Prop where
  | name {name : Token} (isName : name.kind = .symbol) : IsNames [name]
  | names {name comma : Token} {ts : List Token} (isName : name.kind = .symbol)
      (isComma : comma.kind = .comma) (more : IsNames ts) : IsNames (name :: comma :: ts)

inductive Clause where
  | statement (top : Bool)
  | statements (top : Bool)
  | block
  | conditional

/-- Statements and their parts, with the modes in front of them and behind them. The flag tells the
top level, where settings need no semicolon, functions are defined, and the last simple statement
needs no semicolon either. -/
inductive IsClause : Clause → NumericMode → List Token → NumericMode → Prop where
  | simple {top : Bool} {m : NumericMode} {semi : Token} {ts : List Token} (inner : IsSimple m ts)
      (isSemi : semi.kind = .semicolon) : IsClause (.statement top) m (ts ++ [semi]) m
  | setting {top : Bool} {m m' : NumericMode} {semi : Token} {ts : List Token}
      (inner : IsSetting m ts m') (isSemi : semi.kind = .semicolon) :
      IsClause (.statement top) m (ts ++ [semi]) m'
  | openSetting {m m' : NumericMode} {ts : List Token} (inner : IsSetting m ts m') :
      IsClause (.statement true) m ts m'
  | conditional {top : Bool} {m m' : NumericMode} {ts : List Token}
      (inner : IsClause .conditional m ts m') : IsClause (.statement top) m ts m'
  | whileLoop {top : Bool} {m m' : NumericMode} {word left right : Token} {guard body : List Token}
      (isWhile : word.hasKeyword "while" = true) (opens : left.kind = .leftParen)
      (condition : IsPhrase m .expression guard) (closes : right.kind = .rightParen)
      (inner : IsClause .block m body m') :
      IsClause (.statement top) m (word :: left :: (guard ++ right :: body)) m'
  | forLoop {top : Bool} {m m' : NumericMode} {word left semi semi' right : Token}
      {init guard step body : List Token} (isFor : word.hasKeyword "for" = true)
      (opens : left.kind = .leftParen) (start : IsPhrase m .expression init)
      (isSemi : semi.kind = .semicolon) (condition : IsPhrase m .expression guard)
      (isSemi' : semi'.kind = .semicolon) (next : IsPhrase m .expression step)
      (closes : right.kind = .rightParen) (inner : IsClause .block m body m') :
      IsClause (.statement top) m
        (word :: left :: (init ++ semi :: (guard ++ semi' :: (step ++ right :: body)))) m'
  | function {m m' : NumericMode} {word name left right : Token} {params body : List Token}
      (isFunc : word.hasKeyword "func" = true) (isName : name.kind = .symbol)
      (opens : left.kind = .leftParen) (names : params = [] ∨ IsNames params)
      (closes : right.kind = .rightParen) (inner : IsClause .block m body m') :
      IsClause (.statement true) m (word :: name :: left :: (params ++ right :: body)) m'
  | nil {top : Bool} {m : NumericMode} : IsClause (.statements top) m [] m
  | cons {top : Bool} {m m' m'' : NumericMode} {ts us : List Token}
      (first : IsClause (.statement top) m ts m') (more : IsClause (.statements top) m' us m'') :
      IsClause (.statements top) m (ts ++ us) m''
  | unclosed {m : NumericMode} {ts : List Token} (last : IsSimple m ts) :
      IsClause (.statements true) m ts m
  | block {m m' : NumericMode} {left right : Token} {ts : List Token}
      (opens : left.kind = .leftCurly) (inner : IsClause (.statements false) m ts m')
      (closes : right.kind = .rightCurly) : IsClause .block m (left :: (ts ++ [right])) m'
  | alone {m m' : NumericMode} {word left right : Token} {guard body : List Token}
      (isIf : word.hasKeyword "if" = true) (opens : left.kind = .leftParen)
      (condition : IsPhrase m .expression guard) (closes : right.kind = .rightParen)
      (inner : IsClause .block m body m') :
      IsClause .conditional m (word :: left :: (guard ++ right :: body)) m'
  | otherwise {m m' m'' : NumericMode} {word left right other : Token}
      {guard body rest : List Token} {branch : Clause} (isIf : word.hasKeyword "if" = true)
      (opens : left.kind = .leftParen) (condition : IsPhrase m .expression guard)
      (closes : right.kind = .rightParen) (inner : IsClause .block m body m')
      (isElse : other.hasKeyword "else" = true) (isBranch : branch = .block ∨ branch = .conditional)
      (last : IsClause branch m' rest m'') :
      IsClause .conditional m (word :: left :: (guard ++ right :: (body ++ other :: rest))) m''

/-- Statements up to the end of the input. -/
inductive IsProgram (m : NumericMode) : List Token → Prop where
  | intro {m' : NumericMode} {last : Token} {ts : List Token}
      (statements : IsClause (.statements true) m ts m') (isEof : last.kind = .eof) :
      IsProgram m (ts ++ [last])

def startsOperand (kind : Kind) : Bool :=
  kind.isLiteral || [.symbol, .plus, .minus, .bang, .leftParen].contains kind

def startsStatement (t : Token) : Bool :=
  startsOperand t.kind || t.kind = .at || ["exit", "if", "while", "for", "func"].any t.hasKeyword

theorem kind_of_hasKeyword {t : Token} {word : String} (h : t.hasKeyword word = true) :
    t.kind = .keyword :=
  of_decide_eq_true (Bool.and_eq_true_iff.mp h).1

theorem text_of_hasKeyword {t : Token} {word : String} (h : t.hasKeyword word = true) :
    t.text = word :=
  of_decide_eq_true (Bool.and_eq_true_iff.mp h).2

theorem startsStatement_of_keyword {t : Token} {word : String} (h : t.hasKeyword word = true)
    (mem : word ∈ ["exit", "if", "while", "for", "func"]) : startsStatement t = true := by
  have found : ["exit", "if", "while", "for", "func"].any t.hasKeyword = true :=
    List.any_eq_true.mpr ⟨word, mem, h⟩
  rw [startsStatement, found, Bool.or_true]

section
variable {m m' : NumericMode} {ts : List Token}

theorem IsPhrase.starts {phrase : Phrase} (h : IsPhrase m phrase ts) :
    ∃ t us, ts = t :: us ∧ startsOperand t.kind = true := by
  induction h with
  | @literal t v isLiteral value =>
    refine ⟨t, [], rfl, ?_⟩
    rw [startsOperand, isLiteral, Bool.true_or]
  | step isName isStep => exact ⟨_, _, rfl, by rw [isName]; rfl⟩
  | call isName opens closes => exact ⟨_, _, rfl, by rw [isName]; rfl⟩
  | callWith isName opens inner closes _ => exact ⟨_, _, rfl, by rw [isName]; rfl⟩
  | name isName => exact ⟨_, _, rfl, by rw [isName]; rfl⟩
  | plus isPlus inner _ => exact ⟨_, _, rfl, by rw [isPlus]; rfl⟩
  | unary isSign inner _ => rcases isSign with sign | sign <;> exact ⟨_, _, rfl, by rw [sign]; rfl⟩
  | parentheses opens inner closes _ => exact ⟨_, _, rfl, by rw [opens]; rfl⟩
  | single only ih => exact ih
  | link first isOperator more ih _ =>
    obtain ⟨t, us, rfl, starts⟩ := ih
    exact ⟨t, _, rfl, starts⟩
  | assignment isName assigns value _ => exact ⟨_, _, rfl, by rw [isName]; rfl⟩
  | plain inner ih => exact ih
  | argument only ih => exact ih
  | arguments first isComma more ih _ =>
    obtain ⟨t, us, rfl, starts⟩ := ih
    exact ⟨t, _, rfl, starts⟩

theorem IsSimple.starts (h : IsSimple m ts) : ∃ t us, ts = t :: us ∧ startsStatement t = true := by
  cases h with
  | expression inner =>
    obtain ⟨t, us, rfl, starts⟩ := inner.starts
    exact ⟨t, us, rfl, by rw [startsStatement, starts, Bool.true_or, Bool.true_or]⟩
  | display isSign inner =>
    exact ⟨_, _, rfl, by rw [startsStatement, isSign]; rfl⟩
  | last isSign => exact ⟨_, _, rfl, by rw [startsStatement, isSign]; rfl⟩
  | exit isExit => exact ⟨_, _, rfl, startsStatement_of_keyword isExit (by decide)⟩

theorem IsSetting.starts (h : IsSetting m ts m') :
    ∃ t us, ts = t :: us ∧ startsStatement t = true := by
  cases h with
  | intro isSign isColon isName after =>
    exact ⟨_, _, rfl, by rw [startsStatement, isSign]; rfl⟩

theorem IsClause.starts {top : Bool} (h : IsClause (.statement top) m ts m') :
    ∃ t us, ts = t :: us ∧ startsStatement t = true := by
  cases h with
  | simple inner isSemi =>
    obtain ⟨t, us, rfl, starts⟩ := inner.starts
    exact ⟨t, _, rfl, starts⟩
  | setting inner isSemi =>
    obtain ⟨t, us, rfl, starts⟩ := inner.starts
    exact ⟨t, _, rfl, starts⟩
  | openSetting inner => exact inner.starts
  | conditional inner =>
    cases inner with
    | alone isIf => exact ⟨_, _, rfl, startsStatement_of_keyword isIf (by decide)⟩
    | otherwise isIf => exact ⟨_, _, rfl, startsStatement_of_keyword isIf (by decide)⟩
  | whileLoop isWhile => exact ⟨_, _, rfl, startsStatement_of_keyword isWhile (by decide)⟩
  | forLoop isFor => exact ⟨_, _, rfl, startsStatement_of_keyword isFor (by decide)⟩
  | function isFunc => exact ⟨_, _, rfl, startsStatement_of_keyword isFunc (by decide)⟩

theorem IsClause.nil_or_starts {top : Bool} (h : IsClause (.statements top) m ts m') :
    ts = [] ∨ ∃ t us, ts = t :: us ∧ startsStatement t = true := by
  cases h with
  | nil => exact .inl rfl
  | cons first more =>
    obtain ⟨t, us, rfl, starts⟩ := first.starts
    exact .inr ⟨t, _, rfl, starts⟩
  | unclosed last => exact .inr last.starts

end

end Calculator.Grammar
