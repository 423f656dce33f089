import Calculator.Proofs.Token.Ending
import Calculator.Proofs.Tree.Acceptance

set_option autoImplicit false

namespace Calculator

namespace Grammar

def NoErrors (ts : List Token) : Prop :=
  ∀ t ∈ ts, t.kind ≠ .error

section
variable {m m' : NumericMode} {t : Token} {ts us : List Token}

@[simp]
theorem noErrors_nil : NoErrors [] :=
  nofun

@[simp]
theorem noErrors_cons : NoErrors (t :: ts) ↔ t.kind ≠ .error ∧ NoErrors ts :=
  List.forall_mem_cons

@[simp]
theorem noErrors_append : NoErrors (ts ++ us) ↔ NoErrors ts ∧ NoErrors us :=
  List.forall_mem_append

def inExpression (kind : Kind) : Bool :=
  !List.contains [.error, .eof, .keyword, .leftCurly, .rightCurly, .at, .colon, .semicolon] kind

theorem IsPhrase.kinds {phrase : Phrase} (h : IsPhrase m phrase ts) :
    ∀ t ∈ ts, inExpression t.kind = true := by
  have of (p : Kind → Bool) {kind : Kind} (holds : p kind = true)
      (all : Kind.all.all (fun kind => !p kind || inExpression kind) = true) :
      inExpression kind = true := by
    have found := List.all_eq_true.mp all kind kind.mem_all
    rwa [holds, Bool.not_true, Bool.false_or] at found
  have symbol : inExpression .symbol = true := rfl
  have comma : inExpression .comma = true := rfl
  have left : inExpression .leftParen = true := rfl
  have right : inExpression .rightParen = true := rfl
  induction h with
  | literal isLiteral value => simp [of Kind.isLiteral isLiteral rfl]
  | step isName isStep => rcases isStep with op | op <;> simp [isName, op, inExpression]
  | call isName opens closes => simp [isName, opens, closes, symbol, left, right]
  | callWith isName opens inner closes ih =>
    simpa [isName, opens, closes, symbol, left, right, or_imp, forall_and] using ih
  | name isName => simp [isName, symbol]
  | plus isPlus inner ih => exact List.forall_mem_cons.mpr ⟨by rw [isPlus]; rfl, ih⟩
  | unary isSign inner ih =>
    exact List.forall_mem_cons.mpr ⟨by rcases isSign with sign | sign <;> rw [sign] <;> rfl, ih⟩
  | parentheses opens inner closes ih =>
    simpa [opens, closes, left, right, or_imp, forall_and] using ih
  | single only ih => exact ih
  | link first isOperator more ih ih' =>
    have isBinary := of (fun kind => decide (1 ≤ kind.priority.getD 0)) (decide_eq_true isOperator)
      rfl
    simpa [isBinary, or_imp, forall_and] using And.intro ih ih'
  | assignment isName assigns value ih =>
    simpa [isName, symbol, of Kind.assigns assigns rfl] using ih
  | plain inner ih => exact ih
  | argument only ih => exact ih
  | arguments first isComma more ih ih' =>
    simpa [isComma, comma, or_imp, forall_and] using And.intro ih ih'

theorem IsPhrase.noErrors {phrase : Phrase} (h : IsPhrase m phrase ts) : NoErrors ts := by
  intro t mem error
  have found := h.kinds t mem
  rw [error] at found
  cases found

theorem IsSimple.noErrors (h : IsSimple m ts) : NoErrors ts := by
  cases h with
  | expression inner => exact inner.noErrors
  | display isSign inner => simp [isSign, inner.noErrors]
  | last isSign => simp [isSign]
  | exit isExit => simp [kind_of_hasKeyword isExit]

theorem IsSetting.noErrors (h : IsSetting m ts m') : NoErrors ts := by
  cases h with
  | intro isSign isColon isName after => simp [isSign, isColon, isName]

theorem IsNames.noErrors (h : IsNames ts) : NoErrors ts := by
  induction h with
  | name isName => simp [isName]
  | names isName isComma more ih => simp [isName, isComma, ih]

theorem IsClause.noErrors {clause : Clause} (h : IsClause clause m ts m') : NoErrors ts := by
  induction h with
  | simple inner isSemi => simp [inner.noErrors, isSemi]
  | setting inner isSemi => simp [inner.noErrors, isSemi]
  | openSetting inner => exact inner.noErrors
  | conditional inner ih => exact ih
  | whileLoop isWhile opens condition closes inner ih =>
    simp [kind_of_hasKeyword isWhile, opens, condition.noErrors, closes, ih]
  | forLoop isFor opens start isSemi condition isSemi' next closes inner ih =>
    simp [kind_of_hasKeyword isFor, opens, start.noErrors, isSemi, condition.noErrors, isSemi',
      next.noErrors, closes, ih]
  | @function m m' word name left right params body isFunc isName opens names closes inner ih =>
    have noErrors : NoErrors params := by
      rcases names with rfl | names
      · exact noErrors_nil
      · exact names.noErrors
    simp [kind_of_hasKeyword isFunc, isName, opens, noErrors, closes, ih]
  | nil => exact noErrors_nil
  | cons first more ih ih' => simp [ih, ih']
  | unclosed last => exact last.noErrors
  | block opens inner closes ih => simp [opens, ih, closes]
  | alone isIf opens condition closes inner ih =>
    simp [kind_of_hasKeyword isIf, opens, condition.noErrors, closes, ih]
  | otherwise isIf opens condition closes inner isElse isBranch last ih ih' =>
    simp [kind_of_hasKeyword isIf, opens, condition.noErrors, closes, ih,
      kind_of_hasKeyword isElse, ih']

theorem IsProgram.noErrors (h : IsProgram m ts) : NoErrors ts := by
  cases h with
  | intro statements isEof => simp [statements.noErrors, isEof]

end

end Grammar

namespace Tree

open Grammar

theorem refused_of_endsIn {source : Utf8.Source} {words : List Token} {error : Option Token}
    {line : Position} (shape : (Lexer.ofSource source).EndsIn words error line)
    (hasError : ∃ t ∈ (Lexer.ofSource source).tokens, t.kind = .error) (mode : NumericMode) :
    ∃ e, parse source mode = .error e := by
  have ended : Ended (Lexer.ofSource source).tokens := by
    rw [shape.tokens]
    refine ended_of_last rfl fun t mem isEof => ?_
    rcases List.mem_append.mp mem with word | last
    · exact (shape.isWord t word).2 isEof
    · have isError := shape.isError t (Option.mem_toList.mp last)
      rw [isEof] at isError
      cases isError
  cases parsed : parse source mode with
  | error e => exact ⟨e, rfl⟩
  | ok tree =>
    obtain ⟨t, mem, isError⟩ := hasError
    exact absurd isError ((isProgram_of_accepted ended parsed).noErrors t mem)

/-- Whatever a source delivers, its tokens are words, then at most one error, and then ends of the
input for ever. There is an error if the source fails or its bytes are not those of a text, and then
no mode makes a program of the tokens. -/
theorem tokens_end (source : Utf8.Source) :
    ∃ words error line, (Lexer.ofSource source).EndsIn words error line ∧
      (source.failure ≠ none ∨
          (∀ text : String, Utf8.delivered source.events ≠ text.toUTF8.toList) →
        error ≠ none) ∧
      ((∃ t ∈ (Lexer.ofSource source).tokens, t.kind = .error) →
        ∀ mode, ∃ e, parse source mode = .error e) := by
  obtain ⟨words, error, line, shape, clean⟩ := Lexer.exists_endsIn (Lexer.ofSource source)
  refine ⟨words, error, line, shape, fun broken noError => ?_, refused_of_endsIn shape⟩
  obtain ⟨text, isText⟩ := Lexer.exists_isText_of_failure (clean noError)
  rcases broken with fails | noText
  · exact fails isText.clean
  · exact noText text isText.delivers

/-- A source that fails inside a comment. -/
theorem tokens_end_failedComment :
    ∃ e, parse ⟨[.byte 49, .byte 35], some .broken⟩ .rational = .error e := by
  obtain ⟨words, error, line, shape, broken, refused⟩ :=
    tokens_end ⟨[.byte 49, .byte 35], some .broken⟩
  obtain ⟨e, rfl⟩ := Option.ne_none_iff_exists'.mp (broken (.inl (Option.some_ne_none _)))
  refine refused ⟨e, ?_, shape.isError e rfl⟩ .rational
  rw [shape.tokens]
  simp

end Tree

end Calculator
