import Calculator.Proofs.Tree.Completeness.Statements
import Calculator.Proofs.Tree.Soundness.Expressions

set_option autoImplicit false

namespace Calculator.Grammar

open Calculator.Parser

/-- What a parser took, behind the tokens `before`, makes up a clause. -/
structure FoundClause (clause : Clause) (m : NumericMode) (before ts : List Token)
    (m' : NumericMode) (rest : List Token) : Prop where
  ended : Ended rest
  taken : ∃ us, ts = us ++ rest ∧ IsClause clause m (before ++ us) m'

structure FoundStatement (top : Bool) (m : NumericMode) (ts : List Token) (m' : NumericMode)
    (rest : List Token) : Prop where
  ended : Ended rest
  taken : ∃ us, ts = us ++ rest ∧ (IsClause (.statement top) m us m' ∨
    top = true ∧ m' = m ∧ IsSimple m us ∧ ∃ t vs, rest = t :: vs ∧ endsChain t.kind = true)

structure FoundStatements (top : Bool) (m : NumericMode) (ts : List Token) (m' : NumericMode)
    (rest : List Token) : Prop where
  ended : Ended rest
  closes : ∃ right vs, rest = right :: vs ∧ right.kind = if top then .eof else .rightCurly
  taken : ∃ us, ts = us ++ rest ∧ IsClause (.statements top) m us m'

/-- With this bound, what the parsers of statements take is derived. Those of statements with a
keyword start behind it. -/
structure SoundClauses (fuel : Nat) : Prop where
  statements : ∀ top line read m ts, Ended ts → Ensures (Parser.statements fuel top line read) m ts
    fun _ m' rest => FoundStatements top m ts m' rest
  statement : ∀ top m ts, Ended ts → Ensures (Parser.statement fuel top) m ts
    fun _ m' rest => FoundStatement top m ts m' rest
  block : ∀ context m ts, Ended ts → Ensures (Parser.block fuel context) m ts
    fun _ m' rest => FoundClause .block m [] ts m' rest
  function : ∀ word m ts, word.hasKeyword "func" = true → Ended ts →
    Ensures (functionDefinition fuel word.line) m ts
      fun _ m' rest => FoundClause (.statement true) m [word] ts m' rest
  conditional : ∀ word m ts, word.hasKeyword "if" = true → Ended ts →
    Ensures (ifStatement fuel word.line) m ts
      fun _ m' rest => FoundClause .conditional m [word] ts m' rest
  whileLoop : ∀ top word m ts, word.hasKeyword "while" = true → Ended ts →
    Ensures (whileStatement fuel word.line) m ts
      fun _ m' rest => FoundClause (.statement top) m [word] ts m' rest
  forLoop : ∀ top word m ts, word.hasKeyword "for" = true → Ended ts →
    Ensures (forStatement fuel word.line) m ts
      fun _ m' rest => FoundClause (.statement top) m [word] ts m' rest

section
variable {m m' : NumericMode} {fuel : Nat} {line : Position} {top : Bool} {t : Token}
  {us ts rest : List Token}

theorem ensures_semicolon : Ensures (semicolon top) m (t :: us) fun _ m' rest =>
    m' = m ∧ (t.kind = .semicolon ∧ rest = us ∨
      top = true ∧ t.kind ≠ .semicolon ∧ rest = t :: us) := by
  unfold semicolon
  refine .take fun _ => ?_
  by_cases isSemi : t.kind = .semicolon
  · rw [if_neg (not_not_intro isSemi)]
    exact .pure ⟨rfl, .inl ⟨isSemi, rfl⟩⟩
  · rw [if_pos isSemi]
    refine .untake ?_
    cases top with
    | true => exact .pure ⟨rfl, .inr ⟨rfl, isSemi, rfl⟩⟩
    | false => exact .expect fun same => absurd same isSemi

theorem ensures_close_simple {tree : Tree} (simple : IsSimple m us) (ended : Ended rest)
    (stops : ∃ t vs, rest = t :: vs ∧ endsChain t.kind = true) :
    Ensures (do semicolon top; return tree) m rest
      fun _ m' after => FoundStatement top m (us ++ rest) m' after := by
  obtain ⟨t, vs, rfl, ends⟩ := stops
  refine ensures_semicolon.bind ?_
  rintro _ m' after ⟨rfl, ⟨isSemi, rfl⟩ | ⟨isTop, notSemi, rfl⟩⟩
  · have inner := ended.tail (isSemi.trans_ne (by simp))
    refine .pure ⟨inner, us ++ [t], ?_, .inl (.simple simple isSemi)⟩
    rw [List.append_cons]
  · exact .pure ⟨ended, us, rfl, .inr ⟨isTop, rfl, simple, t, vs, rfl, ends⟩⟩

theorem ensures_close_setting {tree : Tree} (setting : IsSetting m us m') (ended : Ended rest) :
    Ensures (do semicolon top; return tree) m' rest
      fun _ m'' after => FoundStatement top m (us ++ rest) m'' after := by
  obtain ⟨t, vs, rfl⟩ := ended.cases
  refine ensures_semicolon.bind ?_
  rintro _ m'' after ⟨rfl, ⟨isSemi, rfl⟩ | ⟨rfl, notSemi, rfl⟩⟩
  · have inner := ended.tail (isSemi.trans_ne (by simp))
    refine .pure ⟨inner, us ++ [t], ?_, .inl (.setting setting isSemi)⟩
    rw [List.append_cons]
  · exact .pure ⟨ended, us, rfl, .inl (.openSetting setting)⟩

def IsDisplayed (m : NumericMode) (m' : NumericMode) (us rest : List Token) : Prop :=
  (∃ colon option, us = [colon, option] ∧ colon.kind = .colon ∧ option.kind = .symbol ∧
    modeAfter m option.text = some m') ∨
  m' = m ∧ (us = [] ∨ IsPhrase m .expression us) ∧
    ∃ t vs, rest = t :: vs ∧ endsChain t.kind = true

theorem ensures_setOption (name : Token) : Ensures (setOption line name) m ts
    fun _ m' rest => modeAfter m name.text = some m' ∧ rest = ts := by
  have switch (m₁ : NumericMode) (same : modeAfter m name.text = some m₁) :
      Ensures (switchMode line m₁) m ts
        fun _ m' rest => modeAfter m name.text = some m' ∧ rest = ts := by
    intro s s' tree here run
    cases run
    exact ⟨m₁, ts, ⟨rfl, here.upcoming⟩, same, rfl⟩
  unfold modeAfter at switch ⊢
  unfold setOption
  split_ifs at switch ⊢ with isP isF isR
  · exact .pure ⟨rfl, rfl⟩
  · exact switch _ rfl
  · exact switch _ rfl
  · exact .unexpected

theorem ensures_display (ended : Ended ts) : Ensures (display fuel line) m ts
    fun _ m' rest => Ended rest ∧ ∃ us, ts = us ++ rest ∧ IsDisplayed m m' us rest := by
  obtain ⟨t, vs, rfl⟩ := ended.cases
  unfold display
  refine .take fun _ => ?_
  split
  · rename_i isSemi
    exact .untake (.pure ⟨ended, [], rfl, .inr ⟨rfl, .inl rfl, t, vs, rfl, by rw [isSemi]; rfl⟩⟩)
  · rename_i isEof
    exact .untake (.pure ⟨ended, [], rfl, .inr ⟨rfl, .inl rfl, t, vs, rfl, by rw [isEof]; rfl⟩⟩)
  · rename_i isColon
    have inner := ended.tail (isColon.trans_ne (by simp))
    obtain ⟨name, ws, rfl⟩ := inner.cases
    refine .take fun _ => ?_
    by_cases isName : name.kind = .symbol
    · rw [if_neg (not_not_intro isName)]
      refine (ensures_setOption name).mono ?_
      rintro _ m' rest ⟨after, rfl⟩
      exact ⟨inner.tail (isName.trans_ne (by simp)), [t, name], rfl,
        .inl ⟨t, name, rfl, isColon, isName, after⟩⟩
    · rw [if_pos isName]
      exact .unexpected
  · refine .untake (Ensures.bind ((sound fuel).expression m _ ended) ?_)
    intro _ m' rest found
    obtain ⟨us, split, is⟩ := found.taken
    exact .pure ⟨found.ended, us, split,
      .inr ⟨found.mode, .inr is, found.stops.resolve_left (by simp)⟩⟩

theorem ensures_exit : Ensures (exit line) m (t :: us) fun _ m' rest =>
    m' = m ∧ rest = t :: us ∧ endsChain t.kind = true := by
  unfold exit
  refine .peek fun _ => ?_
  split
  · rename_i ends
    refine .pure ⟨rfl, rfl, ?_⟩
    rcases ends with kind | kind <;> rw [kind] <;> rfl
  · exact .unexpected

end

section
variable {m : NumericMode} {t : Token} {ts : List Token}

def IsMoreNames (us : List Token) : Prop :=
  us = [] ∨ ∃ comma vs, comma.kind = .comma ∧ us = comma :: vs ∧ IsNames vs

theorem ensures_moreNames (fuel : Nat) {names : List String} (nonempty : names ≠ [])
    (ended : Ended ts) :
    Ensures (parameters fuel names) m ts fun _ m' rest => Closed IsMoreNames m ts m' rest := by
  induction fuel generalizing names ts with
  | zero => exact .fail
  | succ fuel ih =>
    have notEmpty : names.isEmpty = false := List.isEmpty_eq_false_iff.mpr nonempty
    obtain ⟨t, us, rfl⟩ := ended.cases
    unfold parameters
    refine .take fun _ => ?_
    by_cases closes : t.kind = .rightParen
    · rw [if_pos closes]
      exact .pure (.nil ended closes (.inl rfl))
    rw [if_neg closes, notEmpty, if_neg Bool.false_ne_true]
    by_cases isComma : t.kind = .comma
    · have inner := ended.tail (isComma.trans_ne (by simp))
      obtain ⟨name, vs, rfl⟩ := inner.cases
      rw [if_neg (not_not_intro isComma)]
      refine .take fun _ => ?_
      dsimp only
      by_cases isName : name.kind = .symbol
      · rw [if_neg (not_not_intro isName)]
        refine (ih (List.cons_ne_nil _ _) (inner.tail (isName.trans_ne (by simp)))).mono ?_
        intro _ m' rest closed
        obtain ⟨ws, right, closes, rfl, rfl | ⟨comma, xs, isComma', rfl, is⟩⟩ := closed.taken
        · exact ⟨closed.mode, closed.ended, [t, name], right, closes, rfl,
            .inr ⟨t, [name], isComma, rfl, .name isName⟩⟩
        · exact ⟨closed.mode, closed.ended, t :: name :: comma :: xs, right, closes, rfl,
            .inr ⟨t, _, isComma, rfl, .names isName isComma' is⟩⟩
      · rw [if_pos isName]
        exact .unexpected
    · rw [if_pos isComma]
      exact Ensures.bind (R := fun _ _ _ => False) .unexpected fun _ _ _ => False.elim

theorem ensures_names (fuel : Nat) (ended : Ended ts) :
    Ensures (parameters fuel []) m ts
      fun _ m' rest => Closed (fun us => us = [] ∨ IsNames us) m ts m' rest := by
  cases fuel with
  | zero => exact .fail
  | succ fuel =>
    obtain ⟨t, us, rfl⟩ := ended.cases
    unfold parameters
    refine .take fun _ => ?_
    by_cases closes : t.kind = .rightParen
    · rw [if_pos closes]
      exact .pure (.nil ended closes (.inl rfl))
    rw [if_neg closes]
    -- In front of the first name there is no comma to take.
    refine Ensures.bind (R := fun a m' rest => a = t ∧ m' = m ∧ rest = us)
      (.pure ⟨rfl, rfl, rfl⟩) ?_
    rintro name m' rest ⟨rfl, rfl, rfl⟩
    dsimp only
    by_cases isName : name.kind = .symbol
    · rw [if_neg (not_not_intro isName)]
      have inner := ended.tail (isName.trans_ne (by simp))
      refine (ensures_moreNames fuel (List.cons_ne_nil _ _) inner).mono ?_
      intro _ m'' after closed
      obtain ⟨ws, right, closes, rfl, rfl | ⟨comma, xs, isComma, rfl, is⟩⟩ := closed.taken
      · exact ⟨closed.mode, closed.ended, [name], right, closes, rfl, .inr (.name isName)⟩
      · exact ⟨closed.mode, closed.ended, name :: comma :: xs, right, closes, rfl,
          .inr (.names isName isComma is)⟩
    · rw [if_pos isName]
      exact .unexpected

end

theorem mem_of_endsChain {kind : Kind} (h : endsChain kind = true) :
    kind ∈ [.error, .eof, .comma, .semicolon, .rightParen, .rightCurly] := by
  revert h
  cases kind <;> decide

theorem not_endsChain_of_starts {t : Token} (starts : startsStatement t = true) :
    ¬ endsChain t.kind = true := by
  intro ends
  exact startsStatement_ne starts (mem_of_endsChain ends) rfl

theorem FoundClause.statement {top : Bool} {m m' : NumericMode} {word : Token}
    {ts rest : List Token} (h : FoundClause (.statement top) m [word] ts m' rest) :
    FoundStatement top m (word :: ts) m' rest := by
  obtain ⟨us, rfl, is⟩ := h.taken
  exact ⟨h.ended, word :: us, rfl, .inl is⟩

theorem IsClause.mode_of_nil {top : Bool} {m m' : NumericMode}
    (h : IsClause (.statements top) m [] m') : m' = m := by
  generalize none : ([] : List Token) = ts at h
  cases h with
  | nil => rfl
  | cons first more =>
    obtain ⟨t, us, rfl, -⟩ := first.starts
    cases none
  | unclosed last =>
    obtain ⟨t, us, rfl, -⟩ := last.starts
    cases none

theorem ensures_expression_expect {β : Type} {fuel : Nat} {m : NumericMode} {ts : List Token}
    {kind : Kind} {context : Context} {f : Tree → Token → Parser β}
    {Q : β → NumericMode → List Token → Prop} (notEof : kind ≠ .eof) (ended : Ended ts)
    (tail : ∀ tree us t rest, ts = us ++ t :: rest → IsPhrase m .expression us → t.kind = kind →
      Ended rest → Ensures (f tree t) m rest Q) :
    Ensures (do let tree ← expression fuel; let t ← expect kind context; f tree t) m ts Q := by
  refine Ensures.bind ((sound fuel).expression m ts ended) ?_
  intro tree m' rest found
  obtain ⟨us, split, is⟩ := found.taken
  obtain ⟨t, vs, rfl⟩ := found.ended.cases
  obtain rfl := found.mode
  exact .expect fun same =>
    tail tree us t vs split is same (found.ended.tail (same.trans_ne notEof))

namespace SoundClauses

variable {m : NumericMode} {fuel : Nat} {word : Token} {ts : List Token}

theorem block_succ (h : SoundClauses fuel) (context : Context) (ended : Ended ts) :
    Ensures (Parser.block (fuel + 1) context) m ts
      fun _ m' rest => FoundClause .block m [] ts m' rest := by
  obtain ⟨left, us, rfl⟩ := ended.cases
  unfold Parser.block
  refine .expect fun opens => ?_
  have inner := ended.tail (opens.trans_ne (by simp))
  obtain ⟨t, vs, rfl⟩ := inner.cases
  refine .peek fun _ => ?_
  refine Ensures.bind (h.statements false t.line [] m _ inner) ?_
  intro _ m' rest found
  obtain ⟨right, ws, rfl, closes⟩ := found.closes
  obtain ⟨body, split, is⟩ := found.taken
  refine .expect fun _ => .pure ⟨found.ended.tail (closes.trans_ne (by simp)),
    left :: (body ++ [right]), ?_, .block opens is closes⟩
  rw [split, List.append_cons]
  rfl

theorem function_succ (h : SoundClauses fuel) (isFunc : word.hasKeyword "func" = true)
    (ended : Ended ts) : Ensures (functionDefinition (fuel + 1) word.line) m ts
      fun _ m' rest => FoundClause (.statement true) m [word] ts m' rest := by
  obtain ⟨name, us, rfl⟩ := ended.cases
  unfold functionDefinition
  refine .take fun _ => ?_
  by_cases isName : name.kind = .symbol
  · rw [if_neg (not_not_intro isName)]
    have inner := ended.tail (isName.trans_ne (by simp))
    obtain ⟨left, vs, rfl⟩ := inner.cases
    refine .expect fun opens => ?_
    refine Ensures.bind (ensures_names fuel (inner.tail (opens.trans_ne (by simp)))) ?_
    intro _ m' rest closed
    obtain ⟨params, right, closes, rfl, names⟩ := closed.taken
    obtain rfl := closed.mode
    refine Ensures.bind (h.block .functionDefinition m' rest closed.ended) ?_
    intro _ m'' after found
    obtain ⟨body, rfl, is⟩ := found.taken
    refine .pure ⟨found.ended, name :: left :: (params ++ right :: body), ?_,
      .function isFunc isName opens names closes is⟩
    simp only [List.cons_append, List.append_assoc]
  · rw [if_pos isName]
    exact .unexpected

theorem whileLoop_succ (h : SoundClauses fuel) (top : Bool)
    (isWhile : word.hasKeyword "while" = true) (ended : Ended ts) :
    Ensures (whileStatement (fuel + 1) word.line) m ts
      fun _ m' rest => FoundClause (.statement top) m [word] ts m' rest := by
  obtain ⟨left, us, rfl⟩ := ended.cases
  unfold whileStatement
  refine .expect fun opens => ?_
  refine ensures_expression_expect (by decide) (ended.tail (opens.trans_ne (by simp))) ?_
  rintro _ guard right us rfl isGuard closes inner
  refine Ensures.bind (h.block .whileStatement m us inner) ?_
  intro _ m' rest found
  obtain ⟨body, rfl, is⟩ := found.taken
  refine .pure ⟨found.ended, left :: (guard ++ right :: body), ?_,
    .whileLoop isWhile opens isGuard closes is⟩
  simp only [List.cons_append, List.append_assoc]

theorem forLoop_succ (h : SoundClauses fuel) (top : Bool) (isFor : word.hasKeyword "for" = true)
    (ended : Ended ts) : Ensures (forStatement (fuel + 1) word.line) m ts
      fun _ m' rest => FoundClause (.statement top) m [word] ts m' rest := by
  obtain ⟨left, us, rfl⟩ := ended.cases
  unfold forStatement
  refine .expect fun opens => ?_
  refine ensures_expression_expect (by decide) (ended.tail (opens.trans_ne (by simp))) ?_
  rintro _ init semi us rfl isInit isSemi behindInit
  refine ensures_expression_expect (by decide) behindInit ?_
  rintro _ guard semi' us rfl isGuard isSemi' behindGuard
  refine ensures_expression_expect (by decide) behindGuard ?_
  rintro _ step right us rfl isStep closes inner
  refine Ensures.bind (h.block .forStatement m us inner) ?_
  intro _ m' rest found
  obtain ⟨body, rfl, is⟩ := found.taken
  refine .pure ⟨found.ended,
    left :: (init ++ semi :: (guard ++ semi' :: (step ++ right :: body))), ?_,
    .forLoop isFor opens isInit isSemi isGuard isSemi' isStep closes is⟩
  simp only [List.cons_append, List.append_assoc]

def IsBranch (m : NumericMode) (us : List Token) (m' : NumericMode) : Prop :=
  us = [] ∧ m' = m ∨ ∃ other vs branch, us = other :: vs ∧ other.hasKeyword "else" = true ∧
    (branch = .block ∨ branch = .conditional) ∧ IsClause branch m vs m'

theorem ensures_branches (h : SoundClauses fuel) (line : Position) (guard positive : Tree)
    (ended : Ended ts) : Ensures (branches fuel line guard positive) m ts
      fun _ m' rest => Ended rest ∧ ∃ us, ts = us ++ rest ∧ IsBranch m us m' := by
  obtain ⟨t, us, rfl⟩ := ended.cases
  unfold branches
  refine .take fun _ => ?_
  by_cases isElse : t.hasKeyword "else" = true
  · rw [if_pos isElse]
    have inner := ended.tail ((kind_of_hasKeyword isElse).trans_ne (by simp))
    obtain ⟨next, vs, rfl⟩ := inner.cases
    refine .take fun _ => ?_
    by_cases opens : next.kind = .leftCurly
    · rw [if_pos opens]
      refine .untake (Ensures.bind (h.block .elseBranch m _ inner) ?_)
      intro _ m' rest found
      obtain ⟨body, split, is⟩ := found.taken
      refine .pure ⟨found.ended, t :: body, ?_, .inr ⟨t, body, .block, rfl, isElse, .inl rfl, is⟩⟩
      rw [split]
      rfl
    · rw [if_neg opens]
      by_cases isIf : next.hasKeyword "if" = true
      · rw [if_pos isIf]
        refine Ensures.bind (h.conditional next m vs isIf
          (inner.tail ((kind_of_hasKeyword isIf).trans_ne (by simp)))) ?_
        intro _ m' rest found
        obtain ⟨body, rfl, is⟩ := found.taken
        exact .pure ⟨found.ended, t :: next :: body, rfl,
          .inr ⟨t, _, .conditional, rfl, isElse, .inr rfl, is⟩⟩
      · rw [if_neg isIf]
        exact .unexpected
  · rw [if_neg isElse]
    exact .untake (.pure ⟨ended, [], rfl, .inl ⟨rfl, rfl⟩⟩)

theorem conditional_succ (h : SoundClauses fuel) (isIf : word.hasKeyword "if" = true)
    (ended : Ended ts) : Ensures (ifStatement (fuel + 1) word.line) m ts
      fun _ m' rest => FoundClause .conditional m [word] ts m' rest := by
  obtain ⟨left, us, rfl⟩ := ended.cases
  unfold ifStatement
  refine .expect fun opens => ?_
  refine ensures_expression_expect (by decide) (ended.tail (opens.trans_ne (by simp))) ?_
  rintro onGuard guard right us rfl isGuard closes inner
  refine Ensures.bind (h.block .ifStatement m us inner) ?_
  intro positive m' rest found
  obtain ⟨body, rfl, is⟩ := found.taken
  refine (h.ensures_branches word.line onGuard positive found.ended).mono ?_
  rintro _ m'' after ⟨ended', us, rfl, ⟨rfl, rfl⟩ | ⟨other, vs, branch, rfl, isElse, is', last⟩⟩
  · refine ⟨ended', left :: (guard ++ right :: body), ?_, .alone isIf opens isGuard closes is⟩
    simp only [List.cons_append, List.append_assoc, List.nil_append]
  · refine ⟨ended', left :: (guard ++ right :: (body ++ other :: vs)), ?_,
      .otherwise isIf opens isGuard closes is isElse is' last⟩
    simp only [List.cons_append, List.append_assoc]

theorem keyword_succ (h : SoundClauses fuel) (top : Bool) (isWord : word.kind = .keyword)
    (ended : Ended ts) : Ensures (keywordStatement fuel top word) m ts
      fun _ m' rest => FoundStatement top m (word :: ts) m' rest := by
  have isKeyword (text : String) (same : word.text = text) : word.hasKeyword text = true := by
    rw [Token.hasKeyword, decide_eq_true isWord, decide_eq_true same]
    rfl
  unfold keywordStatement
  split
  · rename_i isFunc
    cases top with
    | true =>
      refine (h.function word m ts (isKeyword _ isFunc) ended).mono fun _ m' rest found => ?_
      exact found.statement
    | false => exact .unexpected
  split
  · rename_i isIf
    refine (h.conditional word m ts (isKeyword _ isIf) ended).mono fun _ m' rest found => ?_
    obtain ⟨us, rfl, is⟩ := found.taken
    exact ⟨found.ended, word :: us, rfl, .inl (.conditional is)⟩
  split
  · rename_i isWhile
    refine (h.whileLoop top word m ts (isKeyword _ isWhile) ended).mono fun _ m' rest found => ?_
    exact found.statement
  split
  · rename_i isFor
    refine (h.forLoop top word m ts (isKeyword _ isFor) ended).mono fun _ m' rest found => ?_
    exact found.statement
  split
  · rename_i isExit
    obtain ⟨t, us, rfl⟩ := ended.cases
    refine ensures_exit.bind ?_
    rintro _ m' rest ⟨rfl, rfl, ends⟩
    exact ensures_close_simple (.exit (isKeyword _ isExit)) ended ⟨t, us, rfl, ends⟩
  · exact .unexpected

theorem statement_succ (h : SoundClauses fuel) (top : Bool) (ended : Ended ts) :
    Ensures (Parser.statement (fuel + 1) top) m ts
      fun _ m' rest => FoundStatement top m ts m' rest := by
  obtain ⟨t, us, rfl⟩ := ended.cases
  unfold Parser.statement
  refine .take fun _ => ?_
  by_cases isSign : t.kind = .at
  · rw [if_pos isSign]
    refine (ensures_display (ended.tail (isSign.trans_ne (by simp)))).bind ?_
    rintro _ m' rest ⟨ended', us, rfl, displayed⟩
    obtain ⟨colon, name, rfl, isColon, isName, after⟩ | ⟨rfl, shown, stops⟩ := displayed
    · exact ensures_close_setting (.intro isSign isColon isName after) ended'
    · rcases shown with rfl | is
      · exact ensures_close_simple (.last isSign) ended' stops
      · exact ensures_close_simple (.display isSign is) ended' stops
  -- Neither a display nor a setting: a keyword says which statement it is, and else there is none.
  rw [if_neg isSign]
  by_cases isWord : t.kind = .keyword
  · rw [if_neg (not_not_intro isWord)]
    exact h.keyword_succ top isWord (ended.tail (isWord.trans_ne (by simp)))
  · rw [if_pos isWord]
    refine .untake (Ensures.bind ((sound fuel).expression m _ ended) ?_)
    intro _ m' rest found
    obtain ⟨vs, split, is⟩ := found.taken
    obtain rfl := found.mode
    rw [split]
    exact ensures_close_simple (.expression is) found.ended (found.stops.resolve_left (by simp))

theorem statements_succ (h : SoundClauses fuel) (top : Bool) (line : Position) (read : List Tree)
    (ended : Ended ts) : Ensures (Parser.statements (fuel + 1) top line read) m ts
      fun _ m' rest => FoundStatements top m ts m' rest := by
  obtain ⟨t, us, rfl⟩ := ended.cases
  unfold Parser.statements
  refine .peek fun _ => ?_
  by_cases closes : t.kind = if top then .eof else .rightCurly
  · rw [if_pos closes]
    exact .pure ⟨ended, ⟨t, us, rfl, closes⟩, [], rfl, .nil⟩
  rw [if_neg closes]
  split
  · exact .unexpected
  refine Ensures.bind (h.statement top m _ ended) ?_
  intro tree m' rest found
  refine (h.statements top line (tree :: read) m' rest found.ended).mono ?_
  intro _ m'' after last
  obtain ⟨first, split, isFirst⟩ := found.taken
  obtain ⟨more, rfl, isMore⟩ := last.taken
  rw [split]
  rcases isFirst with isFirst | ⟨rfl, rfl, simple, u, vs, next, ends⟩
  · refine ⟨last.ended, last.closes, first ++ more, ?_, .cons isFirst isMore⟩
    rw [List.append_assoc]
  -- Nothing that ends a chain starts a statement, so there are no more of them.
  · rcases isMore.nil_or_starts with rfl | ⟨v, ws, rfl, starts⟩
    · obtain rfl := isMore.mode_of_nil
      exact ⟨last.ended, last.closes, first, rfl, .unclosed simple⟩
    · obtain ⟨rfl, -⟩ := List.cons.inj next
      exact absurd ends (not_endsChain_of_starts starts)

end SoundClauses

theorem sound_clauses (fuel : Nat) : SoundClauses fuel := by
  induction fuel with
  | zero =>
    -- A failure ensures everything.
    constructor <;> intros <;>
      simp only [Parser.statements, Parser.statement, Parser.block, functionDefinition, ifStatement,
        whileStatement, forStatement] <;> exact .fail
  | succ fuel ih =>
    exact ⟨fun top line read _ _ ended => ih.statements_succ top line read ended,
      fun top _ _ ended => ih.statement_succ top ended,
      fun context _ _ ended => ih.block_succ context ended,
      fun _ _ _ isFunc ended => ih.function_succ isFunc ended,
      fun _ _ _ isIf ended => ih.conditional_succ isIf ended,
      fun top _ _ _ isWhile ended => ih.whileLoop_succ top isWhile ended,
      fun top _ _ _ isFor ended => ih.forLoop_succ top isFor ended⟩

end Calculator.Grammar
