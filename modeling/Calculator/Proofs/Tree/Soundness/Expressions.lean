import Calculator.Proofs.Tree.Completeness.Expressions

set_option autoImplicit false

namespace Calculator.Grammar

open Calculator.Parser

def Ended : List Token → Prop
  | [] => False
  | t :: ts => if t.kind = .eof then ts = [] else Ended ts

section
variable {t : Token} {ts : List Token}

theorem Ended.cases (h : Ended ts) : ∃ t us, ts = t :: us := by
  cases ts with
  | nil => exact h.elim
  | cons t us => exact ⟨t, us, rfl⟩

theorem Ended.tail (h : Ended (t :: ts)) (notEof : t.kind ≠ .eof) : Ended ts := by
  rw [Ended, if_neg notEof] at h
  exact h

theorem Ended.eq_nil (h : Ended (t :: ts)) (isEof : t.kind = .eof) : ts = [] := by
  rw [Ended, if_pos isEof] at h
  exact h

end

/-- What a parser took is a phrase, with an ended rest. All phrases but operands go on as far as a
token that no chain takes. -/
structure Found (m : NumericMode) (phrase : Phrase) (ts : List Token) (m' : NumericMode)
    (rest : List Token) : Prop where
  mode : m' = m
  ended : Ended rest
  stops : phrase = .operand ∨ ∃ t us, rest = t :: us ∧ endsChain t.kind = true
  taken : ∃ us, ts = us ++ rest ∧ IsPhrase m phrase us

structure Closed (P : List Token → Prop) (m : NumericMode) (ts : List Token) (m' : NumericMode)
    (rest : List Token) : Prop where
  mode : m' = m
  ended : Ended rest
  taken : ∃ us right, right.kind = .rightParen ∧ ts = us ++ right :: rest ∧ P us

def IsMore (m : NumericMode) (us : List Token) : Prop :=
  us = [] ∨ ∃ comma vs, comma.kind = .comma ∧ us = comma :: vs ∧ IsPhrase m .arguments vs

/-- With this bound, what the parsers of expressions take is derived. -/
structure Sound (fuel : Nat) : Prop where
  operand : ∀ m ts, Ended ts →
    Ensures (Parser.operand fuel) m ts fun _ m' rest => Found m .operand ts m' rest
  chain : ∀ m ts operands operators, Ended ts →
    Ensures (Parser.chain fuel operands operators) m ts fun _ m' rest => Found m .chain ts m' rest
  expression : ∀ m ts, Ended ts →
    Ensures (Parser.expression fuel) m ts fun _ m' rest => Found m .expression ts m' rest
  arguments : ∀ m ts, Ended ts → Ensures (Parser.arguments fuel []) m ts fun _ m' rest =>
    Closed (fun us => us = [] ∨ IsPhrase m .arguments us) m ts m' rest
  more : ∀ m ts args, args ≠ [] → Ended ts → Ensures (Parser.arguments fuel args) m ts
    fun _ m' rest => Closed (IsMore m) m ts m' rest

section
variable {m : NumericMode} {fuel : Nat} {t : Token} {ts : List Token}

theorem Closed.nil {P : List Token → Prop} (ended : Ended (t :: ts)) (closes : t.kind = .rightParen)
    (h : P []) : Closed P m (t :: ts) m ts :=
  ⟨rfl, ended.tail (closes.trans_ne (by simp)), [], t, closes, rfl, h⟩

theorem Found.cons {phrase : Phrase} {m' : NumericMode} {rest : List Token}
    (h : Found m phrase ts m' rest)
    (derive : ∀ us, IsPhrase m phrase us → IsPhrase m phrase (t :: us)) :
    Found m phrase (t :: ts) m' rest := by
  obtain ⟨us, rfl, is⟩ := h.taken
  exact ⟨h.mode, h.ended, h.stops, t :: us, rfl, derive us is⟩

theorem ensures_operand_literal (isLiteral : t.kind.isLiteral = true) (ended : Ended (t :: ts)) :
    Ensures (literal t) m ts fun _ m' rest => Found m .operand (t :: ts) m' rest := by
  have notEof : t.kind ≠ .eof := ne_of_apply_ne Kind.isLiteral (isLiteral.trans_ne (by decide))
  refine ensures_literal.mono fun _ m' rest => ?_
  rintro ⟨⟨v, value⟩, rfl, rfl⟩
  exact ⟨rfl, ended.tail notEof, .inl rfl, [t], rfl, .literal isLiteral value⟩

theorem Sound.operand_name (h : Sound fuel) (isName : t.kind = .symbol) (ended : Ended (t :: ts)) :
    Ensures (nameOperand fuel t) m ts fun _ m' rest => Found m .operand (t :: ts) m' rest := by
  have inner := ended.tail (isName.trans_ne (by simp))
  obtain ⟨next, vs, rfl⟩ := inner.cases
  unfold nameOperand
  refine .take fun _ => ?_
  split
  · rename_i isStep
    exact .pure ⟨rfl, inner.tail (isStep.trans_ne (by simp)), .inl rfl, [t, next], rfl,
      .step isName (.inl isStep)⟩
  · rename_i isStep
    exact .pure ⟨rfl, inner.tail (isStep.trans_ne (by simp)), .inl rfl, [t, next], rfl,
      .step isName (.inr isStep)⟩
  · rename_i opens
    refine Ensures.bind (h.arguments m vs (inner.tail (opens.trans_ne (by simp)))) ?_
    intro _ m' rest closed
    obtain ⟨us, right, closes, rfl, empty | is⟩ := closed.taken
    · obtain rfl := empty
      exact .pure ⟨closed.mode, closed.ended, .inl rfl, [t, next, right], rfl,
        .call isName opens closes⟩
    · refine .pure ⟨closed.mode, closed.ended, .inl rfl, t :: next :: (us ++ [right]), ?_,
        .callWith isName opens is closes⟩
      rw [List.append_cons]
      rfl
  · exact .untake (.pure ⟨rfl, inner, .inl rfl, [t], rfl, .name isName⟩)

theorem Sound.operand_succ (h : Sound fuel) (ended : Ended ts) :
    Ensures (Parser.operand (fuel + 1)) m ts fun _ m' rest => Found m .operand ts m' rest := by
  obtain ⟨t, us, rfl⟩ := ended.cases
  unfold Parser.operand
  refine .take fun _ => ?_
  -- The cases are those of the parser: six kinds of literals, a name, three signs, parentheses.
  have literal (isLiteral : t.kind.isLiteral = true) :=
    ensures_operand_literal (m := m) isLiteral ended
  split
  iterate 6
    · rename_i kind
      exact literal (by rw [kind]; rfl)
  · rename_i isName
    exact h.operand_name isName ended
  · rename_i isPlus
    refine (h.operand m us (ended.tail (isPlus.trans_ne (by simp)))).mono fun _ m' rest found => ?_
    exact found.cons fun _ => .plus isPlus
  · rename_i isMinus
    refine Ensures.bind (h.operand m us (ended.tail (isMinus.trans_ne (by simp)))) ?_
    intro _ m' rest found
    exact .pure (found.cons fun _ => .unary (.inl isMinus))
  · rename_i isBang
    refine Ensures.bind (h.operand m us (ended.tail (isBang.trans_ne (by simp)))) ?_
    intro _ m' rest found
    exact .pure (found.cons fun _ => .unary (.inr isBang))
  · rename_i opens
    refine Ensures.bind (h.expression m us (ended.tail (opens.trans_ne (by simp)))) ?_
    intro _ m' rest found
    obtain ⟨right, after, rfl⟩ := found.ended.cases
    obtain ⟨inner, rfl, is⟩ := found.taken
    refine .expect fun closes => .pure ⟨found.mode, found.ended.tail (closes.trans_ne (by simp)),
      .inl rfl, t :: (inner ++ [right]), ?_, .parentheses opens is closes⟩
    change t :: (inner ++ right :: after) = t :: ((inner ++ [right]) ++ after)
    rw [List.append_cons]
  · exact .unexpected

theorem Sound.chain_succ (h : Sound fuel) (operands : List Tree) (operators : List Token)
    (ended : Ended ts) : Ensures (Parser.chain (fuel + 1) operands operators) m ts
      fun _ m' rest => Found m .chain ts m' rest := by
  unfold Parser.chain
  refine Ensures.bind (h.operand m ts ended) ?_
  intro tree m' rest found
  obtain ⟨op, us, rfl⟩ := found.ended.cases
  obtain ⟨first, rfl, isFirst⟩ := found.taken
  obtain rfl := found.mode
  refine .take fun _ => ?_
  by_cases ends : endsChain op.kind = true
  · rw [if_pos ends]
    refine .untake ?_
    split
    · exact .pure ⟨rfl, found.ended, .inr ⟨op, us, rfl, ends⟩, first, rfl, .single isFirst⟩
    · exact .fail
  · rw [if_neg ends]
    have notEof : op.kind ≠ .eof := ne_of_apply_ne endsChain ends
    split
    · exact .unexpected
    · rename_i p priority
      have isOperator : 1 ≤ op.kind.priority.getD 0 := one_le_priority (by rw [priority]; rfl)
      split
      · rename_i operands' operators' reduced
        refine (h.chain m' us operands' (op :: operators') (found.ended.tail notEof)).mono ?_
        intro _ m'' rest chained
        obtain ⟨more, rfl, isMore⟩ := chained.taken
        refine ⟨chained.mode, chained.ended, chained.stops, first ++ op :: more, ?_,
          .link isFirst isOperator isMore⟩
        rw [List.append_assoc]
        rfl
      · exact .fail

theorem Found.plain {m' : NumericMode} {rest : List Token} (h : Found m .chain ts m' rest) :
    Found m .expression ts m' rest := by
  obtain ⟨us, split, is⟩ := h.taken
  have stops := h.stops.resolve_left (by simp)
  exact ⟨h.mode, h.ended, .inr stops, us, split, .plain is⟩

theorem Sound.expression_succ (h : Sound fuel) (ended : Ended ts) :
    Ensures (Parser.expression (fuel + 1)) m ts
      fun _ m' rest => Found m .expression ts m' rest := by
  have onChain : Ensures (Parser.chain fuel [] []) m ts
      fun _ m' rest => Found m .expression ts m' rest :=
    (h.chain m ts [] [] ended).mono fun _ _ _ found => found.plain
  obtain ⟨t, us, rfl⟩ := ended.cases
  unfold Parser.expression
  refine .take fun _ => ?_
  by_cases isName : t.kind = .symbol
  · rw [if_neg (not_not_intro isName)]
    -- A name in front of an assignment sign is its target, and else the start of a chain.
    have inner := ended.tail (isName.trans_ne (by simp))
    obtain ⟨op, vs, rfl⟩ := inner.cases
    refine .take fun _ => ?_
    by_cases assigns : op.kind.assigns = true
    · have notEof : op.kind ≠ .eof := ne_of_apply_ne Kind.assigns (assigns.trans_ne (by decide))
      rw [if_pos assigns]
      refine Ensures.bind (h.chain m vs [] [] (inner.tail notEof)) ?_
      intro _ m' rest found
      obtain ⟨value, rfl, is⟩ := found.taken
      exact .pure ⟨found.mode, found.ended, .inr (found.stops.resolve_left (by simp)),
        t :: op :: value, rfl, .assignment isName assigns is⟩
    · rw [if_neg assigns]
      exact .untake (.untake onChain)
  · rw [if_pos isName]
    exact .untake onChain

theorem Sound.argumentsFrom (h : Sound fuel) (args : List Tree) (ended : Ended ts) :
    Ensures (argumentsFrom fuel args) m ts
      fun _ m' rest => Closed (IsPhrase m .arguments) m ts m' rest := by
  refine Ensures.bind (h.expression m ts ended) ?_
  intro tree m' rest found
  obtain ⟨first, rfl, isFirst⟩ := found.taken
  obtain rfl := found.mode
  refine (h.more m' rest (tree :: args) (List.cons_ne_nil _ _) found.ended).mono ?_
  intro _ m'' after closed
  obtain ⟨us, right, closes, rfl, rfl | ⟨comma, vs, isComma, rfl, is⟩⟩ := closed.taken
  · exact ⟨closed.mode, closed.ended, first, right, closes, rfl, .argument isFirst⟩
  · refine ⟨closed.mode, closed.ended, first ++ comma :: vs, right, closes, ?_,
      .arguments isFirst isComma is⟩
    rw [List.append_assoc, List.cons_append]

theorem Sound.arguments_succ (h : Sound fuel) (ended : Ended ts) :
    Ensures (Parser.arguments (fuel + 1) []) m ts fun _ m' rest =>
      Closed (fun us => us = [] ∨ IsPhrase m .arguments us) m ts m' rest := by
  have inner := h.argumentsFrom (m := m) [] ended
  obtain ⟨t, us, rfl⟩ := ended.cases
  unfold Parser.arguments
  refine .take fun _ => ?_
  by_cases closes : t.kind = .rightParen
  · rw [if_pos closes]
    exact .pure (.nil ended closes (.inl rfl))
  · rw [if_neg closes]
    refine .untake (inner.mono ?_)
    intro _ m' rest closed
    obtain ⟨us, right, closes, split, is⟩ := closed.taken
    exact ⟨closed.mode, closed.ended, us, right, closes, split, .inr is⟩

theorem Sound.more_succ (h : Sound fuel) {args : List Tree} (nonempty : args ≠ [])
    (ended : Ended ts) : Ensures (Parser.arguments (fuel + 1) args) m ts
      fun _ m' rest => Closed (IsMore m) m ts m' rest := by
  have notEmpty : args.isEmpty = false := List.isEmpty_eq_false_iff.mpr nonempty
  obtain ⟨t, us, rfl⟩ := ended.cases
  unfold Parser.arguments
  refine .take fun _ => ?_
  by_cases closes : t.kind = .rightParen
  · rw [if_pos closes]
    exact .pure (.nil ended closes (.inl rfl))
  · rw [if_neg closes, notEmpty, if_neg Bool.false_ne_true]
    by_cases isComma : t.kind = .comma
    · rw [if_neg (not_not_intro isComma)]
      refine (h.argumentsFrom args (ended.tail (isComma.trans_ne (by simp)))).mono ?_
      intro _ m' rest closed
      obtain ⟨vs, right, closes, rfl, is⟩ := closed.taken
      exact ⟨closed.mode, closed.ended, t :: vs, right, closes, rfl,
        .inr ⟨t, vs, isComma, rfl, is⟩⟩
    · rw [if_pos isComma]
      exact Ensures.bind (R := fun _ _ _ => False) .unexpected fun _ _ _ => False.elim

end

theorem sound (fuel : Nat) : Sound fuel := by
  induction fuel with
  | zero =>
    -- Without a bound left the parser fails, and a failure ensures everything.
    exact ⟨fun _ _ _ => .fail, fun _ _ _ _ _ => .fail, fun _ _ _ => .fail, fun _ _ _ => .fail,
      fun _ _ _ _ _ => .fail⟩
  | succ fuel ih =>
    exact ⟨fun _ _ ended => ih.operand_succ ended,
      fun _ _ operands operators ended => ih.chain_succ operands operators ended,
      fun _ _ ended => ih.expression_succ ended, fun _ _ ended => ih.arguments_succ ended,
      fun _ _ _ nonempty ended => ih.more_succ nonempty ended⟩

end Calculator.Grammar
