import Calculator.Proofs.Tree.Errors

set_option autoImplicit false

namespace Calculator.Grammar

def selected? : List Token → Option NumericMode
  | sign :: colon :: option :: _ =>
    if sign.kind = .at ∧ colon.kind = .colon ∧ option.kind = .symbol then
      if option.text = "f" then some .float
      else if option.text = "r" then some .rational
      else none
    else none
  | _ => none

/-- The mode that is selected last among the tokens, or the one in front of them. -/
def lastMode (m : NumericMode) : List Token → NumericMode
  | [] => m
  | t :: ts => lastMode ((selected? (t :: ts)).getD m) ts

/-- The tokens lead from one mode to the other, whatever stands behind them. Only a colon could make
them part of a setting. -/
def Selects (m : NumericMode) (ts : List Token) (m' : NumericMode) : Prop :=
  ∀ us : List Token, (∀ t ∈ us.head?, t.kind ≠ .colon) → lastMode m (ts ++ us) = lastMode m' us

section
variable {m m' m'' : NumericMode} {t : Token} {ts us : List Token}

theorem selected?_of_not_sign (h : t.kind ≠ .at) : selected? (t :: ts) = none := by
  rcases ts with _ | ⟨u, _ | ⟨v, ts⟩⟩
  · rfl
  · rfl
  · exact if_neg fun setting => h setting.1

theorem selected?_of_not_colon (h : ∀ u ∈ ts.head?, u.kind ≠ .colon) :
    selected? (t :: ts) = none := by
  rcases ts with _ | ⟨u, _ | ⟨v, ts⟩⟩
  · rfl
  · rfl
  · exact if_neg fun setting => h u rfl setting.2.1

theorem lastMode_cons (h : selected? (t :: ts) = none) : lastMode m (t :: ts) = lastMode m ts := by
  rw [lastMode, h]
  rfl

theorem head_append_ne_colon (front : ∀ t ∈ ts.head?, t.kind ≠ .colon)
    (behind : ∀ t ∈ us.head?, t.kind ≠ .colon) : ∀ t ∈ (ts ++ us).head?, t.kind ≠ .colon := by
  cases ts with
  | nil => exact behind
  | cons t ts => exact front

namespace Selects

theorem nil : Selects m [] m :=
  fun _ _ => rfl

theorem append (first : Selects m ts m') (more : Selects m' us m'')
    (apart : ∀ t ∈ us.head?, t.kind ≠ .colon) : Selects m (ts ++ us) m'' := by
  intro vs behind
  rw [List.append_assoc, first _ (head_append_ne_colon apart behind), more vs behind]

theorem cons (notSign : t.kind ≠ .at) (more : Selects m ts m') : Selects m (t :: ts) m' := by
  intro us behind
  rw [List.cons_append, lastMode_cons (selected?_of_not_sign notSign), more us behind]

theorem behind (plain : ∀ t ∈ ts, t.kind ≠ .at) (more : Selects m us m') :
    Selects m (ts ++ us) m' := by
  induction ts with
  | nil => exact more
  | cons t ts ih =>
    obtain ⟨notSign, plain⟩ := List.forall_mem_cons.mp plain
    exact (ih plain).cons notSign

theorem of_plain (plain : ∀ t ∈ ts, t.kind ≠ .at) : Selects m ts m := by
  have selects := behind plain (nil (m := m))
  rwa [List.append_nil] at selects

theorem closed (h : Selects m ts m') (notSign : t.kind ≠ .at) (notColon : t.kind ≠ .colon) :
    Selects m (ts ++ [t]) m' :=
  h.append (.cons notSign .nil) (by simpa using notColon)

theorem sign (apart : ∀ t ∈ ts.head?, t.kind ≠ .colon) (more : Selects m ts m') :
    Selects m (t :: ts) m' := by
  intro us behind
  have notColon := selected?_of_not_colon (t := t) (head_append_ne_colon apart behind)
  rw [List.cons_append, lastMode_cons notColon, more us behind]

end Selects

theorem IsPhrase.noSigns {phrase : Phrase} (h : IsPhrase m phrase ts) : ∀ t ∈ ts, t.kind ≠ .at := by
  intro t mem sign
  have found := h.kinds t mem
  rw [sign] at found
  cases found

theorem IsNames.noSigns (h : IsNames ts) : ∀ t ∈ ts, t.kind ≠ .at := by
  induction h with
  | name isName => simp [isName]
  | names isName isComma more ih => simpa [isName, isComma] using ih

theorem startsStatement_not_colon {t : Token} (h : startsStatement t = true) :
    t.kind ≠ .colon := by
  intro colon
  have word (word : String) : t.hasKeyword word = false := by
    rw [Token.hasKeyword, colon]
    rfl
  simp [startsStatement, colon, word, startsOperand, Kind.isLiteral] at h

theorem head_not_colon_of_starts (h : ∃ t us, ts = t :: us ∧ startsStatement t = true) :
    ∀ t ∈ ts.head?, t.kind ≠ .colon := by
  obtain ⟨t, us, rfl, starts⟩ := h
  rintro _ ⟨⟩
  exact startsStatement_not_colon starts

theorem IsSimple.selects (h : IsSimple m ts) : Selects m ts m := by
  cases h with
  | expression inner => exact .of_plain inner.noSigns
  | display isSign inner =>
    exact .sign (head_not_colon_of_starts (IsSimple.expression inner).starts)
      (.of_plain inner.noSigns)
  | last isSign => exact .sign (by simp) .nil
  | exit isExit => exact .cons ((kind_of_hasKeyword isExit).trans_ne (by simp)) .nil

theorem IsSetting.selects (h : IsSetting m ts m') : Selects m ts m' := by
  cases h with
  | @intro sign colon option _ isSign isColon isName after =>
    intro us _
    have found : (selected? ([sign, colon, option] ++ us)).getD m = m' := by
      change (if _ then _ else _ : Option NumericMode).getD m = m'
      rw [if_pos ⟨isSign, isColon, isName⟩]
      unfold modeAfter at after
      split_ifs at after with isP isF isR
      · rw [isP]
        exact Option.some.inj after
      · rw [if_pos isF]
        exact Option.some.inj after
      · rw [if_neg isF, if_pos isR]
        exact Option.some.inj after
    have rest : Selects m' [colon, option] m' :=
      .cons (isColon.trans_ne (by simp)) (.cons (isName.trans_ne (by simp)) .nil)
    change lastMode ((selected? ([sign, colon, option] ++ us)).getD m) _ = _
    rw [found]
    exact rest us ‹_›

theorem IsClause.selects {clause : Clause} (h : IsClause clause m ts m') : Selects m ts m' := by
  induction h with
  | simple inner isSemi => exact inner.selects.closed (by simp [isSemi]) (by simp [isSemi])
  | setting inner isSemi => exact inner.selects.closed (by simp [isSemi]) (by simp [isSemi])
  | openSetting inner => exact inner.selects
  | conditional inner ih => exact ih
  | whileLoop isWhile opens condition closes inner ih =>
    refine .cons ((kind_of_hasKeyword isWhile).trans_ne (by simp)) ?_
    refine .cons (opens.trans_ne (by simp)) (.behind condition.noSigns ?_)
    exact .cons (closes.trans_ne (by simp)) ih
  | forLoop isFor opens start isSemi condition isSemi' next closes inner ih =>
    refine .cons ((kind_of_hasKeyword isFor).trans_ne (by simp)) ?_
    refine .cons (opens.trans_ne (by simp)) (.behind start.noSigns ?_)
    refine .cons (isSemi.trans_ne (by simp)) (.behind condition.noSigns ?_)
    refine .cons (isSemi'.trans_ne (by simp)) (.behind next.noSigns ?_)
    exact .cons (closes.trans_ne (by simp)) ih
  | @function m m' word name left right params body isFunc isName opens names closes inner ih =>
    have plain : ∀ t ∈ params, t.kind ≠ .at := by
      rcases names with rfl | names
      · simp
      · exact names.noSigns
    refine .cons ((kind_of_hasKeyword isFunc).trans_ne (by simp)) ?_
    refine .cons (isName.trans_ne (by simp)) (.cons (opens.trans_ne (by simp)) ?_)
    exact .behind plain (.cons (closes.trans_ne (by simp)) ih)
  | nil => exact .nil
  | cons first more ih ih' =>
    refine ih.append ih' ?_
    rcases more.nil_or_starts with rfl | starts
    · simp
    · exact head_not_colon_of_starts starts
  | unclosed last => exact last.selects
  | block opens inner closes ih =>
    exact .cons (opens.trans_ne (by simp)) (ih.closed (by simp [closes]) (by simp [closes]))
  | alone isIf opens condition closes inner ih =>
    refine .cons ((kind_of_hasKeyword isIf).trans_ne (by simp)) ?_
    refine .cons (opens.trans_ne (by simp)) (.behind condition.noSigns ?_)
    exact .cons (closes.trans_ne (by simp)) ih
  | otherwise isIf opens condition closes inner isElse isBranch last ih ih' =>
    refine .cons ((kind_of_hasKeyword isIf).trans_ne (by simp)) ?_
    refine .cons (opens.trans_ne (by simp)) (.behind condition.noSigns ?_)
    refine .cons (closes.trans_ne (by simp)) (ih.append ?_ (by simp [kind_of_hasKeyword isElse]))
    exact .cons ((kind_of_hasKeyword isElse).trans_ne (by simp)) ih'

theorem IsClause.lastMode_eq {clause : Clause} (h : IsClause clause m ts m') (line : Position) :
    lastMode m (ts ++ [.eof line]) = m' :=
  h.selects [.eof line] (by simp [Token.eof])

end

end Calculator.Grammar
