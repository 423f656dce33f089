import Calculator.Proofs.Tree.Completeness.Expressions

set_option autoImplicit false

namespace Calculator

namespace Parser

def Refuses {α : Type} (p : Parser α) (m : NumericMode) (ts : List Token) : Prop :=
  ∀ s : ParserState, s.At m ts → ∃ e s', p s = .error e s'

section
variable {α β : Type} {p : Parser α} {f : α → Parser β} {a : α} {m m' : NumericMode}
  {t : Token} {ts us rest : List Token}

theorem Refuses.bind (head : Refuses p m ts) : Refuses (p >>= f) m ts := by
  intro s here
  obtain ⟨e, s', failed⟩ := head s here
  exact ⟨e, s', bind_error failed⟩

theorem Reads.refuses (head : Reads p m ts a m' us) (tail : Refuses (f a) m' us) :
    Refuses (p >>= f) m ts := by
  intro s here
  obtain ⟨s', read, there⟩ := head s here
  obtain ⟨e, s'', failed⟩ := tail s' there
  exact ⟨e, s'', (bind_ok read).trans failed⟩

theorem refuses_fail {line : Position} {cause : SyntaxCause} :
    Refuses (fail line cause : Parser α) m ts :=
  fun s _ => ⟨_, s, rfl⟩

theorem refuses_take (h : t.kind = .error) : Refuses take m (t :: ts) := by
  intro s here
  rw [take_eq, (at_take here).1, if_pos h]
  exact ⟨_, _, rfl⟩

end

section
variable {m : NumericMode} {fuel : Nat} {line : Position} {top : Bool} {t next : Token}
  {ts rest : List Token} {tree : Tree} {operands read : List Tree} {operators : List Token}

theorem refuses_chain (first : Reads (operand fuel) m ts tree m (next :: rest))
    (stray : Grammar.followsOperand next.kind = false) :
    Refuses (chain (fuel + 1) operands operators) m ts := by
  simp only [Grammar.followsOperand, Bool.or_eq_false_iff] at stray
  obtain ⟨noOperator, noEnd⟩ := stray
  unfold chain
  refine first.refuses ?_
  by_cases error : next.kind = .error
  · exact (refuses_take error).bind
  · refine (reads_take error).refuses ?_
    rw [noEnd, if_neg Bool.false_ne_true, Option.isSome_eq_false_iff.mp noOperator |>
      Option.isNone_iff_eq_none.mp]
    exact refuses_fail

theorem refuses_expression (notError : t.kind ≠ .error) (notName : t.kind ≠ .symbol)
    (inner : Refuses (chain fuel [] []) m (t :: ts)) :
    Refuses (expression (fuel + 1)) m (t :: ts) := by
  unfold expression
  refine (reads_take notError).refuses ?_
  rw [if_pos notName]
  exact reads_untake.refuses inner

theorem refuses_statement (notError : t.kind ≠ .error) (notSign : t.kind ≠ .at)
    (notKeyword : t.kind ≠ .keyword) (inner : Refuses (expression fuel) m (t :: ts)) :
    Refuses (statement (fuel + 1) top) m (t :: ts) := by
  unfold statement
  refine (reads_take notError).refuses ?_
  rw [if_neg notSign, if_pos notKeyword]
  exact reads_untake.refuses inner.bind

theorem refuses_statements (notError : t.kind ≠ .error) (notEof : t.kind ≠ .eof)
    (inner : Refuses (statement fuel true) m (t :: ts)) :
    Refuses (statements (fuel + 1) true line read) m (t :: ts) := by
  unfold statements
  refine (reads_peek notError).refuses ?_
  rw [if_pos rfl, if_neg notEof, if_neg notEof]
  exact inner.bind

end

end Parser

open Calculator.Parser Calculator.Grammar in
theorem Tree.ofTokens_refused {m : NumericMode} {t next : Token} {ts rest : List Token}
    {tree : Tree} (starts : startsOperand t.kind = true) (notName : t.kind ≠ .symbol)
    (first : ∀ fuel, Reads (operand (fuel + 2)) m (t :: ts) tree m (next :: rest))
    (stray : followsOperand next.kind = false) : ∃ e, Tree.ofTokens (t :: ts) m = .error e := by
  have start : ParserState.At ⟨.ofTokens (t :: ts), m, 0⟩ m (t :: ts) := ⟨rfl, rfl⟩
  have notError : t.kind ≠ .error := startsOperand_ne starts (by decide)
  have refused (fuel : Nat) : Refuses (program (fuel + 6)) m (t :: ts) :=
    (reads_peek notError).refuses
      (refuses_statements notError (startsOperand_ne starts (by decide))
        (refuses_statement notError (startsOperand_ne starts (by decide))
          (startsOperand_ne starts (by decide))
          (refuses_expression notError notName (refuses_chain (first fuel) stray))))
  obtain ⟨fuel, enough⟩ : ∃ fuel, fuelFor (.ofTokens (t :: ts)) = fuel + 6 := by
    refine ⟨8 * ((TokenStream.ofTokens (t :: ts)).size + 2) - 6, ?_⟩
    unfold fuelFor
    omega
  obtain ⟨e, s, failed⟩ := refused fuel _ start
  unfold Tree.ofTokens Tree.ofStream Parser.run
  rw [enough, failed]
  exact ⟨e, rfl⟩

end Calculator
