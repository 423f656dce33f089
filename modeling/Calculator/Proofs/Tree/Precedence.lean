import Calculator.Proofs.Tree.Chain
import Calculator.Proofs.Tree.Reading

set_option autoImplicit false

namespace Calculator

open Chain

def Kind.isLiteral (kind : Kind) : Bool :=
  [.real, .int, .hex, .oct, .date, .time].contains kind

namespace Chain

def Pending (operands : List Chain) (operators : List Token) : Prop :=
  ∀ t, Stacked (leaf t :: operands) operators

theorem pending_nil : Pending [] [] :=
  fun _ => .single trivial

theorem Stacked.pending {op : Token} {c : Chain} {operands : List Chain} {operators : List Token}
    (h : Stacked (c :: operands) operators) (reduced : Reduced (level op) c operators) :
    Pending (c :: operands) (op :: operators) :=
  fun _ => .push h reduced.2 reduced.1 trivial trivial

end Chain

namespace Parser

section
variable {m m' : NumericMode} {t op last : Token} {ts us after rest : List Token} {fuel : Nat}
  {tree whole : Tree} {operands operands' : List Tree} {operators operators' : List Token}

theorem ne_error_of_endsChain {kind : Kind} (h : endsChain kind = true) : kind ≠ .error := by
  rintro rfl
  cases h

theorem of_isSome_priority {kind : Kind} (h : kind.priority.isSome = true) :
    kind ≠ .error ∧ endsChain kind = false := by
  cases kind <;> first | exact ⟨by decide, by decide⟩ | cases h

theorem reads_chain_last (first : Reads (operand fuel) m ts tree m (last :: after))
    (ends : endsChain last.kind = true)
    (reduced : reduceAll (tree :: operands) operators = some whole) :
    Reads (chain (fuel + 1) operands operators) m ts whole m (last :: after) := by
  unfold chain
  refine first.bind (.take (ne_error_of_endsChain ends) ?_)
  rw [if_pos ends]
  refine .untake ?_
  rw [reduced]
  exact .pure

theorem reads_chain_link (first : Reads (operand fuel) m ts tree m (op :: us))
    (binary : op.kind.priority.isSome = true)
    (reduced : reduceBefore (level op) (tree :: operands) operators = some (operands', operators'))
    (more : Reads (chain fuel operands' (op :: operators')) m us whole m' rest) :
    Reads (chain (fuel + 1) operands operators) m ts whole m' rest := by
  obtain ⟨notError, goesOn⟩ := of_isSome_priority binary
  obtain ⟨p, priority⟩ := Option.isSome_iff_exists.mp binary
  unfold chain
  refine first.bind (.take notError ?_)
  rw [if_neg (by rw [goesOn]; exact Bool.false_ne_true), priority]
  rw [level, priority] at reduced
  dsimp only [Option.getD_some] at reduced ⊢
  rw [reduced]
  exact more

theorem reads_operand_literal {v : Value} (isLiteral : t.kind.isLiteral = true)
    (value : Literal.value m t = .ok v) :
    Reads (operand (fuel + 1)) m (t :: ts) (.constant t.line v) m ts := by
  have notError : t.kind ≠ .error := ne_of_apply_ne Kind.isLiteral (isLiteral.trans_ne (by decide))
  have read : Reads (literal t) m ts (.constant t.line v) m ts := reads_literal value
  unfold operand
  refine .take notError ?_
  cases kind : t.kind <;> first | exact read | (rw [kind] at isLiteral; cases isLiteral)

end

/-- However large its bound is from some number on, the parser reads all up to the rest. -/
def Accepts (p : Nat → Parser Tree) (m : NumericMode) (ts : List Token) (tree : Tree)
    (rest : List Token) : Prop :=
  ∃ n, ∀ fuel, n ≤ fuel → Reads (p fuel) m ts tree m rest

/-- Operands that the parser accepts, with binary operators between them, up to the last token. -/
inductive Spells (m : NumericMode) (last : Token) (after : List Token) :
    List Token → Tree → List (Token × Tree) → Prop where
  | operand {part : List Token} {tree : Tree}
      (accepted : Accepts operand m (part ++ last :: after) tree (last :: after)) :
      Spells m last after (part ++ last :: after) tree []
  | link {part ts : List Token} {op : Token} {tree next : Tree} {links : List (Token × Tree)}
      (accepted : Accepts operand m (part ++ op :: ts) tree (op :: ts))
      (binary : op.kind.priority.isSome = true) (more : Spells m last after ts next links) :
      Spells m last after (part ++ op :: ts) tree ((op, next) :: links)

section
variable {m : NumericMode} {last : Token} {after ts : List Token} {first : Tree}
  {links : List (Token × Tree)}

/-- What stands on the stacks and what is still to be read make up one ordered chain. -/
theorem Spells.accepts (h : Spells m last after ts first links) (ends : endsChain last.kind = true)
    {operands : List Chain} {operators : List Token} (pending : Pending operands operators) :
    ∃ c : Chain, c.Ordered ∧
      c.spelling = stackSpelling (leaf first :: operands) operators ++ linked links ∧
      Accepts (fun fuel => chain fuel (operands.map toTree) operators) m ts c.toTree
        (last :: after) := by
  -- The stacks change from link to link, so the rest is read behind all that may be pending.
  induction h generalizing operands operators with
  | @operand part tree accepted =>
    obtain ⟨c, reduced, ordered, spelled⟩ := reduceAll_stacked (pending tree)
    obtain ⟨n, read⟩ := accepted
    refine ⟨c, ordered, spelled.trans (List.append_nil _).symm, n + 1, fun fuel enough => ?_⟩
    obtain ⟨fuel, rfl⟩ := Nat.exists_eq_succ_of_ne_zero (Nat.ne_zero_of_lt enough)
    exact reads_chain_last (read fuel (Nat.le_of_succ_le_succ enough)) ends reduced
  | @link part ts op tree next links accepted binary more ih =>
    obtain ⟨top, operands', operators', reduced, stacked, ready, same⟩ :=
      reduceBefore_stacked (level op) (pending tree) trivial
    obtain ⟨c, ordered, spelled, n', chained⟩ := ih (stacked.pending ready)
    obtain ⟨n, read⟩ := accepted
    refine ⟨c, ordered, ?_, max n n' + 1, fun fuel enough => ?_⟩
    · rw [spelled, ← same, stackSpelling, List.append_assoc]
      rfl
    · obtain ⟨fuel, rfl⟩ := Nat.exists_eq_succ_of_ne_zero (Nat.ne_zero_of_lt enough)
      have bounds := max_le_iff.mp (Nat.le_of_succ_le_succ enough)
      exact reads_chain_link (read fuel bounds.1) binary reduced (chained fuel bounds.2)

/-- A chain of any length is read up to its last token, as the only ordered chain with its operands
and operators in their order. This is the one that precedence climbing builds. -/
theorem accepts_chain_iff (m : NumericMode) (last : Token) (after ts : List Token) (first : Tree)
    (links : List (Token × Tree)) (ends : endsChain last.kind = true)
    (spells : Spells m last after ts first links) :
    Accepts (fun fuel => chain fuel [] []) m ts (climbed first links).toTree (last :: after) ∧
      ∀ c : Chain, c.Ordered ∧ c.spelling = .inl first :: linked links ↔
        c = climbed first links := by
  obtain ⟨c, ordered, spelled, accepted⟩ := spells.accepts ends pending_nil
  have climbs : c = climbed first links :=
    ordered.unique (climbed_ordered first links) (spelled.trans (climbed_spelling first links).symm)
  refine ⟨climbs ▸ accepted, fun d => ⟨fun h => ?_, ?_⟩⟩
  · exact h.1.unique (climbed_ordered first links) (h.2.trans (climbed_spelling first links).symm)
  · rintro rfl
    exact ⟨climbed_ordered first links, climbed_spelling first links⟩

theorem accepts_literal {t : Token} {v : Value} (literal : t.kind.isLiteral = true)
    (value : Literal.value m t = .ok v) (rest : List Token) :
    Accepts operand m ([t] ++ rest) (.constant t.line v) rest := by
  refine ⟨1, fun fuel enough => ?_⟩
  obtain ⟨fuel, rfl⟩ := Nat.exists_eq_succ_of_ne_zero (Nat.ne_zero_of_lt enough)
  exact reads_operand_literal literal value

end

/-- A product behind a difference, over two lines. -/
theorem accepts_chain_difference :
    Accepts (fun fuel => chain fuel [] []) .undefined
      [⟨.int, "1", 1⟩, ⟨.minus, "-", 1⟩, ⟨.int, "2", 1⟩, ⟨.star, "*", 2⟩, ⟨.hex, "0x3", 2⟩,
        ⟨.semicolon, ";", 2⟩]
      (.binary 1 .minus (.constant 1 (.int 1 .dec))
        (.binary 2 .star (.constant 1 (.int 2 .dec)) (.constant 2 (.int 3 .hex))))
      [⟨.semicolon, ";", 2⟩] := by
  have three : Spells .undefined ⟨.semicolon, ";", 2⟩ []
      ([⟨.hex, "0x3", 2⟩] ++ [⟨.semicolon, ";", 2⟩]) (.constant 2 (.int 3 .hex)) [] :=
    .operand (accepts_literal rfl rfl _)
  have two : Spells .undefined ⟨.semicolon, ";", 2⟩ []
      ([⟨.int, "2", 1⟩] ++ ⟨.star, "*", 2⟩ :: ([⟨.hex, "0x3", 2⟩] ++ [⟨.semicolon, ";", 2⟩]))
      (.constant 1 (.int 2 .dec)) [(⟨.star, "*", 2⟩, .constant 2 (.int 3 .hex))] :=
    .link (accepts_literal rfl rfl _) rfl three
  have one : Spells .undefined ⟨.semicolon, ";", 2⟩ []
      ([⟨.int, "1", 1⟩] ++ ⟨.minus, "-", 1⟩ :: _) (.constant 1 (.int 1 .dec))
      [(⟨.minus, "-", 1⟩, .constant 1 (.int 2 .dec)),
        (⟨.star, "*", 2⟩, .constant 2 (.int 3 .hex))] :=
    .link (accepts_literal rfl rfl _) rfl two
  obtain ⟨accepted, unique⟩ := accepts_chain_iff .undefined _ [] _ _ _ rfl one
  have ordered : (node ⟨.minus, "-", 1⟩ (leaf (.constant 1 (.int 1 .dec)))
      (node ⟨.star, "*", 2⟩ (leaf (.constant 1 (.int 2 .dec)))
        (leaf (.constant 2 (.int 3 .hex))))).Ordered :=
    ⟨trivial, ⟨trivial, trivial, trivial, trivial⟩, trivial, Nat.le_refl 7⟩
  rw [← (unique _).mp ⟨ordered, rfl⟩] at accepted
  exact accepted

end Parser

end Calculator
