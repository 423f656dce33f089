import Calculator.Proofs.Tree.Soundness.Statements

set_option autoImplicit false

namespace Calculator

open Grammar

namespace Grammar

theorem ended_of_last {last : Token} {body : List Token} (isEof : last.kind = .eof)
    (inside : ∀ t ∈ body, t.kind ≠ .eof) : Ended (body ++ [last]) := by
  induction body with
  | nil => rw [List.nil_append, Ended, if_pos isEof]
  | cons t body ih =>
    rw [List.cons_append, Ended, if_neg (inside t List.mem_cons_self)]
    exact ih fun u mem => inside u (List.mem_cons_of_mem t mem)

theorem StatementsOf.ofTokens_eq {m m' : NumericMode} {ts : List Token} {trees : List Tree}
    {last : Token} {line : Position} (h : StatementsOf true m ts trees m')
    (isEof : last.kind = .eof) (first : (ts ++ [last]).head?.map Token.line = some line) :
    Tree.ofTokens (ts ++ [last]) m = .ok (.body line trees) := by
  have start : ParserState.At ⟨.ofTokens (ts ++ [last]), m, 0⟩ m (ts ++ [last]) := ⟨rfl, rfl⟩
  have enough : 4 * ts.length + 4 ≤ Parser.fuelFor (.ofTokens (ts ++ [last])) := by
    change _ ≤ 8 * (0 + (ts ++ [last]).length + 2)
    rw [List.length_append]
    omega
  have reads := h.reads _ line [] last [] enough isEof
  obtain ⟨next, after, split, follows⟩ := h.clause.follows isEof []
  obtain rfl := line_of_first split first
  have program : Parser.Reads (Parser.program (Parser.fuelFor (.ofTokens (ts ++ [last])))) m
      (ts ++ [last]) (.body next.line trees) m' [last] := by
    rw [split] at reads ⊢
    exact (Parser.reads_peek follows.notError).bind reads
  obtain ⟨s, run, -⟩ := program _ start
  unfold Tree.ofTokens Tree.ofStream Parser.run
  rw [run]

theorem IsProgram.accepted {m : NumericMode} {ts : List Token} (h : IsProgram m ts) :
    ∃ tree, Tree.ofTokens ts m = .ok tree := by
  cases h with
  | @intro m' last ts statements isEof =>
    obtain ⟨trees, found⟩ := statements.read
    obtain ⟨next, after, split, -⟩ := statements.follows isEof []
    exact ⟨_, found.ofTokens_eq isEof (by rw [split]; rfl)⟩

theorem isProgram_of_accepted {m : NumericMode} {ts : List Token} {tree : Tree} (ended : Ended ts)
    (h : Tree.ofTokens ts m = .ok tree) : IsProgram m ts := by
  have start : ParserState.At ⟨.ofTokens ts, m, 0⟩ m ts := ⟨rfl, rfl⟩
  have ensured : Parser.Ensures (Parser.program (Parser.fuelFor (.ofTokens ts))) m ts
      fun _ m' rest => FoundStatements true m ts m' rest := by
    obtain ⟨t, us, rfl⟩ := ended.cases
    exact .peek fun _ => (sound_clauses _).statements true t.line [] m _ ended
  unfold Tree.ofTokens Tree.ofStream Parser.run at h
  cases run : Parser.program (Parser.fuelFor (.ofTokens ts)) ⟨.ofTokens ts, m, 0⟩ with
  | error e s =>
    rw [run] at h
    cases h
  | ok tree s =>
    obtain ⟨m', rest, -, found⟩ := ensured _ _ _ start run
    obtain ⟨last, us, rfl, isEof⟩ := found.closes
    obtain ⟨body, rfl, is⟩ := found.taken
    obtain rfl := found.ended.eq_nil isEof
    exact .intro is isEof

end Grammar

namespace Tree

/-- Tokens up to the end of the input make up a program just if they are one by the grammar, from
any mode on. -/
theorem ofTokens_isOk_iff (mode : NumericMode) (body : List Token) (last : Token)
    (isEof : last.kind = .eof) (inside : ∀ t ∈ body, t.kind ≠ .eof) :
    (∃ tree, ofTokens (body ++ [last]) mode = .ok tree) ↔ IsProgram mode (body ++ [last]) := by
  constructor
  · rintro ⟨tree, accepted⟩
    exact isProgram_of_accepted (ended_of_last isEof inside) accepted
  · exact IsProgram.accepted

/-- A real number that has a value only behind the setting, and a last display sign alone. -/
theorem ofTokens_isOk_setting :
    ∃ tree, ofTokens
      ([⟨.at, "@", 1⟩, ⟨.colon, ":", 1⟩, ⟨.symbol, "f", 1⟩, ⟨.real, "1.5", 2⟩,
        ⟨.semicolon, ";", 2⟩, ⟨.at, "@", 3⟩] ++ [⟨.eof, "", 3⟩]) .undefined = .ok tree := by
  have setting : IsSetting .undefined [⟨.at, "@", 1⟩, ⟨.colon, ":", 1⟩, ⟨.symbol, "f", 1⟩] .float :=
    .intro rfl rfl rfl rfl
  have number : IsSimple .float [⟨.real, "1.5", 2⟩] :=
    .expression (.plain (.single (.literal rfl rfl)))
  have program : IsProgram .undefined
      (([⟨.at, "@", 1⟩, ⟨.colon, ":", 1⟩, ⟨.symbol, "f", 1⟩] ++ ([⟨.real, "1.5", 2⟩] ++
        [⟨.semicolon, ";", 2⟩] ++ [⟨.at, "@", 3⟩])) ++ [⟨.eof, "", 3⟩]) :=
    .intro (.cons (.openSetting setting) (.cons (.simple number rfl) (.unclosed (.last rfl)))) rfl
  exact (ofTokens_isOk_iff .undefined _ _ rfl (by decide)).mpr program

end Tree

end Calculator
