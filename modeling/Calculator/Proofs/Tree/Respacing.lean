import Calculator.Proofs.Token.Respacing
import Calculator.Proofs.Tree.Joining
import Calculator.Proofs.Tree.Lines

set_option autoImplicit false

namespace Calculator

def bareAnswer : Except SyntaxError Tree → Except SyntaxError Tree
  | .ok t => .ok t.bare
  | .error e => .error ⟨0, e.cause⟩

namespace Tree

section
variable {mode : NumericMode} {ts ts' : List Token}

theorem ofTokens_map_bare (nonempty : ts ≠ []) :
    ofTokens (ts.map Token.bare) mode = bareAnswer (ofTokens ts mode) := by
  have moved := ofTokens_mapLine (fun _ => 0) mode nonempty
  cases read : ofTokens ts mode with
  | ok t =>
    rw [read] at moved
    exact moved.trans (congrArg Except.ok t.mapLines_zero)
  | error e =>
    rw [read] at moved
    exact moved

theorem bareAnswer_ofTokens (same : ts.map Token.bare = ts'.map Token.bare) :
    bareAnswer (ofTokens ts mode) = bareAnswer (ofTokens ts' mode) := by
  rcases ts.eq_nil_or_concat with rfl | ⟨_, _, rfl⟩
  · rw [List.map_eq_nil_iff.mp same.symm]
  · have nonempty : ts' ≠ [] := by
      rintro rfl
      simp at same
    rw [← ofTokens_map_bare (by simp), same, ofTokens_map_bare nonempty]

end

/-- What stands between the tokens of a program is of no account: with other blanks and comments
around each token, the same tokens are scanned, and in every mode the parser answers them with the
same tree or the same error, but for the lines. -/
theorem parse_respaced {source respaced : Utf8.Source} {text : String}
    (clean : ∀ t ∈ (Lexer.ofSource source).tokens, t.kind ≠ .error)
    (spaced : Lexer.Respaced (Lexer.ofSource source).tokens.dropLast text.toList)
    (isText : respaced.IsText text) :
    (Lexer.ofSource respaced).spellings = (Lexer.ofSource source).spellings ∧
      ∀ mode, bareAnswer (parse respaced mode) = bareAnswer (parse source mode) := by
  have spellings := Lexer.Respaced.spellings_eq clean spaced isText
  refine ⟨spellings, fun mode => bareAnswer_ofTokens ?_⟩
  rw [bare_tokens_eq, bare_tokens_eq, spellings]

/-- A number without its digits, a number with a quote and a date. -/
theorem parse_respaced_numbers :
    let source : Utf8.Source := .ofString "0x#c\n1'0+$1"
    let respaced : Utf8.Source := .ofString " 0x\t10#\n\n+\r$1#'\n"
    (Lexer.ofSource respaced).spellings = (Lexer.ofSource source).spellings ∧
      ∀ mode, bareAnswer (parse respaced mode) = bareAnswer (parse source mode) := by
  intro source respaced
  have clean : ∀ t ∈ (Lexer.ofSource source).tokens, t.kind ≠ .error := by decide +kernel
  have tokens : (Lexer.ofSource source).tokens.dropLast =
      [⟨.hex, "0x", 1⟩, ⟨.int, "10", 2⟩, ⟨.plus, "+", 2⟩, ⟨.date, "1", 2⟩] := by
    decide +kernel
  refine parse_respaced clean ?_ (.ofString " 0x\t10#\n\n+\r$1#'\n")
  rw [tokens]
  exact .cons (.blank rfl .nil) nofun <| .cons (.blank rfl .nil) nofun <|
    .cons (.comment [] nofun (.blank rfl .nil)) nofun <| .cons (.blank rfl .nil) nofun <|
      .nil (.comment ['\''] (by decide) .nil) nofun

end Tree

end Calculator
