import Calculator.Proofs.Text.Pieces
import Calculator.Proofs.Token.Placing

set_option autoImplicit false

namespace Calculator.Lexer

def behind : Nat → Lexer → Lexer
  | 0, l => l
  | n + 1, l => behind n l.next.2

/-- The lexer gives these words, then the error if there is one, and then ends of the input on one
line for ever. -/
structure EndsIn (l : Lexer) (words : List Token) (error : Option Token) (line : Position) :
    Prop where
  isWord : ∀ t ∈ words, t.kind ≠ .error ∧ t.kind ≠ .eof
  isError : ∀ e ∈ error, e.kind = .error
  nth : ∀ n, (behind n l).next.1 = (words ++ error.toList).getD n (.eof line)
  tokens : l.tokens = words ++ error.toList ++ [.eof line]

/-- What a lexer gives: the end of the input, an error, behind which there is only the end, or a
word. The reason why no more can be read stays until it is given. -/
inductive Gives (l : Lexer) : Token × Lexer → Prop where
  | eof (line : Position) (clean : l.failure = none) : Gives l (.eof line, ended line)
  | error (message : String) (line : Position) : Gives l (stop message line)
  | word {t : Token} {l' : Lexer} (notError : t.kind ≠ .error) (notEof : t.kind ≠ .eof)
      (failure : l'.failure = l.failure) : Gives l (t, l')

theorem gives_next (l : Lexer) : Gives l l.next := by
  obtain ⟨_, _, line, -, -, ⟨clean, same⟩ | ⟨message, same⟩ | ⟨_, _, _, _, -, found, same⟩⟩ :=
    next_cases l
  all_goals rw [same]
  · exact .eof line clean
  · exact .error message line
  · obtain ⟨word, longest, -⟩ := longest_of_lexeme? found
    obtain ⟨notError, notEof⟩ := kind_ne_of_mem_words longest.mem
    exact .word notError notEof rfl

/-- Unless the token is an error or the end of the input, it has a word of its kind. -/
def Spelled (t : Token) : Prop :=
  t.kind = .error ∨ t.kind = .eof ∨
    ∃ word ∈ t.kind.words, t.text = String.ofList (t.kind.textOf word)

theorem spelled_next (l : Lexer) : Spelled l.next.1 := by
  obtain ⟨_, _, _, -, -, ⟨-, same⟩ | ⟨_, same⟩ | ⟨_, _, _, _, -, found, same⟩⟩ := next_cases l
  all_goals rw [same]
  · exact .inr (.inl rfl)
  · exact .inl rfl
  · obtain ⟨word, longest, text⟩ := longest_of_lexeme? found
    exact .inr (.inr ⟨word, longest.mem, congrArg String.ofList text⟩)

theorem behind_ended (n : Nat) (line : Position) : behind n (ended line) = ended line := by
  induction n with
  | zero => rfl
  | succ n ih => exact ih

section
variable {l : Lexer} {words : List Token} {error : Option Token} {line : Position}

theorem EndsIn.eof (h : l.next = (.eof line, ended line)) : EndsIn l [] none line := by
  refine ⟨by simp, by simp, fun n => ?_, by rw [tokens_eq, h]; rfl⟩
  cases n with
  | zero => rw [behind, h]; rfl
  | succ n => rw [behind, h, behind_ended]; rfl

theorem EndsIn.stop {message : String} (h : l.next = Lexer.stop message line) :
    EndsIn l [] (some (.error message line)) line := by
  refine ⟨by simp, fun e mem => ?_, fun n => ?_, by rw [tokens_eq, h]; rfl⟩
  · obtain rfl := Option.mem_some.mp mem
    rfl
  cases n with
  | zero => rw [behind, h]; rfl
  | succ n => rw [behind, h, Lexer.stop, behind_ended]; rfl

theorem EndsIn.word {t : Token} {l' : Lexer} (h : l.next = (t, l')) (notError : t.kind ≠ .error)
    (notEof : t.kind ≠ .eof) (more : EndsIn l' words error line) :
    EndsIn l (t :: words) error line := by
  refine ⟨fun u mem => ?_, more.isError, fun n => ?_, ?_⟩
  · rcases List.mem_cons.mp mem with rfl | mem
    · exact ⟨notError, notEof⟩
    · exact more.isWord u mem
  · cases n with
    | zero => rw [behind, h]; rfl
    | succ n => rw [behind, h]; exact more.nth n
  · rw [tokens_eq, h]
    dsimp only
    rw [if_neg notEof, more.tokens]
    rfl

theorem exists_endsIn (l : Lexer) :
    ∃ words error line, EndsIn l words error line ∧ (error = none → l.failure = none) := by
  induction size : l.budget using Nat.strong_induction_on generalizing l with
  | _ n ih =>
    have gives := gives_next l
    have less := next_budget_lt l
    generalize next : l.next = out at gives less
    cases gives with
    | eof line clean => exact ⟨[], none, line, .eof next, fun _ => clean⟩
    | error message line => exact ⟨[], some _, line, .stop next, nofun⟩
    | @word t l' notError notEof failure =>
      obtain ⟨words, error, line, more, kept⟩ := ih _ (size ▸ less notEof) l' rfl
      exact ⟨t :: words, error, line, more.word next notError notEof, fun h => failure ▸ kept h⟩

end

theorem spelled_of_mem_tokensFrom {fuel : Nat} {l : Lexer} {t : Token}
    (mem : t ∈ tokensFrom fuel l) : Spelled t := by
  induction fuel generalizing l with
  | zero => cases mem
  | succ fuel ih =>
    rw [tokensFrom] at mem
    dsimp only at mem
    split at mem
    · rw [List.mem_singleton.mp mem]
      exact spelled_next l
    · rcases List.mem_cons.mp mem with rfl | mem
      · exact spelled_next l
      · exact ih mem

theorem spelled_of_mem_tokens {l : Lexer} {t : Token} (mem : t ∈ l.tokens) : Spelled t :=
  spelled_of_mem_tokensFrom mem

theorem exists_isText_of_failure {source : Utf8.Source} (clean : (ofSource source).failure = none) :
    ∃ text, source.IsText text := by
  obtain ⟨text, isText, -⟩ := Utf8.Source.exists_isText clean
  exact ⟨text, isText⟩

end Calculator.Lexer
