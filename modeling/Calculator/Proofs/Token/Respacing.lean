import Calculator.Proofs.Token.Ending

set_option autoImplicit false

namespace Calculator

namespace Words

open Lexer (unquoted_append unquoted_eq_self)

def Unquotes (l : Language Char) : Prop :=
  ∀ w ∈ l, unquoted w ∈ l

section
variable {accept : Char → Bool} {l m : Language Char}

theorem unquotes_of_avoids (avoids : Avoids '\'' l) : Unquotes l := by
  intro w mem
  have same : unquoted w = w := List.filter_eq_self.mpr fun c inside =>
    bne_iff_ne.mpr (ne_of_mem_of_not_mem inside (avoids w mem))
  rwa [same]

theorem unquotes_one (h : accept '\'' = false) : Unquotes (one accept) :=
  unquotes_of_avoids (avoids_one h)

theorem unquotes_many : Unquotes (many accept) := by
  intro w mem
  exact mem_many.mpr fun c inside => mem_many.mp mem c (List.mem_filter.mp inside).1

theorem unquotes_nil : Unquotes 1 :=
  unquotes_of_avoids avoids_nil

theorem Unquotes.add (hl : Unquotes l) (hm : Unquotes m) : Unquotes (l + m) := by
  intro w mem
  rcases (Language.mem_add l m w).mp mem with left | right
  · exact (Language.mem_add l m _).mpr (.inl (hl w left))
  · exact (Language.mem_add l m _).mpr (.inr (hm w right))

theorem Unquotes.mul (hl : Unquotes l) (hm : Unquotes m) : Unquotes (l * m) := by
  intro w mem
  obtain ⟨u, hu, v, hv, rfl⟩ := Language.mem_mul.mp mem
  rw [unquoted_append]
  exact Language.append_mem_mul (hl u hu) (hm v hv)

theorem unquotes_natural : Unquotes natural :=
  (unquotes_one rfl).add ((unquotes_one rfl).mul unquotes_many)

theorem unquotes_exponent : Unquotes exponent :=
  ((unquotes_one rfl).mul (unquotes_nil.add (unquotes_one rfl))).mul unquotes_many

theorem unquotes_real : Unquotes real :=
  ((((unquotes_nil.add unquotes_natural).mul (unquotes_one rfl)).mul unquotes_many).mul
    (unquotes_nil.add unquotes_exponent)).add
      (((unquotes_one rfl).mul unquotes_many).mul unquotes_exponent)

end

theorem unquotes (kind : Kind) : Unquotes kind.words := by
  cases kind with
  | int => exact unquotes_natural
  | real => exact unquotes_real
  | time => exact (unquotes_natural.mul (unquotes_one rfl)).mul unquotes_many
  | date => exact (unquotes_one rfl).mul unquotes_many
  | _ => exact unquotes_of_avoids (avoids_quote (by decide))

end Words

/-- The token as it is written: a date has its sign. -/
def Token.spelling (t : Token) : List Char :=
  if t.kind = .date then '$' :: t.text.toList else t.text.toList

namespace Lexer

theorem spelling_of_mem_words {t : Token} {word : List Char} (mem : word ∈ t.kind.words)
    (text : t.text = String.ofList (t.kind.textOf word)) :
    t.spelling ∈ t.kind.words ∧ t.kind.textOf t.spelling = t.text.toList := by
  have again (w : List Char) : unquoted (unquoted w) = unquoted w := by
    simp only [unquoted, List.filter_filter, Bool.and_self]
  have written : t.spelling = unquoted word := by
    rw [Token.spelling, text, String.toList_ofList, Kind.textOf]
    split_ifs with isDate
    · rw [isDate] at mem
      obtain ⟨digits, -, rfl⟩ := Words.mem_date.mp mem
      exact (unquoted_cons (by decide) digits).symm
    · rfl
  refine ⟨written ▸ Words.unquotes t.kind word mem, ?_⟩
  rw [written, text, String.toList_ofList, Kind.textOf, Kind.textOf]
  split_ifs with isDate
  · rw [isDate] at mem
    obtain ⟨digits, -, rfl⟩ := Words.mem_date.mp mem
    rw [unquoted_cons (by decide)]
    exact again digits
  · exact again word

/-- Blanks and comments, each comment closed by the end of its line. -/
inductive Gap : List Char → Prop where
  | nil : Gap []
  | blank {c : Char} {rest : List Char} (isBlank : isBlank c = true) (more : Gap rest) :
      Gap (c :: rest)
  | comment (body : List Char) {rest : List Char} (inside : '\n' ∉ body) (more : Gap rest) :
      Gap ('#' :: (body ++ '\n' :: rest))

/-- The tokens are written one behind another, with blanks or comments in front of each and behind
the last one. -/
inductive Respaced : List Token → List Char → Prop where
  | nil {gap : List Char} (isGap : Gap gap) (nonempty : gap ≠ []) : Respaced [] gap
  | cons {t : Token} {ts : List Token} {gap rest : List Char} (isGap : Gap gap)
      (nonempty : gap ≠ []) (more : Respaced ts rest) :
      Respaced (t :: ts) (gap ++ (t.spelling ++ rest))

section
variable {gap rest text : List Char} {glued : Bool} {out : List (Kind × String)} {ts : List Token}

theorem Gap.scans (h : Gap gap) (behind : Scans false rest out)
    (apart : gap = [] → glued = false) : Scans glued (gap ++ rest) out := by
  induction h generalizing glued with
  | nil =>
    rw [apart rfl]
    exact behind
  | blank isBlank more ih => exact .blank isBlank (ih fun _ => rfl)
  | @comment body gap inside more ih =>
    refine .comment ?_
    have skipped : (body ++ '\n' :: gap ++ rest).dropWhile (· != '\n') =
        '\n' :: (gap ++ rest) := by
      rw [List.append_assoc, List.cons_append, List.dropWhile_append_of_pos]
      · rfl
      · exact fun c mem => bne_iff_ne.mpr (ne_of_mem_of_not_mem mem inside)
    change Scans false ((body ++ '\n' :: gap ++ rest).dropWhile (· != '\n')) out
    rw [skipped]
    exact .blank rfl (ih fun _ => rfl)

theorem Gap.exists_avoided (h : Gap gap) (nonempty : gap ≠ []) :
    ∃ c more, gap = c :: more ∧ ∀ kind : Kind, Words.Avoids c kind.words := by
  cases h with
  | nil => exact absurd rfl nonempty
  | blank isBlank => exact ⟨_, _, rfl, Words.avoids_blank isBlank⟩
  | comment => exact ⟨_, _, rfl, fun _ => Words.avoids_outside (by decide) fun _ => by decide⟩

theorem Respaced.exists_avoided (h : Respaced ts text) :
    ∃ c more, text = c :: more ∧ ∀ kind : Kind, Words.Avoids c kind.words := by
  cases h with
  | nil isGap nonempty => exact isGap.exists_avoided nonempty
  | cons isGap nonempty =>
    obtain ⟨c, more, rfl, avoids⟩ := isGap.exists_avoided nonempty
    exact ⟨c, _, rfl, avoids⟩

theorem Respaced.scans (h : Respaced ts text)
    (words : ∀ t ∈ ts, t.spelling ∈ t.kind.words ∧ t.kind.textOf t.spelling = t.text.toList)
    (glued : Bool) :
    Scans glued text ((ts.map fun t => (t.kind, t.text)) ++ [(.eof, "")]) := by
  induction h generalizing glued with
  | @nil gap isGap nonempty =>
    have scans : Scans glued (gap ++ []) [(.eof, "")] :=
      isGap.scans .finish fun none => absurd none nonempty
    rwa [List.append_nil] at scans
  | @cons t ts gap rest isGap nonempty more ih =>
    obtain ⟨⟨mem, whole⟩, inside⟩ := List.forall_mem_cons.mp words
    refine isGap.scans ?_ fun none => absurd none nonempty
    obtain ⟨c, after, rfl, avoids⟩ := more.exists_avoided
    have longest := (longest_self mem).append_of_avoids avoids after
    obtain ⟨first, l, -, split, -⟩ := lexeme?_covers (c :: after) mem
    have token : String.ofList (t.kind.textOf t.spelling) = t.text := by
      rw [whole, String.ofList_toList]
    rw [List.nil_append, split] at longest
    rw [split, List.map_cons, List.cons_append, ← token]
    exact .token longest rfl (ih inside t.kind.isWord)

end

/-- The tokens of a source without an error are those of every text that has them with other blanks
and comments between them, but for their lines. -/
theorem Respaced.spellings_eq {source respaced : Utf8.Source} {text : String}
    (clean : ∀ t ∈ (ofSource source).tokens, t.kind ≠ .error)
    (h : Respaced (ofSource source).tokens.dropLast text.toList)
    (isText : respaced.IsText text) :
    (ofSource respaced).spellings = (ofSource source).spellings := by
  obtain ⟨ts, error, line, ends, -⟩ := exists_endsIn (ofSource source)
  obtain rfl : error = none := by
    cases error with
    | none => rfl
    | some e => exact absurd (ends.isError e rfl) (clean e (by rw [ends.tokens]; simp))
  have tokens := ends.tokens
  rw [Option.toList_none, List.append_nil] at tokens
  rw [tokens, List.dropLast_concat] at h
  have words : ∀ t ∈ ts, t.spelling ∈ t.kind.words ∧ t.kind.textOf t.spelling = t.text.toList := by
    intro t mem
    have inside : t ∈ (ofSource source).tokens := by
      rw [tokens]
      exact List.mem_append_left _ mem
    obtain ⟨notError, notEof⟩ := ends.isWord t mem
    rcases spelled_of_mem_tokens inside with isError | isEof | ⟨word, isWord, text⟩
    · exact absurd isError notError
    · exact absurd isEof notEof
    · exact spelling_of_mem_words isWord text
  have scans := (h.scans words false).spellings_eq 1
  rw [ofSource_of_text isText, scans, spellings, tokens, List.map_append]
  rfl

end Lexer

end Calculator
