import Calculator.Proofs.Token.Spacing

set_option autoImplicit false

namespace Calculator.Lexer

/-- The text without its comments. The flag tells whether it starts inside of one. -/
def uncommented : Bool → List Char → List Char
  | _, [] => []
  | inside, c :: rest =>
    if c = '\n' then c :: uncommented false rest
    else if inside || c = '#' then uncommented true rest
    else c :: uncommented false rest

/-- The line behind a text that starts on the first one. -/
def lineBehind (text : List Char) : Position :=
  .ofNat (1 + text.count '\n')

theorem lineBehind_append (front text : List Char) :
    lineBehind (front ++ text) = lineBehind front + .ofNat (text.count '\n') := by
  rw [lineBehind, List.count_append, ← Nat.add_assoc, UInt32.ofNat_add, lineBehind]

theorem toNat_lineBehind {text : List Char} (fits : text.count '\n' + 1 < 2 ^ 32) :
    (lineBehind text).toNat = 1 + text.count '\n' := by
  rw [lineBehind, UInt32.toNat_ofNat', Nat.mod_eq_of_lt (by omega)]

def isKept (c : Char) : Bool :=
  !isBlank c && c != '\'' && c != '$'

def kept (text : List Char) : List Char :=
  (uncommented false text).filter isKept

/-- The tokens stand in the text one behind another, with blanks and whole comments between them,
each on the line of the first character of its word. -/
inductive Placed : List Char → List Token → Prop where
  | nil : Placed [] []
  | blank {front : List Char} {ts : List Token} {c : Char} (before : Placed front ts)
      (isBlank : isBlank c = true) : Placed (front ++ [c]) ts
  | comment {front body : List Char} {ts : List Token} (before : Placed front ts)
      (inside : '\n' ∉ body) : Placed (front ++ ('#' :: body ++ ['\n'])) ts
  | word {front word : List Char} {ts : List Token} {t : Token} (before : Placed front ts)
      (mem : word ∈ t.kind.words) (text : t.text = String.ofList (t.kind.textOf word))
      (line : t.line = lineBehind front) : Placed (front ++ word) (ts ++ [t])

/-- The tokens stand in the text up to its end or to a character that is reported. A comment at the
end of the input may lack the end of its line. -/
def Fills (text reported : List Char) (ts : List Token) : Prop :=
  Placed text ts ∨
    reported = [] ∧ ∃ front body, Placed front ts ∧ '\n' ∉ body ∧ text = front ++ '#' :: body

/-- What stands behind all words: the report of a character that can not be taken, if there is one,
and the end, both on the line that was come to. -/
def ending (text reported : List Char) : List Token :=
  let line := lineBehind text
  match reported with
  | [] => [.eof line]
  | c :: _ =>
    [.error ("unexpected character '" ++ Escape.escape c ++ "'") line, .eof line]

section
variable {c : Char} {front body word rest : List Char} {kind : Kind} {ts : List Token}

theorem uncommented_inside (inside : '\n' ∉ body) (rest : List Char) :
    uncommented true (body ++ rest) = uncommented true rest := by
  induction body with
  | nil => rfl
  | cons c body ih =>
    simp only [List.mem_cons, not_or] at inside
    simp [uncommented, Ne.symm inside.1, ih inside.2]

theorem uncommented_word (outside : '#' ∉ word) (rest : List Char) :
    uncommented false (word ++ rest) = word ++ uncommented false rest := by
  induction word with
  | nil => rfl
  | cons c word ih =>
    simp only [List.mem_cons, not_or] at outside
    simp [uncommented, Ne.symm outside.1, ih outside.2]

theorem kept_word (outside : '#' ∉ word) (rest : List Char) :
    kept (word ++ rest) = word.filter isKept ++ kept rest := by
  rw [kept, uncommented_word outside, List.filter_append, kept]

theorem kept_comment (inside : '\n' ∉ body) : kept ('#' :: body ++ '\n' :: rest) = kept rest := by
  have skipped := uncommented_inside inside ('\n' :: rest)
  simp [kept, uncommented, skipped, isKept, isBlank]

theorem kept_unclosed (inside : '\n' ∉ body) : kept ('#' :: body) = [] := by
  have skipped := uncommented_inside inside []
  rw [List.append_nil] at skipped
  simp [kept, uncommented, skipped]

theorem filter_isKept (plain : ∀ c ∈ word, isBlank c = false ∧ c ≠ '$') :
    word.filter isKept = unquoted word :=
  List.filter_congr fun c mem => by simp [isKept, plain c mem]

theorem textOf_eq_filter (mem : word ∈ kind.words) : word.filter isKept = kind.textOf word := by
  have noBlank (c : Char) (inside : c ∈ word) : isBlank c = false :=
    Bool.eq_false_iff.mpr fun blank => Words.avoids_blank blank kind word mem inside
  by_cases isDate : kind = .date
  · subst isDate
    obtain ⟨digits, all, rfl⟩ := Words.mem_date.mp mem
    change digits.filter isKept = unquoted digits
    refine filter_isKept fun c inside => ⟨noBlank c (List.mem_cons_of_mem _ inside), ?_⟩
    rintro rfl
    exact absurd (all _ inside) (by decide)
  · have noSign : '$' ∉ word :=
      Words.avoids_outside (by decide) (fun date => absurd date isDate) word mem
    rw [Kind.textOf, if_neg isDate]
    exact filter_isKept fun c inside => ⟨noBlank c inside, ne_of_mem_of_not_mem inside noSign⟩

theorem no_comment_of_mem_words (mem : word ∈ kind.words) : '#' ∉ word :=
  Words.avoids_outside (by decide) (fun _ => by decide) word mem

theorem no_newline_of_mem_words (mem : word ∈ kind.words) : '\n' ∉ word :=
  Words.avoids_blank rfl kind word mem

theorem kind_ne_of_mem_words (mem : word ∈ kind.words) : kind ≠ .error ∧ kind ≠ .eof := by
  constructor <;> rintro rfl <;> cases mem

theorem Placed.kept_eq (h : Placed front ts) (rest : List Char) :
    kept (front ++ rest) = ts.flatMap (fun t => t.text.toList) ++ kept rest := by
  induction h generalizing rest with
  | nil => rfl
  | @blank front ts c before isBlank ih =>
    have skipped : kept (c :: rest) = kept rest := by
      have notComment : c ≠ '#' := by
        rintro rfl
        cases isBlank
      simp [kept, uncommented, notComment, isKept, isBlank]
    rw [List.append_assoc, ih, List.singleton_append, skipped]
  | comment before inside ih =>
    rw [List.append_assoc, ih, List.append_assoc, List.singleton_append, kept_comment inside]
  | word before mem text line ih =>
    rw [List.append_assoc, ih, kept_word (no_comment_of_mem_words mem), textOf_eq_filter mem]
    simp [text]

theorem Fills.kept_eq {text reported : List Char} (h : Fills text reported ts) :
    kept text = ts.flatMap fun t => t.text.toList := by
  rcases h with placed | ⟨-, front, body, placed, inside, rfl⟩
  · simpa [kept, uncommented] using placed.kept_eq []
  · rw [placed.kept_eq, kept_unclosed inside, List.append_nil]

theorem Placed.words (h : Placed front ts) : ∀ t ∈ ts, t.kind ≠ .error ∧ t.kind ≠ .eof := by
  induction h with
  | nil => simp
  | blank _ _ ih | comment _ _ ih => exact ih
  | word _ mem _ _ ih =>
    exact List.forall_mem_append.mpr ⟨ih, List.forall_mem_singleton.mpr (kind_ne_of_mem_words mem)⟩

theorem Fills.words {text reported : List Char} (h : Fills text reported ts) :
    ∀ t ∈ ts, t.kind ≠ .error ∧ t.kind ≠ .eof := by
  rcases h with placed | ⟨-, front, body, placed, -, rfl⟩ <;> exact placed.words

section
variable {line : Position} {glued : Bool}

theorem tokens_eq_of_next_eq {l l' : Lexer} (h : l.next = l'.next) : l.tokens = l'.tokens := by
  rw [tokens_eq l, tokens_eq l', h]

theorem tokens_blank (blank : isBlank c = true) :
    (reading (c :: rest) line glued).tokens =
      (reading rest (line + .ofNat ([c].count '\n')) false).tokens := by
  have count (k : Char) (other : k ≠ '\n') : line + .ofNat ([k].count '\n') = line := by
    simp [other]
  simp only [isBlank, Bool.or_eq_true, beq_iff_eq, or_assoc] at blank
  refine tokens_eq_of_next_eq (next_of_skipBlanks_eq ?_ rfl)
  rcases blank with rfl | rfl | rfl | rfl
  · rw [count ' ' (by decide)]
    rfl
  · rw [count '\t' (by decide)]
    rfl
  · rw [count '\r' (by decide)]
    rfl
  · rfl

theorem tokens_comment (inside : '\n' ∉ body) (ends : rest.dropWhile (· != '\n') = rest) :
    (reading ('#' :: body ++ rest) line glued).tokens = (reading rest line false).tokens := by
  have skipped : (body ++ rest).dropWhile (· != '\n') = rest := by
    rw [List.dropWhile_append_of_pos, ends]
    exact fun c mem => bne_iff_ne.mpr (ne_of_mem_of_not_mem mem inside)
  refine tokens_eq_of_next_eq (next_of_skipBlanks_eq ?_ rfl)
  change skipBlanks true false line (body ++ rest) = skipBlanks false false line rest
  rw [skipBlanks_comment, skipped, Bool.false_and]

theorem tokens_unclosed (inside : '\n' ∉ body) :
    (reading ('#' :: body) line glued).tokens = [.eof line] := by
  have skipped : (reading ('#' :: body ++ []) line glued).tokens = [.eof line] :=
    tokens_comment inside rfl
  rwa [List.append_nil] at skipped

theorem tokens_refused (refused : (reading (c :: rest) line glued).next = unexpected c line) :
    (reading (c :: rest) line glued).tokens =
      [.error ("unexpected character '" ++ Escape.escape c ++ "'") line, .eof line] := by
  rw [tokens_eq, refused]
  rfl

theorem tokens_of_lexeme? {lexeme : Lexeme} (found : lexeme? c rest = some lexeme)
    (apart : (glued && startsWord c) = false) :
    (reading (c :: rest) line glued).tokens =
      ⟨lexeme.kind, String.ofList lexeme.text, line⟩ ::
        (reading lexeme.rest line (startsWord c)).tokens := by
  obtain ⟨notBlank, notComment⟩ := not_skipped_of_lexeme? found
  obtain ⟨word, longest, -⟩ := longest_of_lexeme? found
  rw [tokens_eq, next_of_lexeme? notBlank notComment found apart]
  dsimp only
  rw [if_neg (kind_ne_of_mem_words longest.mem).2]

end

def GoesOn (front rest : List Char) (ts found : List Token) : Prop :=
  ∃ text reported us, front ++ rest = text ++ reported ∧ Fills text reported (ts ++ us) ∧
    found = us ++ ending text reported

theorem GoesOn.skip {skipped : List Char} {found : List Token}
    (h : GoesOn (front ++ skipped) rest ts found) : GoesOn front (skipped ++ rest) ts found := by
  rwa [GoesOn, List.append_assoc] at h

theorem GoesOn.take {t : Token} {found : List Token}
    (h : GoesOn (front ++ word) rest (ts ++ [t]) found) :
    GoesOn front (word ++ rest) ts (t :: found) := by
  obtain ⟨text, reported, us, split, fills, rfl⟩ := h
  rw [List.append_assoc] at split fills
  exact ⟨text, reported, t :: us, split, fills, rfl⟩

theorem GoesOn.finish (placed : Placed front ts) :
    GoesOn front rest ts (ending front rest) :=
  ⟨front, rest, [], rfl, .inl (by rwa [List.append_nil]), rfl⟩

theorem GoesOn.unclosed (placed : Placed front ts) (inside : '\n' ∉ body) :
    GoesOn front ('#' :: body) ts [.eof (lineBehind front)] := by
  refine ⟨front ++ '#' :: body, [], [], (List.append_nil _).symm, .inr ?_, ?_⟩
  · exact ⟨rfl, front, body, by rwa [List.append_nil], inside, rfl⟩
  · simp [ending, lineBehind, List.count_eq_zero.mpr inside]

theorem Placed.goesOn (placed : Placed front ts) (rest : List Char) (glued : Bool) :
    GoesOn front rest ts (reading rest (lineBehind front) glued).tokens := by
  induction size : rest.length using Nat.strong_induction_on
    generalizing front rest ts glued with
  | _ n ih =>
    cases rest with
    | nil => exact .finish placed
    | cons c l =>
      rw [List.length_cons] at size
      by_cases blank : isBlank c = true
      · rw [tokens_blank blank, ← lineBehind_append]
        change GoesOn front ([c] ++ l) ts _
        exact (ih _ (by omega) (placed.blank blank) l false rfl).skip
      -- A comment is blank up to its newline, and the last one may have none.
      by_cases comment : c = '#'
      · subst comment
        by_cases closed : '\n' ∈ l
        · obtain ⟨body, rest, rfl, inside⟩ := List.eq_append_cons_of_mem closed
          have newline : lineBehind (front ++ ('#' :: body ++ ['\n'])) =
              lineBehind front + .ofNat (['\n'].count '\n') := by
            simp [lineBehind_append, List.count_eq_zero.mpr inside]
          have shorter : rest.length < n := by
            simp only [List.length_append, List.length_cons] at size
            omega
          have found := ih rest.length shorter (placed.comment inside) rest false rfl
          rw [newline] at found
          rw [← List.cons_append, tokens_comment inside rfl, tokens_blank rfl]
          simpa using found.skip
        · rw [tokens_unclosed closed]
          exact .unclosed placed closed
      -- Neither a blank nor a comment, so a word is cut off here or the tokens end with an error.
      have notBlank : isBlank c = false := Bool.eq_false_iff.mpr blank
      cases found : lexeme? c l with
      | none =>
        rw [tokens_refused (next_of_refused notBlank comment (.inr found))]
        exact .finish placed
      | some lexeme =>
        by_cases clash : (glued && startsWord c) = true
        · rw [tokens_refused (next_of_refused notBlank comment (.inl clash))]
          exact .finish placed
        · obtain ⟨word, longest, text⟩ := longest_of_lexeme? found
          have shorter := lexeme?_length_le found
          have sameLine : lineBehind (front ++ word) = lineBehind front := by
            simp [lineBehind, List.count_eq_zero.mpr (no_newline_of_mem_words longest.mem)]
          have taken := ih lexeme.rest.length (by omega)
            (placed.word (t := ⟨_, _, _⟩) longest.mem (congrArg String.ofList text) rfl)
            lexeme.rest (startsWord c) rfl
          rw [tokens_of_lexeme? found (Bool.eq_false_iff.mpr clash), longest.split]
          rw [sameLine] at taken
          exact taken.take

end

section
variable {source : Utf8.Source} {text : String}

theorem ofSource_goesOn (isText : source.IsText text) :
    GoesOn [] text.toList [] (ofSource source).tokens := by
  rw [ofSource_of_text isText]
  exact Placed.nil.goesOn text.toList false

/-- A source that is read as a text has its tokens in front of the first character that can not be
taken, or of the end. They have every character there but those of blanks, comments, quotes and the
signs of dates. Each is on the line of its first character, and the error and the end are on the
line of the character that is reported, or of the end of the text. These lines are counted from one
as long as their numbers fit. -/
theorem tokens_placed (isText : source.IsText text) :
    ∃ before reported ts, text.toList = before ++ reported ∧
      (ofSource source).tokens = ts ++ ending before reported ∧
      (∀ t ∈ ts, t.kind ≠ .error ∧ t.kind ≠ .eof) ∧
      ts.flatMap (fun t => t.text.toList) = kept before ∧ Fills before reported ts ∧
      (text.toList.count '\n' < 2 ^ 32 - 1 → ∀ front, front <+: text.toList →
        (lineBehind front).toNat = 1 + front.count '\n') := by
  obtain ⟨before, reported, ts, split, fills, tokens⟩ := ofSource_goesOn isText
  refine ⟨before, reported, ts, split, tokens, fills.words, fills.kept_eq.symm, fills,
    fun few front starts => toNat_lineBehind ?_⟩
  have fewer : front.count '\n' ≤ text.toList.count '\n' := starts.sublist.count_le _
  omega

end

/-- A quoted number, a comment, a date on the next line and a character that can not be taken, which
is interrupted in the middle. -/
theorem tokens_placed_interrupted :
    let source : Utf8.Source :=
      ⟨[49, 39, 48, 35, 43, 10, 36, 55, 194].map .byte ++ [.interruption, .byte 167], none⟩
    source.IsText "1'0#+\n$7§" ∧
      ∃ before reported ts, "1'0#+\n$7§".toList = before ++ reported ∧
        (ofSource source).tokens = ts ++ ending before reported ∧
        (∀ t ∈ ts, t.kind ≠ .error ∧ t.kind ≠ .eof) ∧
        ts.flatMap (fun t => t.text.toList) = kept before ∧ Fills before reported ts ∧
        ("1'0#+\n$7§".toList.count '\n' < 2 ^ 32 - 1 → ∀ front, front <+: "1'0#+\n$7§".toList →
          (lineBehind front).toNat = 1 + front.count '\n') := by
  intro source
  have isText : source.IsText "1'0#+\n$7§" := by
    refine ⟨rfl, ?_⟩
    rw [Utf8.toList_toUTF8]
    decide
  exact ⟨isText, tokens_placed isText⟩

example : kept "1'0#+\n$7".toList = "107".toList := by
  decide

/-- The number is that of a line of the text. -/
def IsLineOf (text : List Char) (line : Position) : Prop :=
  ∃ front, front <+: text ∧ line = lineBehind front

theorem IsLineOf.bounds {text : List Char} {line : Position} (h : IsLineOf text line)
    (fits : text.count '\n' + 1 < 2 ^ 32) :
    1 ≤ line.toNat ∧ line.toNat ≤ 1 + text.count '\n' := by
  obtain ⟨front, starts, rfl⟩ := h
  have fewer : front.count '\n' ≤ text.count '\n' := starts.sublist.count_le _
  rw [toNat_lineBehind (by omega)]
  omega

theorem IsLineOf.toNat_add {text : List Char} {line : Position} {n : Nat} (h : IsLineOf text line)
    (fits : n + text.count '\n' + 1 < 2 ^ 32) :
    (line + .ofNat n).toNat = line.toNat + n := by
  have last := (h.bounds (by omega)).2
  rw [UInt32.toNat_add, UInt32.toNat_ofNat', Nat.mod_eq_of_lt (by omega : n < 2 ^ 32),
    Nat.mod_eq_of_lt (by omega)]

theorem exists_skipped (comment glued : Bool) (line : Position) (input : List Char) :
    ∃ skipped, input = skipped ++ (skipBlanks comment glued line input).1 ∧
      (skipBlanks comment glued line input).2.1 = line + .ofNat (skipped.count '\n') := by
  induction input generalizing comment glued line with
  | nil => exact ⟨[], rfl, (UInt32.add_zero line).symm⟩
  | cons c rest ih =>
    have onSameLine (h : c ≠ '\n') (comment : Bool) :
        ∃ skipped, c :: rest = skipped ++ (skipBlanks comment false line rest).1 ∧
          (skipBlanks comment false line rest).2.1 = line + .ofNat (skipped.count '\n') := by
      obtain ⟨skipped, split, same⟩ := ih comment false line
      refine ⟨c :: skipped, congrArg (List.cons c) split, ?_⟩
      rw [same, List.count_cons_of_ne h]
    unfold skipBlanks
    split_ifs with newline isComment isSpace
    · obtain ⟨skipped, split, same⟩ := ih false false (line + 1)
      refine ⟨c :: skipped, congrArg (List.cons c) split, ?_⟩
      rw [same, newline, List.count_cons_self, UInt32.ofNat_add, UInt32.add_assoc,
        UInt32.add_comm 1]
      rfl
    · exact onSameLine newline true
    · exact onSameLine newline false
    · exact ⟨[], rfl, (UInt32.add_zero line).symm⟩

theorem accept_cases (l : Lexer) (line : Position) (lexeme : Lexeme) (isWord : Bool) :
    (∃ message, l.accept line lexeme isWord = stop message line) ∨
      l.accept line lexeme isWord = (⟨lexeme.kind, String.ofList lexeme.text, line⟩,
        ⟨lexeme.rest, l.failure, line, isWord⟩) := by
  unfold accept
  dsimp only
  split
  · cases l.failure with
    | none => exact .inr rfl
    | some e => exact .inl ⟨_, rfl⟩
  · exact .inr rfl

/-- Behind what it skips a lexer comes to the end of its input, stops or takes a lexeme. -/
theorem next_cases (l : Lexer) : ∃ skipped rest line, l.rest = skipped ++ rest ∧
    line = l.line + .ofNat (skipped.count '\n') ∧
      (l.failure = none ∧ l.next = (.eof line, ended line) ∨
        (∃ message, l.next = stop message line) ∨
        ∃ c after lexeme isWord, rest = c :: after ∧ lexeme? c after = some lexeme ∧
          l.next = (⟨lexeme.kind, String.ofList lexeme.text, line⟩,
            ⟨lexeme.rest, l.failure, line, isWord⟩)) := by
  obtain ⟨skipped, split, here⟩ := exists_skipped false l.glued l.line l.rest
  refine ⟨skipped, _, _, split, here, ?_⟩
  unfold next
  generalize skipBlanks false l.glued l.line l.rest = out
  obtain ⟨rest, line, glued⟩ := out
  cases rest with
  | nil =>
    cases failure : l.failure with
    | none => exact .inl ⟨rfl, rfl⟩
    | some e => exact .inr (.inl ⟨_, rfl⟩)
  | cons c after =>
    right
    dsimp only
    cases word : word? c after with
    | some lexeme =>
      cases glued with
      | true => exact .inl ⟨_, rfl⟩
      | false =>
        have found : lexeme? c after = some lexeme := by rw [lexeme?, word, Option.some_or]
        exact (l.accept_cases line lexeme true).imp_right fun same =>
          ⟨c, after, lexeme, true, rfl, found, same⟩
    | none =>
      cases operator : operator? c after with
      | some lexeme =>
        have found : lexeme? c after = some lexeme := by
          rw [lexeme?, word, Option.none_or, operator]
        exact (l.accept_cases line lexeme false).imp_right fun same =>
          ⟨c, after, lexeme, false, rfl, found, same⟩
      | none => exact .inl ⟨_, rfl⟩

theorem exists_line_of_mem_tokens (l : Lexer) :
    ∀ t ∈ l.tokens, ∃ front, front <+: l.rest ∧ t.line = l.line + .ofNat (front.count '\n') := by
  -- The induction is on what is left to be read, which the next token makes less.
  induction size : l.budget using Nat.strong_induction_on generalizing l with
  | _ n ih =>
    obtain ⟨skipped, rest, line, split, rfl, next⟩ := next_cases l
    have here : skipped <+: l.rest := split ▸ List.prefix_append skipped rest
    have less := next_budget_lt l
    rw [tokens_eq]
    rcases next with ⟨-, next⟩ | ⟨message, next⟩ | ⟨c, after, lexeme, isWord, rfl, found, next⟩
    all_goals rw [next] at less ⊢
    · exact List.forall_mem_singleton.mpr ⟨skipped, here, rfl⟩
    · refine List.forall_mem_cons.mpr ⟨⟨skipped, here, rfl⟩, ?_⟩
      exact List.forall_mem_singleton.mpr ⟨skipped, here, rfl⟩
    · obtain ⟨word, longest, -⟩ := longest_of_lexeme? found
      have notEof := (kind_ne_of_mem_words longest.mem).2
      rw [if_neg notEof]
      refine List.forall_mem_cons.mpr ⟨⟨skipped, here, rfl⟩, fun t mem => ?_⟩
      obtain ⟨front, starts, line⟩ := ih _ (size ▸ less notEof) _ rfl t mem
      refine ⟨skipped ++ (word ++ front), ?_, ?_⟩
      · rw [split, longest.split]
        exact (List.prefix_append_right_inj _).mpr ((List.prefix_append_right_inj _).mpr starts)
      · have outside := List.count_eq_zero.mpr (no_newline_of_mem_words longest.mem)
        rw [line, List.count_append, List.count_append, outside, Nat.zero_add, UInt32.ofNat_add,
          UInt32.add_assoc]

theorem line_of_mem_tokens (source : Utf8.Source) :
    ∀ t ∈ (ofSource source).tokens, IsLineOf source.decode.1 t.line := by
  intro t mem
  obtain ⟨front, starts, line⟩ := exists_line_of_mem_tokens _ t mem
  exact ⟨front, starts, line.trans (UInt32.ofNat_add 1 _).symm⟩

end Calculator.Lexer
