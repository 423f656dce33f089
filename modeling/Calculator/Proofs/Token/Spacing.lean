import Calculator.Proofs.Token.Scanning

set_option autoImplicit false

namespace Calculator

open Numeral (isDecimalDigit isOctalDigit isHexadecimalDigit)

namespace Words

def Avoids (c : Char) (l : Language Char) : Prop :=
  ∀ w ∈ l, c ∉ w

section
variable {c : Char} {accept : Char → Bool} {l m : Language Char}

theorem avoids_many (h : accept c = false) : Avoids c (many accept) := by
  intro w mem inside
  rw [mem_many.mp mem c inside] at h
  cases h

theorem avoids_one (h : accept c = false) : Avoids c (one accept) := by
  rintro w ⟨d, accepted, rfl⟩ inside
  rw [List.mem_singleton.mp inside, accepted] at h
  cases h

theorem avoids_nil : Avoids c 1 := by
  intro w mem
  rw [(Language.mem_one w).mp mem]
  exact List.not_mem_nil

theorem Avoids.add (hl : Avoids c l) (hm : Avoids c m) : Avoids c (l + m) :=
  fun w mem => (Language.mem_add l m w).mp mem |>.elim (hl w) (hm w)

theorem Avoids.mul (hl : Avoids c l) (hm : Avoids c m) : Avoids c (l * m) := by
  intro w mem inside
  obtain ⟨u, hu, v, hv, rfl⟩ := Language.mem_mul.mp mem
  exact (List.mem_append.mp inside).elim (hl u hu) (hm v hv)

theorem avoids_lexeme {kind : Kind}
    (h : kind.lexeme.all (fun s => s.toList.all (· != c)) = true) :
    Avoids c {w | kind.lexeme = some (String.ofList w)} := by
  intro w spelled inside
  rw [spelled, Option.all_some, String.toList_ofList, List.all_eq_true] at h
  exact bne_iff_ne.mp (h c inside) rfl

theorem avoids_name (h : Letter.continuesName c = false) (starts : Letter.startsName c = false) :
    Avoids c name :=
  (avoids_one starts).mul (avoids_many h)

def outside : List Char :=
  [' ', '\t', '\r', '\n', '#', '$']

theorem mem_outside (blank : Lexer.isBlank c = true) : c ∈ outside := by
  simp only [Lexer.isBlank, Bool.or_eq_true, beq_iff_eq, or_assoc] at blank
  rcases blank with rfl | rfl | rfl | rfl <;> simp [outside]

section
variable (outer : c ∈ outside)
include outer

theorem rejects_outside (h : outside.any accept = false) : accept c = false :=
  Bool.eq_false_iff.mpr (List.any_eq_false.mp h c outer)

theorem rejects_spelling {spelling : Option String}
    (h : outside.all (fun b => spelling.all fun s => s.toList.all (· != b)) = true) :
    spelling.all (fun s => s.toList.all (· != c)) = true :=
  List.all_eq_true.mp h c outer

theorem avoids_outside_one (h : outside.any accept = false) : Avoids c (one accept) :=
  avoids_one (rejects_outside outer h)

theorem avoids_outside_many (h : outside.any accept = false) : Avoids c (many accept) :=
  avoids_many (rejects_outside outer h)

theorem avoids_outside_natural : Avoids c natural :=
  (avoids_outside_one outer rfl).add
    ((avoids_outside_one outer rfl).mul (avoids_outside_many outer rfl))

theorem avoids_outside_exponent : Avoids c exponent :=
  ((avoids_outside_one outer rfl).mul (avoids_nil.add (avoids_outside_one outer rfl))).mul
    (avoids_outside_many outer rfl)

theorem avoids_outside_real : Avoids c real :=
  ((((avoids_nil.add (avoids_outside_natural outer)).mul (avoids_outside_one outer rfl)).mul
    (avoids_outside_many outer rfl)).mul (avoids_nil.add (avoids_outside_exponent outer))).add
      (((avoids_outside_one outer rfl).mul (avoids_outside_many outer rfl)).mul
        (avoids_outside_exponent outer))

theorem avoids_outside {kind : Kind} (notSign : kind = .date → c ≠ '$') : Avoids c kind.words := by
  have name : Avoids c name :=
    (avoids_outside_one outer (by decide)).mul (avoids_outside_many outer (by decide))
  cases kind with
  | int => exact avoids_outside_natural outer
  | hex =>
    exact ((avoids_outside_one outer rfl).mul (avoids_outside_one outer rfl)).mul
      (avoids_outside_many outer rfl)
  | oct =>
    exact ((avoids_outside_one outer rfl).mul (avoids_outside_one outer rfl)).mul
      (avoids_outside_many outer rfl)
  | real => exact avoids_outside_real outer
  | time =>
    exact ((avoids_outside_natural outer).mul (avoids_outside_one outer rfl)).mul
      (avoids_outside_many outer rfl)
  | date =>
    have sign : Avoids c (one (· == '$')) := avoids_one (beq_eq_false_iff_ne.mpr (notSign rfl))
    exact sign.mul (avoids_outside_many outer rfl)
  | symbol => exact fun w mem => name w mem.1
  | keyword => exact fun w mem => name w mem.1
  | _ => exact avoids_lexeme (rejects_spelling outer (by decide))

end

theorem avoids_blank (blank : Lexer.isBlank c = true) (kind : Kind) : Avoids c kind.words := by
  refine avoids_outside (mem_outside blank) fun _ => ?_
  rintro rfl
  cases blank

theorem avoids_quote {kind : Kind} (h : kind ∉ [.int, .real, .time, .date]) :
    Avoids '\'' kind.words := by
  have name : Avoids '\'' name := avoids_name (by decide) (by decide)
  cases kind with
  | int => simp at h
  | real => simp at h
  | time => simp at h
  | date => simp at h
  | hex => exact ((avoids_one rfl).mul (avoids_one rfl)).mul (avoids_many rfl)
  | oct => exact ((avoids_one rfl).mul (avoids_one rfl)).mul (avoids_many rfl)
  | symbol => exact fun w mem => name w mem.1
  | keyword => exact fun w mem => name w mem.1
  | _ => exact avoids_lexeme (by decide)

end

end Words

namespace Token

structure IsWord (t : Token) : Prop where
  mem : t.text.toList ∈ t.kind.words
  whole : t.kind.textOf t.text.toList = t.text.toList

def written (ts : List Token) : String :=
  " ".intercalate (ts.map text)

theorem toList_written_cons (t u : Token) (ts : List Token) :
    (written (t :: u :: ts)).toList = t.text.toList ++ ' ' :: (written (u :: ts)).toList := by
  simp only [written, String.toList_intercalate, List.map_cons, List.intercalate_cons_cons,
    List.append_assoc]
  rfl

theorem toList_written_singleton (t : Token) : (written [t]).toList = t.text.toList := by
  simp only [written, String.toList_intercalate, List.map_cons, List.map_nil,
    List.intercalate_singleton]

theorem IsWord.of_no_quote {t : Token} (mem : t.text.toList ∈ t.kind.words)
    (noQuote : '\'' ∉ t.text.toList) (notDate : t.kind ≠ .date) : t.IsWord := by
  refine ⟨mem, ?_⟩
  rw [Kind.textOf, if_neg notDate]
  exact List.filter_eq_self.mpr fun c inside =>
    bne_iff_ne.mpr (ne_of_mem_of_not_mem inside noQuote)

end Token

def IsName (x : String) : Prop :=
  (Lexer.ofString x).tokens = [⟨.symbol, x, 1⟩, .eof 1]

instance (x : String) : Decidable (IsName x) :=
  inferInstanceAs (Decidable (_ = _))

namespace Lexer

section
variable {kind : Kind} {word rest : List Char}

def Spaced (rest : List Char) : Prop :=
  rest = [] ∨ ∃ more, rest = ' ' :: more

theorem longest_self (mem : word ∈ kind.words) : Longest word kind word [] := by
  refine ⟨(List.append_nil word).symm, mem, fun other w after split mem' => ?_⟩
  rw [split, List.length_append]
  exact Nat.le_add_right ..

theorem Longest.append_of_avoids {input : List Char} {c : Char} (h : Longest input kind word rest)
    (avoids : ∀ kind : Kind, Words.Avoids c kind.words) (more : List Char) :
    Longest (input ++ c :: more) kind word (rest ++ c :: more) := by
  refine ⟨?_, h.mem, fun other w after split mem' => ?_⟩
  · rw [h.split, List.append_assoc]
  · rcases List.append_eq_append_iff.mp split with ⟨u, rfl, more'⟩ | ⟨u, split', -⟩
    · cases u with
      | nil => exact h.longest other _ [] (by rw [List.append_nil, List.append_nil]) mem'
      | cons d u =>
        obtain ⟨rfl, -⟩ := List.cons.inj more'
        have inside : c ∈ input ++ c :: u := List.mem_append_right _ List.mem_cons_self
        exact absurd inside (avoids other _ mem')
    · exact h.longest other w u split' mem'

theorem Longest.append {input : List Char} {c : Char} (h : Longest input kind word rest)
    (blank : isBlank c = true) (more : List Char) :
    Longest (input ++ c :: more) kind word (rest ++ c :: more) :=
  h.append_of_avoids (Words.avoids_blank blank) more

theorem longest_of_spaced (mem : word ∈ kind.words) (spaced : Spaced rest) :
    Longest (word ++ rest) kind word rest := by
  rcases spaced with rfl | ⟨more, rfl⟩
  · rw [List.append_nil]
    exact longest_self mem
  · exact (longest_self mem).append rfl more

theorem tokens_space (rest : List Char) (line : Position) (glued : Bool) :
    (reading (' ' :: rest) line glued).tokens = (reading rest line false).tokens := by
  have same : (reading (' ' :: rest) line glued).next = (reading rest line false).next :=
    next_of_skipBlanks_eq rfl rfl
  rw [tokens_eq, same, ← tokens_eq]

theorem tokens_word {t : Token} (isWord : t.IsWord) (spaced : Spaced rest) :
    (reading (t.text.toList ++ rest) t.line false).tokens =
      t :: (reading rest t.line t.kind.isWord).tokens := by
  have longest := longest_of_spaced isWord.mem spaced
  obtain ⟨first, l, -, split, -⟩ := lexeme?_covers rest isWord.mem
  rw [split] at longest ⊢
  obtain ⟨found, starts⟩ := longest.lexeme?
  obtain ⟨notBlank, notComment⟩ := not_skipped_of_lexeme? found
  have notEof : t.kind ≠ .eof := by
    intro eof
    have mem := isWord.mem
    rw [eof] at mem
    cases mem
  have next : (reading (first :: l) t.line false).next =
      (t, reading rest t.line t.kind.isWord) := by
    rw [next_of_lexeme? notBlank notComment found rfl, starts]
    dsimp only
    rw [isWord.whole, String.ofList_toList]
  rw [tokens_eq, next]
  dsimp only
  rw [if_neg notEof]

theorem tokens_written (line : Position) {ts : List Token}
    (words : ∀ t ∈ ts, t.IsWord ∧ t.line = line) :
    (reading (Token.written ts).toList line false).tokens = ts ++ [.eof line] := by
  induction ts with
  | nil => rfl
  | cons t ts ih =>
    obtain ⟨⟨isWord, rfl⟩, words⟩ := List.forall_mem_cons.mp words
    cases ts with
    | nil =>
      have scanned := tokens_word isWord (.inl rfl)
      rw [List.append_nil] at scanned
      rw [Token.toList_written_singleton, scanned]
      rfl
    | cons u ts =>
      rw [Token.toList_written_cons, tokens_word isWord (.inr ⟨_, rfl⟩), tokens_space, ih words]
      rfl

theorem ofSource_of_text {source : Utf8.Source} {text : String} (h : source.IsText text) :
    ofSource source = reading text.toList 1 false := by
  unfold ofSource
  rw [Utf8.Source.decode_of_text h.clean h.delivers]
  rfl

theorem tokens_ofSource_written {source : Utf8.Source} {ts : List Token}
    (clean : source.failure = none)
    (delivers : Utf8.delivered source.events = (Token.written ts).toUTF8.toList)
    (words : ∀ t ∈ ts, t.IsWord ∧ t.line = 1) : (ofSource source).tokens = ts ++ [.eof 1] := by
  rw [← tokens_written 1 words, ofSource_of_text ⟨clean, delivers⟩]

theorem Scans.exists_word {glued : Bool} {input : List Char} {text : String}
    {out : List (Kind × String)} (h : Scans glued input ((kind, text) :: out))
    (notError : kind ≠ .error) (notEof : kind ≠ .eof) :
    ∃ w ∈ kind.words, text = String.ofList (kind.textOf w) := by
  generalize whole : (kind, text) :: out = all at h
  induction h with
  | finish =>
    cases whole
    exact absurd rfl notEof
  | blank isBlank more ih => exact ih whole
  | comment more ih => exact ih whole
  | token longest apart more =>
    cases whole
    exact ⟨_, longest.mem, rfl⟩
  | clash starts =>
    cases whole
    exact absurd rfl notError
  | unknown notBlank notComment none =>
    cases whole
    exact absurd rfl notError

end

end Lexer

theorem Token.IsWord.of_isName {x : String} (h : IsName x) (line : Position) :
    IsWord ⟨.symbol, x, line⟩ := by
  have scans : Lexer.Scans false x.toList [(.symbol, x), (.eof, "")] := by
    obtain ⟨out, scans⟩ := Lexer.scans_total false x.toList
    have spelled : (Lexer.ofString x).spellings = out := scans.spellings_eq 1
    rw [Lexer.spellings, h] at spelled
    rwa [← spelled] at scans
  obtain ⟨w, mem, text⟩ := scans.exists_word (by simp) (by simp)
  have noQuote : '\'' ∉ w := Words.avoids_quote (by decide) w mem
  have whole : IsWord ⟨.symbol, String.ofList w, line⟩ := by
    refine .of_no_quote ?_ ?_ (by simp)
    · rwa [String.toList_ofList]
    · rwa [String.toList_ofList]
  have kept : Kind.symbol.textOf w = w := by
    have kept := whole.whole
    rwa [String.toList_ofList] at kept
  rwa [text, kept]

end Calculator
