import Calculator.Proofs.Date
import Calculator.Proofs.Text.Grouping
import Calculator.Proofs.Tree.Writing
import Mathlib.Data.List.TakeWhile

set_option autoImplicit false

namespace Calculator

open Numeral (IsDigit isDigit_of_mem_digits isDigit_of_mem_padZeros exists_digits_eq_cons
  read_digits read_padZeros length_digits_le length_padZeros padZeros_eq_self)
open Lexer (unquoted_append unquoted_cons unquoted_eq_self isDigitOrQuote isDigitOrColon)

/-- The word is a literal of the kind that stands for the value in any mode. -/
structure Kind.Writes (kind : Kind) (word : List Char) (v : Value) : Prop where
  mem : word ∈ kind.words
  isLiteral : kind.isLiteral = true
  value : ∀ mode line, Literal.value mode ⟨kind, String.ofList (kind.textOf word), line⟩ = .ok v

/-- The word is a literal of the kind that stands for the value in the mode. -/
structure Kind.WritesIn (mode : NumericMode) (kind : Kind) (word : List Char) (v : Value) :
    Prop where
  mem : word ∈ kind.words
  isLiteral : kind.isLiteral = true
  value : ∀ line, Literal.value mode ⟨kind, String.ofList (kind.textOf word), line⟩ = .ok v

theorem Kind.Writes.inMode {kind : Kind} {word : List Char} {v : Value}
    (writes : kind.Writes word v) (mode : NumericMode) : kind.WritesIn mode word v :=
  ⟨writes.mem, writes.isLiteral, writes.value mode⟩

namespace Grouping

theorem ne_of_mem_decimal {n : Nat} {c d : Char} (h : c ∈ Numeral.decimal n)
    (notDigit : Numeral.isDecimalDigit d = false) : c ≠ d := by
  rintro rfl
  rw [(isDigit_of_mem_digits (by decide) h).isDecimalDigit] at notDigit
  cases notDigit

theorem groupUnsigned_decimal (n : Nat) : groupUnsigned (Numeral.decimal n) =
    groupFrom (byteLength (Numeral.decimal n)) 0 (Numeral.decimal n) :=
  groupUnsigned_eq fun inside => ne_of_mem_decimal inside (by decide) rfl

theorem groupFrom_mem_natural (width : Nat) {text : List Char}
    (h : text = ['0'] ∨ ∃ c u, Words.isPositiveDigit c = true ∧
      (∀ x ∈ u, Numeral.isDecimalDigit x = true) ∧ text = c :: u) :
    groupFrom width 0 text ∈ Words.natural := by
  refine Words.mem_natural.mpr ?_
  obtain rfl | ⟨c, u, positive, digits, rfl⟩ := h
  · exact .inl rfl
  · refine .inr ⟨c, groupFrom width 1 u, positive, fun x inside => ?_, rfl⟩
    rcases mem_of_mem_groupFrom inside with rfl | kept
    · rfl
    · rw [isDigitOrQuote, digits x kept, Bool.true_or]

theorem decimal_eq_zero_or_cons (n : Nat) : Numeral.decimal n = ['0'] ∨
    ∃ c u, Words.isPositiveDigit c = true ∧ (∀ x ∈ u, Numeral.isDecimalDigit x = true) ∧
      Numeral.decimal n = c :: u := by
  have positive : ∀ d < 10, d ≠ 0 → Words.isPositiveDigit (Nat.digitChar d) = true := by decide
  obtain ⟨d, u, same, below, zero, digits⟩ := exists_digits_eq_cons (by decide : 2 ≤ 10) n
  change Numeral.decimal n = _ at same
  by_cases first : d = 0
  · left
    rw [same, (zero first).2, first]
    rfl
  · exact .inr ⟨_, u, positive d below first, fun c inside => (digits c inside).isDecimalDigit,
      same⟩

theorem groupUnsigned_mem_int (n : Nat) :
    groupUnsigned (Numeral.decimal n) ∈ Kind.int.words := by
  rw [groupUnsigned_decimal]
  exact groupFrom_mem_natural _ (decimal_eq_zero_or_cons n)

end Grouping

theorem Kind.textOf_eq_self (kind : Kind) {word : List Char} (notDate : kind ≠ .date)
    (noQuote : '\'' ∉ word) : kind.textOf word = word := by
  rw [textOf, if_neg notDate]
  exact List.filter_eq_self.mpr fun c inside =>
    bne_iff_ne.mpr (ne_of_mem_of_not_mem inside noQuote)

namespace Kind.Writes

theorem dec (n : Nat) :
    Kind.int.Writes (Grouping.groupUnsigned (Numeral.decimal n)) (.int n .dec) := by
  refine ⟨Grouping.groupUnsigned_mem_int n, rfl, fun mode line => ?_⟩
  have text : Kind.int.textOf (Grouping.groupUnsigned (Numeral.decimal n)) = Numeral.decimal n := by
    rw [Grouping.groupUnsigned_decimal, Kind.textOf, if_neg (by simp), Grouping.unquoted_groupFrom]
    exact List.filter_eq_self.mpr fun c inside =>
      bne_iff_ne.mpr (Grouping.ne_of_mem_decimal inside (by decide))
  simp only [Literal.value, text, String.toList_ofList]
  change Literal.integer _ 10 (Numeral.digits 10 n) .dec = _
  rw [Literal.integer, read_digits (by decide) (by decide)]

theorem hex (n : Nat) :
    Kind.hex.Writes ('0' :: 'x' :: Numeral.hexadecimal n) (.int n .hex) := by
  have mem := Words.hexadecimal_mem_hex n
  refine ⟨mem, rfl, fun mode line => ?_⟩
  have text := Kind.textOf_eq_self .hex (by simp) (Words.avoids_quote (by decide) _ mem)
  simp only [Literal.value, text, String.toList_ofList]
  change Literal.integer _ 16 (Numeral.digits 16 n) .hex = _
  rw [Literal.integer, read_digits (by decide) (by decide)]

theorem oct (n : Nat) : Kind.oct.Writes ('0' :: Numeral.octal n) (.int n .oct) := by
  have mem := Words.octal_mem_oct n
  refine ⟨mem, rfl, fun mode line => ?_⟩
  have text := Kind.textOf_eq_self .oct (by simp) (Words.avoids_quote (by decide) _ mem)
  simp only [Literal.value, text, String.toList_ofList]
  change Literal.integer _ 8 (Numeral.digits 8 n) .oct = _
  rw [Literal.integer, read_digits (by decide) (by decide)]

end Kind.Writes

namespace Value

theorem integer_eq (n : Int) :
    Numeral.integer n = (if n < 0 then ['-'] else []) ++ Numeral.decimal n.natAbs := by
  unfold Numeral.integer
  split_ifs <;> rfl

theorem intText_dec (n : Int) : intText n .dec false =
    (if n < 0 then ['-'] else []) ++ Grouping.groupUnsigned (Numeral.decimal n.natAbs) := by
  change Grouping.groupChars (Numeral.integer n) = _
  rw [integer_eq]
  exact Grouping.groupChars_signed _ fun c inside =>
    .inl (isDigit_of_mem_digits (by decide) inside).isDecimalDigit

theorem intText_hex (n : Int) : intText n .hex false =
    (if n < 0 then ['-'] else []) ++ '0' :: 'x' :: Numeral.hexadecimal n.natAbs :=
  rfl

theorem intText_oct {n : Int} (nonzero : n ≠ 0) : intText n .oct false =
    (if n < 0 then ['-'] else []) ++ '0' :: Numeral.octal n.natAbs :=
  if_neg nonzero

end Value

namespace Literal

theorem fields_of_not_mem {part : List Char} (noColon : ':' ∉ part) : fields part = [part] := by
  induction part with
  | nil => rfl
  | cons c part ih =>
    obtain ⟨first, rest⟩ := not_or.mp (List.mem_cons.not.mp noColon)
    rw [fields, ih rest]
    exact fun colon => first colon.symm

theorem fields_append {part : List Char} (noColon : ':' ∉ part) (rest : List Char) :
    fields (part ++ ':' :: rest) = part :: fields rest := by
  induction part with
  | nil => rfl
  | cons c part ih =>
    obtain ⟨first, more⟩ := not_or.mp (List.mem_cons.not.mp noColon)
    rw [List.cons_append, fields, ih more]
    exact fun colon => first colon.symm

theorem fields_flatMap {part : List Char} {parts : List (List Char)} (noColon : ':' ∉ part)
    (noColons : ∀ part ∈ parts, ':' ∉ part) :
    fields (part ++ parts.flatMap (':' :: ·)) = part :: parts := by
  induction parts generalizing part with
  | nil =>
    rw [List.flatMap_nil, List.append_nil]
    exact fields_of_not_mem noColon
  | cons next parts ih =>
    obtain ⟨first, rest⟩ := List.forall_mem_cons.mp noColons
    rw [List.flatMap_cons, List.cons_append, fields_append noColon, ih first rest]

theorem readSeconds_twoDigits (seconds : Nat) (parts : List Nat) :
    readSeconds seconds (parts.map Value.twoDigits) =
      some (parts.foldl (fun seconds part => seconds * 60 + part) seconds) := by
  induction parts generalizing seconds with
  | nil => rfl
  | cons part parts ih =>
    have read : Numeral.read 10 (Value.twoDigits part) = some part :=
      read_padZeros (by decide) (by decide) 2 part
    rw [List.map_cons, readSeconds, read, List.foldl_cons]
    exact ih _

end Literal

namespace Duration

/-- The hours of a duration, or the minutes if there are no hours. -/
def leading (seconds : Nat) : Nat :=
  if seconds / 3600 = 0 then seconds / 60 % 60 else seconds / 3600

def trailing (seconds : Nat) : List Nat :=
  if seconds / 3600 = 0 then [seconds % 60] else [seconds / 60 % 60, seconds % 60]

def text (seconds : Nat) : List Char :=
  Value.twoDigits (leading seconds) ++ ((trailing seconds).map Value.twoDigits).flatMap (':' :: ·)

theorem timeText_eq (n : Int) :
    Value.timeText n = (if n < 0 then ['-'] else []) ++ text n.natAbs := by
  unfold Value.timeText text leading trailing
  dsimp only
  split_ifs <;> simp

theorem foldl_fields (seconds : Nat) :
    (leading seconds :: trailing seconds).foldl (fun seconds part => seconds * 60 + part) 0 =
      seconds := by
  unfold leading trailing
  split_ifs with short
  · simp only [List.foldl_cons, List.foldl_nil]
    omega
  · simp only [List.foldl_cons, List.foldl_nil]
    omega

theorem colon_not_mem_twoDigits (n : Nat) : ':' ∉ Value.twoDigits n := by
  intro inside
  have digit := (isDigit_of_mem_padZeros (by decide) inside).isDecimalDigit
  revert digit
  decide

theorem readTime_text (seconds : Nat) : Literal.readTime (text seconds) = some seconds := by
  have parts : Literal.fields (text seconds) =
      (leading seconds :: trailing seconds).map Value.twoDigits := by
    refine Literal.fields_flatMap (colon_not_mem_twoDigits _) fun part inside => ?_
    obtain ⟨n, -, rfl⟩ := List.mem_map.mp inside
    exact colon_not_mem_twoDigits n
  have count : (trailing seconds).length = 1 ∨ (trailing seconds).length = 2 := by
    unfold trailing
    split <;> simp
  rw [Literal.readTime, parts, List.length_map, List.length_cons, if_pos (by omega),
    Literal.readSeconds_twoDigits, foldl_fields]

theorem isDigitOrColon_of_mem_twoDigits {n : Nat} {c : Char} (h : c ∈ Value.twoDigits n) :
    isDigitOrColon c = true := by
  rw [isDigitOrColon, (isDigit_of_mem_padZeros (by decide) h).isDecimalDigit, Bool.true_or]

theorem isDigitOrColon_of_mem_text {seconds : Nat} {c : Char} (h : c ∈ text seconds) :
    isDigitOrColon c = true := by
  rcases List.mem_append.mp h with digit | rest
  · exact isDigitOrColon_of_mem_twoDigits digit
  · obtain ⟨part, among, here⟩ := List.mem_flatMap.mp rest
    obtain ⟨n, -, rfl⟩ := List.mem_map.mp among
    rcases List.mem_cons.mp here with rfl | digit
    · rfl
    · exact isDigitOrColon_of_mem_twoDigits digit

theorem colon_mem_text (seconds : Nat) : ':' ∈ text seconds := by
  obtain ⟨n, more, split⟩ : ∃ n more, trailing seconds = n :: more := by
    unfold trailing
    split <;> exact ⟨_, _, rfl⟩
  rw [text, split]
  exact List.mem_append_right _ List.mem_cons_self

theorem twoDigits_leading {seconds : Nat} (h : 10 ≤ leading seconds) :
    Value.twoDigits (leading seconds) = Numeral.decimal (leading seconds) := by
  refine padZeros_eq_self (Nat.le_of_not_lt fun short => ?_)
  have bound : leading seconds < 10 ^ (Numeral.decimal (leading seconds)).length :=
    Numeral.lt_pow_length_digits (by decide) (by decide) _
  have power := Nat.pow_le_pow_right (n := 10) (by decide) (Nat.le_of_lt_succ short)
  omega

theorem text_eq_cons {seconds : Nat} (h : leading seconds < 10) :
    ∃ l, text seconds = '0' :: Nat.digitChar (leading seconds) :: ':' :: l := by
  have padded : ∀ n < 10, Value.twoDigits n = ['0', Nat.digitChar n] := by decide +kernel
  obtain ⟨n, more, split⟩ : ∃ n more, trailing seconds = n :: more := by
    unfold trailing
    split <;> exact ⟨_, _, rfl⟩
  rw [text, padded _ h, split]
  exact ⟨_, rfl⟩

theorem text_mem_time {seconds : Nat} (h : 10 ≤ leading seconds) :
    text seconds ∈ Kind.time.words := by
  obtain ⟨n, more, split⟩ : ∃ n more, trailing seconds = n :: more := by
    unfold trailing
    split <;> exact ⟨_, _, rfl⟩
  refine Words.mem_time.mpr ⟨Numeral.decimal (leading seconds),
    Value.twoDigits n ++ (more.map Value.twoDigits).flatMap (':' :: ·),
    Words.decimal_mem_int _, fun c inside => ?_, ?_⟩
  · rcases List.mem_append.mp inside with digit | rest
    · exact isDigitOrColon_of_mem_twoDigits digit
    · obtain ⟨part, among, here⟩ := List.mem_flatMap.mp rest
      obtain ⟨n, -, rfl⟩ := List.mem_map.mp among
      rcases List.mem_cons.mp here with rfl | digit
      · rfl
      · exact isDigitOrColon_of_mem_twoDigits digit
  · rw [text, twoDigits_leading h, split]
    rfl

end Duration

theorem Value.intText_time (n : Int) : Value.intText n .time false =
    (if n < 0 then ['-'] else []) ++ Duration.text n.natAbs :=
  Duration.timeText_eq n

theorem Kind.Writes.time {seconds : Nat} (h : 10 ≤ Duration.leading seconds) :
    Kind.time.Writes (Duration.text seconds) (.int seconds .time) := by
  have noQuote : '\'' ∉ Duration.text seconds := fun quote =>
    absurd (Duration.isDigitOrColon_of_mem_text quote) (by decide)
  refine ⟨Duration.text_mem_time h, rfl, fun mode line => ?_⟩
  rw [Kind.textOf_eq_self _ (by simp) noQuote]
  simp only [Literal.value, Literal.time, String.toList_ofList, Duration.readTime_text]

namespace Date

def HasShortYear (d : Date) : Prop :=
  0 ≤ d.civil.year ∧ d.civil.year ≤ 9999

instance (d : Date) : Decidable d.HasShortYear :=
  inferInstanceAs (Decidable (_ ∧ _))

def padded (width n : Nat) : List Char :=
  Numeral.padZeros width (Numeral.decimal n)

theorem length_padded {width n : Nat} (positive : 0 < width) (fits : n < 10 ^ width) :
    (padded width n).length = width :=
  length_padZeros (length_digits_le (by decide) (by decide) positive fits)

theorem read_padded (width n : Nat) : Numeral.read 10 (padded width n) = some n :=
  read_padZeros (by decide) (by decide) width n

def digits (d : Date) : List Char :=
  padded 4 d.civil.year.toNat ++ (padded 2 d.civil.month ++ padded 2 d.civil.day)

theorem text_eq {d : Date} (h : d.HasShortYear) : d.text = '$' :: d.digits := by
  have year : yearText d.civil.year = padded 4 d.civil.year.toNat := by
    have same : d.civil.year.natAbs = d.civil.year.toNat := by
      have := h.1
      omega
    rw [yearText, if_neg (Int.not_lt.mpr h.1), if_neg (Int.not_lt.mpr h.2), same]
    rfl
  unfold text digits
  dsimp only
  rw [year, List.append_assoc]
  rfl

theorem isDecimalDigit_of_mem_digits {d : Date} {c : Char} (h : c ∈ d.digits) :
    Numeral.isDecimalDigit c = true := by
  simp only [digits, List.mem_append] at h
  rcases h with year | month | day
  · exact (isDigit_of_mem_padZeros (by decide) year).isDecimalDigit
  · exact (isDigit_of_mem_padZeros (by decide) month).isDecimalDigit
  · exact (isDigit_of_mem_padZeros (by decide) day).isDecimalDigit

theorem civil_bounds (d : Date) : d.civil.month < 10 ^ 2 ∧ d.civil.day < 10 ^ 2 := by
  have valid := Civil.isValid_ofDayNumber d.day
  change d.civil.isValid = true at valid
  simp only [Civil.isValid, Bool.and_eq_true, decide_eq_true_eq] at valid
  have short : Civil.monthLength d.civil.year d.civil.month ≤ 31 := by
    unfold Civil.monthLength
    split_ifs <;> decide
  omega

theorem readDate_digits {d : Date} (h : d.HasShortYear) :
    Literal.readDate d.digits = some d := by
  have year : (padded 4 d.civil.year.toNat).length = 4 :=
    length_padded (by decide) (by have := h.2; omega)
  have month := length_padded (by decide) d.civil_bounds.1
  have day := length_padded (by decide) d.civil_bounds.2
  have all : d.digits.length = 8 := by
    rw [digits, List.length_append, List.length_append, year, month, day]
  have first : d.digits.take 4 = padded 4 d.civil.year.toNat := List.take_left' year
  have rest : d.digits.drop 4 = padded 2 d.civil.month ++ padded 2 d.civil.day :=
    List.drop_left' year
  have second : (d.digits.drop 4).take 2 = padded 2 d.civil.month := by
    rw [rest]
    exact List.take_left' month
  have third : d.digits.drop 6 = padded 2 d.civil.day := by
    rw [← List.drop_drop (i := 2) (j := 4), rest]
    exact List.drop_left' month
  have civil : (⟨(d.civil.year.toNat : Int), d.civil.month, d.civil.day⟩ : Civil) = d.civil := by
    rw [Int.toNat_of_nonneg h.1]
  have found := d.ofCivil?_civil
  rw [← civil] at found
  rw [Literal.readDate, all, first, second, third, read_padded, read_padded, read_padded]
  exact found

end Date

theorem Kind.Writes.date {d : Date} (h : d.HasShortYear) : Kind.date.Writes d.text (.date d) := by
  have digits : ∀ c ∈ d.digits, Numeral.isDecimalDigit c = true := fun c inside =>
    Date.isDecimalDigit_of_mem_digits inside
  rw [Date.text_eq h]
  refine ⟨Words.mem_date.mpr ⟨_, digits, rfl⟩, rfl, fun mode line => ?_⟩
  have text : Kind.date.textOf ('$' :: d.digits) = d.digits := unquoted_eq_self digits rfl
  simp only [Literal.value, Literal.date, text, String.toList_ofList, Date.readDate_digits h]

end Calculator
