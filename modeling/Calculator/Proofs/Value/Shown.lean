import Calculator.Proofs.Value.Truncation
import Calculator.Value.Text

set_option autoImplicit false

namespace Calculator.Shown

open Lexer (unquoted_append unquoted_cons unquoted_eq_self isDigitOrQuote)

def readDecimal (text : List Char) : Option Rat :=
  (RealLiteral.readMantissa (unquoted text)).map fun (n, places) => n / 10 ^ places

/-- A leading zero without a point behind it is the mark of octal digits. -/
def readUnsigned (text : List Char) : Option Rat :=
  if ':' ∈ text then (Literal.readTime text).map Nat.cast
  else if text.take 2 = ['0', 'x'] then (Numeral.read 16 (text.drop 2)).map Nat.cast
  else if text.take 1 = ['0'] ∧ text ≠ ['0'] ∧ '.' ∉ text then
    (Numeral.read 8 (text.drop 1)).map Nat.cast
  else readDecimal text

def readSigned (text : List Char) : Option Rat :=
  match text with
  | '-' :: unsigned => (readUnsigned unsigned).map (-·)
  | unsigned => readUnsigned unsigned

/-- The number of a text, or of both halves of a text with a tabulator. -/
def read (text : List Char) : Option Rat :=
  match text.dropWhile (· != '\t') with
  | [] => readSigned text
  | _ :: behind => do
    let q ← readSigned (text.takeWhile (· != '\t'))
    if readSigned behind = some q then some q else none

variable {text : List Char} {q : Rat}

theorem bne_tab (whole : '\t' ∉ text) : ∀ c ∈ text, (c != '\t') = true :=
  fun _ inside => bne_iff_ne.mpr (ne_of_mem_of_not_mem inside whole)

structure Shows (text : List Char) (q : Rat) : Prop where
  value : readSigned text = some q
  whole : '\t' ∉ text

theorem Shows.read_eq (h : Shows text q) : read text = some q := by
  rw [read, List.dropWhile_eq_nil_iff.mpr (bne_tab h.whole)]
  exact h.value

theorem Shows.pair {behind : List Char} (h : Shows text q) (again : Shows behind q) :
    read (text ++ '\t' :: behind) = some q := by
  have front : (text ++ '\t' :: behind).takeWhile (· != '\t') = text := by
    rw [List.takeWhile_append_of_pos (bne_tab h.whole)]
    exact List.append_nil _
  have back : (text ++ '\t' :: behind).dropWhile (· != '\t') = '\t' :: behind := by
    rw [List.dropWhile_append_of_pos (bne_tab h.whole)]
    rfl
  rw [read, back]
  dsimp only
  rw [front, h.value]
  exact if_pos again.value

theorem Shows.signed (value : readUnsigned text = some q) (unsigned : '-' ∉ text)
    (whole : '\t' ∉ text) (negative : Prop) [Decidable negative] :
    Shows ((if negative then ['-'] else []) ++ text) (if negative then -q else q) where
  value := by
    split_ifs
    · change (readUnsigned text).map _ = _
      rw [value]
      rfl
    · rw [List.nil_append]
      unfold readSigned
      split
      · exact absurd List.mem_cons_self unsigned
      · exact value
  whole := by
    rw [List.mem_append, not_or]
    refine ⟨?_, whole⟩
    split_ifs <;> decide

theorem Shows.integer {n : Int} (value : readUnsigned text = some (n.natAbs : Rat))
    (unsigned : '-' ∉ text) (whole : '\t' ∉ text) :
    Shows ((if n < 0 then ['-'] else []) ++ text) n := by
  have number : (if n < 0 then -(n.natAbs : Rat) else n.natAbs) = n := by
    rw [Nat.cast_natAbs]
    split_ifs with negative
    · rw [abs_of_neg negative, Int.cast_neg, neg_neg]
    · rw [abs_of_nonneg (not_lt.mp negative)]
  have stated := Shows.signed value unsigned whole (n < 0)
  rwa [number] at stated

theorem readUnsigned_duration (seconds : Nat) :
    readUnsigned (Duration.text seconds) = some (seconds : Rat) := by
  rw [readUnsigned, if_pos (Duration.colon_mem_text seconds), Duration.readTime_text]
  rfl

theorem not_mem_digits {base n : Nat} (two : 2 ≤ base) {c : Char}
    (other : ∀ d < base, Nat.digitChar d ≠ c) : c ∉ Numeral.digits base n := by
  intro inside
  obtain ⟨d, below, rfl⟩ := Numeral.isDigit_of_mem_digits two inside
  exact other d below rfl

theorem not_mem_hexadecimal {c : Char} (notMark : c ∉ ['0', 'x'])
    (other : ∀ d < 16, Nat.digitChar d ≠ c) (n : Nat) :
    c ∉ '0' :: 'x' :: Numeral.hexadecimal n := by
  change c ∉ ['0', 'x'] ++ Numeral.hexadecimal n
  rw [List.mem_append, not_or]
  exact ⟨notMark, not_mem_digits (by decide) other⟩

theorem readUnsigned_hexadecimal (n : Nat) :
    readUnsigned ('0' :: 'x' :: Numeral.hexadecimal n) = some (n : Rat) := by
  have mark : ('0' :: 'x' :: Numeral.hexadecimal n).take 2 = ['0', 'x'] := rfl
  rw [readUnsigned, if_neg (not_mem_hexadecimal (by decide) (by decide) n), if_pos mark]
  change (Numeral.read 16 (Numeral.digits 16 n)).map _ = _
  rw [Numeral.read_digits (by decide) (by decide)]
  rfl

theorem not_mem_octal {c : Char} (notMark : c ≠ '0') (other : ∀ d < 8, Nat.digitChar d ≠ c)
    (n : Nat) : c ∉ '0' :: Numeral.octal n := by
  rw [List.mem_cons, not_or]
  exact ⟨notMark, not_mem_digits (by decide) other⟩

theorem take_two_ne (noMark : 'x' ∉ text) : text.take 2 ≠ ['0', 'x'] := by
  intro same
  have inside : 'x' ∈ text.take 2 := by
    rw [same]
    decide
  exact noMark (List.mem_of_mem_take inside)

theorem readUnsigned_octal (n : Nat) :
    readUnsigned ('0' :: Numeral.octal n) = some (n : Rat) := by
  have more : '0' :: Numeral.octal n ≠ ['0'] := by
    obtain ⟨d, u, same, -⟩ := Numeral.exists_digits_eq_cons (by decide : 2 ≤ 8) n
    rw [Numeral.octal, same]
    exact fun one => List.cons_ne_nil _ _ (List.tail_eq_of_cons_eq one)
  rw [readUnsigned, if_neg (not_mem_octal (by decide) (by decide) n),
    if_neg (take_two_ne (not_mem_octal (by decide) (by decide) n)),
    if_pos ⟨rfl, more, not_mem_octal (by decide) (by decide) n⟩]
  change (Numeral.read 8 (Numeral.digits 8 n)).map _ = _
  rw [Numeral.read_digits (by decide) (by decide)]
  rfl

structure IsDecimal (text : List Char) (q : Rat) : Prop where
  value : readDecimal text = some q
  chars : ∀ c ∈ text, isDigitOrQuote c = true ∨ c = '.'
  /-- Nothing but zero and numbers with a point starts with a zero. -/
  start : text.take 1 = ['0'] → text = ['0'] ∨ '.' ∈ text

theorem IsDecimal.not_mem (h : IsDecimal text q) {c : Char}
    (other : isDigitOrQuote c = false ∧ c ≠ '.') : c ∉ text := by
  intro inside
  rcases h.chars c inside with digit | point
  · rw [other.1] at digit
    cases digit
  · exact other.2 point

theorem IsDecimal.readUnsigned_eq (h : IsDecimal text q) : readUnsigned text = some q := by
  have notOctal : ¬(text.take 1 = ['0'] ∧ text ≠ ['0'] ∧ '.' ∉ text) := fun octal =>
    (h.start octal.1).elim octal.2.1 octal.2.2
  rw [readUnsigned, if_neg (h.not_mem (by decide)),
    if_neg (take_two_ne (h.not_mem (by decide))), if_neg notOctal, h.value]

theorem isDigitOrQuote_of_mem_natural (natural : text ∈ Words.natural) :
    ∀ c ∈ text, isDigitOrQuote c = true := by
  obtain rfl | ⟨c, u, positive, digits, rfl⟩ := Words.mem_natural.mp natural
  · exact List.forall_mem_singleton.mpr rfl
  · refine List.forall_mem_cons.mpr ⟨?_, digits⟩
    rw [isDigitOrQuote, (Bool.and_eq_true_iff.mp positive).1, Bool.true_or]

theorem eq_zero_of_start (natural : text ∈ Words.natural) (zero : text.take 1 = ['0']) :
    text = ['0'] := by
  obtain rfl | ⟨c, u, positive, -, rfl⟩ := Words.mem_natural.mp natural
  · rfl
  · obtain rfl : c = '0' := List.head_eq_of_cons_eq zero
    cases positive

theorem readDecimal_of_natural {n : Nat} (digits : unquoted text = Numeral.decimal n) :
    readDecimal text = some (n : Rat) := by
  have noPoint : ∀ c ∈ Numeral.decimal n, (c != '.') = true := fun c inside =>
    bne_iff_ne.mpr (Grouping.ne_of_mem_decimal inside (by decide))
  have mantissa : RealLiteral.readMantissa (Numeral.decimal n) = some (n, 0) := by
    have value : Numeral.read 10 (Numeral.decimal n) = some n :=
      Numeral.read_digits (by decide) (by decide) n
    rw [RealLiteral.readMantissa, List.takeWhile_eq_self_iff.mpr noPoint,
      List.dropWhile_eq_nil_iff.mpr noPoint]
    change Option.map _ (Numeral.read 10 (Numeral.decimal n ++ [])) = _
    rw [List.append_nil, value]
    rfl
  rw [readDecimal, digits, mantissa]
  change some ((n : Rat) / 10 ^ 0) = _
  rw [pow_zero, div_one]

theorem IsDecimal.natural {n : Nat} (natural : text ∈ Words.natural)
    (digits : unquoted text = Numeral.decimal n) : IsDecimal text n where
  value := readDecimal_of_natural digits
  chars c inside := .inl (isDigitOrQuote_of_mem_natural natural c inside)
  start zero := .inl (eq_zero_of_start natural zero)

theorem IsDecimal.decimal (n : Nat) : IsDecimal (Numeral.decimal n) n :=
  .natural (Words.decimal_mem_int n)
    (unquoted_eq_self (fun _ inside =>
      (Numeral.isDigit_of_mem_digits (by decide) inside).isDecimalDigit) rfl)

theorem IsDecimal.point {integral fraction : List Char} {n : Nat}
    (natural : integral ∈ Words.natural)
    (fractionDigits : ∀ c ∈ fraction, Numeral.isDecimalDigit c = true)
    (value : Numeral.read 10 (unquoted integral ++ fraction) = some n) :
    IsDecimal (integral ++ '.' :: fraction) (n / 10 ^ fraction.length) where
  value := by
    have integralDigits := (unquoted_natural natural).1
    rw [readDecimal, unquoted_append, unquoted_cons (by decide),
      unquoted_eq_self fractionDigits rfl,
      RealSpelling.readMantissa_around integralDigits fractionDigits value]
    rfl
  chars c inside := by
    rcases List.mem_append.mp inside with front | back
    · exact .inl (isDigitOrQuote_of_mem_natural natural c front)
    · rcases List.mem_cons.mp back with point | behind
      · exact .inr point
      · rw [isDigitOrQuote, fractionDigits c behind]
        exact .inl rfl
  start _ := .inr (List.mem_append_right _ List.mem_cons_self)

theorem IsDecimal.grouped (n places : Nat) :
    IsDecimal (Grouping.groupUnsigned (Decimal.text n places)) (n / 10 ^ places) := by
  by_cases whole : places = 0
  · subst whole
    rw [pow_zero, div_one]
    refine .natural (Grouping.groupUnsigned_mem_int n) ?_
    change unquoted (Grouping.groupUnsigned (Numeral.decimal n)) = _
    rw [Grouping.groupUnsigned_decimal, Grouping.unquoted_groupFrom]
    exact unquoted_eq_self (fun _ inside =>
      (Numeral.isDigit_of_mem_digits (by decide) inside).isDecimalDigit) rfl
  · obtain ⟨width, kept, m, grouped, keptDigits, -, value, same⟩ :=
      Decimal.exists_groupUnsigned_text whole n
    have digits : unquoted (Grouping.groupFrom width 0 (Decimal.integral n places)) =
        Decimal.integral n places := by
      rw [Grouping.unquoted_groupFrom]
      exact unquoted_eq_self (fun _ inside => Decimal.isDecimalDigit_of_mem_integral inside) rfl
    rw [grouped, ← same]
    rw [← digits] at value
    exact .point (Grouping.groupFrom_mem_natural _ (Decimal.integral_eq_zero_or_cons n places))
      keptDigits value

theorem IsDecimal.shows (h : IsDecimal text q) (negative : Prop) [Decidable negative] :
    Shows ((if negative then ['-'] else []) ++ text) (if negative then -q else q) :=
  .signed h.readUnsigned_eq (h.not_mem (by decide)) (h.not_mem (by decide)) negative

theorem IsDecimal.shows_integer {n : Int} (h : IsDecimal text (n.natAbs : Rat)) :
    Shows ((if n < 0 then ['-'] else []) ++ text) n :=
  .integer h.readUnsigned_eq (h.not_mem (by decide)) (h.not_mem (by decide))

theorem shows_integer (n : Int) : Shows (Numeral.integer n) n := by
  rw [Value.integer_eq]
  exact (IsDecimal.decimal _).shows_integer

theorem shows_hexText (n : Int) : Shows (Value.hexText n) n :=
  .integer (readUnsigned_hexadecimal _) (not_mem_hexadecimal (by decide) (by decide) _)
    (not_mem_hexadecimal (by decide) (by decide) _)

theorem shows_octText (n : Int) : Shows (Value.octText n) n := by
  by_cases zero : n = 0
  · rw [Value.octText, if_pos zero, zero]
    exact shows_integer 0
  · rw [Value.octText, if_neg zero]
    exact .integer (readUnsigned_octal _) (not_mem_octal (by decide) (by decide) _)
      (not_mem_octal (by decide) (by decide) _)

theorem shows_timeText (n : Int) : Shows (Value.timeText n) n := by
  have absent {c : Char} (other : Lexer.isDigitOrColon c = false) :
      c ∉ Duration.text n.natAbs := by
    intro inside
    rw [Duration.isDigitOrColon_of_mem_text inside] at other
    cases other
  rw [Duration.timeText_eq]
  exact .integer (readUnsigned_duration _) (absent rfl) (absent rfl)

theorem shows_grouped (n : Int) : Shows (Grouping.groupChars (Numeral.integer n)) n := by
  have decimal := IsDecimal.grouped n.natAbs 0
  rw [pow_zero, div_one] at decimal
  change Shows (Value.intText n .dec false) n
  rw [Value.intText_dec]
  exact decimal.shows_integer

theorem read_intText (n : Int) (flavor : Flavor) (programmer : Bool) :
    read (Value.intText n flavor programmer) = some (n : Rat) := by
  cases flavor with
  | hex =>
    cases programmer with
    | true => exact (shows_integer n).pair (shows_hexText n)
    | false => exact (shows_hexText n).read_eq
  | oct => exact (shows_octText n).read_eq
  | time => exact (shows_timeText n).read_eq
  | dec | exp =>
    cases programmer with
    | true => exact (shows_grouped n).pair (shows_hexText n)
    | false => exact (shows_grouped n).read_eq

theorem read_truncatedDecimal (q : Rat) (places : Nat) :
    read (Grouping.groupChars (Value.truncatedDecimal q places)) =
      some (Decimal.truncated q places) := by
  rw [Decimal.truncatedDecimal_eq, Decimal.truncated_eq_cut,
    Grouping.groupChars_signed _ fun _ inside => Decimal.isDecimalDigit_or_eq_of_mem_text inside]
  exact ((IsDecimal.grouped _ places).shows _).read_eq

/-- The text of an integer or a rational shows what is left of the number without the digits behind
those that it is shown with. -/
theorem read_render {v : Value} (h : v.Denotes q) (programmer : Bool) :
    read (v.render programmer).toList = some (Decimal.truncated q v.precision) := by
  obtain ⟨n, flavor, rfl, rfl⟩ | ⟨flavor, places, rfl⟩ := h.cases
  · have whole : Decimal.truncated n 0 = n := by
      rw [Decimal.truncated_eq_iff, pow_zero, mul_one, Rat.isInt, Rat.den_intCast]
      rfl
    rw [Value.render, String.toList_ofList, read_intText]
    exact congrArg some whole.symm
  · rw [Value.render, String.toList_ofList]
    exact read_truncatedDecimal q places

end Calculator.Shown
