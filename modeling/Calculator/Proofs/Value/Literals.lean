import Calculator.Number.Numeral.Positional
import Calculator.Proofs.Date
import Calculator.Proofs.Token.Ending
import Calculator.Proofs.Value.Writing

set_option autoImplicit false

namespace Calculator

open Numeral (number positional isDecimalDigit)

def AreDigits (text : List Char) : Prop :=
  ∀ c ∈ text, isDecimalDigit c = true

section
variable {text rest : List Char}

theorem AreDigits.read_eq (digits : AreDigits text) :
    Numeral.read 10 text = if text = [] then none else some (number 10 text) :=
  Numeral.read_eq fun c inside => Numeral.digitBelow_of_decimal (digits c inside)

theorem AreDigits.append (front : AreDigits text) (back : AreDigits rest) :
    AreDigits (text ++ rest) :=
  List.forall_mem_append.mpr ⟨front, back⟩

theorem AreDigits.forall_mem_some (digits : AreDigits text) : ∀ f ∈ some text, AreDigits f :=
  fun _ same => Option.some.inj same ▸ digits

theorem AreDigits.not_mem (digits : AreDigits text) {c : Char} (other : isDecimalDigit c = false) :
    c ∉ text := by
  intro inside
  rw [digits c inside] at other
  cases other

theorem AreDigits.read_of_ne (digits : AreDigits text) (nonempty : text ≠ []) :
    Numeral.read 10 text = some (number 10 text) := by
  rw [digits.read_eq, if_neg nonempty]

theorem AreDigits.number_append_zeros (digits : AreDigits text) (nonempty : text ≠ [])
    (count : Nat) : number 10 (text ++ List.replicate count '0') = number 10 text * 10 ^ count := by
  have zeros : AreDigits (List.replicate count '0') := fun c inside => by
    rw [List.eq_of_mem_replicate inside]
    rfl
  have read := (digits.append zeros).read_of_ne (List.append_ne_nil_of_left_ne_nil nonempty _)
  obtain ⟨m, value, scaled⟩ := Numeral.exists_read_of_zeros (by decide) nonempty read
  rw [digits.read_of_ne nonempty] at value
  rw [scaled, Option.some.inj value]

theorem AreDigits.number_lt (digits : AreDigits text) : number 10 text < 10 ^ text.length := by
  have read := Numeral.readFrom_eq (fun c mem => Numeral.digitBelow_of_decimal (digits c mem)) 0
  rw [Nat.zero_mul, Nat.zero_add] at read
  have bound := Numeral.lt_of_readFrom read
  rwa [Nat.zero_add, Nat.one_mul] at bound

end

/-- How an exponent is spelled: a mark, a sign or none, and digits, which may be missing. -/
structure ExponentSpelling where
  mark : Char
  sign : List Char
  digits : List Char
  isMark : RealLiteral.isMark mark = true
  isSign : sign = [] ∨ sign = ['+'] ∨ sign = ['-']
  areDigits : AreDigits digits

/-- How a decimal literal is spelled: digits, maybe a point with digits behind it, and maybe an
exponent. Both rows of digits may be empty. -/
structure RealSpelling where
  integral : List Char
  fraction : Option (List Char)
  exponent : Option ExponentSpelling
  integralDigits : AreDigits integral
  fractionDigits : ∀ f ∈ fraction, AreDigits f

namespace ExponentSpelling

variable (e : ExponentSpelling)

def text : List Char :=
  e.mark :: (e.sign ++ e.digits)

def value : Int :=
  if e.sign = ['-'] then -number 10 e.digits else number 10 e.digits

theorem readExponent_unsigned {digits : List Char} (areDigits : AreDigits digits) :
    RealLiteral.readExponent digits = (Numeral.read 10 digits).map Int.ofNat := by
  unfold RealLiteral.readExponent
  split
  · exact absurd List.mem_cons_self (areDigits.not_mem (c := '-') rfl)
  · exact absurd List.mem_cons_self (areDigits.not_mem (c := '+') rfl)
  · rfl

theorem readExponent_eq : RealLiteral.readExponent (e.sign ++ e.digits) =
    if e.digits = [] then none else some e.value := by
  have unsigned := readExponent_unsigned e.areDigits
  have read := e.areDigits.read_eq
  unfold value
  rcases e.isSign with same | same | same <;> rw [same]
  · rw [List.nil_append, unsigned, read]
    split_ifs <;> first | rfl | contradiction
  · change (Numeral.read 10 e.digits).map Int.ofNat = _
    rw [read]
    split_ifs <;> first | rfl | contradiction
  · change ((Numeral.read 10 e.digits).bind fun n => some (n : Int)).map (-·) = _
    rw [read]
    split_ifs <;> first | rfl | contradiction

end ExponentSpelling

namespace RealSpelling

variable (s : RealSpelling)

def decimals : List Char :=
  s.fraction.getD []

def mantissa : List Char :=
  s.integral ++ (s.fraction.map fun f => '.' :: f).getD []

def text : List Char :=
  s.mantissa ++ (s.exponent.map ExponentSpelling.text).getD []

def digits : Nat :=
  number 10 (s.integral ++ s.decimals)

def power : Int :=
  (s.exponent.map ExponentSpelling.value).getD 0

def scale : Int :=
  s.decimals.length - s.power

/-- There are digits in the mantissa and behind the mark of an exponent. -/
structure IsComplete : Prop where
  mantissa : s.integral ++ s.decimals ≠ []
  exponent : ∀ e ∈ s.exponent, e.digits ≠ []

/-- The exponent fits into a word, and no large power of ten is left. -/
structure IsBounded : Prop where
  power : Word.fits64 s.power = true
  scale : s.scale.natAbs ≤ 100000

theorem decimals_areDigits : AreDigits s.decimals := by
  unfold decimals
  cases fraction : s.fraction with
  | none => exact List.forall_mem_nil _
  | some f => exact s.fractionDigits f fraction

theorem readMantissa_eq : RealLiteral.readMantissa s.mantissa =
    if s.integral ++ s.decimals = [] then none else some (s.digits, s.decimals.length) := by
  have noPoint : ∀ c ∈ s.integral, (c != '.') = true := fun c inside =>
    bne_iff_ne.mpr (ne_of_mem_of_not_mem inside (s.integralDigits.not_mem rfl))
  have integral : s.mantissa.takeWhile (· != '.') = s.integral := by
    unfold mantissa
    rw [List.takeWhile_append_of_pos noPoint]
    cases s.fraction with
    | none => exact List.append_nil _
    | some f => exact List.append_nil _
  have decimals : (s.mantissa.dropWhile (· != '.')).drop 1 = s.decimals := by
    unfold mantissa RealSpelling.decimals
    rw [List.dropWhile_append_of_pos noPoint]
    cases s.fraction with
    | none => rfl
    | some f => rfl
  unfold RealLiteral.readMantissa
  dsimp only
  rw [integral, decimals, (s.integralDigits.append s.decimals_areDigits).read_eq]
  unfold digits
  split_ifs <;> rfl

theorem isDecimalDigit_or_eq_of_mem_mantissa {c : Char} (h : c ∈ s.mantissa) :
    isDecimalDigit c = true ∨ c = '.' := by
  rcases List.mem_append.mp h with front | back
  · exact .inl (s.integralDigits c front)
  · cases fraction : s.fraction with
    | none =>
      rw [fraction] at back
      cases back
    | some f =>
      rw [fraction] at back
      exact (List.mem_cons.mp back).symm.imp_left (s.fractionDigits f fraction c)

theorem mantissa_unmarked : ∀ c ∈ s.mantissa, (!RealLiteral.isMark c) = true := by
  intro c inside
  rw [RealLiteral.isMark, Bool.not_eq_true', Bool.or_eq_false_iff]
  constructor <;> refine beq_false_of_ne ?_ <;> rintro rfl <;>
    exact (s.isDecimalDigit_or_eq_of_mem_mantissa inside).elim (by decide) (by decide)

theorem read_eq : RealLiteral.read s.text =
    (if s.integral ++ s.decimals = [] then none else some (s.digits, s.decimals.length)).bind
      fun mantissa => match s.exponent with
        | none => some ⟨mantissa.1, mantissa.2, none⟩
        | some e =>
          if e.digits = [] then none else some ⟨mantissa.1, mantissa.2, some e.value⟩ := by
  have front : s.text.takeWhile (fun c => !RealLiteral.isMark c) = s.mantissa := by
    unfold text
    rw [List.takeWhile_append_of_pos s.mantissa_unmarked]
    cases s.exponent with
    | none => exact List.append_nil _
    | some e =>
      rw [Option.map_some, Option.getD_some, ExponentSpelling.text,
        List.takeWhile_cons_of_neg (by rw [e.isMark]; decide), List.append_nil]
  have back : s.text.dropWhile (fun c => !RealLiteral.isMark c) =
      (s.exponent.map ExponentSpelling.text).getD [] := by
    unfold text
    rw [List.dropWhile_append_of_pos s.mantissa_unmarked]
    cases s.exponent with
    | none => rfl
    | some e =>
      rw [Option.map_some, Option.getD_some, ExponentSpelling.text,
        List.dropWhile_cons_of_neg (by rw [e.isMark]; decide)]
  unfold RealLiteral.read
  dsimp only
  rw [front, back, s.readMantissa_eq]
  refine congrArg (Option.bind _) (funext fun mantissa => ?_)
  cases s.exponent with
  | none => rfl
  | some e =>
    change (RealLiteral.readExponent (e.sign ++ e.digits)).map _ = _
    rw [e.readExponent_eq]
    dsimp only
    split_ifs <;> rfl

def literal : RealLiteral :=
  ⟨s.digits, s.decimals.length, s.exponent.map ExponentSpelling.value⟩

theorem read_of_complete (complete : s.IsComplete) :
    RealLiteral.read s.text = some s.literal := by
  rw [read_eq, if_neg complete.mantissa, Option.bind_some, literal]
  cases exponent : s.exponent with
  | none => rfl
  | some e => exact if_neg (complete.exponent e exponent)

theorem read_of_incomplete (incomplete : ¬s.IsComplete) : RealLiteral.read s.text = none := by
  rw [read_eq]
  split_ifs with empty
  · rfl
  · rw [Option.bind_some]
    cases exponent : s.exponent with
    | none => exact absurd ⟨empty, by simp [exponent]⟩ incomplete
    | some e =>
      refine if_pos (by_contra fun digits => incomplete ⟨empty, fun e' mem => ?_⟩)
      rw [exponent, Option.mem_some_iff] at mem
      exact mem ▸ digits

def number : Rat :=
  s.digits * 10 ^ (-s.scale)

theorem toRat?_of_bounded (bounded : s.IsBounded) : s.literal.toRat? = some s.number := by
  have both : (Word.fits64 (s.literal.exponent.getD 0) &&
      decide (s.literal.scale.natAbs ≤ RealLiteral.maximalScale)) = true :=
    Bool.and_eq_true_iff.mpr ⟨bounded.power, decide_eq_true bounded.scale⟩
  unfold RealLiteral.toRat?
  rw [if_pos both]
  refine congrArg some ?_
  change (if 0 ≤ s.scale then mkRat s.digits (10 ^ s.scale.toNat : Nat)
    else ((s.digits * 10 ^ (-s.scale).toNat : Nat) : Rat)) = s.digits * 10 ^ (-s.scale)
  split_ifs with positive
  · rw [Rat.mkRat_eq_div, zpow_neg, div_eq_mul_inv]
    push_cast
    rw [← zpow_natCast, Int.toNat_of_nonneg positive]
  · push_cast
    rw [← zpow_natCast, Int.toNat_of_nonneg (by omega)]

theorem toRat?_of_unbounded (unbounded : ¬s.IsBounded) : s.literal.toRat? = none := by
  unfold RealLiteral.toRat?
  refine if_neg fun both => unbounded ?_
  obtain ⟨power, scale⟩ := Bool.and_eq_true_iff.mp both
  exact ⟨power, of_decide_eq_true scale⟩

def precision : Nat :=
  (min 64 (max 1 s.scale)).toNat

theorem real_of_bounded (complete : s.IsComplete) (bounded : s.IsBounded) :
    Literal.real .rational (String.ofList s.text) = .ok (.rational s.number .dec s.precision) := by
  have precision : Literal.exactPrecision s.literal = s.precision := by
    change min 64 (max 1 s.scale.toNat) = (min 64 (max 1 s.scale)).toNat
    omega
  rw [Literal.real, String.toList_ofList, s.read_of_complete complete]
  dsimp only
  rw [s.toRat?_of_bounded bounded, precision]

theorem real_of_refused (refused : ¬(s.IsComplete ∧ s.IsBounded)) :
    Literal.real .rational (String.ofList s.text) =
      .error (.badNumber (String.ofList s.text)) := by
  rw [Literal.real, String.toList_ofList]
  by_cases complete : s.IsComplete
  · rw [s.read_of_complete complete]
    dsimp only
    rw [s.toRat?_of_unbounded fun bounded => refused ⟨complete, bounded⟩]
  · rw [s.read_of_incomplete complete]

section
variable {integral fraction : List Char} {n : Nat} (front : AreDigits integral)
  (back : AreDigits fraction)

def around : RealSpelling where
  integral := integral
  fraction := some fraction
  exponent := none
  integralDigits := front
  fractionDigits := back.forall_mem_some

variable (value : Numeral.read 10 (integral ++ fraction) = some n)
include front back value

theorem digits_around : (around front back).digits = n ∧ (around front back).IsComplete := by
  have nonempty : integral ++ fraction ≠ [] := fun empty => by
    rw [empty] at value
    cases value
  rw [(front.append back).read_of_ne nonempty] at value
  exact ⟨Option.some.inj value, nonempty, nofun⟩

theorem readMantissa_around :
    RealLiteral.readMantissa (integral ++ '.' :: fraction) = some (n, fraction.length) := by
  obtain ⟨digits, complete⟩ := digits_around front back value
  rw [← digits]
  exact (around front back).readMantissa_eq.trans (if_neg complete.mantissa)

theorem number_around : (around front back).number = n / 10 ^ fraction.length := by
  have scale : (around front back).scale = fraction.length := Int.sub_zero _
  rw [number, scale, (digits_around front back value).1, zpow_neg, zpow_natCast, div_eq_mul_inv]

theorem real_around (few : fraction.length ≤ 64) :
    Literal.real .rational (String.ofList (integral ++ '.' :: fraction)) =
      .ok (.rational (n / 10 ^ fraction.length) .dec (around front back).precision) := by
  have scale : (around front back).scale = fraction.length := Int.sub_zero _
  have bounded : (around front back).IsBounded :=
    ⟨show Word.fits64 0 = true by decide, by omega⟩
  have text : (around front back).text = integral ++ '.' :: fraction := List.append_nil _
  have real := (around front back).real_of_bounded (digits_around front back value).2 bounded
  rwa [text, number_around front back value] at real

end

end RealSpelling

section
open Words
open Lexer (isDigitOrQuote isDigitOrColon unquoted_append unquoted_cons unquoted_eq_self ne_quote
  unquoted_signedDigits)

variable {word u : List Char}

theorem areDigits_unquoted (digits : ∀ c ∈ u, isDigitOrQuote c = true) :
    AreDigits (unquoted u) := by
  intro c inside
  obtain ⟨inside, notQuote⟩ := List.mem_filter.mp inside
  have either := digits c inside
  rw [isDigitOrQuote, Bool.or_eq_true] at either
  exact either.resolve_right fun quote => bne_iff_ne.mp notQuote (beq_iff_eq.mp quote)

theorem unquoted_natural (mem : word ∈ natural) :
    AreDigits (unquoted word) ∧ unquoted word ≠ [] := by
  rcases mem_natural.mp mem with rfl | ⟨c, u, positive, digits, rfl⟩
  · have zero : AreDigits ['0'] := List.forall_mem_singleton.mpr rfl
    exact ⟨zero, List.cons_ne_nil _ _⟩
  · have first : isDecimalDigit c = true := (Bool.and_eq_true_iff.mp positive).1
    rw [unquoted_cons (ne_quote first rfl)]
    exact ⟨List.forall_mem_cons.mpr ⟨first, areDigits_unquoted digits⟩, List.cons_ne_nil _ _⟩

theorem exists_exponentSpelling (mem : word ∈ exponent) :
    ∃ e : ExponentSpelling, e.text = unquoted word := by
  obtain ⟨m, u, isMark, signed, rfl⟩ := mem_exponent.mp mem
  rw [unquoted_cons (ne_quote isMark rfl), unquoted_signedDigits signed]
  obtain ⟨sign, digits, isSign, areDigits, rfl⟩ := signed
  exact ⟨⟨m, sign, digits, isMark, isSign, areDigits⟩, rfl⟩

theorem exists_realSpelling_of_mantissa (integral : List Char) (fraction : Option (List Char))
    (integralDigits : AreDigits integral) (fractionDigits : ∀ f ∈ fraction, AreDigits f)
    (mem : word = [] ∨ word ∈ exponent) :
    ∃ s : RealSpelling, s.text =
      integral ++ (fraction.map fun f => '.' :: f).getD [] ++ unquoted word := by
  rcases mem with rfl | mem
  · exact ⟨⟨integral, fraction, none, integralDigits, fractionDigits⟩, rfl⟩
  · obtain ⟨e, same⟩ := exists_exponentSpelling mem
    exact ⟨⟨integral, fraction, some e, integralDigits, fractionDigits⟩,
      congrArg (List.append _) same⟩

theorem exists_realSpelling (mem : word ∈ Kind.real.words) :
    ∃ s : RealSpelling, s.text = unquoted word := by
  -- A number in front of a point may be missing.
  have pointed (n f : List Char) (digits : AreDigits (unquoted n)) (fraction : Fraction f) :
      ∃ s : RealSpelling, s.text = unquoted (n ++ '.' :: f) := by
    obtain ⟨u, e, decimals, exponent, rfl⟩ := fraction
    obtain ⟨s, same⟩ := exists_realSpelling_of_mantissa (unquoted n) (some (unquoted u)) digits
      (fun f mem => Option.mem_some.mp mem ▸ areDigits_unquoted decimals) exponent
    refine ⟨s, same.trans ?_⟩
    rw [unquoted_append, unquoted_cons (by decide), unquoted_append]
    simp
  rcases mem_real.mp mem with ⟨f, fraction, rfl⟩ | ⟨n, f, natural, fraction, rfl⟩ |
    ⟨c, u, e, positive, digits, exponent, rfl⟩
  · exact pointed [] f (List.forall_mem_nil _) fraction
  · exact pointed n f (unquoted_natural natural).1 fraction
  · have natural : c :: u ∈ natural := mem_natural.mpr (.inr ⟨c, u, positive, digits, rfl⟩)
    obtain ⟨s, same⟩ := exists_realSpelling_of_mantissa (unquoted (c :: u)) none
      (unquoted_natural natural).1 nofun (.inr exponent)
    refine ⟨s, same.trans ?_⟩
    rw [← List.cons_append, unquoted_append]
    simp

theorem exists_parts (digits : ∀ c ∈ u, isDigitOrColon c = true) :
    ∃ (part : List Char) (parts : List (List Char)), AreDigits part ∧ (∀ p ∈ parts, AreDigits p) ∧
      u = part ++ parts.flatMap (':' :: ·) := by
  induction u with
  | nil => exact ⟨[], [], List.forall_mem_nil _, List.forall_mem_nil _, rfl⟩
  | cons c u ih =>
    obtain ⟨first, rest⟩ := List.forall_mem_cons.mp digits
    obtain ⟨part, parts, isPart, areParts, rfl⟩ := ih rest
    rcases Bool.or_eq_true_iff.mp first with digit | colon
    · exact ⟨c :: part, parts, List.forall_mem_cons.mpr ⟨digit, isPart⟩, areParts, rfl⟩
    · obtain rfl := eq_of_beq colon
      exact ⟨[], part :: parts, List.forall_mem_nil _, List.forall_mem_cons.mpr ⟨isPart, areParts⟩,
        rfl⟩

theorem intercalate_colon (part : List Char) (parts : List (List Char)) :
    [':'].intercalate (part :: parts) = part ++ parts.flatMap (':' :: ·) := by
  induction parts generalizing part with
  | nil => rw [List.intercalate_singleton, List.flatMap_nil, List.append_nil]
  | cons next parts ih =>
    rw [List.intercalate_cons_cons, ih, List.flatMap_cons, List.append_assoc]
    rfl

theorem exists_timeParts (mem : word ∈ Kind.time.words) :
    ∃ parts, parts ≠ [] ∧ (∀ p ∈ parts, AreDigits p) ∧ unquoted word = [':'].intercalate parts := by
  obtain ⟨n, u, natural, rest, rfl⟩ := mem_time.mp mem
  obtain ⟨part, parts, isPart, areParts, rfl⟩ := exists_parts rest
  refine ⟨unquoted n :: part :: parts, List.cons_ne_nil _ _, ?_, ?_⟩
  · exact List.forall_mem_cons.mpr
      ⟨(unquoted_natural natural).1, List.forall_mem_cons.mpr ⟨isPart, areParts⟩⟩
  · rw [intercalate_colon, unquoted_append, unquoted_cons (by decide), unquoted_eq_self rest rfl]
    rfl

end

namespace Literal

variable {parts : List (List Char)}

theorem fields_intercalate (nonempty : parts ≠ []) (digits : ∀ p ∈ parts, AreDigits p) :
    fields ([':'].intercalate parts) = parts := by
  obtain ⟨part, parts, rfl⟩ := List.exists_cons_of_ne_nil nonempty
  obtain ⟨first, rest⟩ := List.forall_mem_cons.mp digits
  rw [intercalate_colon]
  exact fields_flatMap (first.not_mem rfl) fun p mem => (rest p mem).not_mem rfl

theorem readSeconds_eq (digits : ∀ p ∈ parts, AreDigits p) (seconds : Nat) :
    readSeconds seconds parts = if ∀ p ∈ parts, p ≠ [] then
      some (seconds * 60 ^ parts.length + positional 60 (parts.map (number 10))) else none := by
  induction parts generalizing seconds with
  | nil =>
    rw [if_pos (List.forall_mem_nil _), readSeconds, List.length_nil, Nat.pow_zero, Nat.mul_one]
    rfl
  | cons part parts ih =>
    obtain ⟨first, rest⟩ := List.forall_mem_cons.mp digits
    rw [readSeconds, first.read_eq]
    by_cases empty : part = []
    · rw [if_pos empty, if_neg fun all => all part List.mem_cons_self empty]
      rfl
    · rw [if_neg empty]
      change readSeconds (seconds * 60 + number 10 part) parts = _
      rw [ih rest, List.map_cons, Numeral.positional_cons, List.length_map, List.length_cons,
        Nat.add_mul, Nat.pow_succ', Nat.mul_assoc, Nat.add_assoc]
      simp only [List.forall_mem_cons, ne_eq, empty, not_false_eq_true, true_and]

theorem time_eq (nonempty : parts ≠ []) (digits : ∀ p ∈ parts, AreDigits p) :
    time (String.ofList ([':'].intercalate parts)) =
      if (parts.length = 2 ∨ parts.length = 3) ∧ ∀ p ∈ parts, p ≠ [] then
        .ok (.int (positional 60 (parts.map (number 10))) .time)
      else .error (.badTime (String.ofList ([':'].intercalate parts))) := by
  rw [time, String.toList_ofList, readTime, fields_intercalate nonempty digits]
  by_cases few : parts.length = 2 ∨ parts.length = 3
  · rw [if_pos few, readSeconds_eq digits, Nat.zero_mul, Nat.zero_add]
    simp only [few, true_and]
    split_ifs <;> rfl
  · rw [if_neg few, if_neg fun both => few both.1]

end Literal

def Civil.ofDigits (digits : List Char) : Civil :=
  ⟨number 10 (digits.take 4), number 10 ((digits.drop 4).take 2), number 10 (digits.drop 6)⟩

namespace Literal

variable {digits : List Char}

theorem exists_ofCivil? {c : Civil} (valid : c.isValid = true) (low : 0 ≤ c.year)
    (high : c.year ≤ 9999) : ∃ d, Date.ofCivil? c = some d ∧ d.civil = c := by
  have inRange : c.InRange := by
    unfold Civil.InRange Civil.Before
    dsimp only
    omega
  have between := (Civil.inRange_iff valid).mp inRange
  refine ⟨⟨c.dayNumber, between⟩, ?_, ?_⟩
  · rw [Date.ofCivil?, if_pos valid, Date.ofDay?, dif_pos between]
  · exact (Civil.dayNumber_inj (Civil.isValid_ofDayNumber _) valid).mp
      (Civil.dayNumber_ofDayNumber _)

theorem readDate_eq (areDigits : AreDigits digits) (eight : digits.length = 8) :
    readDate digits = Date.ofCivil? (.ofDigits digits) := by
  have year : Numeral.read 10 (digits.take 4) = some (number 10 (digits.take 4)) :=
    AreDigits.read_of_ne (fun c mem => areDigits c (List.mem_of_mem_take mem))
      (List.ne_nil_of_length_pos (by rw [List.length_take]; omega))
  have month : Numeral.read 10 ((digits.drop 4).take 2) =
      some (number 10 ((digits.drop 4).take 2)) :=
    AreDigits.read_of_ne
      (fun c mem => areDigits c (List.mem_of_mem_drop (List.mem_of_mem_take mem)))
      (List.ne_nil_of_length_pos (by rw [List.length_take, List.length_drop]; omega))
  have day : Numeral.read 10 (digits.drop 6) = some (number 10 (digits.drop 6)) :=
    AreDigits.read_of_ne (fun c mem => areDigits c (List.mem_of_mem_drop mem))
      (List.ne_nil_of_length_pos (by rw [List.length_drop]; omega))
  unfold readDate
  rw [if_neg (not_not_intro eight), year, month, day]
  rfl

theorem date_of_valid (areDigits : AreDigits digits) (eight : digits.length = 8)
    (valid : (Civil.ofDigits digits).isValid = true) :
    ∃ d, d.civil = Civil.ofDigits digits ∧ date (String.ofList digits) = .ok (.date d) := by
  have short := AreDigits.number_lt fun c mem => areDigits c (List.mem_of_mem_take (i := 4) mem)
  rw [List.length_take, eight] at short
  have year : (Civil.ofDigits digits).year ≤ 9999 := Int.ofNat_le.mpr (Nat.le_of_lt_succ short)
  obtain ⟨d, isDate, same⟩ := exists_ofCivil? valid (Int.natCast_nonneg _) year
  refine ⟨d, same, ?_⟩
  rw [date, String.toList_ofList, readDate_eq areDigits eight, isDate]

theorem date_of_refused (areDigits : AreDigits digits)
    (refused : ¬(digits.length = 8 ∧ (Civil.ofDigits digits).isValid = true)) :
    date (String.ofList digits) = .error (.badDate (String.ofList digits)) := by
  have none : readDate digits = none := by
    by_cases eight : digits.length = 8
    · rw [readDate_eq areDigits eight, Date.ofCivil?, if_neg fun valid => refused ⟨eight, valid⟩]
    · rw [readDate, if_pos eight]
      rfl
  rw [date, String.toList_ofList, none]

end Literal

/-- The value of a literal token is the one that its digits denote, in every mode but for decimal
literals. -/
structure Token.Denotes (t : Token) : Prop where
  int : t.kind = .int → AreDigits t.text.toList ∧
    ∀ mode, Literal.value mode t = .ok (.int (number 10 t.text.toList) .dec)
  /-- The digits may be missing, which is an error. -/
  hex : t.kind = .hex → ∃ mark digits, t.text.toList = '0' :: mark :: digits ∧
    (∀ c ∈ digits, Numeral.isHexadecimalDigit c = true) ∧
    ∀ mode, Literal.value mode t =
      if digits = [] then .error (.badNumber t.text) else .ok (.int (number 16 digits) .hex)
  oct : t.kind = .oct → ∃ digits, t.text.toList = '0' :: digits ∧
    (∀ c ∈ digits, Numeral.isOctalDigit c = true) ∧
    ∀ mode, Literal.value mode t = .ok (.int (number 8 digits) .oct)
  real : t.kind = .real → ∃ s : RealSpelling, t.text.toList = s.text ∧
    Literal.value .undefined t = .error .realInUndefinedMode ∧
    (s.IsComplete ∧ s.IsBounded →
      Literal.value .rational t = .ok (.rational s.number .dec s.precision)) ∧
    (¬(s.IsComplete ∧ s.IsBounded) → Literal.value .rational t = .error (.badNumber t.text))
  /-- Two or three numbers, each of them counting sixty times the next one. -/
  time : t.kind = .time → ∃ parts, t.text.toList = [':'].intercalate parts ∧
    (∀ p ∈ parts, AreDigits p) ∧
    ∀ mode, Literal.value mode t =
      if (parts.length = 2 ∨ parts.length = 3) ∧ ∀ p ∈ parts, p ≠ [] then
        .ok (.int (positional 60 (parts.map (number 10))) .time)
      else .error (.badTime t.text)
  date : t.kind = .date → AreDigits t.text.toList ∧
    ∀ mode,
      (t.text.toList.length = 8 ∧ (Civil.ofDigits t.text.toList).isValid = true →
        ∃ d : Date, d.civil = Civil.ofDigits t.text.toList ∧
          Literal.value mode t = .ok (.date d)) ∧
      (¬(t.text.toList.length = 8 ∧ (Civil.ofDigits t.text.toList).isValid = true) →
        Literal.value mode t = .error (.badDate t.text))

namespace Token

open Words (mem_hex mem_oct mem_date)

variable {t : Token}

section
variable {word : List Char} (mem : word ∈ t.kind.words)
  (text : t.text = String.ofList (t.kind.textOf word))

include mem text

theorem int_denotes (kind : t.kind = .int) : AreDigits t.text.toList ∧
    ∀ mode, Literal.value mode t = .ok (.int (number 10 t.text.toList) .dec) := by
  rw [kind] at mem text
  obtain ⟨digits, nonempty⟩ := unquoted_natural mem
  have written : t.text.toList = unquoted word := by
    rw [text]
    exact String.toList_ofList
  rw [← written] at digits nonempty
  refine ⟨digits, fun mode => ?_⟩
  rw [Literal.value, kind]
  change Literal.integer t.text 10 t.text.toList .dec = _
  rw [Literal.integer, digits.read_of_ne nonempty]

theorem hex_denotes (kind : t.kind = .hex) :
    ∃ mark digits, t.text.toList = '0' :: mark :: digits ∧
      (∀ c ∈ digits, Numeral.isHexadecimalDigit c = true) ∧
      ∀ mode, Literal.value mode t =
        if digits = [] then .error (.badNumber t.text) else .ok (.int (number 16 digits) .hex) := by
  rw [kind] at mem text
  obtain ⟨mark, digits, isMark, areDigits, rfl⟩ := mem_hex.mp mem
  have written : t.text.toList = '0' :: mark :: digits := by
    rw [text, String.toList_ofList]
    change unquoted ('0' :: mark :: digits) = _
    rw [Lexer.unquoted_cons (by decide), Lexer.unquoted_cons (Lexer.ne_quote isMark rfl),
      Lexer.unquoted_eq_self areDigits rfl]
  refine ⟨mark, digits, written, areDigits, fun mode => ?_⟩
  rw [Literal.value, kind]
  change Literal.integer t.text 16 (t.text.toList.drop 2) .hex = _
  rw [Literal.integer, written, List.drop_succ_cons, List.drop_succ_cons, List.drop_zero,
    Numeral.read_eq fun c mem => Numeral.digitBelow_of_hexadecimal (areDigits c mem)]
  split_ifs <;> rfl

theorem oct_denotes (kind : t.kind = .oct) : ∃ digits, t.text.toList = '0' :: digits ∧
    (∀ c ∈ digits, Numeral.isOctalDigit c = true) ∧
    ∀ mode, Literal.value mode t = .ok (.int (number 8 digits) .oct) := by
  rw [kind] at mem text
  obtain ⟨c, u, first, rest, rfl⟩ := mem_oct.mp mem
  have areDigits : ∀ x ∈ c :: u, Numeral.isOctalDigit x = true :=
    List.forall_mem_cons.mpr ⟨first, rest⟩
  have written : t.text.toList = '0' :: c :: u := by
    rw [text, String.toList_ofList]
    change unquoted ('0' :: c :: u) = _
    rw [Lexer.unquoted_cons (by decide), Lexer.unquoted_eq_self areDigits rfl]
  refine ⟨c :: u, written, areDigits, fun mode => ?_⟩
  rw [Literal.value, kind]
  change Literal.integer t.text 8 (t.text.toList.drop 1) .oct = _
  rw [Literal.integer, written, List.drop_succ_cons, List.drop_zero,
    Numeral.read_eq fun c mem => Numeral.digitBelow_of_octal (areDigits c mem),
    if_neg (List.cons_ne_nil c u)]

theorem real_denotes (kind : t.kind = .real) : ∃ s : RealSpelling, t.text.toList = s.text ∧
    Literal.value .undefined t = .error .realInUndefinedMode ∧
    (s.IsComplete ∧ s.IsBounded →
      Literal.value .rational t = .ok (.rational s.number .dec s.precision)) ∧
    (¬(s.IsComplete ∧ s.IsBounded) →
      Literal.value .rational t = .error (.badNumber t.text)) := by
  rw [kind] at mem text
  obtain ⟨s, same⟩ := exists_realSpelling mem
  have written : t.text = String.ofList s.text := by rw [text, same]; rfl
  have value (mode : NumericMode) :
      Literal.value mode t = Literal.real mode (String.ofList s.text) := by
    rw [Literal.value, kind, written]
  refine ⟨s, by rw [written, String.toList_ofList], value .undefined, fun accepted => ?_,
    fun refused => ?_⟩
  · rw [value, s.real_of_bounded accepted.1 accepted.2]
  · rw [value, s.real_of_refused refused, written]

theorem time_denotes (kind : t.kind = .time) : ∃ parts, t.text.toList = [':'].intercalate parts ∧
    (∀ p ∈ parts, AreDigits p) ∧
    ∀ mode, Literal.value mode t =
      if (parts.length = 2 ∨ parts.length = 3) ∧ ∀ p ∈ parts, p ≠ [] then
        .ok (.int (positional 60 (parts.map (number 10))) .time)
      else .error (.badTime t.text) := by
  rw [kind] at mem text
  obtain ⟨parts, nonempty, areDigits, same⟩ := exists_timeParts mem
  have written : t.text = String.ofList ([':'].intercalate parts) := by rw [text, ← same]; rfl
  refine ⟨parts, by rw [written, String.toList_ofList], areDigits, fun mode => ?_⟩
  rw [Literal.value, kind, written]
  exact Literal.time_eq nonempty areDigits

theorem date_denotes (kind : t.kind = .date) : AreDigits t.text.toList ∧
    ∀ mode,
      (t.text.toList.length = 8 ∧ (Civil.ofDigits t.text.toList).isValid = true →
        ∃ d : Date, d.civil = Civil.ofDigits t.text.toList ∧
          Literal.value mode t = .ok (.date d)) ∧
      (¬(t.text.toList.length = 8 ∧ (Civil.ofDigits t.text.toList).isValid = true) →
        Literal.value mode t = .error (.badDate t.text)) := by
  rw [kind] at mem text
  obtain ⟨u, areDigits, rfl⟩ := mem_date.mp mem
  have written : t.text = String.ofList u := by
    rw [text]
    change String.ofList (unquoted u) = _
    rw [Lexer.unquoted_eq_self areDigits rfl]
  have value (mode : NumericMode) :
      Literal.value mode t = Literal.date (String.ofList u) := by
    rw [Literal.value, kind, written]
  rw [written, String.toList_ofList]
  refine ⟨areDigits, fun mode => ⟨fun accepted => ?_, fun refused => ?_⟩⟩
  · rw [value]
    exact Literal.date_of_valid areDigits accepted.1 accepted.2
  · rw [value]
    exact Literal.date_of_refused areDigits refused

end

/-- Any token that comes out of a source, whether it is a text or not, has a word of its kind, and
if it is a literal, its value is what the word denotes without its quotes. -/
theorem denotes_of_mem_tokens {source : Utf8.Source} (mem : t ∈ (Lexer.ofSource source).tokens) :
    Lexer.Spelled t ∧ t.Denotes := by
  have spelled := Lexer.spelled_of_mem_tokens mem
  refine ⟨spelled, ?_⟩
  rcases spelled with kind | kind | ⟨word, mem, text⟩
  · constructor <;> intro other <;> rw [kind] at other <;> cases other
  · constructor <;> intro other <;> rw [kind] at other <;> cases other
  · exact ⟨int_denotes mem text, hex_denotes mem text, oct_denotes mem text, real_denotes mem text,
      time_denotes mem text, date_denotes mem text⟩

/-- A number with quotes, a point and an exponent in a source whose reading fails behind it. -/
theorem denotes_of_mem_tokens_failing :
    let source : Utf8.Source := ⟨[49, 39, 48, 46, 50, 53, 101, 49, 32].map .byte, some .broken⟩
    let t : Token := ⟨.real, "10.25e1", 1⟩
    t ∈ (Lexer.ofSource source).tokens ∧ Lexer.Spelled t ∧ t.Denotes := by
  intro source t
  have mem : t ∈ (Lexer.ofSource source).tokens := by decide
  exact ⟨mem, denotes_of_mem_tokens mem⟩

end Token

end Calculator
