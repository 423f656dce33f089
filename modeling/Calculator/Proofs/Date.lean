import Calculator.Date
import Mathlib.Logic.Function.Iterate
import Mathlib.Tactic.SplitIfs

set_option autoImplicit false

namespace Calculator

namespace Civil

def yearOfEra (dayOfEra : Int) : Int :=
  (dayOfEra - dayOfEra / 1460 + dayOfEra / 36524 - dayOfEra / 146096) / 365

def yearStart (year : Int) : Int :=
  365 * year + year / 4 - year / 100

def ofYearDay (year dayOfYear : Int) : Civil :=
  let month := (5 * dayOfYear + 2) / 153
  let day := dayOfYear - (153 * month + 2) / 5 + 1
  if month < 10 then ⟨year, (month + 3).toNat, day.toNat⟩
  else ⟨year + 1, (month - 9).toNat, day.toNat⟩

theorem ofDayNumber_eq (n : Int) :
    ofDayNumber n = ofYearDay (n / 146097 * 400 + yearOfEra (n % 146097))
      (n % 146097 - yearStart (yearOfEra (n % 146097))) :=
  rfl

section
variable {d : Int}

theorem yearOfEra_bounds (low : 0 ≤ d) (high : d < 146097) :
    0 ≤ yearOfEra d ∧ yearOfEra d < 400 := by
  unfold yearOfEra
  omega

theorem yearStart_bounds (low : 0 ≤ d) (high : d < 146097) :
    0 ≤ d - yearStart (yearOfEra d) ∧ d - yearStart (yearOfEra d) ≤ 365 := by
  obtain ⟨y, year⟩ : ∃ y, y = yearOfEra d := ⟨_, rfl⟩
  rw [← year, yearStart]
  unfold yearOfEra at year
  -- Cycles counted by days differ by at most one from those counted by years.
  have fours : d / 1460 = y / 4 ∨ d / 1460 = y / 4 + 1 ∨ d / 1460 = y / 4 - 1 := by omega
  have centuries : d / 36524 = y / 100 ∨ d / 36524 = y / 100 + 1 := by omega
  omega

theorem isLeapYear_of_last (low : 0 ≤ d) (high : d < 146097)
    (last : d - yearStart (yearOfEra d) = 365) (era : Int) :
    isLeapYear (era * 400 + yearOfEra d + 1) = true := by
  obtain ⟨y, year⟩ : ∃ y, y = yearOfEra d := ⟨_, rfl⟩
  have years := yearOfEra_bounds low high
  rw [← year] at years last ⊢
  unfold yearStart at last
  unfold yearOfEra at year
  have fours : d / 1460 = y / 4 ∨ d / 1460 = y / 4 + 1 ∧ y % 4 = 3 ∨ d / 1460 = y / 4 - 1 := by
    omega
  have centuries : d / 36524 = y / 100 ∨ d / 36524 = y / 100 + 1 ∧ y % 100 = 99 := by omega
  have fourth : (y + 1) % 4 = 0 := by omega
  have century : (y + 1) % 100 ≠ 0 ∨ (y + 1) % 400 = 0 := by omega
  simp only [isLeapYear, Bool.and_eq_true, Bool.or_eq_true, decide_eq_true_eq]
  omega

end

section
variable {year day : Int}

theorem dayNumber_ofYearDay (low : 0 ≤ day) (high : day ≤ 365) :
    (ofYearDay year day).dayNumber = year / 400 * 146097 + (yearStart (year % 400) + day) := by
  unfold ofYearDay dayNumber yearStart
  dsimp only
  by_cases spring : (5 * day + 2) / 153 < 10
  · have late : ¬((5 * day + 2) / 153 + 3).toNat ≤ 2 := by omega
    simp only [if_pos spring, if_neg late]
    omega
  · have early : ((5 * day + 2) / 153 - 9).toNat ≤ 2 := by omega
    simp only [if_neg spring, if_pos early]
    omega

theorem isValid_ofYearDay (low : 0 ≤ day) (high : day ≤ 365)
    (leap : day = 365 → isLeapYear (year + 1) = true) : (ofYearDay year day).isValid = true := by
  unfold ofYearDay isValid monthLength
  dsimp only
  by_cases spring : (5 * day + 2) / 153 < 10
  · simp only [if_pos spring, Bool.and_eq_true, decide_eq_true_eq]
    split_ifs <;> omega
  · simp only [if_neg spring, Bool.and_eq_true, decide_eq_true_eq]
    by_cases last : day = 365
    · simp only [leap last, last]
      decide
    · split_ifs <;> omega

end

theorem dayNumber_ofDayNumber (n : Int) : (ofDayNumber n).dayNumber = n := by
  obtain ⟨d, day⟩ : ∃ d, d = n % 146097 := ⟨_, rfl⟩
  have low : 0 ≤ d := by omega
  have high : d < 146097 := by omega
  have years := yearOfEra_bounds low high
  have days := yearStart_bounds low high
  have era : (n / 146097 * 400 + yearOfEra d) / 400 = n / 146097 := by omega
  have rest : (n / 146097 * 400 + yearOfEra d) % 400 = yearOfEra d := by omega
  rw [ofDayNumber_eq, ← day, dayNumber_ofYearDay days.1 days.2, era, rest]
  omega

theorem isValid_ofDayNumber (n : Int) : (ofDayNumber n).isValid = true := by
  have low : 0 ≤ n % 146097 := by omega
  have high : n % 146097 < 146097 := by omega
  have days := yearStart_bounds low high
  rw [ofDayNumber_eq]
  exact isValid_ofYearDay days.1 days.2 fun last => isLeapYear_of_last low high last _

/-- The order of the calendar: by years, then by months, then by days. -/
def Before (c d : Civil) : Prop :=
  c.year < d.year ∨ c.year = d.year ∧ (c.month < d.month ∨ c.month = d.month ∧ c.day < d.day)

instance (c d : Civil) : Decidable (c.Before d) :=
  inferInstanceAs (Decidable (_ ∨ _))

theorem before_trichotomy (c d : Civil) : c.Before d ∨ c = d ∨ d.Before c := by
  cases c
  cases d
  simp only [Before, mk.injEq]
  omega

def marchYear (c : Civil) : Int :=
  if c.month ≤ 2 then c.year - 1 else c.year

def marchMonth (c : Civil) : Int :=
  if c.month ≤ 2 then c.month + 9 else c.month - 3

def yearDays (year : Int) : Int :=
  365 * year + year / 4 - year / 100 + year / 400

def monthDays (month : Int) : Int :=
  (153 * month + 2) / 5

def yearLength (year : Int) : Int :=
  if isLeapYear (year + 1) then 366 else 365

theorem dayNumber_eq (c : Civil) :
    c.dayNumber = yearDays c.marchYear + monthDays c.marchMonth + c.day - 1 := by
  unfold dayNumber yearDays monthDays marchYear marchMonth
  dsimp only
  omega

theorem yearDays_succ (year : Int) : yearDays (year + 1) = yearDays year + yearLength year := by
  simp only [yearDays, yearLength, isLeapYear, Bool.and_eq_true, Bool.or_eq_true,
    decide_eq_true_eq]
  split_ifs <;> omega

theorem yearDays_mono {y z : Int} (h : y ≤ z) : yearDays y ≤ yearDays z := by
  unfold yearDays
  omega

section
variable {c d : Civil}

theorem isValid_iff : c.isValid = true ↔
    (1 ≤ c.month ∧ c.month ≤ 12) ∧ 1 ≤ c.day ∧ c.day ≤ monthLength c.year c.month := by
  simp only [isValid, Bool.and_eq_true, decide_eq_true_eq, and_assoc]

theorem marchMonth_bounds (valid : c.isValid = true) : 0 ≤ c.marchMonth ∧ c.marchMonth ≤ 11 := by
  have months := (isValid_iff.mp valid).1
  unfold marchMonth
  omega

theorem monthDays_add_monthLength (low : 1 ≤ c.month) (high : c.month ≤ 12) :
    monthDays c.marchMonth + monthLength c.year c.month =
      if c.marchMonth = 11 then yearLength c.marchYear else monthDays (c.marchMonth + 1) := by
  by_cases february : c.month = 2
  · have year : c.marchYear + 1 = c.year := by
      unfold marchYear
      omega
    have month : c.marchMonth = 11 := by
      unfold marchMonth
      omega
    -- February is the last month and is as long as is left of the year.
    rw [month, if_pos rfl, monthLength, if_pos february, yearLength, year, monthDays]
    split_ifs <;> rfl
  · have month : c.marchMonth ≠ 11 := by
      unfold marchMonth
      omega
    -- The other months are as long as their number says, whatever the year is.
    have months : c.month = 1 ∨ c.month = 3 ∨ c.month = 4 ∨ c.month = 5 ∨ c.month = 6 ∨
        c.month = 7 ∨ c.month = 8 ∨ c.month = 9 ∨ c.month = 10 ∨ c.month = 11 ∨ c.month = 12 := by
      omega
    rw [if_neg month, monthLength, if_neg february, monthDays, monthDays, marchMonth]
    split_ifs <;> omega

theorem day_bound (valid : c.isValid = true) : monthDays c.marchMonth + c.day ≤
    if c.marchMonth = 11 then yearLength c.marchYear else monthDays (c.marchMonth + 1) := by
  obtain ⟨⟨low, high⟩, -, bound⟩ := isValid_iff.mp valid
  rw [← monthDays_add_monthLength low high]
  omega

theorem monthDays_mono {m n : Int} (h : m ≤ n) : monthDays m ≤ monthDays n := by
  unfold monthDays
  omega

theorem monthDays_lt_yearLength (valid : c.isValid = true) :
    monthDays c.marchMonth + c.day ≤ yearLength c.marchYear := by
  have bound := day_bound valid
  have months := marchMonth_bounds valid
  split_ifs at bound with last
  · exact bound
  · have rest := monthDays_mono (show c.marchMonth + 1 ≤ 11 by omega)
    have short : monthDays 11 ≤ 365 := by decide
    have long : 365 ≤ yearLength c.marchYear := by
      unfold yearLength
      split_ifs <;> decide
    omega

theorem dayNumber_bounds (valid : c.isValid = true) :
    yearDays c.marchYear ≤ c.dayNumber ∧ c.dayNumber < yearDays (c.marchYear + 1) := by
  have days := (isValid_iff.mp valid).2.1
  have months := monthDays_mono (marchMonth_bounds valid).1
  have bound := monthDays_lt_yearLength valid
  have first : monthDays 0 = 0 := rfl
  rw [dayNumber_eq, yearDays_succ]
  omega

theorem dayNumber_lt_of_before (hc : c.isValid = true) (hd : d.isValid = true)
    (before : c.Before d) : c.dayNumber < d.dayNumber := by
  have monthsC := (isValid_iff.mp hc).1
  have monthsD := (isValid_iff.mp hd).1
  -- Counted from March, the parts are still in the order of the calendar.
  have march : c.marchYear < d.marchYear ∨ c.marchYear = d.marchYear ∧
      (c.marchMonth < d.marchMonth ∨ c.marchMonth = d.marchMonth ∧ c.day < d.day) := by
    unfold Before at before
    unfold marchYear marchMonth
    omega
  rcases march with year | ⟨year, month | ⟨month, day⟩⟩
  · have left := (dayNumber_bounds hc).2
    have right := (dayNumber_bounds hd).1
    have between := yearDays_mono year
    omega
  · have bound := day_bound hc
    have next := monthDays_mono month
    have last := (marchMonth_bounds hd).2
    have day := (isValid_iff.mp hd).2.1
    rw [if_neg (by omega)] at bound
    rw [dayNumber_eq, dayNumber_eq, year]
    omega
  · rw [dayNumber_eq, dayNumber_eq, year, month]
    omega

theorem dayNumber_lt_iff (hc : c.isValid = true) (hd : d.isValid = true) :
    c.dayNumber < d.dayNumber ↔ c.Before d := by
  refine ⟨fun less => ?_, dayNumber_lt_of_before hc hd⟩
  rcases before_trichotomy c d with before | rfl | after
  · exact before
  · exact absurd less (Int.lt_irrefl _)
  · exact absurd less (Int.lt_asymm (dayNumber_lt_of_before hd hc after))

end

end Civil

theorem Date.day_lt_iff {d e : Date} : d.day < e.day ↔ d.civil.Before e.civil := by
  have order := Civil.dayNumber_lt_iff (Civil.isValid_ofDayNumber d.day)
    (Civil.isValid_ofDayNumber e.day)
  rwa [Civil.dayNumber_ofDayNumber, Civil.dayNumber_ofDayNumber] at order

namespace Civil

def nextMonth (c : Civil) : Civil :=
  if c.month < 12 then ⟨c.year, c.month + 1, 1⟩ else ⟨c.year + 1, 1, 1⟩

def next (c : Civil) : Civil :=
  if c.day < monthLength c.year c.month then ⟨c.year, c.month, c.day + 1⟩ else c.nextMonth

/-- The second day comes so many days after the first, or before it if the number is negative. Days
are counted on the calendar, one after the other. -/
def DaysApart (n : Int) (c d : Civil) : Prop :=
  next^[n.toNat] c = next^[(-n).toNat] d

section
variable {c d : Civil}

theorem dayNumber_inj (hc : c.isValid = true) (hd : d.isValid = true) :
    c.dayNumber = d.dayNumber ↔ c = d := by
  refine ⟨fun same => ?_, fun same => same ▸ rfl⟩
  rcases before_trichotomy c d with before | equal | after
  · exact absurd same (Int.ne_of_lt (dayNumber_lt_of_before hc hd before))
  · exact equal
  · exact absurd same.symm (Int.ne_of_lt (dayNumber_lt_of_before hd hc after))

theorem monthLength_pos (year : Int) (month : Nat) : 1 ≤ monthLength year month := by
  unfold monthLength
  split_ifs <;> decide

theorem isValid_next (valid : c.isValid = true) : c.next.isValid = true := by
  obtain ⟨⟨low, high⟩, -, -⟩ := isValid_iff.mp valid
  rw [isValid_iff, next, nextMonth]
  split_ifs with within early
  · exact ⟨⟨low, high⟩, Nat.succ_pos _, within⟩
  · exact ⟨⟨Nat.succ_pos _, early⟩, Nat.le_refl 1, monthLength_pos _ _⟩
  · exact ⟨⟨Nat.le_refl 1, Nat.le_add_left 1 11⟩, Nat.le_refl 1, monthLength_pos _ _⟩

theorem day_nextMonth : c.nextMonth.day = 1 := by
  unfold nextMonth
  split_ifs <;> rfl

theorem marchYear_nextMonth (low : 1 ≤ c.month) (high : c.month ≤ 12) :
    c.nextMonth.marchYear = if c.marchMonth = 11 then c.marchYear + 1 else c.marchYear := by
  unfold nextMonth marchYear marchMonth
  by_cases early : c.month < 12
  · simp only [if_pos early]
    split_ifs <;> omega
  · simp only [if_neg early]
    split_ifs <;> omega

theorem marchMonth_nextMonth (low : 1 ≤ c.month) (high : c.month ≤ 12) :
    c.nextMonth.marchMonth = if c.marchMonth = 11 then 0 else c.marchMonth + 1 := by
  unfold nextMonth marchMonth
  by_cases early : c.month < 12
  · simp only [if_pos early]
    split_ifs <;> omega
  · simp only [if_neg early]
    split_ifs <;> omega

theorem dayNumber_nextMonth (low : 1 ≤ c.month) (high : c.month ≤ 12) :
    c.nextMonth.dayNumber = yearDays c.marchYear +
      if c.marchMonth = 11 then yearLength c.marchYear else monthDays (c.marchMonth + 1) := by
  have first : monthDays 0 = 0 := rfl
  rw [dayNumber_eq, marchYear_nextMonth low high, marchMonth_nextMonth low high, day_nextMonth]
  split_ifs with last
  · rw [yearDays_succ]
    omega
  · omega

theorem dayNumber_next (valid : c.isValid = true) : c.next.dayNumber = c.dayNumber + 1 := by
  obtain ⟨⟨low, high⟩, -, bound⟩ := isValid_iff.mp valid
  unfold next
  split_ifs with within
  · simp only [dayNumber_eq, marchYear, marchMonth]
    omega
  · rw [dayNumber_nextMonth low high, ← monthDays_add_monthLength low high, dayNumber_eq]
    omega

theorem dayNumber_iterate (valid : c.isValid = true) (n : Nat) :
    (next^[n] c).isValid = true ∧ (next^[n] c).dayNumber = c.dayNumber + n := by
  induction n with
  | zero => exact ⟨valid, (Int.add_zero _).symm⟩
  | succ n ih =>
    rw [Function.iterate_succ_apply']
    refine ⟨isValid_next ih.1, ?_⟩
    rw [dayNumber_next ih.1, ih.2]
    omega

theorem daysApart_iff (hc : c.isValid = true) (hd : d.isValid = true) (n : Int) :
    c.DaysApart n d ↔ d.dayNumber = c.dayNumber + n := by
  obtain ⟨validC, fromC⟩ := dayNumber_iterate hc n.toNat
  obtain ⟨validD, fromD⟩ := dayNumber_iterate hd (-n).toNat
  rw [DaysApart, ← dayNumber_inj validC validD, fromC, fromD]
  omega

end

/-- Neither before the first of January of the first year nor after the last of December of the last
one. -/
def InRange (c : Civil) : Prop :=
  ¬c.Before ⟨-262143, 1, 1⟩ ∧ ¬(⟨262142, 12, 31⟩ : Civil).Before c

theorem inRange_iff {c : Civil} (valid : c.isValid = true) :
    c.InRange ↔ Date.first ≤ c.dayNumber ∧ c.dayNumber ≤ Date.last := by
  have first := dayNumber_lt_iff valid (show (⟨-262143, 1, 1⟩ : Civil).isValid = true by decide)
  have last := dayNumber_lt_iff (show (⟨262142, 12, 31⟩ : Civil).isValid = true by decide) valid
  have firstDay : (⟨-262143, 1, 1⟩ : Civil).dayNumber = Date.first := by decide
  have lastDay : (⟨262142, 12, 31⟩ : Civil).dayNumber = Date.last := by decide
  rw [InRange, ← first, ← last, firstDay, lastDay]
  omega

end Civil

theorem Date.ofCivil?_civil (d : Date) : ofCivil? d.civil = some d := by
  rw [ofCivil?, civil, Civil.isValid_ofDayNumber, if_pos rfl, Civil.dayNumber_ofDayNumber,
    ofDay?_day]

end Calculator
