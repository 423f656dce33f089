import Calculator.Number.Numeral

set_option autoImplicit false

namespace Calculator

structure Civil where
  year : Int
  month : Nat
  day : Nat
  deriving DecidableEq

namespace Civil

def isLeapYear (year : Int) : Bool :=
  year % 4 = 0 && (year % 100 ≠ 0 || year % 400 = 0)

def monthLength (year : Int) (month : Nat) : Nat :=
  if month = 2 then if isLeapYear year then 29 else 28
  else if month = 4 ∨ month = 6 ∨ month = 9 ∨ month = 11 then 30
  else 31

def isValid (c : Civil) : Bool :=
  1 ≤ c.month && c.month ≤ 12 && 1 ≤ c.day && c.day ≤ monthLength c.year c.month

/-- The number of a day. Months count from March, and `(153 * m + 2) / 5` days precede the one that
has number `m`. -/
def dayNumber (c : Civil) : Int :=
  let year := if c.month ≤ 2 then c.year - 1 else c.year
  let month : Int := if c.month ≤ 2 then c.month + 9 else c.month - 3
  let era := year / 400
  let yearOfEra := year % 400
  let dayOfYear := (153 * month + 2) / 5 + c.day - 1
  era * 146097 + (yearOfEra * 365 + yearOfEra / 4 - yearOfEra / 100 + dayOfYear)

def ofDayNumber (n : Int) : Civil :=
  let era := n / 146097
  let dayOfEra := n % 146097
  let yearOfEra := (dayOfEra - dayOfEra / 1460 + dayOfEra / 36524 - dayOfEra / 146096) / 365
  let dayOfYear := dayOfEra - (365 * yearOfEra + yearOfEra / 4 - yearOfEra / 100)
  let month := (5 * dayOfYear + 2) / 153
  let day := dayOfYear - (153 * month + 2) / 5 + 1
  let year := era * 400 + yearOfEra
  if month < 10 then ⟨year, (month + 3).toNat, day.toNat⟩
  else ⟨year + 1, (month - 9).toNat, day.toNat⟩

end Civil

def Date.first : Int := -95745824

def Date.last : Int := 95745704

/-- A date, by its day number. -/
structure Date where
  day : Int
  inRange : Date.first ≤ day ∧ day ≤ Date.last
  deriving DecidableEq

namespace Date

/-- The date with a day number, if the number is in range. -/
def ofDay? (day : Int) : Option Date :=
  if h : first ≤ day ∧ day ≤ last then some ⟨day, h⟩ else none

def ofCivil? (c : Civil) : Option Date :=
  if c.isValid then ofDay? c.dayNumber else none

def civil (d : Date) : Civil :=
  Civil.ofDayNumber d.day

def shift? (d : Date) (days : Int) : Option Date :=
  ofDay? (d.day + days)

def daysSince (d e : Date) : Int :=
  d.day - e.day

/-- Four digits for the years 0 to 9999, a sign and at least four digits for the others. -/
def yearText (year : Int) : List Char :=
  let digits := Numeral.padZeros 4 (Numeral.decimal year.natAbs)
  if year < 0 then '-' :: digits
  else if 9999 < year then '+' :: digits
  else digits

/-- A dollar sign, the year, and two digits each for month and day. -/
def text (d : Date) : List Char :=
  let c := d.civil
  '$' :: yearText c.year ++ Numeral.padZeros 2 (Numeral.decimal c.month) ++
    Numeral.padZeros 2 (Numeral.decimal c.day)

theorem ofDay?_day (d : Date) : ofDay? d.day = some d := by
  unfold ofDay?
  rw [dif_pos d.inRange]

end Date

end Calculator
