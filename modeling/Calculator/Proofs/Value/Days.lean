import Calculator.Proofs.Date
import Calculator.Value.Arithmetic

set_option autoImplicit false

namespace Calculator

namespace Date

theorem daysApart_ofDayNumber (d : Date) (n k : Int) :
    d.civil.DaysApart n (.ofDayNumber k) ↔ k = d.day + n := by
  unfold civil
  rw [Civil.daysApart_iff (Civil.isValid_ofDayNumber _) (Civil.isValid_ofDayNumber _),
    Civil.dayNumber_ofDayNumber, Civil.dayNumber_ofDayNumber]

variable {d e : Date} {n : Int}

theorem shift?_of_day (later : e.day = d.day + n) : d.shift? n = some e := by
  rw [shift?, ← later, ofDay?_day]

theorem fits64_of_day (later : e.day = d.day + n) :
    Word.fits64 n = true ∧ n ≠ Word.least64 := by
  have from_d := d.inRange
  have from_e := e.inRange
  simp only [Word.fits64, Bool.and_eq_true, decide_eq_true_eq]
  unfold first last at from_d from_e
  unfold Word.least64
  omega

end Date

namespace Value

variable (mode : NumericMode) (line : Position) (d e : Date) (n : Int) (f : Flavor)

theorem add_date_int : (date d).apply .add mode (int n f) line =
    if Word.fits64 n then shiftDate d n line else .error (.domain .dayOffsetOutOfRange line) := by
  change (dayCount (int n f) .add line >>= fun days => shiftDate d days line) = _
  unfold dayCount toInt
  dsimp only [bind, Except.bind]
  split_ifs <;> rfl

theorem add_int_date : (int n f).apply .add mode (date d) line =
    (date d).apply .add mode (int n f) line :=
  rfl

theorem subtract_date_int : (date d).apply .subtract mode (int n f) line =
    if Word.fits64 n ∧ n ≠ Word.least64 then shiftDate d (-n) line
    else .error (.domain .dayOffsetOutOfRange line) := by
  change (dayCount (int n f) .subtract line >>= fun days =>
    if days = Word.least64 then .error (.domain .dayOffsetOutOfRange line)
    else shiftDate d (-days) line) = _
  unfold dayCount toInt
  dsimp only [bind, Except.bind]
  split_ifs <;> first | rfl | simp_all

theorem subtract_dates : (date d).apply .subtract mode (date e) line =
    .ok (.int (d.day - e.day) .dec) :=
  rfl

variable {mode line d e n f}

theorem add_of_day (later : e.day = d.day + n) :
    (date d).apply .add mode (int n f) line = .ok (date e) := by
  rw [add_date_int, if_pos (Date.fits64_of_day later).1, shiftDate, Date.shift?_of_day later]

theorem subtract_of_day (later : e.day = d.day + n) :
    (date e).apply .subtract mode (int n f) line = .ok (date d) := by
  have back : d.day = e.day + -n := by omega
  rw [subtract_date_int, if_pos (Date.fits64_of_day later), shiftDate, Date.shift?_of_day back]

theorem add_of_outside (outside : ¬(Date.first ≤ d.day + n ∧ d.day + n ≤ Date.last)) :
    (date d).apply .add mode (int n f) line = .error (.domain
      (if Word.fits64 n then .dateOutOfRange else .dayOffsetOutOfRange) line) := by
  have none : d.shift? n = none := dif_neg outside
  rw [add_date_int, shiftDate, none]
  split_ifs <;> rfl

/-- What sums and differences with dates are: days counted on the calendar. -/
structure CountsDays (mode : NumericMode) (line : Position) : Prop where
  /-- The difference of two dates is the number of days from the second to the first. -/
  difference : ∀ d e : Date, ∃ n,
    (date e).apply .subtract mode (date d) line = .ok (.int n .dec) ∧
      d.civil.DaysApart n e.civil ∧
      (date d).apply .add mode (int n .dec) line = .ok (date e)
  exchange : ∀ (d : Date) (n : Int) (f : Flavor),
    (int n f).apply .add mode (date d) line = (date d).apply .add mode (int n f) line
  /-- Days are taken away as their negation is added, as long as a word has both. -/
  negation : ∀ (d : Date) (n : Int) (f g : Flavor),
    Word.fits64 n = true → Word.fits64 (-n) = true →
      (date d).apply .subtract mode (int (-n) g) line =
        (date d).apply .add mode (int n f) line
  /-- The sum is the date so many days later if that day is in range. -/
  sum : ∀ (d : Date) (n : Int) (f : Flavor), ∃ c : Civil, c.isValid = true ∧
    d.civil.DaysApart n c ∧
    (c.InRange → ∃ e : Date, e.civil = c ∧
      (date d).apply .add mode (int n f) line = .ok (date e) ∧
      (date e).apply .subtract mode (date d) line = .ok (.int n .dec) ∧
      (date e).apply .subtract mode (int n f) line = .ok (date d)) ∧
    (¬c.InRange → (date d).apply .add mode (int n f) line = .error (.domain
      (if Word.fits64 n then .dateOutOfRange else .dayOffsetOutOfRange) line))

theorem countsDays (mode : NumericMode) (line : Position) : CountsDays mode line where
  difference d e := by
    have later : e.day = d.day + (e.day - d.day) := by omega
    exact ⟨e.day - d.day, subtract_dates mode line e d,
      (d.daysApart_ofDayNumber _ _).mpr later, add_of_day later⟩
  exchange d n f := add_int_date mode line d n f
  negation d n f g fits fitsBack := by
    have greater : -n ≠ Word.least64 := by
      intro least
      rw [show n = -Word.least64 by omega] at fits
      exact absurd fits (by decide)
    rw [subtract_date_int, if_pos ⟨fitsBack, greater⟩, add_date_int, if_pos fits, Int.neg_neg]
  sum d n f := by
    have valid := Civil.isValid_ofDayNumber (d.day + n)
    refine ⟨.ofDayNumber (d.day + n), valid, (d.daysApart_ofDayNumber _ _).mpr rfl, ?_, ?_⟩ <;>
      rw [Civil.inRange_iff valid, Civil.dayNumber_ofDayNumber]
    · intro inRange
      refine ⟨⟨d.day + n, inRange⟩, rfl, add_of_day rfl, ?_, subtract_of_day rfl⟩
      rw [subtract_dates, show d.day + n - d.day = n by omega]
    · exact add_of_outside

/-- The day in front of the first of March 2016 is a leap day. -/
example : (date ⟨736329, by decide⟩).apply .subtract .rational (int 1 .hex) 1 =
    .ok (date ⟨736328, by decide⟩) ∧
      Civil.ofDayNumber 736328 = ⟨2016, 2, 29⟩ ∧ Civil.ofDayNumber 736329 = ⟨2016, 3, 1⟩ :=
  ⟨rfl, by decide, by decide⟩

end Value

end Calculator
