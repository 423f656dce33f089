import Calculator.Number.Numeral
import Mathlib.Data.Nat.Log
import Mathlib.Tactic.Ring

set_option autoImplicit false

namespace Calculator.Numeral

def IsDigit (base : Nat) (c : Char) : Prop :=
  ∃ d < base, c = Nat.digitChar d

theorem IsDigit.isDecimalDigit {c : Char} (h : IsDigit 10 c) : isDecimalDigit c = true := by
  obtain ⟨d, below, rfl⟩ := h
  revert d
  decide

theorem IsDigit.isOctalDigit {c : Char} (h : IsDigit 8 c) : isOctalDigit c = true := by
  obtain ⟨d, below, rfl⟩ := h
  revert d
  decide

theorem IsDigit.isHexadecimalDigit {c : Char} (h : IsDigit 16 c) : isHexadecimalDigit c = true := by
  obtain ⟨d, below, rfl⟩ := h
  revert d
  decide

section
variable {base : Nat}

theorem digitValue_digitChar {d : Nat} (h : d < 16) : digitValue (Nat.digitChar d) = some d := by
  revert d
  decide

theorem digitBelow_digitChar {d : Nat} (small : base ≤ 16) (h : d < base) :
    digitBelow base (Nat.digitChar d) = some d := by
  rw [digitBelow, digitValue_digitChar (h.trans_le small), Option.filter_some,
    if_pos (decide_eq_true h)]

theorem readFrom_digitChar {d : Nat} (small : base ≤ 16) (h : d < base) (acc : Nat)
    (rest : List Char) :
    readFrom base acc (Nat.digitChar d :: rest) = readFrom base (acc * base + d) rest := by
  rw [readFrom, digitBelow_digitChar small h]

theorem readFrom_lastDigits (positive : 0 < base) (small : base ≤ 16) (k acc n : Nat)
    (rest : List Char) :
    readFrom base acc (lastDigits base k n rest) =
      readFrom base (acc * base ^ 2 ^ k + n % base ^ 2 ^ k) rest := by
  induction k generalizing acc n rest with
  | zero =>
    rw [lastDigits, readFrom_digitChar small (Nat.mod_lt n positive), Nat.pow_zero, Nat.pow_one]
  | succ k ih =>
    -- The digits of the upper half stand in front of those of the lower half.
    have halves : base ^ 2 ^ (k + 1) = base ^ 2 ^ k * base ^ 2 ^ k := by
      rw [← Nat.pow_add, Nat.pow_succ, Nat.mul_two]
    change readFrom base acc (lastDigits base k (n / base ^ 2 ^ k)
      (lastDigits base k (n % base ^ 2 ^ k) rest)) = _
    rw [ih, ih, Nat.mod_mod, halves, Nat.mod_mul]
    congr 1
    ring

theorem readFrom_allDigits (positive : 0 < base) (small : base ≤ 16) (k n : Nat)
    (fits : n < base ^ 2 ^ k) (rest : List Char) :
    readFrom base 0 (allDigits base k n rest) = readFrom base n rest := by
  induction k generalizing n rest with
  | zero =>
    rw [Nat.pow_zero, Nat.pow_one] at fits
    rw [allDigits, readFrom_digitChar small fits, Nat.zero_mul, Nat.zero_add]
  | succ k ih =>
    unfold allDigits
    dsimp only
    change readFrom base 0 (if n < base ^ 2 ^ k then allDigits base k n rest
      else allDigits base k (n / base ^ 2 ^ k) (lastDigits base k (n % base ^ 2 ^ k) rest)) = _
    split
    · rename_i below
      exact ih n below rest
    · have upper : n / base ^ 2 ^ k < base ^ 2 ^ k := by
        rw [Nat.pow_succ, Nat.mul_two, Nat.pow_add] at fits
        exact Nat.div_lt_of_lt_mul fits
      rw [ih _ upper, readFrom_lastDigits positive small, Nat.mod_mod, Nat.mul_comm,
        Nat.div_add_mod]

theorem lt_pow_of_log2 (two : 2 ≤ base) (n : Nat) :
    n < base ^ 2 ^ ((n.log2 + 1).log2 + 1) := by
  calc n < 2 ^ (n.log2 + 1) := Nat.lt_log2_self
    _ ≤ 2 ^ 2 ^ ((n.log2 + 1).log2 + 1) :=
      Nat.pow_le_pow_right (by decide) Nat.lt_log2_self.le
    _ ≤ base ^ 2 ^ ((n.log2 + 1).log2 + 1) := Nat.pow_le_pow_left two _

theorem lastDigits_isDigit (positive : 0 < base) (k n : Nat) {rest : List Char}
    (h : ∀ c ∈ rest, IsDigit base c) : ∀ c ∈ lastDigits base k n rest, IsDigit base c := by
  induction k generalizing n rest with
  | zero => exact List.forall_mem_cons.mpr ⟨⟨n % base, Nat.mod_lt n positive, rfl⟩, h⟩
  | succ k ih => exact ih _ (ih _ h)

theorem exists_allDigits_eq_cons (positive : 0 < base) (k n : Nat) (fits : n < base ^ 2 ^ k)
    {rest : List Char} (h : ∀ c ∈ rest, IsDigit base c) :
    ∃ d u, allDigits base k n rest = Nat.digitChar d :: u ∧ d < base ∧ (d = 0 → n = 0 ∧ u = rest) ∧
      ∀ c ∈ u, IsDigit base c := by
  induction k generalizing n rest with
  | zero =>
    rw [Nat.pow_zero, Nat.pow_one] at fits
    exact ⟨n, rest, rfl, fits, fun zero => ⟨zero, rfl⟩, h⟩
  | succ k ih =>
    unfold allDigits
    dsimp only
    change ∃ d u, (if n < base ^ 2 ^ k then allDigits base k n rest
      else allDigits base k (n / base ^ 2 ^ k) (lastDigits base k (n % base ^ 2 ^ k) rest)) =
        Nat.digitChar d :: u ∧ _
    split
    · rename_i below
      exact ih n below h
    · rename_i above
      have upper : n / base ^ 2 ^ k < base ^ 2 ^ k := by
        rw [Nat.pow_succ, Nat.mul_two, Nat.pow_add] at fits
        exact Nat.div_lt_of_lt_mul fits
      obtain ⟨d, u, same, below, zero, digits⟩ :=
        ih _ upper (lastDigits_isDigit positive k (n % base ^ 2 ^ k) h)
      refine ⟨d, u, same, below, fun first => ?_, digits⟩
      have none := (zero first).1
      rw [Nat.div_eq_zero_iff] at none
      rcases none with none | below
      · exact absurd none (Nat.ne_of_gt (Nat.pow_pos positive))
      · exact absurd below above

theorem exists_digits_eq_cons (two : 2 ≤ base) (n : Nat) :
    ∃ d u, digits base n = Nat.digitChar d :: u ∧ d < base ∧ (d = 0 → n = 0 ∧ u = []) ∧
      ∀ c ∈ u, IsDigit base c :=
  exists_allDigits_eq_cons (Nat.zero_lt_of_lt two) _ n (lt_pow_of_log2 two n)
    (List.forall_mem_nil _)

theorem isDigit_of_mem_digits (two : 2 ≤ base) {n : Nat} {c : Char} (h : c ∈ digits base n) :
    IsDigit base c := by
  obtain ⟨d, u, same, below, -, isDigits⟩ := exists_digits_eq_cons two n
  rw [same, List.mem_cons] at h
  rcases h with rfl | inside
  · exact ⟨d, below, rfl⟩
  · exact isDigits c inside

theorem read_digits (two : 2 ≤ base) (small : base ≤ 16) (n : Nat) :
    read base (digits base n) = some n := by
  obtain ⟨d, u, same, -⟩ := exists_digits_eq_cons two n
  have whole := readFrom_allDigits (Nat.zero_lt_of_lt two) small _ n (lt_pow_of_log2 two n) []
  change readFrom base 0 (digits base n) = some n at whole
  rw [same] at whole ⊢
  exact whole

theorem le_of_readFrom {acc n : Nat} {text : List Char} (h : readFrom base acc text = some n) :
    acc * base ^ text.length ≤ n := by
  induction text generalizing acc with
  | nil =>
    obtain rfl : acc = n := Option.some.inj h
    rw [List.length_nil, Nat.pow_zero, Nat.mul_one]
  | cons c text ih =>
    rw [readFrom] at h
    split at h
    · cases h
    · rename_i d _
      calc acc * base ^ (c :: text).length = acc * base * base ^ text.length := by
            rw [List.length_cons, Nat.pow_succ, Nat.mul_assoc, Nat.mul_comm base]
        _ ≤ (acc * base + d) * base ^ text.length := Nat.mul_le_mul_right _ (Nat.le_add_right _ _)
        _ ≤ n := ih h

theorem lt_of_readFrom {acc n : Nat} {text : List Char} (h : readFrom base acc text = some n) :
    n < (acc + 1) * base ^ text.length := by
  induction text generalizing acc with
  | nil =>
    obtain rfl : acc = n := Option.some.inj h
    rw [List.length_nil, Nat.pow_zero, Nat.mul_one]
    exact Nat.lt_succ_self acc
  | cons c text ih =>
    rw [readFrom] at h
    split at h
    · cases h
    · rename_i d digit
      have below : d < base := of_decide_eq_true (Option.filter_eq_some_iff.mp digit).2
      calc n < (acc * base + d + 1) * base ^ text.length := ih h
        _ ≤ (acc + 1) * base * base ^ text.length := by
            refine Nat.mul_le_mul_right _ ?_
            rw [Nat.add_mul, Nat.one_mul]
            omega
        _ = (acc + 1) * base ^ (c :: text).length := by
            rw [List.length_cons, Nat.pow_succ, Nat.mul_assoc, Nat.mul_comm base]

theorem lt_pow_length_digits (two : 2 ≤ base) (small : base ≤ 16) (n : Nat) :
    n < base ^ (digits base n).length := by
  obtain ⟨d, u, same, -⟩ := exists_digits_eq_cons two n
  have whole := read_digits two small n
  rw [same] at whole ⊢
  have bound := lt_of_readFrom (show readFrom base 0 (Nat.digitChar d :: u) = some n from whole)
  rwa [Nat.zero_add, Nat.one_mul] at bound

theorem length_digits_le {width n : Nat} (two : 2 ≤ base) (small : base ≤ 16)
    (positive : 0 < width) (fits : n < base ^ width) : (digits base n).length ≤ width := by
  obtain ⟨d, u, same, below, zero, -⟩ := exists_digits_eq_cons two n
  have whole := read_digits two small n
  rw [same] at whole ⊢
  rw [List.length_cons]
  by_cases first : d = 0
  · rw [(zero first).2]
    exact positive
  · change readFrom base 0 (Nat.digitChar d :: u) = some n at whole
    rw [readFrom_digitChar small below, Nat.zero_mul, Nat.zero_add] at whole
    have power : base ^ u.length ≤ n :=
      (Nat.le_mul_of_pos_left _ (Nat.pos_of_ne_zero first)).trans (le_of_readFrom whole)
    exact (Nat.pow_lt_pow_iff_right two).mp (power.trans_lt fits)

theorem length_padZeros {width : Nat} {text : List Char} (h : text.length ≤ width) :
    (padZeros width text).length = width := by
  rw [padZeros, List.length_append, List.length_replicate, Nat.sub_add_cancel h]

theorem padZeros_eq_self {width : Nat} {text : List Char} (h : width ≤ text.length) :
    padZeros width text = text := by
  rw [padZeros, Nat.sub_eq_zero_of_le h, List.replicate_zero, List.nil_append]

theorem readFrom_append (acc : Nat) (text rest : List Char) :
    readFrom base acc (text ++ rest) =
      (readFrom base acc text).bind fun n => readFrom base n rest := by
  induction text generalizing acc with
  | nil => rfl
  | cons c text ih =>
    rw [List.cons_append, readFrom, readFrom]
    split
    · rfl
    · exact ih _

theorem readFrom_replicate_zero (positive : 0 < base) (acc count : Nat) :
    readFrom base acc (List.replicate count '0') = some (acc * base ^ count) := by
  have zero : digitBelow base '0' = some 0 := by
    change Option.filter (· < base) (some 0) = _
    rw [Option.filter_some, if_pos (decide_eq_true positive)]
  induction count generalizing acc with
  | zero => rw [List.replicate_zero, readFrom, Nat.pow_zero, Nat.mul_one]
  | succ count ih =>
    rw [List.replicate_succ, readFrom, zero]
    dsimp only
    rw [Nat.add_zero, ih, Nat.pow_succ, Nat.mul_assoc, Nat.mul_comm base]

theorem readFrom_zeros (positive : 0 < base) (count : Nat) (text : List Char) :
    readFrom base 0 (List.replicate count '0' ++ text) = readFrom base 0 text := by
  rw [readFrom_append, readFrom_replicate_zero positive, Nat.zero_mul, Option.bind_some]

theorem exists_read_of_zeros (positive : 0 < base) {text : List Char} (nonempty : text ≠ [])
    {count n : Nat} (h : read base (text ++ List.replicate count '0') = some n) :
    ∃ m, read base text = some m ∧ n = m * base ^ count := by
  have isEmpty {l : List Char} (some : l ≠ []) : l.isEmpty = false :=
    List.isEmpty_eq_false_iff.mpr some
  rw [read, isEmpty (List.append_ne_nil_of_left_ne_nil nonempty _), if_neg Bool.false_ne_true,
    readFrom_append, Option.bind_eq_some_iff] at h
  obtain ⟨m, front, zeros⟩ := h
  rw [readFrom_replicate_zero positive] at zeros
  refine ⟨m, ?_, (Option.some.inj zeros).symm⟩
  rw [read, isEmpty nonempty, if_neg Bool.false_ne_true, front]

theorem read_padZeros (two : 2 ≤ base) (small : base ≤ 16) (width n : Nat) :
    read base (padZeros width (digits base n)) = some n := by
  obtain ⟨d, u, same, -⟩ := exists_digits_eq_cons two n
  have whole := read_digits two small n
  rw [same] at whole ⊢
  have nonempty : (padZeros width (Nat.digitChar d :: u)).isEmpty = false := by
    simp [padZeros]
  rw [read, nonempty, if_neg Bool.false_ne_true, padZeros,
    readFrom_zeros (Nat.zero_lt_of_lt two)]
  exact whole

theorem isDigit_of_mem_padZeros (two : 2 ≤ base) {width n : Nat} {c : Char}
    (h : c ∈ padZeros width (digits base n)) : IsDigit base c := by
  rcases List.mem_append.mp h with zeros | inside
  · exact ⟨0, Nat.zero_lt_of_lt two, (List.mem_replicate.mp zeros).2⟩
  · exact isDigit_of_mem_digits two inside

end

end Calculator.Numeral
