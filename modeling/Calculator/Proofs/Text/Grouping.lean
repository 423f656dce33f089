import Calculator.Proofs.Token.LongestMatch
import Calculator.Text.Grouping
import Mathlib.Data.List.TakeWhile

set_option autoImplicit false

namespace Calculator.Grouping

open Lexer (unquoted_append)

section
variable {integral rest : List Char}

theorem splitBefore_point (noPoint : '.' ∉ integral)
    (start : rest = [] ∨ ∃ digits, rest = '.' :: digits) :
    splitBefore (· == '.') (integral ++ rest) = (integral, rest) := by
  have whole : ∀ c ∈ integral, (!(c == '.')) = true := fun c inside => by
    rw [beq_false_of_ne (ne_of_mem_of_not_mem inside noPoint)]
    rfl
  rw [splitBefore, List.takeWhile_append_of_pos whole, List.dropWhile_append_of_pos whole]
  obtain rfl | ⟨digits, rfl⟩ := start
  · rw [List.takeWhile_nil, List.append_nil]
    rfl
  · rw [List.takeWhile_cons_of_neg (by decide), List.append_nil]
    rfl

theorem groupUnsigned_append (noPoint : '.' ∉ integral)
    (start : rest = [] ∨ ∃ digits, rest = '.' :: digits) : groupUnsigned (integral ++ rest) =
      groupFrom (byteLength integral) 0 integral ++ trimFraction rest := by
  rw [groupUnsigned, splitBefore_point noPoint start]

theorem trimFraction_nil : trimFraction [] = [] := rfl

theorem groupUnsigned_eq (noPoint : '.' ∉ integral) :
    groupUnsigned integral = groupFrom (byteLength integral) 0 integral := by
  have parted := groupUnsigned_append noPoint (.inl rfl)
  rwa [List.append_nil, trimFraction_nil, List.append_nil] at parted

end

theorem unquoted_groupFrom (width i : Nat) (text : List Char) :
    unquoted (groupFrom width i text) = unquoted text := by
  induction text generalizing i with
  | nil => rfl
  | cons c text ih =>
    have first (rest : List Char) : unquoted (c :: rest) = unquoted [c] ++ unquoted rest :=
      unquoted_append [c] rest
    unfold groupFrom
    split
    · change unquoted (c :: groupFrom width (i + 1) text) = _
      rw [first, first text, ih]
    · rw [first, first text, ih]

theorem mem_of_mem_groupFrom {width i : Nat} {text : List Char} {c : Char}
    (h : c ∈ groupFrom width i text) : c = '\'' ∨ c ∈ text := by
  induction text generalizing i with
  | nil => exact .inr h
  | cons d text ih =>
    have more (inside : c ∈ d :: groupFrom width (i + 1) text) : c = '\'' ∨ c ∈ d :: text := by
      rcases List.mem_cons.mp inside with rfl | rest
      · exact .inr List.mem_cons_self
      · exact (ih rest).imp_right (List.mem_cons_of_mem d)
    unfold groupFrom at h
    split at h
    · exact (List.mem_cons.mp h).elim .inl more
    · exact more h

/-- The digits in groups, the first of one to three digits and the others of three. -/
structure InThrees (digits first : List Char) (others : List (List Char)) : Prop where
  digits : (first :: others).flatten = digits
  first : 1 ≤ first.length ∧ first.length ≤ 3
  others : ∀ group ∈ others, group.length = 3

section
variable {width i : Nat} {text : List Char}

theorem groupFrom_append {front : List Char} (rest : List Char)
    (apart : ∀ k < front.length, i + k = 0 ∨ (width - (i + k)) % 3 ≠ 0) :
    groupFrom width i (front ++ rest) = front ++ groupFrom width (i + front.length) rest := by
  induction front generalizing i with
  | nil => rfl
  | cons c front ih =>
    have here : ¬(i ≠ 0 ∧ (width - i) % 3 = 0) := fun both =>
      (apart 0 (Nat.zero_lt_succ _)).elim both.1 fun other => other both.2
    have more : ∀ k < front.length, i + 1 + k = 0 ∨ (width - (i + 1 + k)) % 3 ≠ 0 := by
      intro k below
      rw [Nat.add_assoc, Nat.add_comm 1 k]
      exact apart (k + 1) (Nat.succ_lt_succ below)
    rw [List.cons_append, groupFrom, if_neg here, ih more, List.length_cons, Nat.add_assoc,
      Nat.add_comm 1]
    rfl

def threes : List Char → List (List Char)
  | a :: b :: c :: rest => [a, b, c] :: threes rest
  | _ => []

theorem eq_nil_of_short (multiple : text.length % 3 = 0)
    (short : ∀ a b c rest, text = a :: b :: c :: rest → False) : text = [] := by
  match text with
  | [] => rfl
  | [_] | [_, _] => exact absurd multiple (by simp)
  | a :: b :: c :: rest => exact (short a b c rest rfl).elim

theorem flatten_threes (multiple : text.length % 3 = 0) : (threes text).flatten = text := by
  fun_induction threes text with
  | case1 a b c rest ih =>
    simp only [List.length_cons] at multiple
    rw [List.flatten_cons, ih (by omega)]
    rfl
  | case2 text short =>
    obtain rfl := eq_nil_of_short multiple short
    rfl

theorem length_of_mem_threes {group : List Char} (h : group ∈ threes text) :
    group.length = 3 := by
  fun_induction threes text with
  | case1 a b c rest ih => exact (List.mem_cons.mp h).elim (fun same => by rw [same]; rfl) ih
  | case2 => cases h

theorem groupFrom_eq_threes (behind : i ≠ 0) (whole : i + text.length = width)
    (multiple : text.length % 3 = 0) :
    groupFrom width i text = (threes text).flatMap ('\'' :: ·) := by
  fun_induction threes text generalizing i with
  | case1 a b c rest ih =>
    simp only [List.length_cons] at whole multiple
    have quote : i ≠ 0 ∧ (width - i) % 3 = 0 := ⟨behind, by omega⟩
    have apart : ∀ k < [b, c].length, i + 1 + k = 0 ∨ (width - (i + 1 + k)) % 3 ≠ 0 := by
      intro k below
      simp only [List.length_cons, List.length_nil] at below
      omega
    have others := groupFrom_append rest apart
    change groupFrom width (i + 1) (b :: c :: rest) =
      b :: c :: groupFrom width (i + 3) rest at others
    rw [groupFrom, if_pos quote, others, ih (by omega) (by omega) (by omega)]
    rfl
  | case2 text short =>
    obtain rfl := eq_nil_of_short multiple short
    rfl

end

theorem intercalate_eq (separator : Char) (first : List Char) (others : List (List Char)) :
    List.intercalate [separator] (first :: others) =
      first ++ others.flatMap (separator :: ·) := by
  induction others generalizing first with
  | nil => simp
  | cons second others ih =>
    rw [List.intercalate_cons_cons, ih, List.flatMap_cons, List.append_assoc]
    rfl

theorem exists_inThrees {text : List Char} (nonempty : text ≠ []) :
    ∃ first others, InThrees text first others ∧
      groupFrom text.length 0 text = List.intercalate ['\''] (first :: others) := by
  have positive : 0 < text.length := List.length_pos_iff.mpr nonempty
  obtain ⟨size, defined⟩ : ∃ size, size = (text.length - 1) % 3 + 1 := ⟨_, rfl⟩
  have length : (text.take size).length = size := by
    rw [List.length_take]
    omega
  have rest : (text.drop size).length = text.length - size := List.length_drop
  have apart : ∀ k < (text.take size).length, 0 + k = 0 ∨ (text.length - (0 + k)) % 3 ≠ 0 := by
    intro k below
    omega
  have grouped : groupFrom text.length size (text.drop size) =
      (threes (text.drop size)).flatMap ('\'' :: ·) :=
    groupFrom_eq_threes (by omega) (by omega) (by omega)
  refine ⟨text.take size, threes (text.drop size), ⟨?_, by omega, ?_⟩, ?_⟩
  · rw [List.flatten_cons, flatten_threes (by omega), List.take_append_drop]
  · exact fun group => length_of_mem_threes
  · have split := groupFrom_append (text.drop size) apart
    rw [List.take_append_drop, length, Nat.zero_add, grouped] at split
    rw [split, intercalate_eq]

theorem byteLength_cons (c : Char) (text : List Char) :
    byteLength (c :: text) = c.utf8Size + byteLength text := by
  have shift (text : List Char) (n : Nat) :
      text.foldl (fun n c => n + c.utf8Size) n = n + byteLength text := by
    unfold byteLength
    induction text generalizing n with
    | nil => rfl
    | cons c text ih =>
      rw [List.foldl_cons, List.foldl_cons, ih, ih (0 + _), Nat.zero_add, Nat.add_assoc]
  unfold byteLength
  rw [List.foldl_cons, shift, Nat.zero_add]
  rfl

theorem length_le_byteLength (text : List Char) : text.length ≤ byteLength text := by
  induction text with
  | nil => exact Nat.zero_le _
  | cons c text ih =>
    have size := c.utf8Size_pos
    rw [byteLength_cons, List.length_cons]
    omega

theorem byteLength_eq_length {text : List Char}
    (digits : ∀ c ∈ text, Numeral.isDecimalDigit c = true) : byteLength text = text.length := by
  induction text with
  | nil => rfl
  | cons c text ih =>
    obtain ⟨first, rest⟩ := List.forall_mem_cons.mp digits
    simp only [Numeral.isDecimalDigit, Bool.and_eq_true, decide_eq_true_eq] at first
    have size : c.utf8Size = 1 :=
      Char.utf8Size_eq_one_iff.mpr (UInt32.le_trans first.2 (by decide))
    rw [byteLength_cons, ih rest, size, List.length_cons, Nat.add_comm]

/-- What is left of digits without the longest run of zeros at their end that leaves at least one of
them. -/
structure Trims (digits kept : List Char) : Prop where
  zeros : ∃ count, digits = kept ++ List.replicate count '0'
  nonempty : digits ≠ [] → kept ≠ []
  longest : ∀ left count, left ≠ [] → digits = left ++ List.replicate count '0' →
    kept.length ≤ left.length

section
variable {digits : List Char}

theorem Trims.refl (short : digits.length ≤ 1) : Trims digits digits where
  zeros := ⟨0, (List.append_nil _).symm⟩
  nonempty := id
  longest _ _ nonempty _ := short.trans (List.length_pos_iff.mpr nonempty)

theorem Trims.eq_self {kept : List Char} (h : Trims digits kept) (short : digits.length ≤ 1) :
    kept = digits := by
  obtain ⟨count, split⟩ := h.zeros
  cases kept with
  | nil =>
    by_contra other
    exact h.nonempty (Ne.symm other) rfl
  | cons c kept =>
    rw [split, List.length_append, List.length_cons] at short
    have none : (List.replicate count '0').length = 0 := by omega
    rw [split, List.length_eq_zero_iff.mp none, List.append_nil]

theorem exists_dropTrailingZeros (digits : List Char) :
    ∃ count, digits = dropTrailingZeros digits ++ List.replicate count '0' := by
  have zeros : ∀ c ∈ digits.reverse.takeWhile (· == '0'), c = '0' := fun c inside =>
    eq_of_beq (List.all_eq_true.mp List.all_takeWhile c inside)
  refine ⟨(digits.reverse.takeWhile (· == '0')).length, ?_⟩
  rw [dropTrailingZeros, ← List.reverse_inj, List.reverse_append, List.reverse_reverse,
    List.reverse_replicate, ← List.eq_replicate_of_mem zeros, List.takeWhile_append_dropWhile]

theorem dropTrailingZeros_append_zeros (left : List Char) (count : Nat) :
    dropTrailingZeros (left ++ List.replicate count '0') = dropTrailingZeros left := by
  have zeros : ∀ c ∈ List.replicate count '0', (c == '0') = true := fun c inside =>
    beq_iff_eq.mpr (List.eq_of_mem_replicate inside)
  rw [dropTrailingZeros, List.reverse_append, List.reverse_replicate,
    List.dropWhile_append_of_pos zeros]
  rfl

theorem length_dropTrailingZeros_le (text : List Char) :
    (dropTrailingZeros text).length ≤ text.length := by
  obtain ⟨count, split⟩ := exists_dropTrailingZeros text
  have total := congrArg List.length split
  rw [List.length_append] at total
  omega

theorem trims_dropTrailingZeros (other : dropTrailingZeros digits ≠ []) :
    Trims digits (dropTrailingZeros digits) where
  zeros := exists_dropTrailingZeros digits
  nonempty _ := other
  longest left count _ split := by
    rw [split, dropTrailingZeros_append_zeros]
    exact length_dropTrailingZeros_le left

theorem trims_take_one (zeros : dropTrailingZeros digits = []) :
    Trims digits (digits.take 1) where
  zeros := by
    obtain ⟨count, all⟩ := exists_dropTrailingZeros digits
    rw [zeros, List.nil_append] at all
    refine ⟨count - 1, ?_⟩
    rw [all, List.take_replicate, List.replicate_append_replicate]
    congr 1
    omega
  nonempty some none := some ((List.take_eq_nil_iff.mp none).resolve_left Nat.one_ne_zero)
  longest _ _ nonempty _ :=
    (List.length_take_le 1 digits).trans (List.length_pos_iff.mpr nonempty)

theorem exists_trims (point : Char) (digits : List Char) :
    ∃ kept, trimFraction (point :: digits) = point :: kept ∧ Trims digits kept := by
  unfold trimFraction
  split
  · rename_i short
    have bytes := length_le_byteLength (point :: digits)
    rw [List.length_cons] at bytes
    exact ⟨digits, rfl, .refl (by omega)⟩
  · dsimp only
    split
    · exact ⟨_, rfl, trims_take_one ‹_›⟩
    · exact ⟨_, rfl, trims_dropTrailingZeros ‹_›⟩

end

theorem mem_of_mem_trimFraction {fraction : List Char} {c : Char} (h : c ∈ trimFraction fraction) :
    c ∈ fraction := by
  cases fraction with
  | nil => exact h
  | cons point digits =>
    obtain ⟨kept, trimmed, trims⟩ := exists_trims point digits
    obtain ⟨count, split⟩ := trims.zeros
    rw [trimmed] at h
    rcases List.mem_cons.mp h with rfl | inside
    · exact List.mem_cons_self
    · rw [split]
      exact List.mem_cons_of_mem _ (List.mem_append_left _ inside)

theorem mem_of_mem_groupUnsigned {text : List Char} {c : Char} (h : c ∈ groupUnsigned text) :
    c = '\'' ∨ c ∈ text := by
  have split := append_splitBefore (· == '.') text
  rcases List.mem_append.mp h with front | back
  · refine (mem_of_mem_groupFrom front).imp_right fun inside => ?_
    rw [← split]
    exact List.mem_append_left _ inside
  · right
    rw [← split]
    exact List.mem_append_right _ (mem_of_mem_trimFraction back)

theorem groupChars_signed (negative : Prop) [Decidable negative] {text : List Char}
    (digits : ∀ c ∈ text, Numeral.isDecimalDigit c = true ∨ c = '.') :
    groupChars ((if negative then ['-'] else []) ++ text) =
      (if negative then ['-'] else []) ++ groupUnsigned text := by
  have absent {c : Char} (notDigit : Numeral.isDecimalDigit c = false) (notPoint : c ≠ '.') :
      c ∉ text := fun inside => by
    rcases digits c inside with digit | point
    · rw [notDigit] at digit
      cases digit
    · exact notPoint point
  have plain : text.any isExponentMark = false := by
    rw [List.any_eq_false]
    intro c inside mark
    rw [isExponentMark, Bool.or_eq_true, beq_iff_eq, beq_iff_eq] at mark
    rcases mark with rfl | rfl
    · exact absent (by decide) (by decide) inside
    · exact absent (by decide) (by decide) inside
  unfold groupChars
  by_cases sign : negative
  · rw [if_pos sign, List.singleton_append, List.any_cons, plain]
    rfl
  · rw [if_neg sign, List.nil_append, plain, if_neg Bool.false_ne_true]
    split
    · exact absurd List.mem_cons_self (absent (by decide) (by decide))
    · rfl

end Calculator.Grouping
