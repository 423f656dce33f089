import Calculator.Text.Utf8

set_option autoImplicit false

namespace Calculator.Utf8

def Event.byte? : Event → Option UInt8
  | .byte b => some b
  | .interruption => none

def delivered (events : List Event) : List UInt8 :=
  events.filterMap Event.byte?

theorem delivered_bytes (bytes : List UInt8) : delivered (bytes.map .byte) = bytes := by
  rw [delivered, List.filterMap_map]
  exact List.filterMap_some

section
variable {events : List Event}

theorem nextByte_of_delivered_nil (h : delivered events = []) : nextByte events = none := by
  induction events with
  | nil => rfl
  | cons e events ih =>
    cases e with
    | byte b => cases h
    | interruption => exact ih h

theorem nextByte_of_delivered_cons {b : UInt8} {rest : List UInt8}
    (h : delivered events = b :: rest) :
    ∃ after, nextByte events = some (b, after) ∧ delivered after = rest := by
  induction events with
  | nil => cases h
  | cons e events ih =>
    cases e with
    | byte c =>
      obtain ⟨rfl, same⟩ := List.cons.inj h
      exact ⟨events, rfl, same⟩
    | interruption => exact ih h

theorem takeContinuation_of_delivered {taken rest : List UInt8}
    (h : delivered events = taken ++ rest) (all : ∀ b ∈ taken, isContinuation b = true) :
    ∃ after, takeContinuation taken.length events = (taken, after) ∧ delivered after = rest := by
  induction taken generalizing events with
  | nil => exact ⟨events, rfl, h⟩
  | cons b taken ih =>
    obtain ⟨after, first, same⟩ := nextByte_of_delivered_cons h
    obtain ⟨last, more, whole⟩ := ih same fun x hx => all x (List.mem_cons_of_mem b hx)
    refine ⟨last, ?_, whole⟩
    rw [List.length_cons, takeContinuation, first]
    simp only [all b List.mem_cons_self, more, if_true]

theorem length_delivered_le (events : List Event) : (delivered events).length ≤ events.length :=
  List.length_filterMap_le ..

end

section
variable {s : Source} {rest : List UInt8}

theorem read_of_ascii {b : UInt8} (h : delivered s.events = b :: rest) (ascii : b < 0x80) :
    ∃ after, s.read = (.ok (some (Char.ofNat b.toNat)), ⟨after, s.failure⟩) ∧
      delivered after = rest := by
  obtain ⟨after, first, same⟩ := nextByte_of_delivered_cons h
  refine ⟨after, ?_, same⟩
  unfold Source.read
  simp only [first, if_pos ascii]

theorem read_of_sequence {first : UInt8} (taken : List UInt8)
    (h : delivered s.events = first :: (taken ++ rest)) (notAscii : ¬ first < 0x80)
    (width : sequenceWidth first = some (taken.length + 1))
    (all : ∀ b ∈ taken, isContinuation b = true) :
    ∃ after, s.read = ((character (taken.length + 1) first taken).map some, ⟨after, s.failure⟩) ∧
      delivered after = rest := by
  obtain ⟨middle, start, same⟩ := nextByte_of_delivered_cons h
  obtain ⟨after, more, whole⟩ := takeContinuation_of_delivered same all
  refine ⟨after, ?_, whole⟩
  unfold Source.read
  simp only [start, if_neg notAscii, width, Nat.add_sub_cancel, more, Nat.lt_irrefl, decide_false,
    Bool.false_and]
  split
  · rename_i ended
    cases ended
  · rfl

theorem secondByteAllowed_of {a b : UInt8} (low : a.toNat = 0xE0 → 0xA0 ≤ b.toNat)
    (surrogate : a.toNat = 0xED → b.toNat ≤ 0x9F) (wide : a.toNat = 0xF0 → 0x90 ≤ b.toNat)
    (high : a.toNat = 0xF4 → b.toNat ≤ 0x8F) : secondByteAllowed a b = true := by
  unfold secondByteAllowed
  simp only [UInt8.le_iff_toNat_le]
  by_cases isLow : a = 0xE0
  · rw [if_pos isLow]
    exact decide_eq_true (low (congrArg UInt8.toNat isLow))
  rw [if_neg isLow]
  by_cases isSurrogate : a = 0xED
  · rw [if_pos isSurrogate]
    exact decide_eq_true (surrogate (congrArg UInt8.toNat isSurrogate))
  rw [if_neg isSurrogate]
  by_cases isWide : a = 0xF0
  · rw [if_pos isWide]
    exact decide_eq_true (wide (congrArg UInt8.toNat isWide))
  rw [if_neg isWide]
  by_cases isHigh : a = 0xF4
  · rw [if_pos isHigh]
    exact decide_eq_true (high (congrArg UInt8.toNat isHigh))
  rw [if_neg isHigh]

theorem character_of_allowed {first second : UInt8} {more : List UInt8} (low : 0xC2 ≤ first.toNat)
    (high : first.toNat ≤ 0xF4) (allowed : secondByteAllowed first second = true) :
    character (more.length + 2) first (second :: more) =
      .ok (Char.ofNat ((second :: more).foldl pushPayload
        (first.toNat % Nat.pow 2 (7 - (more.length + 2))))) := by
  have inside : ¬ (first < 0xC2 ∨ 0xF4 < first) := by
    rw [UInt8.lt_iff_toNat_lt, UInt8.lt_iff_toNat_lt]
    change ¬ (first.toNat < 0xC2 ∨ 0xF4 < first.toNat)
    omega
  unfold character
  simp only [Bool.or_eq_true, decide_eq_true_eq, if_neg inside, allowed, Bool.not_true,
    List.length_cons, Nat.lt_irrefl, if_false, Bool.false_eq_true]

theorem read_of_allowed {first second : UInt8} (more : List UInt8)
    (h : delivered s.events = first :: second :: (more ++ rest)) (low : 0xC2 ≤ first.toNat)
    (high : first.toNat ≤ 0xF4) (width : sequenceWidth first = some (more.length + 2))
    (all : ∀ b ∈ second :: more, isContinuation b = true)
    (allowed : secondByteAllowed first second = true) :
    ∃ after, s.read = (.ok (some (Char.ofNat ((second :: more).foldl pushPayload
        (first.toNat % Nat.pow 2 (7 - (more.length + 2)))))), ⟨after, s.failure⟩) ∧
      delivered after = rest := by
  have notAscii : ¬ first < 0x80 := by
    rw [UInt8.lt_iff_toNat_lt]
    change ¬ first.toNat < 0x80
    omega
  obtain ⟨after, read, whole⟩ := read_of_sequence (second :: more) h notAscii width all
  refine ⟨after, ?_, whole⟩
  rw [List.length_cons, character_of_allowed low high allowed] at read
  exact read

def trailing (n : Nat) : UInt8 :=
  UInt8.ofNat (n % 64 + 0x80)

theorem trailing_toNat (n : Nat) : (trailing n).toNat = n % 64 + 0x80 := by
  rw [trailing, UInt8.toNat_ofNat']
  omega

theorem trailing_isContinuation (n : Nat) : isContinuation (trailing n) = true := by
  simp only [isContinuation, Bool.and_eq_true, decide_eq_true_eq, UInt8.le_iff_toNat_le,
    trailing_toNat]
  change 0x80 ≤ _ ∧ _ ≤ 0xBF
  omega

theorem pushPayload_trailing (high n : Nat) :
    pushPayload high (trailing n) = high * 64 + n % 64 := by
  have value := trailing_toNat n
  unfold pushPayload
  omega

theorem sequenceWidth_of_range (b : UInt8) :
    sequenceWidth b = if 0xC0 ≤ b.toNat ∧ b.toNat ≤ 0xDF then some 2
      else if 0xE0 ≤ b.toNat ∧ b.toNat ≤ 0xEF then some 3
      else if 0xF0 ≤ b.toNat ∧ b.toNat ≤ 0xF7 then some 4 else none := by
  unfold sequenceWidth
  simp only [Bool.and_eq_true, decide_eq_true_eq, UInt8.le_iff_toNat_le]
  rfl

-- A number of up to twenty-one bits is read from the bytes that carry it, by their count.

section
variable {n : Nat}

theorem read_of_one (high : n ≤ 0x7F) (h : delivered s.events = UInt8.ofNat n :: rest) :
    ∃ after, s.read = (.ok (some (Char.ofNat n)), ⟨after, s.failure⟩) ∧ delivered after = rest := by
  have same : (UInt8.ofNat n).toNat = n := by
    rw [UInt8.toNat_ofNat']
    omega
  have ascii : UInt8.ofNat n < 0x80 := by
    rw [UInt8.lt_iff_toNat_lt, same]
    exact Nat.lt_succ_of_le high
  have found := read_of_ascii h ascii
  rw [same] at found
  exact found

theorem read_of_two (low : 0x7F < n) (high : n ≤ 0x7FF)
    (h : delivered s.events = UInt8.ofNat (n / 64 % 32 + 0xC0) :: trailing n :: rest) :
    ∃ after, s.read = (.ok (some (Char.ofNat n)), ⟨after, s.failure⟩) ∧ delivered after = rest := by
  generalize lead : UInt8.ofNat (n / 64 % 32 + 0xC0) = b at h
  have first : b.toNat = n / 64 + 0xC0 := by
    rw [← lead, UInt8.toNat_ofNat']
    omega
  have width : sequenceWidth b = some 2 := by
    rw [sequenceWidth_of_range, first, if_pos (by omega)]
  have allowed : secondByteAllowed b (trailing n) = true := by
    apply secondByteAllowed_of <;> rw [first] <;> omega
  have found := read_of_allowed [] h (by omega) (by omega) width
    (by simp [trailing_isContinuation]) allowed
  have payload : [trailing n].foldl pushPayload (b.toNat % Nat.pow 2 5) = n := by
    simp only [List.foldl_cons, List.foldl_nil, pushPayload_trailing, first]
    change (n / 64 + 0xC0) % 32 * 64 + n % 64 = n
    omega
  rw [← payload]
  exact found

theorem read_of_three (low : 0x7FF < n) (high : n ≤ 0xFFFF) (scalar : n < 0xD800 ∨ 0xDFFF < n)
    (h : delivered s.events =
      UInt8.ofNat (n / 4096 % 16 + 0xE0) :: trailing (n / 64) :: trailing n :: rest) :
    ∃ after, s.read = (.ok (some (Char.ofNat n)), ⟨after, s.failure⟩) ∧ delivered after = rest := by
  generalize lead : UInt8.ofNat (n / 4096 % 16 + 0xE0) = b at h
  have first : b.toNat = n / 4096 + 0xE0 := by
    rw [← lead, UInt8.toNat_ofNat']
    omega
  have width : sequenceWidth b = some 3 := by
    rw [sequenceWidth_of_range, first, if_neg (by omega), if_pos (by omega)]
  have allowed : secondByteAllowed b (trailing (n / 64)) = true := by
    apply secondByteAllowed_of <;> rw [first, trailing_toNat] <;> omega
  have found := read_of_allowed [trailing n] h (by omega) (by omega) width
    (by simp [trailing_isContinuation]) allowed
  have payload :
      [trailing (n / 64), trailing n].foldl pushPayload (b.toNat % Nat.pow 2 4) = n := by
    simp only [List.foldl_cons, List.foldl_nil, pushPayload_trailing, first]
    change ((n / 4096 + 0xE0) % 16 * 64 + n / 64 % 64) * 64 + n % 64 = n
    omega
  rw [← payload]
  exact found

theorem read_of_four (low : 0xFFFF < n) (high : n < 0x110000)
    (h : delivered s.events = UInt8.ofNat (n / 262144 % 8 + 0xF0) :: trailing (n / 4096) ::
      trailing (n / 64) :: trailing n :: rest) :
    ∃ after, s.read = (.ok (some (Char.ofNat n)), ⟨after, s.failure⟩) ∧ delivered after = rest := by
  generalize lead : UInt8.ofNat (n / 262144 % 8 + 0xF0) = b at h
  have first : b.toNat = n / 262144 + 0xF0 := by
    rw [← lead, UInt8.toNat_ofNat']
    omega
  have width : sequenceWidth b = some 4 := by
    rw [sequenceWidth_of_range, first, if_neg (by omega), if_neg (by omega), if_pos (by omega)]
  have allowed : secondByteAllowed b (trailing (n / 4096)) = true := by
    apply secondByteAllowed_of <;> rw [first, trailing_toNat] <;> omega
  have found := read_of_allowed [trailing (n / 64), trailing n] h (by omega) (by omega)
    width (by simp [trailing_isContinuation]) allowed
  have payload : [trailing (n / 4096), trailing (n / 64), trailing n].foldl pushPayload
      (b.toNat % Nat.pow 2 3) = n := by
    simp only [List.foldl_cons, List.foldl_nil, pushPayload_trailing, first]
    change (((n / 262144 + 0xF0) % 8 * 64 + n / 4096 % 64) * 64 + n / 64 % 64) * 64 + n % 64 = n
    omega
  rw [← payload]
  exact found

end

theorem read_of_encoded {c : Char} (h : delivered s.events = String.utf8EncodeChar c ++ rest) :
    ∃ after, s.read = (.ok (some c), ⟨after, s.failure⟩) ∧ delivered after = rest := by
  obtain ⟨n, value⟩ : ∃ n, c.val.toNat = n := ⟨_, rfl⟩
  have scalar : n < 0xD800 ∨ 0xDFFF < n ∧ n < 0x110000 := by
    rw [← value]
    exact c.valid
  have back : Char.ofNat n = c := by
    rw [← value]
    exact Char.ofNat_toNat c
  unfold String.utf8EncodeChar at h
  rw [value] at h
  rw [← back]
  by_cases one : n ≤ 0x7F
  · simp only [if_pos one] at h
    exact read_of_one one h
  by_cases two : n ≤ 0x7FF
  · simp only [if_neg one, if_pos two] at h
    exact read_of_two (by omega) two h
  by_cases three : n ≤ 0xFFFF
  · simp only [if_neg one, if_neg two, if_pos three] at h
    exact read_of_three (by omega) three (by omega) h
  · simp only [if_neg one, if_neg two, if_neg three] at h
    exact read_of_four (by omega) (by omega) h

theorem readAll_of_encoded {chars : List Char} (fuel : Nat) (enough : chars.length < fuel)
    (clean : s.failure = none) (h : delivered s.events = chars.flatMap String.utf8EncodeChar) :
    readAll fuel s = (chars, none) := by
  induction chars generalizing s fuel with
  | nil =>
    obtain ⟨fuel, rfl⟩ := Nat.exists_eq_succ_of_ne_zero (Nat.ne_of_gt enough)
    have ended : s.read = (.ok none, s) := by
      unfold Source.read Source.atEnd
      rw [nextByte_of_delivered_nil h, clean]
      rfl
    rw [readAll, ended]
  | cons c chars ih =>
    obtain ⟨fuel, rfl⟩ := Nat.exists_eq_succ_of_ne_zero (Nat.ne_zero_of_lt enough)
    obtain ⟨after, read, whole⟩ := read_of_encoded h
    have more := ih (s := ⟨after, s.failure⟩) fuel (Nat.lt_of_succ_lt_succ enough) clean whole
    rw [readAll, read]
    simp only [more]

theorem length_le_length_encoded (chars : List Char) :
    chars.length ≤ (chars.flatMap String.utf8EncodeChar).length := by
  induction chars with
  | nil => exact Nat.le_refl _
  | cons c chars ih =>
    have := c.utf8Size_pos
    rw [List.flatMap_cons, List.length_cons, List.length_append, String.length_utf8EncodeChar]
    omega

theorem toList_loop (bytes : ByteArray) (i : Nat) (r : List UInt8) :
    ByteArray.toList.loop bytes i r = r.reverse ++ bytes.data.toList.drop i := by
  induction i, r using ByteArray.toList.loop.induct bytes with
  | case1 i r inside ih =>
    have inside' : i < bytes.data.toList.length := by
      rw [Array.length_toList]
      exact inside
    have byte : bytes.get! i = bytes.data.toList[i] := by
      change bytes.data[i]! = _
      rw [getElem!_pos bytes.data i inside, Array.getElem_toList]
    rw [ByteArray.toList.loop, if_pos inside, ih, List.drop_eq_getElem_cons inside',
      List.reverse_cons, List.append_assoc, byte]
    rfl
  | case2 i r outside =>
    have none : bytes.data.toList.drop i = [] := by
      rw [List.drop_eq_nil_iff, Array.length_toList]
      exact Nat.not_lt.mp outside
    rw [ByteArray.toList.loop, if_neg outside, none, List.append_nil]

theorem toList_toUTF8 (text : String) :
    text.toUTF8.toList = text.toList.flatMap String.utf8EncodeChar := by
  change ByteArray.toList.loop text.toUTF8 0 [] = _
  rw [toList_loop, String.toUTF8_eq_toByteArray, ← String.utf8Encode_toList, List.utf8Encode,
    List.toList_data_toByteArray]
  rfl

theorem Source.decode_of_text {text : String} (clean : s.failure = none)
    (h : delivered s.events = text.toUTF8.toList) : s.decode = (text.toList, none) := by
  rw [toList_toUTF8] at h
  refine readAll_of_encoded _ ?_ clean h
  have many := length_delivered_le s.events
  have few := length_le_length_encoded text.toList
  rw [h] at many
  omega

end

/-- The source delivers the text and then ends. -/
structure Source.IsText (source : Source) (text : String) : Prop where
  clean : source.failure = none
  delivers : delivered source.events = text.toUTF8.toList

theorem Source.IsText.ofString (text : String) : (Source.ofString text).IsText text :=
  ⟨rfl, delivered_bytes _⟩

end Calculator.Utf8
