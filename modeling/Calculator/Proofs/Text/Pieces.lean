import Calculator.Proofs.Text.Decoding
import Mathlib.Data.List.Basic
import Mathlib.Tactic.SplitIfs

set_option autoImplicit false

/-!
# Reading malformed text

Any bytes are read piece by piece: characters, stray bytes, and start bytes with what could be
collected behind them. Every encoding among the bytes is a piece of its own, whatever stands around
it (`Source.reads_pieces`). A source that is read without an error delivers a text
(`Source.exists_isText`).
-/
namespace Calculator.Utf8

def Trails (b : UInt8) : Prop :=
  0x80 ≤ b.toNat ∧ b.toNat < 0xC0

def Leads (width : Nat) (b : UInt8) : Prop :=
  width = 2 ∧ 0xC0 ≤ b.toNat ∧ b.toNat < 0xE0 ∨
    width = 3 ∧ 0xE0 ≤ b.toNat ∧ b.toNat < 0xF0 ∨
      width = 4 ∧ 0xF0 ≤ b.toNat ∧ b.toNat < 0xF8

def Stray (b : UInt8) : Prop :=
  Trails b ∨ 0xF8 ≤ b.toNat

section
variable {b first : UInt8} {width : Nat}

theorem isContinuation_iff : isContinuation b = true ↔ Trails b := by
  simp only [isContinuation, Trails, Bool.and_eq_true, decide_eq_true_eq, UInt8.le_iff_toNat_le]
  change 0x80 ≤ b.toNat ∧ b.toNat ≤ 0xBF ↔ _
  omega

theorem lt_ascii_iff : b < 0x80 ↔ b.toNat < 0x80 := by
  rw [UInt8.lt_iff_toNat_lt]
  rfl

theorem leads_of_sequenceWidth (h : sequenceWidth b = some width) : Leads width b := by
  rw [sequenceWidth_of_range] at h
  unfold Leads
  split_ifs at h <;> cases h <;> omega

theorem stray_of_sequenceWidth (h : sequenceWidth b = none) (notAscii : ¬ b < 0x80) : Stray b := by
  rw [sequenceWidth_of_range] at h
  rw [lt_ascii_iff] at notAscii
  unfold Stray Trails
  split_ifs at h
  omega

end

section
variable {c : Char} {first second third fourth : UInt8}

theorem encoded_ofNat {n : Nat} (scalar : n < 0xD800 ∨ 0xDFFF < n ∧ n < 0x110000) :
    String.utf8EncodeChar (Char.ofNat n) =
      if n ≤ 0x7F then [UInt8.ofNat n]
      else if n ≤ 0x7FF then [UInt8.ofNat (n / 64 % 32 + 0xC0), trailing n]
      else if n ≤ 0xFFFF then
        [UInt8.ofNat (n / 4096 % 16 + 0xE0), trailing (n / 64), trailing n]
      else
        [UInt8.ofNat (n / 262144 % 8 + 0xF0), trailing (n / 4096), trailing (n / 64),
          trailing n] := by
  have value : (Char.ofNat n).val.toNat = n := by
    unfold Char.ofNat
    rw [dif_pos scalar]
    rfl
  unfold String.utf8EncodeChar
  rw [value]
  rfl

theorem trails_trailing (n : Nat) : Trails (trailing n) :=
  isContinuation_iff.mp (trailing_isContinuation n)

theorem encoded_cons (c : Char) :
    ∃ b bs, String.utf8EncodeChar c = b :: bs ∧ ¬ Trails b ∧ ∀ x ∈ bs, Trails x := by
  have encoded := encoded_ofNat c.valid
  change String.utf8EncodeChar (Char.ofNat c.toNat) = _ at encoded
  rw [Char.ofNat_toNat] at encoded
  rw [encoded]
  split_ifs
  · refine ⟨_, [], rfl, ?_, by simp⟩
    simp only [Trails, UInt8.toNat_ofNat']
    omega
  · refine ⟨_, _, rfl, ?_, by simp [trails_trailing]⟩
    simp only [Trails, UInt8.toNat_ofNat']
    omega
  · refine ⟨_, _, rfl, ?_, by simp [trails_trailing]⟩
    simp only [Trails, UInt8.toNat_ofNat']
    omega
  · refine ⟨_, _, rfl, ?_, by simp [trails_trailing]⟩
    simp only [Trails, UInt8.toNat_ofNat']
    omega

theorem ofNat_eq (b : UInt8) {n : Nat} (h : n = b.toNat) : UInt8.ofNat n = b := by
  rw [h, UInt8.ofNat_toNat]

theorem trailing_eq {n : Nat} (trails : Trails second) (h : n % 64 = second.toNat - 0x80) :
    trailing n = second := by
  have := trails.1
  exact ofNat_eq second (by omega)

theorem bounds_of_allowed (allowed : secondByteAllowed first second = true) :
    (first.toNat = 0xE0 → 0xA0 ≤ second.toNat) ∧ (first.toNat = 0xED → second.toNat ≤ 0x9F) ∧
      (first.toNat = 0xF0 → 0x90 ≤ second.toNat) ∧ (first.toNat = 0xF4 → second.toNat ≤ 0x8F) := by
  have same (n : Nat) (h : n < 256) : first = UInt8.ofNat n ↔ first.toNat = n := by
    rw [← UInt8.toNat_inj, UInt8.toNat_ofNat', Nat.mod_eq_of_lt h]
  unfold secondByteAllowed at allowed
  simp only [UInt8.le_iff_toNat_le] at allowed
  change (if first = UInt8.ofNat 0xE0 then decide (0xA0 ≤ second.toNat)
    else if first = UInt8.ofNat 0xED then decide (second.toNat ≤ 0x9F)
    else if first = UInt8.ofNat 0xF0 then decide (0x90 ≤ second.toNat)
    else if first = UInt8.ofNat 0xF4 then decide (second.toNat ≤ 0x8F) else true) = true at allowed
  simp only [same 0xE0 (by omega), same 0xED (by omega), same 0xF0 (by omega),
    same 0xF4 (by omega)] at allowed
  split_ifs at allowed <;> simp only [decide_eq_true_eq] at allowed <;> omega

theorem encoded_of_one (ascii : first.toNat < 0x80) :
    String.utf8EncodeChar (Char.ofNat first.toNat) = [first] := by
  rw [encoded_ofNat (by omega), if_pos (by omega), ofNat_eq first rfl]

theorem encoded_of_two (low : 0xC2 ≤ first.toNat) (high : first.toNat < 0xE0)
    (trails : Trails second) :
    String.utf8EncodeChar (Char.ofNat (pushPayload (first.toNat % 32) second)) =
      [first, second] := by
  have bounds := trails
  unfold Trails at bounds
  generalize payload : pushPayload (first.toNat % 32) second = n
  unfold pushPayload at payload
  rw [encoded_ofNat (by omega), if_neg (by omega), if_pos (by omega), ofNat_eq first (by omega),
    trailing_eq trails (by omega)]

theorem encoded_of_three (low : 0xE0 ≤ first.toNat) (high : first.toNat < 0xF0)
    (trails : Trails second) (trails' : Trails third)
    (allowed : secondByteAllowed first second = true) :
    String.utf8EncodeChar
        (Char.ofNat (pushPayload (pushPayload (first.toNat % 16) second) third)) =
      [first, second, third] := by
  have bounds := trails
  have bounds' := trails'
  have limits := bounds_of_allowed allowed
  unfold Trails at bounds bounds'
  generalize payload : pushPayload (pushPayload (first.toNat % 16) second) third = n
  unfold pushPayload at payload
  rw [encoded_ofNat (by omega), if_neg (by omega), if_neg (by omega), if_pos (by omega),
    ofNat_eq first (by omega), trailing_eq trails (by omega), trailing_eq trails' (by omega)]

theorem encoded_of_four (low : 0xF0 ≤ first.toNat) (high : first.toNat ≤ 0xF4)
    (trails : Trails second) (trails' : Trails third) (trails'' : Trails fourth)
    (allowed : secondByteAllowed first second = true) :
    String.utf8EncodeChar (Char.ofNat
        (pushPayload (pushPayload (pushPayload (first.toNat % 8) second) third) fourth)) =
      [first, second, third, fourth] := by
  have bounds := trails
  have bounds' := trails'
  have bounds'' := trails''
  have limits := bounds_of_allowed allowed
  unfold Trails at bounds bounds' bounds''
  generalize payload :
    pushPayload (pushPayload (pushPayload (first.toNat % 8) second) third) fourth = n
  unfold pushPayload at payload
  rw [encoded_ofNat (by omega), if_neg (by omega), if_neg (by omega), if_neg (by omega),
    ofNat_eq first (by omega), trailing_eq trails (by omega), trailing_eq trails' (by omega),
    trailing_eq trails'' (by omega)]

end

theorem encoded_of_character {first : UInt8} {taken : List UInt8} {width : Nat} {c : Char}
    (leads : Leads width first) (all : ∀ b ∈ taken, Trails b) (few : taken.length < width)
    (h : character width first taken = .ok c) : String.utf8EncodeChar c = first :: taken := by
  unfold character at h
  split at h
  · cases h
  rename_i inside
  simp only [Bool.or_eq_true, decide_eq_true_eq, UInt8.lt_iff_toNat_lt, not_or, Nat.not_lt]
    at inside
  split at h
  · cases h
  rename_i second more
  split at h
  · cases h
  rename_i refused
  split at h
  · cases h
  have allowed : secondByteAllowed first second = true := by simpa using refused
  have whole : more.length + 2 = width := by
    rw [List.length_cons] at *
    omega
  obtain ⟨trails, all⟩ := List.forall_mem_cons.mp all
  rw [← Except.ok.inj h]
  rcases leads with ⟨rfl, low, high⟩ | ⟨rfl, low, high⟩ | ⟨rfl, low, high⟩
  · obtain rfl : more = [] := List.length_eq_zero_iff.mp (by omega)
    exact encoded_of_two inside.1 high trails
  · obtain ⟨third, rfl⟩ := List.length_eq_one_iff.mp (by omega : more.length = 1)
    exact encoded_of_three low high trails (all third (by simp)) allowed
  · obtain ⟨third, fourth, rfl⟩ := List.length_eq_two.mp (by omega : more.length = 2)
    exact encoded_of_four low inside.2 trails (all third (by simp)) (all fourth (by simp)) allowed

/-- What one read reports of the bytes that it takes in front of the rest. -/
inductive Piece : Except DecodeError Char → List UInt8 → List UInt8 → Prop where
  | character (c : Char) (rest : List UInt8) : Piece (.ok c) (String.utf8EncodeChar c) rest
  | stray {b : UInt8} (e : DecodeError) (rest : List UInt8) (isStray : Stray b) :
      Piece (.error e) [b] rest
  | broken {first : UInt8} {taken : List UInt8} {width : Nat} (e : DecodeError)
      (rest : List UInt8) (leads : Leads width first) (trail : ∀ b ∈ taken, Trails b)
      (few : taken.length < width)
      (most : taken.length + 1 = width ∨ ∀ b ∈ rest.head?, ¬ Trails b)
      (noCharacter : ∀ c, String.utf8EncodeChar c ≠ first :: taken) :
      Piece (.error e) (first :: taken) rest

/-- However the bytes are delivered, a read takes these in front of the rest. It reports the
outcome, unless the source fails. -/
def Gives (outcome : Except DecodeError Char) (taken rest : List UInt8) : Prop :=
  ∀ s : Source, delivered s.events = taken ++ rest →
    ∃ after, delivered after = rest ∧ s.read.2 = ⟨after, s.failure⟩ ∧
      (s.read.1 = outcome.map some ∨
        ∃ cause, s.failure = some cause ∧ s.read.1 = .error (.readFailure cause))

section
variable {events : List Event} {taken rest : List UInt8} {first : UInt8} {n width : Nat}

theorem takeContinuation_of_stop (h : delivered events = taken ++ rest)
    (trail : ∀ b ∈ taken, Trails b) (few : taken.length ≤ n)
    (most : taken.length = n ∨ ∀ b ∈ rest.head?, ¬ Trails b) :
    ∃ after, takeContinuation n events = (taken, after) ∧ delivered after = rest := by
  induction taken generalizing events n with
  | nil =>
    cases n with
    | zero => exact ⟨events, rfl, h⟩
    | succ n =>
      refine ⟨events, ?_, h⟩
      have stop := most.resolve_left (by simp)
      unfold takeContinuation
      cases rest with
      | nil => rw [nextByte_of_delivered_nil h]
      | cons b rest =>
        obtain ⟨after, next, -⟩ := nextByte_of_delivered_cons h
        have refused : ¬ isContinuation b = true := by
          rw [isContinuation_iff]
          exact stop b rfl
        simp only [next, if_neg refused]
  | cons b taken ih =>
    obtain ⟨n, rfl⟩ := Nat.exists_eq_succ_of_ne_zero (Nat.ne_zero_of_lt few)
    obtain ⟨after, next, same⟩ := nextByte_of_delivered_cons h
    obtain ⟨last, more, whole⟩ := ih same (fun x mem => trail x (List.mem_cons_of_mem b mem))
      (by simpa using few) (by simpa using most)
    refine ⟨last, ?_, whole⟩
    have accepted := isContinuation_iff.mpr (trail b List.mem_cons_self)
    unfold takeContinuation
    simp only [next, accepted, if_true, more]

theorem gives_ascii (ascii : first < 0x80) :
    Gives (.ok (Char.ofNat first.toNat)) [first] rest := by
  intro s h
  obtain ⟨after, read, whole⟩ := read_of_ascii h ascii
  rw [read]
  exact ⟨after, whole, rfl, .inl rfl⟩

theorem gives_stray (notAscii : ¬ first < 0x80) (none : sequenceWidth first = none) :
    Gives (.error (.startByte first)) [first] rest := by
  intro s h
  obtain ⟨after, next, whole⟩ := nextByte_of_delivered_cons h
  have read : s.read = (.error (.startByte first), ⟨after, s.failure⟩) := by
    unfold Source.read
    simp only [next, if_neg notAscii, none]
  rw [read]
  exact ⟨after, whole, rfl, .inl rfl⟩

theorem gives_sequence (notAscii : ¬ first < 0x80) (leads : sequenceWidth first = some width)
    (trail : ∀ b ∈ taken, Trails b) (few : taken.length < width)
    (most : taken.length + 1 = width ∨ ∀ b ∈ rest.head?, ¬ Trails b) :
    Gives (character width first taken) (first :: taken) rest := by
  intro s h
  obtain ⟨middle, next, same⟩ := nextByte_of_delivered_cons h
  obtain ⟨after, more, whole⟩ := takeContinuation_of_stop (n := width - 1) same trail (by omega)
    (most.imp_left (by omega))
  refine ⟨after, whole, ?_⟩
  unfold Source.read Source.atEnd
  simp only [next, if_neg notAscii, leads, more]
  refine ⟨trivial, ?_⟩
  generalize (decide (taken.length + 1 < width) && (nextByte after).isNone) = ended
  cases s.failure with
  | none => exact .inl rfl
  | some cause =>
    cases ended with
    | false => exact .inl rfl
    | true => exact .inr ⟨cause, rfl, rfl⟩

end

theorem gives_character (c : Char) (rest : List UInt8) :
    Gives (.ok c) (String.utf8EncodeChar c) rest := by
  intro s h
  obtain ⟨after, read, whole⟩ := read_of_encoded h
  rw [read]
  exact ⟨after, whole, rfl, .inl rfl⟩

section
variable {outcome : Except DecodeError Char} {taken rest : List UInt8}

theorem Gives.read_eq (gives : Gives outcome taken rest) {s : Source} (clean : s.failure = none)
    (h : delivered s.events = taken ++ rest) :
    s.read.1 = outcome.map some ∧ delivered s.read.2.events = rest ∧ s.read.2.failure = none := by
  obtain ⟨after, whole, left, read | ⟨cause, failure, -⟩⟩ := gives s h
  · rw [left]
    exact ⟨read, whole, clean⟩
  · rw [clean] at failure
    cases failure

theorem Gives.unique {outcome' : Except DecodeError Char} {taken' rest' : List UInt8}
    (gives : Gives outcome taken rest) (gives' : Gives outcome' taken' rest')
    (same : taken ++ rest = taken' ++ rest') : outcome = outcome' ∧ taken = taken' := by
  obtain ⟨read, left, -⟩ := gives.read_eq (s := .ofBytes (taken ++ rest)) rfl (delivered_bytes _)
  obtain ⟨read', left', -⟩ := gives'.read_eq (s := .ofBytes (taken ++ rest)) rfl
    (same ▸ delivered_bytes _)
  obtain rfl : rest = rest' := left.symm.trans left'
  refine ⟨?_, List.append_cancel_right same⟩
  have answers := read.symm.trans read'
  cases outcome <;> cases outcome' <;> cases answers <;> rfl

theorem Piece.cons (h : Piece outcome taken rest) :
    ∃ b bs, taken = b :: bs ∧ ∀ x ∈ bs, Trails x := by
  cases h with
  | character c =>
    obtain ⟨b, bs, same, -, trail⟩ := encoded_cons c
    exact ⟨b, bs, same, trail⟩
  | stray e rest isStray => exact ⟨_, [], rfl, by simp⟩
  | broken e rest leads trail few most noCharacter => exact ⟨_, _, rfl, trail⟩

end

theorem exists_trailing (n : Nat) (bytes : List UInt8) :
    ∃ taken rest, bytes = taken ++ rest ∧ (∀ b ∈ taken, Trails b) ∧ taken.length ≤ n ∧
      (taken.length = n ∨ ∀ b ∈ rest.head?, ¬ Trails b) := by
  induction n generalizing bytes with
  | zero => exact ⟨[], bytes, by simp⟩
  | succ n ih =>
    cases bytes with
    | nil => exact ⟨[], [], by simp⟩
    | cons b bytes =>
      by_cases trails : Trails b
      · obtain ⟨taken, rest, rfl, all, few, most⟩ := ih bytes
        exact ⟨b :: taken, rest, by simp, by simpa [trails] using all, by simpa using few,
          by simpa using most⟩
      · exact ⟨[], b :: bytes, by simp [trails]⟩

theorem exists_piece (first : UInt8) (more : List UInt8) : ∃ outcome taken rest,
    first :: more = taken ++ rest ∧ Piece outcome taken rest ∧ Gives outcome taken rest := by
  by_cases ascii : first < 0x80
  · have piece := Piece.character (Char.ofNat first.toNat) more
    rw [encoded_of_one (lt_ascii_iff.mp ascii)] at piece
    exact ⟨_, [first], more, rfl, piece, gives_ascii ascii⟩
  cases starts : sequenceWidth first with
  | none =>
    exact ⟨_, [first], more, rfl, .stray _ _ (stray_of_sequenceWidth starts ascii),
      gives_stray ascii starts⟩
  | some width =>
    have leads := leads_of_sequenceWidth starts
    have wide : 2 ≤ width := by
      unfold Leads at leads
      omega
    obtain ⟨taken, rest, rfl, trail, few, most⟩ := exists_trailing (width - 1) more
    have few : taken.length < width := by omega
    have most : taken.length + 1 = width ∨ ∀ b ∈ rest.head?, ¬ Trails b :=
      most.imp_left (by omega)
    have gives := gives_sequence ascii starts trail few most
    refine ⟨_, first :: taken, rest, rfl, ?_, gives⟩
    -- What the bytes after the first one decode to says if they are an encoding.
    cases found : character width first taken with
    | ok c =>
      rw [← encoded_of_character leads trail few found]
      exact .character c rest
    | error e =>
      -- An encoding would be read as its character, but a read has one outcome.
      refine .broken e rest leads trail few most fun c same => ?_
      rw [found, ← same] at gives
      cases (gives.unique (gives_character c rest) rfl).1

/-- The bytes in pieces, one behind another. -/
inductive Pieces (P : Except DecodeError Char → List UInt8 → List UInt8 → Prop) :
    List UInt8 → List (Except DecodeError Char × List UInt8) → Prop where
  | nil : Pieces P [] []
  | cons {outcome : Except DecodeError Char} {taken rest : List UInt8}
      {pieces : List (Except DecodeError Char × List UInt8)} (piece : P outcome taken rest)
      (more : Pieces P rest pieces) : Pieces P (taken ++ rest) ((outcome, taken) :: pieces)

def Source.behind (s : Source) : Nat → Source
  | 0 => s
  | n + 1 => s.read.2.behind n

/-- What is reported for a piece, and behind the last one. -/
def report (piece : Option (Except DecodeError Char × List UInt8)) :
    Except DecodeError (Option Char) :=
  piece.elim (.ok none) fun p => p.1.map some

section
variable {P Q : Except DecodeError Char → List UInt8 → List UInt8 → Prop} {bytes : List UInt8}
  {pieces : List (Except DecodeError Char × List UInt8)}

theorem Pieces.mono (h : Pieces P bytes pieces)
    (implies : ∀ outcome taken rest, P outcome taken rest → Q outcome taken rest) :
    Pieces Q bytes pieces := by
  induction h with
  | nil => exact .nil
  | cons piece more ih => exact .cons (implies _ _ _ piece) ih

theorem Pieces.flatMap_eq (h : Pieces P bytes pieces) : pieces.flatMap Prod.snd = bytes := by
  induction h with
  | nil => rfl
  | cons piece more ih => rw [List.flatMap_cons, ih]

def Read (outcome : Except DecodeError Char) (taken rest : List UInt8) : Prop :=
  Piece outcome taken rest ∧ Gives outcome taken rest

theorem exists_pieces (bytes : List UInt8) : ∃ pieces, Pieces Read bytes pieces := by
  -- Each piece has a byte, so the bytes behind it are fewer.
  induction size : bytes.length using Nat.strongRecOn generalizing bytes with
  | ind n ih =>
    cases bytes with
    | nil => exact ⟨[], .nil⟩
    | cons first more =>
      obtain ⟨outcome, taken, rest, split, piece, gives⟩ := exists_piece first more
      obtain ⟨b, bs, rfl, -⟩ := piece.cons
      have shorter : rest.length < n := by
        rw [← size, split]
        simp only [List.cons_append, List.length_cons, List.length_append]
        omega
      obtain ⟨pieces, found⟩ := ih rest.length shorter rest rfl
      rw [split]
      exact ⟨_, .cons ⟨piece, gives⟩ found⟩

theorem Pieces.behind (h : Pieces Read bytes pieces) {s : Source} (clean : s.failure = none)
    (delivers : delivered s.events = bytes) (n : Nat) :
    (s.behind n).read.1 = report pieces[n]? ∧
      delivered (s.behind n).events = (pieces.drop n).flatMap Prod.snd := by
  induction n generalizing s bytes pieces with
  | zero =>
    refine ⟨?_, delivers.trans h.flatMap_eq.symm⟩
    cases h with
    | nil =>
      unfold Source.behind Source.read Source.atEnd
      rw [nextByte_of_delivered_nil delivers, clean]
      rfl
    | cons piece more => exact (piece.2.read_eq clean delivers).1
  | succ n ih =>
    -- A source at its end stays there, however often it is read.
    cases h with
    | nil =>
      have ended : s.read.2 = s := by
        unfold Source.read
        rw [nextByte_of_delivered_nil delivers]
      have again := ih .nil clean delivers
      rw [Source.behind, ended]
      simpa using again
    | cons piece more =>
      obtain ⟨-, left, clean⟩ := piece.2.read_eq clean delivers
      exact ih more clean left

theorem Pieces.of_encoded {c : Char} {after : List UInt8}
    (h : Pieces Read (String.utf8EncodeChar c ++ after) pieces) :
    ∃ more, pieces = (.ok c, String.utf8EncodeChar c) :: more ∧ Pieces Read after more := by
  generalize whole : String.utf8EncodeChar c ++ after = bytes at h
  cases h with
  | nil =>
    obtain ⟨b, bs, encoded, -⟩ := encoded_cons c
    rw [encoded] at whole
    cases whole
  | cons piece more =>
    obtain ⟨rfl, rfl⟩ := piece.2.unique (gives_character c after) whole.symm
    obtain rfl := List.append_cancel_left whole
    exact ⟨_, rfl, more⟩

theorem Pieces.exists_character {before after : List UInt8} {c : Char}
    (h : Pieces Read (before ++ String.utf8EncodeChar c ++ after) pieces) :
    ∃ i, pieces[i]? = some (.ok c, String.utf8EncodeChar c) ∧
      (pieces.take i).flatMap Prod.snd = before := by
  generalize whole : before ++ String.utf8EncodeChar c ++ after = bytes at h
  induction h generalizing before with
  | nil =>
    obtain ⟨b, bs, encoded, -⟩ := encoded_cons c
    simp [encoded] at whole
  | @cons outcome taken rest pieces piece more ih =>
    obtain ⟨b, bs, encoded, notTrails, -⟩ := encoded_cons c
    cases before with
    | nil =>
      have found : Pieces Read (String.utf8EncodeChar c ++ after) ((outcome, taken) :: pieces) := by
        rw [← List.nil_append (String.utf8EncodeChar c), whole]
        exact .cons piece more
      obtain ⟨_, same, -⟩ := found.of_encoded
      cases same
      exact ⟨0, rfl, rfl⟩
    | cons d before =>
      -- The first byte of the encoding trails nothing, so the piece ends in front of it.
      obtain ⟨d', ds, rfl, trail⟩ := piece.1.cons
      rw [List.cons_append, List.cons_append, List.append_assoc, List.cons_append] at whole
      obtain ⟨rfl, inner⟩ := List.cons.inj whole
      obtain ⟨us, rfl, rest'⟩ :
          ∃ us, before = ds ++ us ∧ rest = us ++ (String.utf8EncodeChar c ++ after) := by
        rcases List.append_eq_append_iff.mp inner with ⟨us, rfl, behind⟩ | found
        · cases us with
          | nil => exact ⟨[], by simp, behind.symm⟩
          | cons u us =>
            rw [encoded] at behind
            obtain ⟨rfl, -⟩ := List.cons.inj behind
            exact absurd (trail b (by simp)) notTrails
        · exact found
      obtain ⟨i, found, front⟩ := @ih us (by rw [rest', List.append_assoc])
      exact ⟨i + 1, found, by simp [front]⟩

theorem Pieces.eq_nil (h : Pieces Read [] pieces) : pieces = [] := by
  generalize whole : [] = bytes at h
  cases h with
  | nil => rfl
  | cons piece more =>
    obtain ⟨b, bs, rfl, -⟩ := piece.1.cons
    cases whole

theorem Pieces.of_text {chars : List Char}
    (h : Pieces Read (chars.flatMap String.utf8EncodeChar) pieces) :
    pieces.map Prod.fst = chars.map .ok := by
  induction chars generalizing pieces with
  | nil =>
    rw [h.eq_nil]
    rfl
  | cons c chars ih =>
    obtain ⟨more, rfl, found⟩ := h.of_encoded
    rw [List.map_cons, ih found, List.map_cons]

end

/-- Bytes that are read one after another, with interruptions at will, come in pieces without a gap
or an overlap, and then there is nothing more to be read. Every encoding among them is read. -/
theorem Source.reads_pieces (bytes : List UInt8) : ∃ pieces, Pieces Piece bytes pieces ∧
    (∀ events, delivered events = bytes → ∀ n,
      ((⟨events, none⟩ : Source).behind n).read.1 = report pieces[n]? ∧
        delivered ((⟨events, none⟩ : Source).behind n).events =
          (pieces.drop n).flatMap Prod.snd) ∧
    (∀ before c after, bytes = before ++ String.utf8EncodeChar c ++ after →
      ∃ i, pieces[i]? = some (.ok c, String.utf8EncodeChar c) ∧
        (pieces.take i).flatMap Prod.snd = before) ∧
    ∀ text : String, bytes = text.toUTF8.toList →
      pieces.map Prod.fst = text.toList.map .ok := by
  obtain ⟨pieces, found⟩ := exists_pieces bytes
  refine ⟨pieces, found.mono fun _ _ _ read => read.1, ?_, ?_, ?_⟩
  · intro events delivers n
    exact found.behind rfl delivers n
  · rintro before c after rfl
    exact found.exists_character
  · rintro text rfl
    rw [toList_toUTF8] at found
    exact found.of_text

example : ((Source.ofBytes [0xE0, 0x80, 42]).behind 1).read.1 = .ok (some '*') := by
  rfl

theorem read_of_delivered_nil {s : Source} (h : delivered s.events = []) :
    s.read = (s.atEnd.map fun _ => none, s) := by
  unfold Source.read
  rw [nextByte_of_delivered_nil h]

theorem delivered_of_readAll {fuel : Nat} {s : Source} {chars : List Char}
    (enough : (delivered s.events).length < fuel) (h : readAll fuel s = (chars, none)) :
    s.failure = none ∧ delivered s.events = chars.flatMap String.utf8EncodeChar := by
  induction fuel generalizing s chars with
  | zero => omega
  | succ fuel ih =>
    unfold readAll at h
    cases bytes : delivered s.events with
    | nil =>
      rw [read_of_delivered_nil bytes, Source.atEnd] at h
      cases failure : s.failure with
      | none =>
        rw [failure] at h
        cases h
        exact ⟨rfl, rfl⟩
      | some cause =>
        rw [failure] at h
        cases h
    | cons first more =>
      obtain ⟨outcome, taken, rest, split, piece, gives⟩ := exists_piece first more
      obtain ⟨after, whole, left, read⟩ := gives s (bytes.trans split)
      generalize s.read = out at h left read
      obtain ⟨answer, s'⟩ := out
      dsimp only at left read
      subst left
      -- No read reported an error, so the piece is a character and the source does not fail.
      rcases read with rfl | ⟨cause, -, rfl⟩
      · cases piece with
        | character c =>
          obtain ⟨rfl, last⟩ := Prod.mk.inj h
          obtain ⟨b, bs, encoded, -⟩ := encoded_cons c
          have shorter : (delivered after).length < fuel := by
            rw [bytes, split, encoded, List.length_append, List.length_cons] at enough
            rw [whole]
            omega
          obtain ⟨clean, same⟩ := ih (s := ⟨after, s.failure⟩) shorter (Prod.ext rfl last)
          refine ⟨clean, ?_⟩
          rw [split, ← whole, List.flatMap_cons]
          exact congrArg _ same
        | stray e => cases h
        | broken e => cases h
      · cases h

theorem Source.exists_isText {s : Source} (h : s.decode.2 = none) :
    ∃ text : String, s.IsText text ∧ s.decode.1 = text.toList := by
  have enough : (delivered s.events).length < s.events.length + 1 :=
    Nat.lt_succ_of_le (length_delivered_le s.events)
  obtain ⟨clean, delivers⟩ := delivered_of_readAll enough (Prod.ext rfl h)
  refine ⟨String.ofList s.decode.1, ⟨clean, ?_⟩, String.toList_ofList.symm⟩
  rw [toList_toUTF8, String.toList_ofList]
  exact delivers

end Calculator.Utf8
