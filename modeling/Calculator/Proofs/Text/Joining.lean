import Calculator.Proofs.Text.Decoding

set_option autoImplicit false

namespace Calculator.Utf8

/-- The source, the end of a line, and then another source. -/
def Source.joined (a b : Source) : Source :=
  ⟨a.events ++ .byte 10 :: b.events, b.failure⟩

section
variable {events events' : List Event}

theorem nextByte_congr (h : delivered events = delivered events') :
    nextByte events = none ∧ nextByte events' = none ∨
      ∃ b after after', nextByte events = some (b, after) ∧ nextByte events' = some (b, after') ∧
        delivered events = b :: delivered after ∧ delivered after = delivered after' := by
  cases bytes : delivered events with
  | nil => exact .inl ⟨nextByte_of_delivered_nil bytes, nextByte_of_delivered_nil (h ▸ bytes)⟩
  | cons b rest =>
    obtain ⟨after, first, whole⟩ := nextByte_of_delivered_cons bytes
    obtain ⟨after', first', whole'⟩ := nextByte_of_delivered_cons (h ▸ bytes)
    exact .inr ⟨b, after, after', first, first', by rw [whole], whole.trans whole'.symm⟩

theorem takeContinuation_congr (n : Nat) (h : delivered events = delivered events') :
    (takeContinuation n events).1 = (takeContinuation n events').1 ∧
      delivered (takeContinuation n events).2 = delivered (takeContinuation n events').2 ∧
      (delivered (takeContinuation n events).2).length ≤ (delivered events).length := by
  induction n generalizing events events' with
  | zero => exact ⟨rfl, h, Nat.le_refl _⟩
  | succ n ih =>
    unfold takeContinuation
    rcases nextByte_congr h with ⟨ended, ended'⟩ | ⟨b, after, after', first, first', whole, same⟩
    · rw [ended, ended']
      exact ⟨rfl, h, Nat.le_refl _⟩
    · obtain ⟨taken, left, fewer⟩ := ih same
      simp only [first, first']
      split
      · refine ⟨congrArg (List.cons b) taken, left, ?_⟩
        rw [whole, List.length_cons]
        exact Nat.le_succ_of_le fewer
      · exact ⟨rfl, h, Nat.le_refl _⟩

end

section
variable {s s' a b : Source} {text : String}

theorem Source.read_congr (failure : s.failure = s'.failure)
    (h : delivered s.events = delivered s'.events) :
    s.read.1 = s'.read.1 ∧ s.read.2.failure = s'.read.2.failure ∧
      delivered s.read.2.events = delivered s'.read.2.events ∧
      (∀ c, s.read.1 = .ok (some c) →
        (delivered s.read.2.events).length < (delivered s.events).length) := by
  have atEnd : s.atEnd = s'.atEnd := by
    unfold atEnd
    rw [failure]
  unfold read
  rcases nextByte_congr h with ⟨ended, ended'⟩ | ⟨b, after, after', first, first', whole, same⟩
  · rw [ended, ended', atEnd]
    refine ⟨rfl, failure, h, fun c none => ?_⟩
    cases found : s'.atEnd <;> rw [found] at none <;> cases none
  · have less : (delivered after).length < (delivered s.events).length := by
      rw [whole]
      exact Nat.lt_succ_self _
    simp only [first, first', atEnd]
    split
    · exact ⟨rfl, failure, same, fun _ _ => less⟩
    · cases sequenceWidth b with
      | none => exact ⟨rfl, failure, same, fun _ _ => less⟩
      | some width =>
        obtain ⟨taken, left, fewer⟩ := takeContinuation_congr (width - 1) same
        have ended : (nextByte (takeContinuation (width - 1) after).2).isNone =
            (nextByte (takeContinuation (width - 1) after').2).isNone := by
          rcases nextByte_congr left with ⟨none, none'⟩ | ⟨b, u, u', some, some', -⟩
          · rw [none, none']
          · rw [some, some']
            rfl
        dsimp only
        rw [taken, ended]
        exact ⟨rfl, failure, left, fun _ _ => Nat.lt_of_le_of_lt fewer less⟩

theorem readAll_congr {fuel fuel' : Nat} (enough : (delivered s.events).length < fuel)
    (enough' : (delivered s.events).length < fuel') (failure : s.failure = s'.failure)
    (h : delivered s.events = delivered s'.events) : readAll fuel s = readAll fuel' s' := by
  induction fuel generalizing fuel' s s' with
  | zero => omega
  | succ fuel ih =>
    obtain ⟨fuel', rfl⟩ := Nat.exists_eq_succ_of_ne_zero (Nat.ne_zero_of_lt enough')
    obtain ⟨answer, failure, left, less⟩ := Source.read_congr failure h
    unfold readAll
    generalize s.read = out, s'.read = out' at answer failure left less
    obtain ⟨answer, t⟩ := out
    obtain ⟨_, t'⟩ := out'
    subst answer
    rcases answer with e | _ | c
    · rfl
    · rfl
    · have fewer : (delivered t.events).length < _ := less c rfl
      have more : readAll fuel t = readAll fuel' t' := ih (by omega) (by omega) failure left
      simp only [more]

theorem readAll_of_encoded_append {chars : List Char} {fuel : Nat}
    (enough : (delivered s.events).length < fuel) (failure : s.failure = b.failure)
    (h : delivered s.events = chars.flatMap String.utf8EncodeChar ++ delivered b.events) :
    readAll fuel s = (chars ++ b.decode.1, b.decode.2) := by
  induction chars generalizing s fuel with
  | nil =>
    have same : delivered s.events = delivered b.events := h
    exact readAll_congr enough (same ▸ Nat.lt_succ_of_le (length_delivered_le _)) failure same
  | cons c chars ih =>
    obtain ⟨fuel, rfl⟩ := Nat.exists_eq_succ_of_ne_zero (Nat.ne_zero_of_lt enough)
    have size := c.utf8Size_pos
    rw [List.flatMap_cons, List.append_assoc] at h
    obtain ⟨after, read, whole⟩ := read_of_encoded h
    rw [h, List.length_append, String.length_utf8EncodeChar, ← whole] at enough
    have fewer : (delivered after).length < fuel := by omega
    have more := ih (s := ⟨after, s.failure⟩) fewer failure whole
    rw [readAll, read]
    simp only [more, List.cons_append]

theorem Source.decode_joined (isText : a.IsText text) :
    (a.joined b).decode = (text.toList ++ '\n' :: b.decode.1, b.decode.2) := by
  have newline : String.utf8EncodeChar '\n' = [10] := by decide
  have delivers : delivered (a.joined b).events =
      (text.toList ++ ['\n']).flatMap String.utf8EncodeChar ++ delivered b.events := by
    have first := isText.delivers
    rw [toList_toUTF8] at first
    rw [List.flatMap_append, ← first, List.flatMap_singleton, newline, List.append_assoc]
    exact List.filterMap_append
  have both := readAll_of_encoded_append (s := a.joined b) (b := b)
    (Nat.lt_succ_of_le (length_delivered_le _)) rfl delivers
  rw [List.append_assoc] at both
  exact both

end

end Calculator.Utf8
