import Calculator.Proofs.Token.Spacing

set_option autoImplicit false

namespace Calculator

namespace Lexer

section
variable {glued : Bool} {input more : List Char} {out words : List (Kind × String)}

theorem Scans.exists_eof (h : Scans glued input out) :
    ∃ words, out = words ++ [(.eof, "")] ∧ ∀ w ∈ words, w.1 ≠ .eof := by
  have refuses (c : Char) : ∃ words, refused c = words ++ [(.eof, "")] ∧ ∀ w ∈ words, w.1 ≠ .eof :=
    ⟨[_], rfl, by simp⟩
  induction h with
  | finish => exact ⟨[], rfl, List.forall_mem_nil _⟩
  | blank isBlank more ih => exact ih
  | comment more ih => exact ih
  | @token glued first l word rest kind out longest apart more ih =>
    obtain ⟨words, rfl, inside⟩ := ih
    refine ⟨(kind, _) :: words, rfl, List.forall_mem_cons.mpr ⟨?_, inside⟩⟩
    rintro rfl
    cases longest.mem
  | clash starts => exact refuses _
  | unknown notBlank notComment none => exact refuses _

theorem ne_refused (clean : ∀ w ∈ words.getLast?, w.1 ≠ .error) (c : Char) :
    words ++ [(.eof, "")] ≠ refused c := by
  intro stopped
  have split : words = [(.error, _)] := List.append_cancel_right stopped
  exact clean _ (by rw [split]; rfl) rfl

theorem Scans.append (h : Scans glued input (words ++ [(.eof, "")]))
    (clean : ∀ w ∈ words.getLast?, w.1 ≠ .error) (behind : Scans false more out) :
    Scans glued (input ++ '\n' :: more) (words ++ out) := by
  generalize whole : words ++ [(.eof, "")] = all at h
  induction h generalizing words with
  | finish =>
    obtain rfl : words = [] := List.append_left_eq_self.mp (whole.trans (List.nil_append _).symm)
    exact .blank rfl behind
  | blank isBlank _ ih => exact .blank isBlank (ih clean whole)
  | @comment glued rest out _ ih =>
    -- What ended with the input ends with the line now, and any other end stays where it was.
    have stops : (rest ++ '\n' :: more).dropWhile (· != '\n') =
        rest.dropWhile (· != '\n') ++ '\n' :: more := by
      rw [List.dropWhile_append]
      split
      · rename_i ended
        rw [List.isEmpty_iff.mp ended]
        rfl
      · rfl
    have skipped := ih clean whole
    rw [← stops] at skipped
    exact .comment skipped
  | @token glued first l word rest kind out longest apart _ ih =>
    cases words with
    | nil =>
      obtain ⟨rfl, -⟩ := Prod.mk.inj (List.cons.inj whole).1
      cases longest.mem
    | cons w words =>
      obtain ⟨rfl, inner⟩ := List.cons.inj whole
      refine .token (longest.append rfl _) apart (ih (fun w mem => clean w ?_) inner)
      rw [List.getLast?_cons, mem, Option.getD_some]
      rfl
  | clash starts => exact absurd whole (ne_refused clean _)
  | unknown notBlank notComment none => exact absurd whole (ne_refused clean _)

theorem exists_eof_of_text {source : Utf8.Source} {text : String} (isText : source.IsText text) :
    ∃ ts line, (ofSource source).tokens = ts ++ [.eof line] ∧ ∀ t ∈ ts, t.kind ≠ .eof := by
  obtain ⟨out, scans⟩ := scans_total false text.toList
  obtain ⟨words, rfl, inside⟩ := scans.exists_eof
  have spelled : (ofSource source).spellings = words ++ [(.eof, "")] :=
    (congrArg spellings (ofSource_of_text isText)).trans (scans.spellings_eq 1)
  obtain ⟨ts, rest, split, front, back⟩ := List.map_eq_append_iff.mp spelled
  obtain ⟨⟨kind, text, line⟩, rfl, same⟩ := List.map_eq_singleton_iff.mp back
  obtain ⟨rfl, rfl⟩ := Prod.mk.inj same
  refine ⟨ts, line, split, fun t mem => inside (t.kind, t.text) ?_⟩
  rw [← front]
  exact List.mem_map_of_mem mem

theorem spellings_joined {a b ab : Utf8.Source} {first second : String} {ts : List Token}
    {line : Position} (isFirst : a.IsText first) (isSecond : b.IsText second)
    (isBoth : ab.IsText (first ++ "\n" ++ second))
    (tokens : (ofSource a).tokens = ts ++ [.eof line])
    (clean : ∀ t ∈ ts.getLast?, t.kind ≠ .error) :
    (ofSource ab).spellings = (ts ++ (ofSource b).tokens).map fun t => (t.kind, t.text) := by
  obtain ⟨out, scans⟩ := scans_total false first.toList
  obtain ⟨out', scans'⟩ := scans_total false second.toList
  have spelled := scans.spellings_eq 1
  rw [← ofSource_of_text isFirst, spellings, tokens, List.map_append] at spelled
  rw [← spelled] at scans
  have both := (scans.append ?_ scans').spellings_eq 1
  · rw [← scans'.spellings_eq 1, ← ofSource_of_text isSecond] at both
    rw [ofSource_of_text isBoth, List.map_append, String.toList_append, String.toList_append,
      List.append_assoc]
    exact both
  · rw [List.getLast?_map]
    rintro w mem
    obtain ⟨t, last, rfl⟩ := Option.map_eq_some_iff.mp mem
    exact clean t last

end

end Lexer

end Calculator
