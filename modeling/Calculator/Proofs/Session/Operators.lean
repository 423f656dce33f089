import Calculator.Proofs.Session.Policy
import Calculator.Proofs.Tree.Yield

set_option autoImplicit false

namespace Calculator

namespace Policy

def fitting : Policy where
  node := Tree.RootFits
  datum _ := True
  shown _ := True
  mode _ := True
  builtin _ := True

theorem sound_fitting : fitting.Sound fun f => f.error.OfValues where
  boolean _ := trivial
  constant _ _ isDatum := (allows_iff isDatum).mpr trivial
  setting _ _ _ := trivial
  shown _ _ := trivial
  operation _ _ _ _ _ _ := trivial
  application _ _ _ _ _ _ := trivial
  error _ arises := arises.ofValues
  prefixed _ _ _ applies misplaced := absurd applies misplaced
  operator _ _ _ _ isSome none := absurd (isSome.symm.trans (congrArg Option.isSome none)) nofun

theorem free_fitting : fitting.Free :=
  ⟨fun _ => trivial, fun _ => trivial, fun _ => trivial, fun _ => trivial⟩

end Policy

namespace Session

open Policy

section
variable {m m' : Machine} {fuel : Nat} {source : Utf8.Source}

theorem Reachable.fits (h : Reachable m) : fitting.Within m :=
  h.within (fun _ _ => id) sound_fitting free_fitting fun _ _ _ read =>
    (Tree.isProgram_of_parse read).fits

theorem fits_of_eval_error (fits : fitting.Within m) {e : ProgramError}
    (run : eval m fuel source = .error e m') :
    fitting.Within m' ∧ ∀ f, e = .failure f → f.error.OfValues := by
  have observed : fitting.ObservedIn m source :=
    free_fitting.observedIn fits fun t read => (Tree.isProgram_of_parse read).fits
  exact (kept_eval (fun _ _ => id) sound_fitting fits observed run).symm

end

/-- What is read has the shape of a program, and no program of a session fails because an operator
can not be used where it stands. -/
theorem agrees_on_operators :
    (∀ source mode t, Tree.parse source mode = .ok t → t.IsProgram) ∧
      ∀ m, Reachable m → ∀ fuel source f m', eval m fuel source = .error (.failure f) m' →
        ∀ op line, f.error ≠ .badOperator op line :=
  ⟨fun _ _ _ read => Tree.isProgram_of_parse read, fun _ reachable _ _ f _ run =>
    (fits_of_eval_error reachable.fits run).2 f rfl⟩

def definesQuotient : Utf8.Source :=
  .ofBytes [102, 117, 110, 99, 32, 102, 40, 120, 41, 123, 120, 43, 43, 59, 33, 120, 43, 120, 47,
    48, 59, 125]

def callsQuotient : Utf8.Source :=
  .ofBytes [103, 61, 102, 59, 103, 40, 45, 49, 41]

def failsAfter (m : Machine) (first second : Utf8.Source) : Bool :=
  match eval m 10 first with
  | .ok _ m' =>
    match eval m' 10 second with
    | .error (.failure _) _ => true
    | _ => false
  | _ => false

/-- A copied function is called and fails, but at no operator. -/
theorem agrees_on_operators_quotient :
    (∃ t, Tree.parse definesQuotient .rational = .ok t ∧ t.IsProgram) ∧
      ∃ m f m', Reachable m ∧ eval m 10 callsQuotient = .error (.failure f) m' ∧
        ∀ op line, f.error ≠ .badOperator op line := by
  have fails :
      failsAfter (.initial .rational false .accepting) definesQuotient callsQuotient = true := by
    decide +kernel
  have reads : (Tree.parse definesQuotient .rational).toOption.isSome = true := by decide +kernel
  constructor
  · cases read : Tree.parse definesQuotient .rational with
    | ok t => exact ⟨t, rfl, agrees_on_operators.1 _ _ t read⟩
    | error e =>
      rw [read] at reads
      cases reads
  · unfold failsAfter at fails
    split at fails
    · rename_i v m first
      split at fails
      · rename_i f m' second
        have reachable : Reachable m := .answered (.start _ _ _) first
        exact ⟨m, f, m', reachable, second, agrees_on_operators.2 m reachable 10 _ f m' second⟩
      · cases fails
    · cases fails

end Session

end Calculator
