import Calculator.Proofs.Value.Dispatch
import Calculator.Proofs.Value.Places

set_option autoImplicit false

namespace Calculator

/-- The operations that give an integer on any two integers, where they succeed and no exponent is
negative. -/
def Operation.integral : List Operation :=
  [.add, .subtract, .multiply, .remainder, .bitAnd, .bitOr, .power]

/-- The flavor of an integer result by those of the operands. -/
def Operation.flavor (op : Operation) (f g : Flavor) : Flavor :=
  if op = .power then f else f.merge g

theorem Operation.flavor_eq_merge_iff {op : Operation} {f g : Flavor} :
    op.flavor f g = f.merge g ↔ (op = .power → f = g ∨ f = .dec) := by
  unfold flavor
  split_ifs with power
  · refine Iff.trans ?_ (forall_prop_of_true power).symm
    unfold Flavor.merge
    split_ifs with same
    · exact iff_of_true rfl (.inl same)
    · exact ⟨.inr, fun either => either.resolve_left same⟩
  · exact iff_of_true rfl fun is => absurd is power

namespace Value

variable {n m : Int} {f g : Flavor} {v : Value} {line : Position}

theorem remainder_flavor (ok : (int n f).remainder (.int m g) line = .ok v) :
    ∃ r, v = .int r (f.merge g) := by
  rw [remainder_int] at ok
  split_ifs at ok
  exact ⟨n % m, (Except.ok.inj ok).symm⟩

theorem power_flavor {mode : NumericMode} (natural : 0 ≤ m)
    (ok : (int n f).apply .power mode (int m g) line = .ok v) : ∃ r, v = .int r f := by
  obtain ⟨k, rfl⟩ := Int.eq_ofNat_of_zero_le natural
  rw [integerPower_natural] at ok
  split_ifs at ok
  exact ⟨Power.int n k, (Except.ok.inj ok).symm⟩

theorem exists_of_integral {op : Operation} {mode : NumericMode} (mem : op ∈ Operation.integral)
    (natural : op = .power → 0 ≤ m) (ok : (int n f).apply op mode (int m g) line = .ok v) :
    ∃ r, v = .int r (op.flavor f g) := by
  simp only [Operation.integral, List.mem_cons, List.not_mem_nil, or_false] at mem
  rcases mem with rfl | rfl | rfl | rfl | rfl | rfl | rfl
  · exact ⟨n + m, (Except.ok.inj ok).symm⟩
  · exact ⟨n - m, (Except.ok.inj ok).symm⟩
  · exact ⟨n * m, (Except.ok.inj ok).symm⟩
  · exact remainder_flavor ok
  · exact ⟨Bitwise.and n m, (Except.ok.inj ok).symm⟩
  · exact ⟨Bitwise.or n m, (Except.ok.inj ok).symm⟩
  · exact power_flavor (natural rfl) ok

/-- The result of two integers is an integer. Its flavor is the merged one, except under `**`,
where it is the merged one just if the operands have one flavor or the base is decimal. -/
theorem flavor_of_integers {op : Operation} {mode : NumericMode} (mem : op ∈ Operation.integral)
    (natural : op = .power → 0 ≤ m) (ok : (int n f).apply op mode (int m g) line = .ok v) :
    (∃ r, v = .int r (op.flavor f g)) ∧
      (v.flavor = f.merge g ↔ (op = .power → f = g ∨ f = .dec)) := by
  obtain ⟨r, rfl⟩ := exists_of_integral mem natural ok
  exact ⟨⟨r, rfl⟩, Operation.flavor_eq_merge_iff⟩

theorem flavor_of_integers_octal :
    (∃ r, int 64 .oct = .int r (Operation.power.flavor .oct .oct)) ∧
      ((int 64 .oct).flavor = Flavor.oct.merge .oct ↔
        (Operation.power = .power → Flavor.oct = .oct ∨ Flavor.oct = .dec)) :=
  flavor_of_integers (by decide) (fun _ => by decide)
    (rfl : (int 8 .oct).apply .power .rational (int 2 .oct) 1 = .ok (int 64 .oct))

/-- The square of sixteen in hexadecimal is hexadecimal, although its exponent is decimal. -/
theorem flavor_of_power_not_merged :
    (int 16 .hex).apply .power .rational (int 2 .dec) 1 = .ok (int 256 .hex) ∧
      (int 256 .hex).flavor ≠ Flavor.hex.merge .dec :=
  ⟨rfl, by decide⟩

end Value

end Calculator
