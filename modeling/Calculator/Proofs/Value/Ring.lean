import Calculator.Proofs.Value.Exact

set_option autoImplicit false

namespace Calculator.Value

theorem capped_add_comm (p r : Nat) : capped (p + r) = capped (r + p) := by
  rw [Nat.add_comm]

theorem capped_add_assoc (p r s : Nat) :
    capped (capped (p + r) + s) = capped (p + capped (r + s)) := by
  unfold capped maxPrecision
  omega

theorem capped_add_max (p r s : Nat) :
    capped (p + max r s) = max (capped (p + r)) (capped (p + s)) := by
  unfold capped
  omega

variable {a b c v w : Value} {x y z q : Rat}

theorem HasParts.unique {k : Breadth} {f : Flavor} {p : Nat} (hv : v.HasParts q k f p)
    (hw : w.HasParts q k f p) : v = w := by
  obtain ⟨dv, rfl, rfl, rfl⟩ := hv
  obtain ⟨dw, kind, flavor, precision⟩ := hw
  obtain ⟨n, f, rfl, same⟩ | ⟨f, p, rfl⟩ := dv.cases <;>
    obtain ⟨m, g, rfl, same'⟩ | ⟨g, r, rfl⟩ := dw.cases
  · obtain rfl : m = n := Int.cast_injective (same'.symm.trans same)
    exact congrArg (int m) flavor.symm
  · cases kind
  · cases kind
  · exact congrArg₂ (rational q) flavor.symm precision.symm

/-- The operation on exact values acts on each part by itself: by `f` on the numbers and by `p` on
the precisions. -/
def ActsBy (op : Operation) (f : Rat → Rat → Rat) (p : Nat → Nat → Nat) : Prop :=
  ∀ a b x y, a.Denotes x → b.Denotes y → ∃ v, Gives op a b v ∧
    v.HasParts (f x y) (a.breadth.max b.breadth) (a.flavor.merge b.flavor)
      (p a.precision b.precision)

theorem add_actsBy : ActsBy .add (· + ·) max :=
  fun _ _ _ _ ha hb => exists_sum ha hb

theorem multiply_actsBy : ActsBy .multiply (· * ·) fun p r => capped (p + r) :=
  fun _ _ _ _ ha hb => exists_product ha hb

section
variable {op : Operation} {f : Rat → Rat → Rat} {p : Nat → Nat → Nat}

theorem ActsBy.comm (acts : ActsBy op f p) (numbers : ∀ x y, f x y = f y x)
    (precisions : ∀ r s, p r s = p s r) (ha : a.Denotes x) (hb : b.Denotes y) :
    ∃ v, Gives op a b v ∧ Gives op b a v ∧ v.Denotes (f x y) := by
  obtain ⟨ab, left, parts⟩ := acts a b x y ha hb
  obtain ⟨ba, right, parts'⟩ := acts b a y x hb ha
  rw [numbers, Breadth.max_comm, Flavor.merge_comm, precisions] at parts'
  obtain rfl := parts.unique parts'
  exact ⟨ab, left, right, parts.denotes⟩

theorem ActsBy.assoc (acts : ActsBy op f p) (numbers : ∀ x y z, f (f x y) z = f x (f y z))
    (precisions : ∀ r s t, p (p r s) t = p r (p s t)) (ha : a.Denotes x) (hb : b.Denotes y)
    (hc : c.Denotes z) :
    ∃ ab bc v, Gives op a b ab ∧ Gives op ab c v ∧ Gives op b c bc ∧ Gives op a bc v ∧
      v.Denotes (f x (f y z)) := by
  obtain ⟨ab, givesAb, first⟩ := acts a b x y ha hb
  obtain ⟨bc, givesBc, second⟩ := acts b c y z hb hc
  obtain ⟨v, left, parts⟩ := acts ab c _ z first.denotes hc
  obtain ⟨w, right, parts'⟩ := acts a bc x _ ha second.denotes
  rw [first.breadth, first.flavor, first.precision, numbers, Breadth.max_assoc,
    Flavor.merge_assoc, precisions] at parts
  rw [second.breadth, second.flavor, second.precision] at parts'
  obtain rfl := parts.unique parts'
  exact ⟨ab, bc, v, givesAb, left, givesBc, right, parts.denotes⟩

end

theorem multiply_sum (ha : a.Denotes x) (hb : b.Denotes y) (hc : c.Denotes z) :
    ∃ bc ab ac v, Gives .add b c bc ∧ Gives .multiply a bc v ∧
      Gives .multiply a b ab ∧ Gives .multiply a c ac ∧ Gives .add ab ac v ∧
      v.Denotes (x * y + x * z) := by
  obtain ⟨bc, givesBc, sum⟩ := exists_sum hb hc
  obtain ⟨v, left, parts⟩ := exists_product ha sum.denotes
  obtain ⟨ab, givesAb, first⟩ := exists_product ha hb
  obtain ⟨ac, givesAc, second⟩ := exists_product ha hc
  obtain ⟨w, right, parts'⟩ := exists_sum first.denotes second.denotes
  rw [sum.breadth, sum.flavor, sum.precision, mul_add, Breadth.max_max_self_left,
    Flavor.merge_merge_self_left, capped_add_max] at parts
  rw [first.breadth, first.flavor, first.precision, second.breadth, second.flavor,
    second.precision] at parts'
  obtain rfl := parts.unique parts'
  exact ⟨bc, ab, ac, v, givesBc, left, givesAb, givesAc, right, parts.denotes⟩

/-- The laws of a commutative ring, as equalities of whole values and whichever mode each of the
operations is in. -/
structure RingLaws (a b c : Value) (x y z : Rat) : Prop where
  add_comm : ∃ v, Gives .add a b v ∧ Gives .add b a v ∧ v.Denotes (x + y)
  add_assoc : ∃ ab bc v, Gives .add a b ab ∧ Gives .add ab c v ∧
    Gives .add b c bc ∧ Gives .add a bc v ∧ v.Denotes (x + (y + z))
  multiply_comm : ∃ v, Gives .multiply a b v ∧ Gives .multiply b a v ∧ v.Denotes (x * y)
  multiply_assoc : ∃ ab bc v, Gives .multiply a b ab ∧ Gives .multiply ab c v ∧
    Gives .multiply b c bc ∧ Gives .multiply a bc v ∧ v.Denotes (x * (y * z))
  multiply_add : ∃ bc ab ac v, Gives .add b c bc ∧ Gives .multiply a bc v ∧
    Gives .multiply a b ab ∧ Gives .multiply a c ac ∧ Gives .add ab ac v ∧
    v.Denotes (x * y + x * z)

/-- Sums and products of integers and rationals do not depend on how they are grouped and ordered,
neither in the number nor in the kind, the flavor and the digits that are shown. -/
theorem ringLaws (ha : a.Denotes x) (hb : b.Denotes y) (hc : c.Denotes z) :
    RingLaws a b c x y z where
  add_comm := add_actsBy.comm Rat.add_comm Nat.max_comm ha hb
  add_assoc := add_actsBy.assoc Rat.add_assoc Nat.max_assoc ha hb hc
  multiply_comm := multiply_actsBy.comm Rat.mul_comm capped_add_comm ha hb
  multiply_assoc := multiply_actsBy.assoc Rat.mul_assoc capped_add_assoc ha hb hc
  multiply_add := multiply_sum ha hb hc

/-- An integer and rationals with more digits than the cap and of different flavors. -/
theorem ringLaws_mixed :
    RingLaws (.int 3 .hex) (rational (1 / 2) .hex 1) (rational (1 / 3) .dec 70) (3 : Int)
      (1 / 2) (1 / 3) :=
  ringLaws (denotes_int 3 .hex) (denotes_rational (1 / 2) .hex 1) (denotes_rational (1 / 3) .dec 70)

end Calculator.Value
