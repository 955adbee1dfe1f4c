import Mathlib
import VirtualList.Scalar

/-!
# Equality of doubles

Comparing doubles for equality is not reflexive, since NaN equals nothing, and it identifies the
two zeros.  It is symmetric and transitive all the same, and that is all that statements about
layouts in double precision ask of it.

## Key results

- `float_beq_iff`: two doubles are equal iff they have the same value
- `instPartialEquivBEqFloat`: equality is symmetric and transitive
- `FiniteRefl`: what is finite compares as equal to itself
-/

namespace VirtualList

open Float.Model

/-- The value of a double: its sign, mantissa and exponent, with one zero and without NaN. -/
def unpackedValue? : UnpackedFloat → Option (Option UnpackedFloat.Sign × Nat × Int)
  | .infinity sign => some (some sign, 0, 0)
  | .notANumber => none
  | .zero _ => some (none, 0, 0)
  | .finite sign mantissa exponent _ => some (some sign, mantissa, exponent)

/-- Two doubles compare as equal iff they have the same value. -/
theorem unpacked_compare_eq_iff (x y : UnpackedFloat) :
    x.compare y = some .eq ↔
      ∃ v, unpackedValue? x = some v ∧ unpackedValue? y = some v := by
  cases x with
  | notANumber => simp [UnpackedFloat.compare, unpackedValue?]
  | infinity s =>
    cases y with
    | finite t m e hm =>
      -- A finite value has a positive mantissa.
      have hne : m ≠ 0 := Nat.ne_of_gt hm
      cases s <;> simp [UnpackedFloat.compare, unpackedValue?, hne]
    | infinity t => cases s <;> cases t <;> simp [UnpackedFloat.compare, unpackedValue?] <;> rfl
    | _ => cases s <;> simp [UnpackedFloat.compare, unpackedValue?]
  | zero s =>
    cases y with
    | finite t m e hm => cases t <;> simp [UnpackedFloat.compare, unpackedValue?]
    | infinity t => cases t <;> simp [UnpackedFloat.compare, unpackedValue?]
    | _ => simp [UnpackedFloat.compare, unpackedValue?]
  | finite s m e hm =>
    have hne : m ≠ 0 := Nat.ne_of_gt hm
    cases y with
    | finite t n k hn =>
      have hsame : (compare e k).then (compare m n) = .eq ↔ n = m ∧ k = e := by
        rw [Ordering.then_eq_eq, Std.compare_eq_eq_iff_eq, Std.compare_eq_eq_iff_eq]
        tauto
      cases s <;> cases t <;> simp [UnpackedFloat.compare, unpackedValue?, hsame]
    | infinity t => cases s <;> cases t <;> simp [UnpackedFloat.compare, unpackedValue?, hne.symm]
    | _ => cases s <;> simp [UnpackedFloat.compare, unpackedValue?]

/-- Two doubles are equal iff they have the same value. -/
theorem float_beq_iff (a b : Float) : (a == b) = true ↔ ∃ v,
    unpackedValue? a.toModel.unpack = some v ∧
      unpackedValue? b.toModel.unpack = some v := by
  rw [← unpacked_compare_eq_iff]
  show (a.toModel.unpack.beq b.toModel.unpack) = true ↔ _
  simp [UnpackedFloat.beq]

instance instPartialEquivBEqFloat : PartialEquivBEq Float where
  symm {a b} h := by
    obtain ⟨v, ha, hb⟩ := (float_beq_iff a b).1 h
    exact (float_beq_iff b a).2 ⟨v, hb, ha⟩
  trans {a b c} h h' := by
    obtain ⟨v, ha, hb⟩ := (float_beq_iff a b).1 h
    obtain ⟨w, hb', hc⟩ := (float_beq_iff b c).1 h'
    obtain rfl : v = w := Option.some.inj (hb.symm.trans hb')
    exact (float_beq_iff a c).2 ⟨v, ha, hc⟩

/-- A finite value compares as equal to itself. -/
class FiniteRefl (α : Type) [Scalar α] : Prop where
  beq_self : ∀ x : α, Scalar.isFinite x = true → (x == x) = true

instance : FiniteRefl Rat where
  beq_self _ _ := BEq.rfl

instance : FiniteRefl Float where
  beq_self x hx := by
    rw [float_beq_iff]
    change x.toModel.unpack.isFinite = true at hx
    cases hu : x.toModel.unpack with
    | notANumber =>
      rw [hu] at hx
      cases hx
    | _ => exact ⟨_, rfl, rfl⟩

end VirtualList
