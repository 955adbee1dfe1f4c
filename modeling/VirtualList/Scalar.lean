import VirtualList.Index

/-!
# Scalars

Sizes, positions and offsets are values of a scalar type.  `Scalar` collects the operations the
layout uses and nothing else: it states no law, so whatever is proved from it holds whatever the
arithmetic returns.  There are two instances:

* `Float`, on which a list is laid out in practice: rounding, infinities and NaN included;
* `Rat`, exact arithmetic, in which the layout's geometric laws are stated.

Clamping is checked: `Scalar.clamp` faults when its bounds are out of order or not comparable,
while `Scalar.confine` is for bounds known to be in order.
-/

namespace VirtualList

/-- The arithmetic a layout is computed with. -/
class Scalar (α : Type) extends
    Zero α, NatCast α, Add α, Sub α, Mul α, Div α, BEq α, LT α, LE α where
  /-- The order is decidable. -/
  decLt (a b : α) : Decidable (a < b)
  /-- The order is decidable. -/
  decLe (a b : α) : Decidable (a ≤ b)
  /-- The larger of two values; the other one, if one is not a number. -/
  max (a b : α) : α
  /-- The smaller of two values; the other one, if one is not a number. -/
  min (a b : α) : α
  /-- Neither infinite nor NaN. -/
  isFinite (a : α) : Bool
  /-- The index that a value points at: its whole part, held within the representable indices.
  What is not a number points at index 0. -/
  toIndex (a : α) : Nat

namespace Scalar

variable {α : Type} [Scalar α]

instance (a b : α) : Decidable (a < b) := decLt a b

instance (a b : α) : Decidable (a ≤ b) := decLe a b

/-- One half. -/
def half : α := ((1 : Nat) : α) / ((2 : Nat) : α)

/-- The value `x`, or the bound it lies beyond.  The bounds are taken to be in order; a value that
is not a number passes through. -/
def confine (x lo hi : α) : α :=
  let raised := if x < lo then lo else x
  if hi < raised then hi else raised

/-- The value `x` confined to what lies from `lo` to `hi`, provided that these are in order. -/
def clamp (x lo hi : α) : Except Fault α :=
  if lo ≤ hi then .ok (confine x lo hi) else .error .crossedBounds

/-- The value is finite and not negative. -/
def isExtent (x : α) : Bool := isFinite x && decide (0 ≤ x)

theorem clamp_of_le {x lo hi : α} (h : lo ≤ hi) : clamp x lo hi = .ok (confine x lo hi) := by
  simp [clamp, h]

theorem clamp_of_not_le {x lo hi : α} (h : ¬ lo ≤ hi) :
    clamp x lo hi = .error .crossedBounds := by
  simp [clamp, h]

end Scalar

/-- Double precision.  Of two values of which one is NaN, the other one counts as the larger and
as the smaller. -/
instance : Scalar Float where
  natCast := Float.ofNat
  decLt a b := inferInstanceAs (Decidable (a < b))
  decLe a b := inferInstanceAs (Decidable (a ≤ b))
  max a b := if a.isNaN then b else if a < b then b else a
  min a b := if a.isNaN then b else if b < a then b else a
  isFinite := Float.isFinite
  toIndex a := a.toUInt64.toNat

/-- Exact arithmetic: every value is finite. -/
instance : Scalar Rat where
  zero := 0
  decLt a b := inferInstanceAs (Decidable (a < b))
  decLe a b := inferInstanceAs (Decidable (a ≤ b))
  max a b := if a ≤ b then b else a
  min a b := if a ≤ b then a else b
  isFinite _ := true
  toIndex a := Min.min a.floor.toNat Index.limit

end VirtualList
