/-!
# Item indices and faults

An item index is a natural number that must stay representable, that is, at most `Index.limit`.
Arithmetic on indices is checked: where a step would leave the representable range, the
operation stops with a `Fault` instead of wrapping or cutting off.

A fault is a broken internal assumption, not a rejected input; rejected inputs are
`InputError`s.  Main statements:

* `Index.succ_eq_ok_iff` and `Index.sub_eq_ok_iff` say when a checked step succeeds, and with what;
* `Index.succ_of_lt` and `Index.sub_of_le` are their rewriting forms.
-/

namespace VirtualList

/-- Why an operation could not be carried out at all. -/
inductive Fault where
  /-- A value was to be clamped between two bounds that are out of order or not comparable. -/
  | crossedBounds
  /-- An index grew past the largest representable one. -/
  | indexOverflow
  /-- A larger index was subtracted from a smaller one. -/
  | indexUnderflow
  /-- A list was read at a place it does not have. -/
  | outOfBounds
  deriving DecidableEq, Repr

namespace Index

/-- The largest representable index, the largest number of sixty-four bits. -/
def limit : Nat := 18446744073709551615

/-- The next index, if it is representable. -/
def succ (i : Nat) : Except Fault Nat :=
  if i < limit then .ok (i + 1) else .error .indexOverflow

/-- The distance from `b` up to `a`, if `b` does not lie past `a`. -/
def sub (a b : Nat) : Except Fault Nat :=
  if b ≤ a then .ok (a - b) else .error .indexUnderflow

/-- The next index, or the largest one if there is none. -/
def next (i : Nat) : Nat := min (i + 1) limit

theorem succ_eq_ok_iff {i j : Nat} : succ i = .ok j ↔ i < limit ∧ j = i + 1 := by
  by_cases h : i < limit <;> simp [succ, h, eq_comm]

theorem sub_eq_ok_iff {a b d : Nat} : sub a b = .ok d ↔ b ≤ a ∧ d = a - b := by
  by_cases h : b ≤ a <;> simp [sub, h, eq_comm]

theorem succ_of_lt {i : Nat} (h : i < limit) : succ i = .ok (i + 1) :=
  succ_eq_ok_iff.2 ⟨h, rfl⟩

theorem sub_of_le {a b : Nat} (h : b ≤ a) : sub a b = .ok (a - b) :=
  sub_eq_ok_iff.2 ⟨h, rfl⟩

end Index

end VirtualList
