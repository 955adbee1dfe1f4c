import VirtualList.InputError
import VirtualList.Scalar

/-!
# Sizes, margins and measurements

All sizes and margins here run along the scroll axis.  Two margins that meet collapse into one
space: the larger positive part plus the smaller negative part.
-/

namespace VirtualList

variable {α : Type}

/-- A size, marked with where it comes from. -/
inductive Size (α : Type) where
  /-- An estimate stands in for a measurement. -/
  | estimated (value : α)
  /-- The item was measured. -/
  | measured (value : α)
  deriving DecidableEq, Repr

namespace Size

/-- The size, wherever it comes from. -/
def value : Size α → α
  | estimated v => v
  | measured v => v

/-- Whether the size was measured. -/
def isMeasured : Size α → Bool
  | estimated _ => false
  | measured _ => true

/-- The size with a value computed from its own, marked as before. -/
def map (f : α → α) : Size α → Size α
  | estimated v => estimated (f v)
  | measured v => measured (f v)

@[simp] theorem value_estimated (v : α) : (estimated v).value = v := rfl

@[simp] theorem value_measured (v : α) : (measured v).value = v := rfl

@[simp] theorem isMeasured_estimated (v : α) : (estimated v).isMeasured = false := rfl

@[simp] theorem isMeasured_measured (v : α) : (measured v).isMeasured = true := rfl

@[simp] theorem value_map (f : α → α) (s : Size α) : (s.map f).value = f s.value := by
  cases s <;> rfl

@[simp] theorem isMeasured_map (f : α → α) (s : Size α) :
    (s.map f).isMeasured = s.isMeasured := by
  cases s <;> rfl

end Size

/-- The margins in front of an item and behind it. -/
structure Margins (α : Type) where
  before : α
  after : α
  deriving BEq, DecidableEq, Repr

/-- What a surface reports about an item it shows. -/
structure Measurement (α : Type) where
  /-- The size along the scroll axis, margins excluded. -/
  size : α
  /-- The size across the scroll axis, if the surface knows it. -/
  secondary : Option α
  margins : Margins α
  deriving DecidableEq, Repr

variable [Scalar α]

namespace Margins

/-- No margins. -/
def zero : Margins α := ⟨0, 0⟩

/-- Both margins are finite. -/
def isFinite (m : Margins α) : Bool := Scalar.isFinite m.before && Scalar.isFinite m.after

/-- The space that two adjoining margins leave: the largest positive margin plus the most
negative one. -/
def collapse (a b : α) : α :=
  let positive := Scalar.max (Scalar.max a 0) (Scalar.max b 0)
  let negative := Scalar.min (Scalar.min a 0) (Scalar.min b 0)
  positive + negative

end Margins

namespace Measurement

/-- The measurement can be recorded: its sizes are finite and not negative, its margins are
finite. -/
def isValid (m : Measurement α) : Bool :=
  Scalar.isExtent m.size && m.secondary.all Scalar.isExtent && m.margins.isFinite

/-- Refuses an invalid measurement of item `i`. -/
def check (i : Nat) (m : Measurement α) : Except (InputError α) Unit :=
  if m.isValid then .ok () else .error (.measurement i m.size)

theorem check_of_isValid {i : Nat} {m : Measurement α} (h : m.isValid = true) :
    check i m = .ok () := by
  simp [check, h]

theorem check_of_not_isValid {i : Nat} {m : Measurement α} (h : m.isValid = false) :
    check i m = .error (.measurement i m.size) := by
  simp [check, h]

end Measurement

end VirtualList
