import VirtualList.InputError
import VirtualList.Scalar

/-!
# Layout options

The plain values a layout is configured with, and the check that each is in its domain.
-/

namespace VirtualList

variable {α : Type}

/-- The direction in which a list scrolls. -/
inductive Axis where
  | vertical
  | horizontal
  deriving DecidableEq, Repr

/-- The configuration of a layout. -/
structure Options (α : Type) where
  /-- The size of an item before anything has been measured. -/
  estimateSize : α
  /-- How far beyond either edge of the viewport items are laid out. -/
  overhang : α
  /-- A constant space between neighbours, on top of their collapsed margins. -/
  gap : α
  /-- The coordinate that positions refer to. -/
  axis : Axis
  /-- Whether a pass may lay out more than one unmeasured item in each direction. -/
  estimate : Bool
  /-- A lower bound of the reported extent. -/
  minScrollSize : α
  deriving DecidableEq, Repr

namespace Options

variable [Scalar α]

/-- The configuration in force where nothing else is asked for. -/
def default : Options α where
  estimateSize := ((50 : Nat) : α)
  overhang := ((1000 : Nat) : α)
  gap := 0
  axis := .vertical
  estimate := true
  minScrollSize := ((1 : Nat) : α)

/-- The default configuration with another estimate. -/
def ofEstimateSize (size : α) : Options α := { default with estimateSize := size }

/-- Refuses an option that is not finite or is negative. -/
def checkExtent (field : OptionField) (value : α) : Except (InputError α) Unit :=
  if Scalar.isExtent value then .ok () else .error (.option field value)

/-- Refuses the first option outside its domain: all must be finite and not negative, and the
least extent must not be zero. -/
def check (o : Options α) : Except (InputError α) Unit := do
  checkExtent .estimateSize o.estimateSize
  checkExtent .overhang o.overhang
  checkExtent .gap o.gap
  checkExtent .minScrollSize o.minScrollSize
  if o.minScrollSize == 0 then .error (.option .minScrollSize o.minScrollSize)

end Options

end VirtualList
