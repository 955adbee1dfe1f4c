import VirtualList.Options
import VirtualList.Scalar

/-!
# The window

A pass places a run of neighbouring items, the window.  `visibleEnds` finds the first and the
last of them that lie in the viewport.
-/

namespace VirtualList

variable {α : Type}

/-- An item and where it lies along the scroll axis, margins excluded. -/
structure PlacedItem (α : Type) where
  index : Nat
  position : α
  size : α
  deriving BEq, DecidableEq, Repr

/-- The indices of a window and of its visible part; all four are inclusive. -/
structure WindowRange where
  first : Nat
  last : Nat
  firstVisible : Nat
  lastVisible : Nat
  deriving DecidableEq, Repr

namespace WindowRange

/-- The number of items in the window. -/
def length (r : WindowRange) : Except Fault Nat := do
  let distance ← Index.sub r.last r.first
  Index.succ distance

/-- Item `i` is in the window. -/
def contains (r : WindowRange) (i : Nat) : Bool := decide (r.first ≤ i ∧ i ≤ r.last)

/-- Item `i` is in the visible part of the window. -/
def isVisible (r : WindowRange) (i : Nat) : Bool :=
  decide (r.firstVisible ≤ i ∧ i ≤ r.lastVisible)

/-- The indices of the window, in order. -/
def indices (r : WindowRange) : List Nat := List.range' r.first (r.last + 1 - r.first)

end WindowRange

/-- What is announced when the window or its visible part moved. -/
structure WindowChange where
  /-- The window, or `none` if nothing is laid out. -/
  range : Option WindowRange
  /-- Every item of the window has been measured. -/
  stable : Bool
  /-- Sizes measured before no longer hold: every item shown must be measured again. -/
  remeasure : Bool
  /-- The coordinate that positions refer to. -/
  axis : Axis
  deriving DecidableEq, Repr

variable [Scalar α]

/-- Where the item ends. -/
def PlacedItem.finish (item : PlacedItem α) : α := item.position + item.size

/-- The item moved by `offset`. -/
def PlacedItem.shift (item : PlacedItem α) (offset : α) : PlacedItem α :=
  { item with position := item.position + offset }

/-- Drops leading items that end at or before `edge`, but never the last item. -/
def dropFinished (edge : α) : List (PlacedItem α) → List (PlacedItem α)
  | x :: y :: rest => if x.finish ≤ edge then dropFinished edge (y :: rest) else x :: y :: rest
  | items => items

/-- Drops leading items that start at or after `edge`, but never the last item.  It is meant for
items in descending order. -/
def dropUnstarted (edge : α) : List (PlacedItem α) → List (PlacedItem α)
  | x :: y :: rest =>
    if edge ≤ x.position then dropUnstarted edge (y :: rest) else x :: y :: rest
  | items => items

/-- The first and the last of the ascending `items` that lie in the viewport of size `view` at
`position`: what ends before it is passed over from the front, what starts behind it from the
back, but never beyond the first visible item.  There are none only if there are no items. -/
def visibleEnds (items : List (PlacedItem α)) (position view : α) :
    Option (PlacedItem α × PlacedItem α) := do
  let shown := dropFinished position items
  let first ← shown.head?
  let last ← (dropUnstarted (position + view) shown.reverse).head?
  return (first, last)

end VirtualList
