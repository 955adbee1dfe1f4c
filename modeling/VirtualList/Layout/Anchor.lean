import VirtualList.Bisection
import VirtualList.Layout.Target

/-!
# Choosing the anchor

A pass lays items out around an anchor, an item whose position is given.  It is, in this order,

* the item that is to be brought into view;
* the anchor of the last pass, if that pass was not stable and the anchor is still in reach;
* the item of the last stable window under the start of the viewport;
* the item that the averages put in the middle of the stretch to fill.

Choosing it may move the scroll position: to where the pinned item is wanted, or back into the
extent.  `ScrollTrack` books every such movement.
-/

namespace VirtualList

variable {α : Type} [Scalar α]

/-- A scroll position and how far it has been moved since the start of the pass. -/
structure ScrollTrack (α : Type) where
  position : α
  moved : α
  deriving DecidableEq, Repr

namespace ScrollTrack

/-- A position that has not been moved. -/
def startingAt (position : α) : ScrollTrack α := ⟨position, 0⟩

/-- Moves to another position. -/
def moveTo (t : ScrollTrack α) (position : α) : ScrollTrack α :=
  ⟨position, t.moved + (position - t.position)⟩

/-- Moves by a distance. -/
def shift (t : ScrollTrack α) (distance : α) : ScrollTrack α :=
  ⟨t.position + distance, t.moved + distance⟩

end ScrollTrack

/-- The stretch of the scroll axis that a window is to fill. -/
structure Bounds (α : Type) where
  lower : α
  upper : α
  deriving DecidableEq, Repr

/-- The stretch moved by a distance. -/
def Bounds.shift (b : Bounds α) (distance : α) : Bounds α :=
  ⟨b.lower + distance, b.upper + distance⟩

/-- Where the anchor of a pass comes from. -/
inductive AnchorSource where
  /-- The item is to be brought into view at an alignment. -/
  | pinned (align : Align)
  /-- The item was the anchor of a pass that was not stable. -/
  | retained
  /-- The item lies in the last stable window. -/
  | settled
  /-- The averages say so. -/
  | estimated
  deriving DecidableEq, Repr

/-- The anchor's position is independent of where the last stable window lay, so that growth of
items above it since then is nothing to correct. -/
def AnchorSource.startsAfresh : AnchorSource → Bool
  | pinned _ => true
  | retained => false
  | settled => false
  | estimated => true

namespace Layout

/-- The viewport at a scroll position with the overhang on both sides. -/
def boundsAt (l : Layout α) (position : α) : Bounds α :=
  ⟨position - l.options.overhang, position + l.viewport.main + l.options.overhang⟩

/-- The anchor's item reaches into the stretch. -/
def overlaps (l : Layout α) (a : Anchor α) (b : Bounds α) : Bool :=
  decide (a.position ≤ b.upper) && decide (b.lower ≤ a.position + (l.book.sizeOf a.index).value)

/-- The item of the last stable window at a scroll position, if that window reaches into the
stretch. -/
def settledAnchor? (l : Layout α) (position : α) (b : Bounds α) :
    Except Fault (Option (Anchor α)) := do
  match l.settled.head?, l.settled.getLast? with
  | some head, some tail =>
    if head.position ≤ b.upper ∧ b.lower ≤ tail.finish then
      let target ← Scalar.clamp position head.position tail.finish
      let passed := bisect (fun item => decide (item.finish ≤ target)) l.settled
      let place := min passed (l.settled.length - 1)
      match l.settled[place]? with
      | some item => return some ⟨item.index, item.position⟩
      | none => throw .outOfBounds
    else
      return none
  | _, _ => return none

/-- The item that the averages put in the middle of the stretch: the first item if the stretch
reaches in front of the list, and the last one, `final`, if it reaches behind the extent. -/
def estimatedIndex (l : Layout α) (final : Nat) (b : Bounds α) : Nat :=
  if b.lower ≤ 0 then
    0
  else if l.scrollSize ≤ b.upper then
    final
  else
    let delta := l.averageDelta
    if 0 < delta then
      min (Scalar.toIndex ((b.lower + b.upper) / (((2 : Nat) : α) * delta))) final
    else
      0

/-- The scroll position held within the extent. -/
def clampedScroll (l : Layout α) : Except Fault (ScrollTrack α) := do
  let clamped ← Scalar.clamp l.scrollPosition 0 l.maxScrollPosition
  let scroll := ScrollTrack.startingAt l.scrollPosition
  return if clamped == l.scrollPosition then scroll else scroll.moveTo clamped

/-- The anchor for a pass without a pinned item. -/
def freeAnchor (l : Layout α) (scroll : ScrollTrack α) :
    Except Fault (Anchor α × AnchorSource) := do
  let bounds := l.boundsAt scroll.position
  let usable (a : Anchor α) : Bool := decide (a.index < l.total) && l.overlaps a bounds
  match l.retained.filter usable with
  | some a => return (a, .retained)
  | none =>
    match ← l.settledAnchor? scroll.position bounds with
    | some a => return (a, .settled)
    | none =>
      let final ← l.lastIndex
      let i := l.estimatedIndex final bounds
      let position ← l.positionOf i
      return (⟨i, position⟩, .estimated)

/-- The anchor for a pass that brings an item into view, and the scroll position where it is
wanted, as far as that is known beforehand. -/
def pinnedAnchor (l : Layout α) (target : ScrollTarget) :
    Except Fault (Anchor α × ScrollTrack α) := do
  let final ← l.lastIndex
  let i := min target.index final
  let wanted ← l.revealPosition i target.align
  let position ← l.positionOf i
  return (⟨i, position⟩, (ScrollTrack.startingAt l.scrollPosition).moveTo wanted)

/-- The anchor for a pass, where it comes from, and the scroll position to go on with. -/
def chooseAnchor (l : Layout α) :
    Except Fault (Anchor α × AnchorSource × ScrollTrack α) := do
  match l.pin with
  | some target =>
    let (anchor, scroll) ← l.pinnedAnchor target
    return (anchor, .pinned target.align, scroll)
  | none =>
    let scroll ← l.clampedScroll
    let (anchor, source) ← l.freeAnchor scroll
    return (anchor, source, scroll)

end Layout

end VirtualList
