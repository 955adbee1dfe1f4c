import VirtualList.InputError
import VirtualList.Scalar

/-!
# Viewport, alignment and anchors

The viewport is the visible part of the list.  A scroll target asks for an item at an alignment
inside it; an anchor is an item whose position a pass holds fixed.
-/

namespace VirtualList

variable {α : Type}

/-- The visible area: `main` runs along the scroll axis, `cross` across it. -/
structure Viewport (α : Type) where
  main : α
  cross : α
  deriving DecidableEq, Repr

/-- Which sides of the viewport changed. -/
structure ViewportChange where
  main : Bool
  cross : Bool
  deriving DecidableEq, Repr

/-- At least one side changed. -/
def ViewportChange.any (c : ViewportChange) : Bool := c.main || c.cross

/-- Where in the viewport an item is to come to lie. -/
inductive Align where
  | start
  | center
  | finish
  /-- At the far side for an item past the middle of the window, at the start otherwise. -/
  | nearest
  deriving DecidableEq, Repr

/-- A request to bring an item into view. -/
structure ScrollTarget where
  index : Nat
  align : Align
  deriving DecidableEq, Repr

/-- An item and the position it is held at. -/
structure Anchor (α : Type) where
  index : Nat
  position : α
  deriving DecidableEq, Repr

variable [Scalar α]

namespace Viewport

/-- A viewport without any area. -/
def empty : Viewport α := ⟨0, 0⟩

/-- Refuses the first side that is not finite or is negative. -/
def check (v : Viewport α) : Except (InputError α) Unit :=
  if !Scalar.isFinite v.main || decide (v.main < 0) then .error (.viewportSize v.main)
  else if !Scalar.isFinite v.cross || decide (v.cross < 0) then .error (.viewportSize v.cross)
  else .ok ()

end Viewport

/-- The scroll position at which an item of `size` at `start` lies at the alignment in a viewport
of `view`.  An item without a settled alignment lies at the start. -/
def Align.scrollPosition (align : Align) (start size view : α) : α :=
  match align with
  | .start | .nearest => start
  | .center => start + Scalar.half * size - Scalar.half * view
  | .finish => start + size - view

end VirtualList
