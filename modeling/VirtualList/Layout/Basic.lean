import VirtualList.SizeBook.Basic
import VirtualList.Viewport
import VirtualList.Window

/-!
# The layout and its inputs

A layout places a window of items around the viewport of a long list.  It holds no rendered
objects: inputs go in through the operations of this module, a pass works out the window, and the
outcome is read from the state.

An operation that can refuse its input answers with the refusal or a result, and with the layout
that follows in both cases.
-/

namespace VirtualList

open Std (ExtTreeMap)

/-- What a layout shows of itself. -/
structure LayoutState (α : Type) where
  /-- The window, or `none` if there are no items or the viewport is empty. -/
  range : Option WindowRange
  scrollPosition : α
  /-- The extent of the whole list, as far as it is known. -/
  scrollSize : α
  viewport : Viewport α
  /-- The item that the last pass held fixed. -/
  anchor : Option (Anchor α)
  /-- The last pass found every item of its window measured. -/
  stable : Bool
  deriving DecidableEq, Repr

/-- A layout of a list. -/
structure Layout (α : Type) extends LayoutState α where
  options : Options α
  book : SizeBook α
  /-- The number of items. -/
  total : Nat
  /-- The item that is to be brought into view by the coming passes. -/
  pin : Option ScrollTarget
  /-- The anchor of a pass that was not stable, for the next one. -/
  retained : Option (Anchor α)
  /-- The items placed by the last pass, in ascending order. -/
  published : List (PlacedItem α)
  /-- The items placed by the last stable pass, in ascending order. -/
  settled : List (PlacedItem α)
  /-- By how much items changed their size since the last stable pass. -/
  corrections : ExtTreeMap Nat α
  /-- Measurements were dropped since the last pass because the width to lay out in changed. -/
  remeasure : Bool

variable {α : Type} [Scalar α]

/-- The largest scroll position at which the viewport does not reach past the extent. -/
def LayoutState.maxScrollPosition (s : LayoutState α) : α :=
  Scalar.max (s.scrollSize - s.viewport.main) 0

namespace Layout

/-- A layout of an empty list in an empty viewport.  Options outside their domain are refused. -/
def ofOptions (options : Options α) : Except (InputError α) (Layout α) := do
  options.check
  return {
    range := none
    scrollPosition := 0
    scrollSize := options.minScrollSize
    viewport := .empty
    anchor := none
    stable := true
    options := options
    book := .empty options.estimateSize
    total := 0
    pin := none
    retained := none
    published := []
    settled := []
    corrections := ∅
    remeasure := false }

/-- Where an item was placed by the last pass, if it was. -/
def item? (l : Layout α) (i : Nat) : Option (PlacedItem α) :=
  l.published.find? fun item => item.index == i

/-! ## Inputs -/

/-- Replaces the options.  Measurements are kept. -/
def setOptions (l : Layout α) (options : Options α) :
    Except (InputError α) Unit × Layout α :=
  match options.check with
  | .error e => (.error e, l)
  | .ok () =>
    let book := { l.book with defaultEstimate := options.estimateSize }
    (.ok (), { l with options, book })

/-- Sets the number of items, and answers whether it changed. -/
def setTotal (l : Layout α) (total : Nat) : Bool × Layout α :=
  if l.total = total then (false, l) else (true, { l with total })

/-- Sets the viewport, and answers which sides changed.  Sizes usually depend on the width to lay
out in, so a change across the scroll axis drops every measurement. -/
def setViewport (l : Layout α) (viewport : Viewport α) :
    Except (InputError α) ViewportChange × Layout α :=
  match viewport.check with
  | .error e => (.error e, l)
  | .ok () =>
    let change : ViewportChange :=
      ⟨viewport.main != l.viewport.main, viewport.cross != l.viewport.cross⟩
    let l :=
      if change.cross && decide (0 < l.viewport.cross) then
        { l with book := l.book.clear, corrections := ∅, remeasure := true }
      else
        l
    (.ok change, { l with viewport })

/-- Sets the viewport's size along the scroll axis, and answers whether it changed. -/
def setViewportMain (l : Layout α) (main : α) : Except (InputError α) Bool × Layout α :=
  let (answer, l) := l.setViewport { l.viewport with main }
  (answer.map ViewportChange.main, l)

/-- Takes over a scroll position from the host, and answers whether it changed.  A change means
that the user has scrolled, so a request to bring an item into view is dropped. -/
def moveTo (l : Layout α) (position : α) : Except (InputError α) Bool × Layout α :=
  if !Scalar.isFinite position then
    (.error (.scrollPosition position), l)
  else if position == l.scrollPosition then
    (.ok false, l)
  else
    (.ok true, { l with scrollPosition := position, pin := none })

/-- Remembers that item `i` grew by `delta`. -/
def correct (l : Layout α) (i : Nat) (delta : α) : Layout α :=
  { l with corrections := l.corrections.alter i fun d => some (d.getD 0 + delta) }

/-- Records a measurement of item `i`, and answers whether it calls for a pass: whether it tells
something new about an item of the window. -/
def record (l : Layout α) (i : Nat) (m : Measurement α) :
    Except (InputError α) Bool × Layout α :=
  if l.total ≤ i then
    (.error (.indexOutOfRange i l.total), l)
  else
    let margins := (l.book.entry? i).map SizeEntry.margins
    match l.book.record i m with
    | (.error e, _) => (.error e, l)
    | (.ok previous, book) =>
      let delta := m.size - previous.value
      let corrected := if delta != 0 then l.correct i delta else l
      let changed :=
        match previous with
        | .measured _ => delta != 0 || margins != some m.margins
        | .estimated _ => true
      (.ok (changed && l.range.any (·.contains i)), { corrected with book })

/-- Records several measurements, and answers whether one of them calls for a pass.  It stops at
the first one refused; those before it stay recorded. -/
def recordAll (l : Layout α) : List (Nat × Measurement α) →
    Except (InputError α) Bool × Layout α
  | [] => (.ok false, l)
  | (i, m) :: rest =>
    match l.record i m with
    | (.error e, l) => (.error e, l)
    | (.ok called, l) =>
      let (answer, l) := recordAll l rest
      (answer.map (called || ·), l)

/-- Gives up bringing an item into view. -/
def unpin (l : Layout α) : Layout α := { l with pin := none }

/-- Forgets what was learned about the items, because all of them were replaced.  The items
placed last are kept as a hint for the next pass, so that the list stays where it was. -/
def forget (l : Layout α) : Layout α :=
  { l with
    book := l.book.clear
    settled := []
    corrections := ∅
    anchor := none
    retained := none
    pin := none }

end Layout

end VirtualList
