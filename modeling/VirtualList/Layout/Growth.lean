import VirtualList.Layout.Anchor

/-!
# Growing the window

From its anchor a window grows backward and then forward, item by item, until it fills the
stretch or reaches the end of the list.  Where an unmeasured item comes in the window is no
longer stable; without speculative layout a direction ends there.
-/

namespace VirtualList

variable {α : Type} [Scalar α]

/-- The anchor with its size and the spaces around it. -/
structure Footing (α : Type) where
  anchor : Anchor α
  size : α
  /-- The space in front of the anchor. -/
  lead : α
  /-- The space behind the anchor. -/
  trail : α
  /-- All three were measured. -/
  stable : Bool
  deriving DecidableEq, Repr

namespace Footing

/-- Where the space in front of the anchor starts. -/
def lower (f : Footing α) : α := f.anchor.position - f.lead

/-- Where the space behind the anchor ends. -/
def upper (f : Footing α) : α := f.anchor.position + f.size + f.trail

/-- How far the stretch must be moved to reach an anchor outside it. -/
def drift (f : Footing α) (b : Bounds α) : α :=
  if f.upper < b.lower then f.upper - b.lower
  else if b.upper < f.lower then f.lower - b.upper
  else 0

/-- The anchor as an item of the window. -/
def item (f : Footing α) : PlacedItem α := ⟨f.anchor.index, f.anchor.position, f.size⟩

end Footing

/-- The items by which a window grew in one direction. -/
structure Growth (α : Type) where
  /-- The items, in ascending order. -/
  items : List (PlacedItem α)
  /-- The outermost item of the window in this direction. -/
  reached : Nat
  /-- Where the space beyond that item ends. -/
  edge : α
  /-- The window is still stable. -/
  stable : Bool
  deriving DecidableEq, Repr

/-- A window as it is laid out. -/
structure Strip (α : Type) where
  first : Nat
  last : Nat
  /-- The items from `first` to `last`. -/
  items : List (PlacedItem α)
  /-- Where the space in front of the first item starts. -/
  lower : α
  /-- Where the space behind the last item ends. -/
  upper : α
  stable : Bool
  deriving DecidableEq, Repr

namespace Layout

/-- The footing of an anchor.  The first item of the list starts where its space ends, whatever
position it was given. -/
def footing (l : Layout α) (anchor : Anchor α) : Except Fault (Footing α) := do
  let next ← Index.succ anchor.index
  let size := l.book.sizeOf anchor.index
  let lead := l.spaceBefore anchor.index
  let trail := l.spaceBefore next
  let position := if anchor.index = 0 then lead.value else anchor.position
  return {
    anchor := ⟨anchor.index, position⟩
    size := size.value
    lead := lead.value
    trail := trail.value
    stable := size.isMeasured && lead.isMeasured && trail.isMeasured }

/-- Grows a window whose first item is `first` backward, until its leading `edge` reaches
`lower`.  The items found go in front of `items`. -/
def growBackward (l : Layout α) (lower : α) (first : Nat) (edge : α) (stable : Bool)
    (items : List (PlacedItem α)) : Growth α :=
  match first with
  | 0 => ⟨items, 0, edge, stable⟩
  | i + 1 =>
    if lower < edge then
      let size := l.book.sizeOf i
      let space := l.spaceBefore i
      let position := edge - size.value
      let edge := position - space.value
      let stable := stable && (size.isMeasured && space.isMeasured)
      let items := ⟨i, position, size.value⟩ :: items
      if stable || l.options.estimate then
        growBackward l lower i edge stable items
      else
        ⟨items, i, edge, stable⟩
    else
      ⟨items, i + 1, edge, stable⟩

/-- Grows a window whose last item is `last` forward, until its trailing `edge` reaches `upper`
or no item `remaining` is left. -/
def growForward (l : Layout α) (upper : α) (remaining last : Nat) (edge : α) (stable : Bool) :
    Except Fault (Growth α) :=
  match remaining with
  | 0 => .ok ⟨[], last, edge, stable⟩
  | remaining + 1 =>
    if edge < upper then do
      let i ← Index.succ last
      let next ← Index.succ i
      let size := l.book.sizeOf i
      let space := l.spaceBefore next
      let item : PlacedItem α := ⟨i, edge, size.value⟩
      let edge := edge + (size.value + space.value)
      let stable := stable && (size.isMeasured && space.isMeasured)
      if stable || l.options.estimate then
        let rest ← growForward l upper remaining i edge stable
        return { rest with items := item :: rest.items }
      else
        return ⟨[item], i, edge, stable⟩
    else
      .ok ⟨[], last, edge, stable⟩

/-- The window grown from a footing over the stretch `b` of a list that ends with item
`final`. -/
def growWindow (l : Layout α) (final : Nat) (f : Footing α) (b : Bounds α) :
    Except Fault (Strip α) := do
  let i := f.anchor.index
  let back := l.growBackward b.lower i f.lower f.stable []
  let ahead ← l.growForward b.upper (final - i) i f.upper back.stable
  return {
    first := back.reached
    last := ahead.reached
    items := back.items ++ f.item :: ahead.items
    lower := back.edge
    upper := ahead.edge
    stable := ahead.stable }

end Layout

end VirtualList
