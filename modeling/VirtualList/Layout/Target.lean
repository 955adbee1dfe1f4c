import VirtualList.Layout.Extent

/-!
# Bringing an item into view

A request pins an item at an alignment.  It is kept until a stable pass has placed the item with
its measured size; until then every pass aligns the item anew.
-/

namespace VirtualList.Layout

variable {α : Type} [Scalar α]

/-- Settles the alignment `nearest` against the present window: at the far side for an item past
the middle of it, at the start otherwise. -/
def resolveAlign (l : Layout α) (i : Nat) (align : Align) : Except Fault Align :=
  match align, l.range with
  | .nearest, some r => do
    let length ← r.length
    let middle : α := (r.first : α) + (length : α) / ((2 : Nat) : α)
    return if middle < (i : α) then .finish else .start
  | .nearest, none => return .start
  | align, _ => return align

/-- Asks for item `i` to be brought into view, in place of any earlier request.  An index past
the end means the last item, once a pass runs. -/
def pinTo (l : Layout α) (i : Nat) (align : Align) : Except Fault (Layout α) := do
  let align ← l.resolveAlign i align
  return { l with pin := some ⟨i, align⟩, retained := none }

/-- The scroll position that brings item `i` into view, held within the extent. -/
def revealPosition (l : Layout α) (i : Nat) (align : Align) : Except Fault α := do
  if l.total = 0 then
    return 0
  let final ← l.lastIndex
  let i := min i final
  let start ← l.positionOf i
  let size :=
    match l.item? i with
    | some item => item.size
    | none => (l.book.sizeOf i).value
  let align ← l.resolveAlign i align
  Scalar.clamp (align.scrollPosition start size l.viewport.main) 0 l.maxScrollPosition

/-- Whether the present scroll position calls for a pass: the window does not reach over the
viewport and the overhang on both sides as far as the list does, or the position is outside the
extent, or an item is to be brought into view. -/
def needsPass (l : Layout α) : Except Fault Bool := do
  let view := l.viewport.main
  match l.published.head?, l.published.getLast? with
  | some head, some tail =>
    if view == 0 || decide (l.total ≤ tail.index) || l.pin.isSome then
      return true
    let position := l.scrollPosition
    if position < 0 ∨ l.maxScrollPosition < position then
      return true
    let lower := Scalar.max (position - l.options.overhang) 0
    let upper := Scalar.min (position + view + l.options.overhang) l.scrollSize
    let next ← Index.succ tail.index
    let covered := head.position - (l.spaceBefore head.index).value
    let reached := tail.finish + (l.spaceBefore next).value
    return decide (lower < covered) || decide (reached < upper)
  | _, _ => return decide (0 < l.total) && decide (0 < view)

end VirtualList.Layout
