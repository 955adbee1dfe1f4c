import VirtualList.Layout.Basic

/-!
# Spaces, extents and positions

Where items outside the window would lie and how far the whole list reaches, worked out from
what the book says about sizes and spaces.
-/

namespace VirtualList.Layout

variable {α : Type} [Scalar α]

/-- The last item of a list that has items. -/
def lastIndex (l : Layout α) : Except Fault Nat := Index.sub l.total 1

/-- The space in front of item `i`: the collapsed margin, and between two items also the gap. -/
def spaceBefore (l : Layout α) (i : Nat) : Size α :=
  let gap := if 0 < i ∧ i < l.total then l.options.gap else 0
  (l.book.marginBefore i).map (· + gap)

/-- The average distance from one item to the next. -/
def averageDelta (l : Layout α) : α :=
  l.book.estimate + l.book.averageMargin + l.options.gap

/-- The extent that the averages give: one item, one margin and one gap each, one margin more and
one gap less. -/
def baseExtent (l : Layout α) : α :=
  if l.total = 0 then
    0
  else
    (l.total : α) * l.averageDelta - l.options.gap + l.book.averageMargin

/-- The extent known before a pass: that of the averages, or where the averages lead to from the
end of the last stable window, but not less than the configured bound. -/
def estimatedExtent (l : Layout α) : Except Fault α := do
  let floor := l.options.minScrollSize
  if l.total = 0 then
    return floor
  let final ← l.lastIndex
  let reached ←
    match l.settled.getLast? with
    | none => pure 0
    | some tail => do
      let next ← Index.succ tail.index
      let beyond ← Index.sub final tail.index
      pure (tail.finish + (l.spaceBefore next).value + (beyond : α) * l.averageDelta)
  return Scalar.max (Scalar.max l.baseExtent reached) floor

/-- Where item `i` starts, to the best of what is known: where the last pass placed it, else at
the end of the extent for the last item, else as far from the window as the averages say. -/
def positionOf (l : Layout α) (i : Nat) : Except Fault α := do
  if i = 0 then
    return (l.spaceBefore 0).value
  match l.item? i with
  | some item => return item.position
  | none =>
    if i + 1 = l.total then
      return l.scrollSize - (l.spaceBefore l.total).value - (l.book.sizeOf i).value
    let delta := l.averageDelta
    let one : α := ((1 : Nat) : α)
    match l.published.head?, l.published.getLast? with
    | some head, some tail =>
      if i < head.index then
        let steps ← Index.sub head.index i
        let d : α := (steps : α)
        let size := l.book.estimate
        return head.position - (l.spaceBefore head.index).value - d * size
          - (d - one) * (delta - size)
      else
        let steps ← Index.sub i tail.index
        let next ← Index.succ tail.index
        let d : α := (steps : α)
        return tail.finish + (l.spaceBefore next).value + (d - one) * delta
    | _, _ => return (l.spaceBefore 0).value + (i : α) * delta

end VirtualList.Layout
