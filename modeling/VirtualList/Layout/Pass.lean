import VirtualList.Layout.Growth

/-!
# The layout pass

A pass forgets what lies beyond the end of the list, chooses an anchor, grows the window around
it, and publishes the outcome.

A window whose items are all measured is stable, and only then content is moved: by the growth of
items above the anchor since the last stable window, and so that the list starts at zero.  The
scroll position moves along, so that what is seen stays where it is.
-/

namespace VirtualList.Layout

variable {α : Type} [Scalar α]

/-- Drops what refers to items beyond the end of the list. -/
def truncate (l : Layout α) : Layout α :=
  { l with
    settled := l.settled.filter fun item => decide (item.index < l.total)
    corrections := l.corrections.filter fun i _ => decide (i < l.total)
    retained := l.retained.filter fun a => decide (a.index < l.total)
    published := l.published.filter fun item => decide (item.index < l.total) }

/-- Publishes that there is no window.  A pinned item is kept only if there are items. -/
def publishNothing (l : Layout α) : Layout α :=
  { l with
    range := none
    anchor := none
    retained := none
    stable := true
    settled := []
    corrections := ∅
    published := []
    pin := if l.total = 0 then none else l.pin }

/-- How much the items above item `i` have grown since the last stable window. -/
def growthAbove (l : Layout α) (i : Nat) : α :=
  (l.corrections.toList.filter fun (k, _) => decide (k < i)).foldl (fun sum (_, d) => sum + d) 0

/-- How far a window from `lower` to `upper` is off: the list must start at zero, a window that
does not hold the first item must leave room for the items above it, and one that holds the last
item, `final`, must not end before the extent that the averages give. -/
def extentError (l : Layout α) (final : Nat) (s : Strip α) (lower upper : α) : α :=
  if s.first = 0 then lower
  else if lower ≤ 0 then lower - (s.first : α) * l.averageDelta
  else if s.last = final ∧ upper < l.baseExtent then upper - l.baseExtent
  else 0

/-- The distance by which a stable window is moved to its place. -/
def settlingOffset (l : Layout α) (final : Nat) (source : AnchorSource) (anchor : Nat)
    (s : Strip α) : α :=
  let growth :=
    match source with
    | .pinned _ => 0
    | _ => l.growthAbove anchor
  growth - l.extentError final s (s.lower + growth) (s.upper + growth)

/-- The extent after a pass whose window ends at item `last`, `upper` included: that of the
averages, or where they lead to from there, but not less than the configured bound. -/
def extentFrom (l : Layout α) (final last : Nat) (upper : α) : Except Fault α := do
  let beyond ← Index.sub final last
  let reached := upper + (beyond : α) * l.averageDelta
  return Scalar.max (Scalar.max l.baseExtent reached) l.options.minScrollSize

/-- The scroll position once the window is in place: a pinned item is aligned again, with its
position and size as they have come out. -/
def realigned (l : Layout α) (source : AnchorSource) (anchor : Anchor α) (size : α)
    (scroll : ScrollTrack α) : Except Fault (ScrollTrack α) :=
  match source with
  | .pinned align => do
    let wanted := align.scrollPosition anchor.position size l.viewport.main
    let aligned ← Scalar.clamp wanted 0 l.maxScrollPosition
    return scroll.moveTo aligned
  | _ => .ok scroll

/-- Publishes a window with its anchor.  A stable window settles: it serves as the origin of later
ones, and what was pinned or retained is done with.  Otherwise the anchor is retained.

The placed items are those of this pass.  Where they compare as equal to the ones before, a host
that goes on with the old ones has the same items but for the sign of a zero. -/
def publish (l : Layout α) (s : Strip α) (anchor : Anchor α) (scroll : ScrollTrack α) :
    Except Fault (Layout α) :=
  match visibleEnds s.items scroll.position l.viewport.main with
  | none => .error .outOfBounds
  | some (firstVisible, lastVisible) => .ok { l with
      range := some ⟨s.first, s.last, firstVisible.index, lastVisible.index⟩
      scrollPosition := scroll.position
      anchor := some anchor
      stable := s.stable
      book := s.items.foldl (fun book item => book.noteEstimate item.index item.size) l.book
      published := s.items
      settled := if s.stable then s.items else l.settled
      retained := if s.stable then none else some anchor
      pin := if s.stable then none else l.pin }

/-- Lays out a window of a list that has items in a viewport that is not empty, and answers with
the distance by which the scroll position was moved. -/
def layOut (l : Layout α) : Except Fault (α × Layout α) := do
  let final ← l.lastIndex
  let (anchor, source, scroll) ← l.chooseAnchor
  let bounds := l.boundsAt scroll.position
  let l := if source.startsAfresh then { l with corrections := ∅ } else l
  let footing ← l.footing anchor
  let drift := footing.drift bounds
  let scroll := scroll.shift drift
  let strip ← l.growWindow final footing (bounds.shift drift)
  let offset := if strip.stable then l.settlingOffset final source anchor.index strip else 0
  let anchor := { footing.anchor with position := footing.anchor.position + offset }
  let scroll := scroll.shift offset
  let upper := strip.upper + offset
  let strip := { strip with items := strip.items.map (·.shift offset) }
  let scrollSize ← l.extentFrom final strip.last upper
  let corrections := if strip.stable then ∅ else l.corrections
  let l := { l with scrollSize, corrections }
  let scroll ← l.realigned source anchor footing.size scroll
  let l ← l.publish strip anchor scroll
  return (scroll.moved, l)

/-- Runs a pass, and answers with the distance by which the scroll position was moved. -/
def pass (l : Layout α) : Except Fault (α × Layout α) := do
  let l := l.truncate
  let scrollSize ← l.estimatedExtent
  let l := { l with scrollSize }
  if l.total = 0 ∨ (l.viewport.main == 0) = true then
    return (0, l.publishNothing)
  else
    l.layOut

end VirtualList.Layout
