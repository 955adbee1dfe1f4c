import VirtualList.Layout.Pass
import VirtualList.Layout.Visible

/-!
# Passes as the host sees them

`reflow` runs a pass and tells the host what came of it: a report, and one event for each part of
the outcome that differs from what was there before.
-/

namespace VirtualList

variable {α : Type} [Scalar α]

/-- What is told to whoever shows the list. -/
inductive LayoutEvent (α : Type) where
  /-- The window, its visible part or its stability changed, or sizes must be measured again. -/
  | windowChanged (change : WindowChange)
  /-- The items of the window lie elsewhere. -/
  | itemsPlaced (items : List (PlacedItem α))
  /-- The extent of the list changed. -/
  | scrollSizeChanged (size : α)
  /-- The scroll position was moved; the host must move its own by the same distance. -/
  | scrollMoved (distance : α)
  deriving DecidableEq, Repr

/-- The outcome of a pass. -/
structure PassReport (α : Type) where
  range : Option WindowRange
  stable : Bool
  /-- By how much the pass moved the scroll position. -/
  scrollError : α
  scrollSize : α
  deriving BEq, DecidableEq, Repr

namespace Layout

/-- What differs between the layouts before and after a pass that moved the scroll position by
`moved`. -/
def events (before after : Layout α) (remeasure : Bool) (moved : α) : List (LayoutEvent α) :=
  let window :=
    if after.range ≠ before.range ∨ after.stable ≠ before.stable ∨ remeasure = true then
      [.windowChanged (after.windowChange remeasure)]
    else []
  let items := if after.published != before.published then [.itemsPlaced after.published] else []
  let size :=
    if after.scrollSize != before.scrollSize then [.scrollSizeChanged after.scrollSize] else []
  let scroll := if moved != 0 then [.scrollMoved moved] else []
  window ++ items ++ size ++ scroll

/-- Runs a pass and answers with a report and with the events for what changed. -/
def reflow (l : Layout α) : Except Fault (PassReport α × List (LayoutEvent α) × Layout α) := do
  let (moved, after) ← l.pass
  let events := events l after after.remeasure moved
  let report : PassReport α := ⟨after.range, after.stable, moved, after.scrollSize⟩
  return (report, events, { after with remeasure := false })

/-! ## Measuring until the layout is stable -/

/-- Records for every item of the window what `sizes` says, if there is a window. -/
def measureWindow (l : Layout α) (sizes : Nat → Measurement α) :
    Option (Except (InputError α) Bool) × Layout α :=
  match l.range with
  | none => (none, l)
  | some range =>
    let (answer, l) := l.recordAll (range.indices.map fun i => (i, sizes i))
    (some answer, l)

/-- Alternates passes and measurements by `sizes` until a pass is stable, for at most `passes`
passes.  Answers with the report and the events of each. -/
def settle (l : Layout α) (sizes : Nat → Measurement α) (passes : Nat) :
    Except Fault (List (PassReport α × List (LayoutEvent α)) × Layout α) :=
  match passes with
  | 0 => .ok ([], l)
  | passes + 1 => do
    let (report, events, l) ← l.reflow
    if report.stable then
      return ([(report, events)], l)
    else
      let (rest, l) ← settle (l.measureWindow sizes).2 sizes passes
      return ((report, events) :: rest, l)

end Layout

end VirtualList
