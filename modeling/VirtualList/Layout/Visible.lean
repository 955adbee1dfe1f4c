import VirtualList.Layout.Basic

/-!
# The visible part of the window

While the window covers the viewport, scrolling moves the visible part of it and nothing else.
-/

namespace VirtualList.Layout

variable {α : Type} [Scalar α]

/-- The announcement of the present window. -/
def windowChange (l : Layout α) (remeasure : Bool) : WindowChange :=
  ⟨l.range, l.stable, remeasure, l.options.axis⟩

/-- Works out the visible part of the window for the present scroll position, without a pass, and
answers with an announcement if it moved. -/
def refreshVisible (l : Layout α) : Option WindowChange × Layout α :=
  match l.range, visibleEnds l.published l.scrollPosition l.viewport.main with
  | some range, some (first, last) =>
    let moved := { range with firstVisible := first.index, lastVisible := last.index }
    if moved = range then
      (none, l)
    else
      let l := { l with range := some moved }
      (some (l.windowChange false), l)
  | _, _ => (none, l)

end VirtualList.Layout
