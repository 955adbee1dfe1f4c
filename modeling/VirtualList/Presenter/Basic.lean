import Std.Data.ExtTreeMap
import Std.Data.ExtTreeSet
import VirtualList.Layout.Reflow
import VirtualList.Scheduler
import VirtualList.Surface.Basic
import VirtualList.Tween

/-!
# The presenter and its inputs

A presenter shows a layout on a surface.  Each item is shown by a render target, which is known
by the item's key: a target survives for as long as its key stays in the window, whatever item it
shows.  Inputs ask the scheduler for a frame; the frames themselves are in
`VirtualList.Presenter.Frame`.
-/

namespace VirtualList

open Std (ExtTreeMap ExtTreeSet)

/-- An eased scroll towards an item. -/
structure SmoothScroll (α : Type) where
  tween : Tween α
  index : Nat
  align : Align
  deriving DecidableEq, Repr

/-- What one frame did. -/
structure FrameReport (α : Type) where
  /-- The reasons for the frame, or `none` if no frame was due. -/
  reasons : Option Reasons
  /-- The outcome of the pass, if there was one. -/
  pass : Option (PassReport α)
  /-- Targets bound for keys that were not shown before. -/
  bound : Nat
  /-- Targets that stayed but show another item. -/
  rebound : Nat
  /-- Targets given up. -/
  released : Nat
  /-- Measurements recorded. -/
  measured : Nat
  /-- Targets that could not be measured yet. -/
  deferred : Nat
  /-- Measurements refused by the layout. -/
  rejected : Nat
  deriving BEq, DecidableEq, Repr

/-- The report of a frame in which nothing was to be done. -/
def FrameReport.idle {α : Type} : FrameReport α := ⟨none, none, 0, 0, 0, 0, 0, 0⟩

/-- A presenter of a list whose items have keys in `κ`. -/
structure Presenter (κ α : Type) [Ord κ] where
  layout : Layout α
  scheduler : Scheduler
  /-- The key of an item. -/
  keyOf : Nat → κ
  /-- The item shown by the target of each bound key. -/
  targets : ExtTreeMap κ Nat
  /-- The keys of targets that must be measured again. -/
  resized : ExtTreeSet κ
  /-- A change of the visible part that the surface has not been told about. -/
  visible : Option WindowChange
  /-- The eased scroll under way. -/
  smooth : Option (SmoothScroll α)

namespace Presenter

variable {κ α : Type} [Ord κ] [Std.TransOrd κ] [Scalar α]

/-- A presenter that shows nothing yet.  Options outside their domain are refused. -/
def ofOptions (options : Options α) (keyOf : Nat → κ) (listening : Bool) :
    Except (InputError α) (Presenter κ α) := do
  let layout ← Layout.ofOptions options
  return {
    layout := layout
    scheduler := .idle listening
    keyOf := keyOf
    targets := ∅
    resized := ∅
    visible := none
    smooth := none }

/-- The number of bound targets. -/
def boundLength (p : Presenter κ α) : Nat := p.targets.size

/-- A target is bound for the key. -/
def isBound (p : Presenter κ α) (key : κ) : Bool := p.targets.contains key

/-- An eased scroll is under way. -/
def isAnimating (p : Presenter κ α) : Bool := p.smooth.isSome

/-- Nothing is left to do: no frame is asked for, the last pass was stable, nothing is being
scrolled or brought into view, and every target has been measured. -/
def isComplete (p : Presenter κ α) : Bool :=
  !p.scheduler.isPending && p.layout.stable && p.layout.pin.isNone && p.smooth.isNone
    && p.resized.isEmpty && p.targets.values.all p.layout.book.isMeasured

/-! ## Inputs -/

/-- Asks for a frame. -/
def invalidate (p : Presenter κ α) (reasons : Reasons) : Presenter κ α :=
  { p with scheduler := (p.scheduler.invalidate reasons).2 }

/-- Stops an eased scroll where it is. -/
def cancelAnimation (p : Presenter κ α) : Presenter κ α := { p with smooth := none }

/-- Sets the number of items. -/
def setTotal (p : Presenter κ α) (total : Nat) : Presenter κ α :=
  let (changed, layout) := p.layout.setTotal total
  let p := { p with layout }
  if changed then p.invalidate .totalItems else p

/-- Takes note that items were reordered or replaced while their number stayed. -/
def itemsChanged (p : Presenter κ α) : Presenter κ α := p.invalidate .items

/-- Replaces the keys of the items. -/
def setKeyOf (p : Presenter κ α) (keyOf : Nat → κ) : Presenter κ α :=
  { p with keyOf }.itemsChanged

/-- Sets the viewport.  A change across the scroll axis has every target measured again. -/
def setViewport (p : Presenter κ α) (main cross : α) :
    Except (InputError α) Unit × Presenter κ α :=
  match p.layout.setViewport ⟨main, cross⟩ with
  | (.error e, layout) => (.error e, { p with layout })
  | (.ok change, layout) =>
    let p := { p with layout }
    (.ok (), if change.any then p.invalidate .viewport else p)

/-- Follows the host to a scroll position, where it was moved by the user: an eased scroll ends.
A pass is asked for once the window does not cover the viewport and the overhang any more; until
then only the visible part of the window moves. -/
def followScroll (p : Presenter κ α) (position : α) :
    Except Fault (Except (InputError α) Unit × Presenter κ α) := do
  let p := p.cancelAnimation
  match p.layout.moveTo position with
  | (.error e, layout) => return (.error e, { p with layout })
  | (.ok false, layout) => return (.ok (), { p with layout })
  | (.ok true, layout) =>
    let p := { p with layout }
    if ← layout.needsPass then
      return (.ok (), p.invalidate .scroll)
    else
      match layout.refreshVisible with
      | (none, layout) => return (.ok (), { p with layout })
      | (some change, layout) =>
        return (.ok (), { p with layout, visible := some change }.invalidate .visibleRange)

/-- Takes note that the target showing item `i` changed its size. -/
def itemResized (p : Presenter κ α) (i : Nat) : Presenter κ α :=
  let key := p.keyOf i
  if p.targets.contains key then
    { p with resized := p.resized.insert key }.invalidate .measurement
  else
    p

/-- Brings item `i` into view, and keeps it there until what is around it has been measured. -/
def scrollToIndex (p : Presenter κ α) (i : Nat) (align : Align) :
    Except Fault (Presenter κ α) := do
  let layout ← p.layout.pinTo i align
  return { p.cancelAnimation with layout }.invalidate .scrollToIndex

/-- Starts an eased scroll towards item `i`.  Its destination is worked out anew in every frame;
at its end the item is brought into view exactly. -/
def smoothScrollToIndex (p : Presenter κ α) (i : Nat) (align : Align) (now duration : Nat)
    (easing : Easing) : Except Fault (Presenter κ α) := do
  let align ← p.layout.resolveAlign i align
  let destination ← p.layout.revealPosition i align
  let tween := Tween.ofDuration p.layout.scrollPosition destination now duration easing
  return { p with layout := p.layout.unpin, smooth := some ⟨tween, i, align⟩ }.invalidate .scroll

/-- Drops every measurement, because the items were replaced, and has the targets measured
again. -/
def reset (p : Presenter κ α) : Presenter κ α :=
  { p.cancelAnimation with layout := p.layout.forget }.invalidate .reset

end Presenter

end VirtualList
