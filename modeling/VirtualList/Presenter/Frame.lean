import VirtualList.Presenter.Basic

/-!
# Frames

A frame moves an eased scroll on, runs the pass that was asked for, applies its events to the
surface, and records what the surface measures.

`Stage` is a frame under way: the presenter, the surface, and the report so far.
-/

namespace VirtualList

open Std (ExtTreeMap)

variable {σ κ α : Type} [Ord κ] [Std.TransOrd κ] [Scalar α]

/-- A frame under way. -/
structure Stage (σ κ α : Type) [Ord κ] where
  presenter : Presenter κ α
  surface : σ
  report : FrameReport α

namespace Presenter

/-- Moves an eased scroll on: towards where its item lies now, and at its end to the item
exactly. -/
def advance (S : Surface σ κ α) (p : Presenter κ α) (s : σ) (now : Nat) :
    Except Fault (Presenter κ α × σ) := do
  match p.smooth with
  | none => return (p, s)
  | some smooth =>
    let destination ← p.layout.revealPosition smooth.index smooth.align
    let tween := { smooth.tween with destination }
    if tween.isDone now then
      let layout ← p.layout.pinTo smooth.index smooth.align
      return ({ p with layout, smooth := none }.invalidate .scrollToIndex, s)
    else
      let p := { p with smooth := some { smooth with tween } }
      let position := tween.sample now
      match p.layout.moveTo position with
      | (.ok true, layout) =>
        return ({ p with layout }.invalidate .scroll, S.scrollTo position s)
      | (_, layout) => return ({ p with layout }, s)

end Presenter

namespace Stage

/-- Lets the surface act. -/
def onSurface (f : Stage σ κ α) (act : σ → σ) : Stage σ κ α :=
  { f with surface := act f.surface }

/-- Shows one item: its key is bound to it, unless it is so already, and its target is put in its
place.  `next` collects the keys shown. -/
def showItem (S : Surface σ κ α) (next : ExtTreeMap κ Nat) (f : Stage σ κ α)
    (item : PlacedItem α) : ExtTreeMap κ Nat × Stage σ κ α :=
  let p := f.presenter
  let key := p.keyOf item.index
  let shown := p.targets[key]?
  let f := { f with presenter := { p with targets := p.targets.erase key } }
  let f :=
    match shown with
    | none =>
      { f.onSurface (S.bind key item.index) with
        report := { f.report with bound := f.report.bound + 1 } }
    | some old =>
      if old = item.index then f
      else
        { f.onSurface (S.bind key item.index) with
          presenter := { f.presenter with resized := f.presenter.resized.insert key }
          report := { f.report with rebound := f.report.rebound + 1 } }
  (next.insert key item.index, f.onSurface (S.place key item))

/-- Gives up the target of a key. -/
def releaseKey (S : Surface σ κ α) (f : Stage σ κ α) (key : κ) : Stage σ κ α :=
  { f.onSurface (S.release key) with
    presenter := { f.presenter with resized := f.presenter.resized.erase key }
    report := { f.report with released := f.report.released + 1 } }

/-- Shows the items of a window in ascending order, and gives up the targets of all other keys in
the order of the keys.  A presenter that keeps its targets in a hash table gives them up in no
particular order; that any order comes to the same is shown in
`VirtualList.Proofs.Presenter.WalkOrder`. -/
def reconcile (S : Surface σ κ α) (f : Stage σ κ α) (items : List (PlacedItem α)) :
    Stage σ κ α :=
  let (next, f) := items.foldl (fun (next, f) item => showItem S next f item) (∅, f)
  let stale := f.presenter.targets.keys
  stale.foldl (releaseKey S) { f with presenter := { f.presenter with targets := next } }

/-- Applies an event of the pass to the surface. -/
def deliver (S : Surface σ κ α) (f : Stage σ κ α) : LayoutEvent α → Stage σ κ α
  | .windowChanged change => f.onSurface (S.windowChanged change)
  | .itemsPlaced items => f.reconcile S items
  | .scrollSizeChanged size => f.onSurface (S.setScrollSize size)
  | .scrollMoved distance =>
    let p := f.presenter
    let shift (smooth : SmoothScroll α) := { smooth with tween := smooth.tween.shift distance }
    { f.onSurface (S.scrollTo p.layout.scrollPosition) with
      presenter := { p with smooth := p.smooth.map shift } }

/-- Measures the target of a key that shows item `i`, and records what it measures.  A target that
is not laid out yet is left for the next frame.  Answers also whether the measurement calls for a
pass. -/
def measureTarget (S : Surface σ κ α) (f : Stage σ κ α) (key : κ) (i : Nat) :
    Bool × Stage σ κ α :=
  match S.measure key f.surface with
  | (none, s) =>
    (false, { f with
      surface := s
      report := { f.report with deferred := f.report.deferred + 1 } })
  | (some m, s) =>
    let (answer, layout) := f.presenter.layout.record i m
    let presenter := { f.presenter with layout, resized := f.presenter.resized.erase key }
    match answer with
    | .ok called =>
      (called, ⟨presenter, s, { f.report with measured := f.report.measured + 1 }⟩)
    | .error _ =>
      (false, ⟨presenter, s, { f.report with rejected := f.report.rejected + 1 }⟩)

/-- The targets to be measured, in the order of their keys: those of unmeasured items, and those
that changed their size.  With a hash table they come in no particular order, which makes no
difference either: see `VirtualList.Proofs.Presenter.MeasuringOrder` for what is recorded, and
`VirtualList.Proofs.Presenter.WalkOrder` for whole runs. -/
def unmeasured (p : Presenter κ α) : List (κ × Nat) :=
  p.targets.toList.filter fun (key, i) =>
    p.resized.contains key || !p.layout.book.isMeasured i

/-- Measures all targets that are to be measured.  Another frame is asked for if one of the
measurements calls for a pass or a target is not laid out yet. -/
def measureTargets (S : Surface σ κ α) (f : Stage σ κ α) : Stage σ κ α :=
  let measureNext := fun (touched, f) (key, i) =>
    let (called, f) := measureTarget S f key i
    (touched || called, f)
  let (touched, f) := (unmeasured f.presenter).foldl measureNext (false, f)
  if touched || decide (0 < f.report.deferred) then
    { f with presenter := f.presenter.invalidate .measurement }
  else
    f

/-- Tells the surface about a change of the visible part that it does not know yet. -/
def announceVisible (S : Surface σ κ α) (f : Stage σ κ α) : Stage σ κ α :=
  match f.presenter.visible with
  | none => f
  | some change =>
    { f.onSurface (S.windowChanged change) with
      presenter := { f.presenter with visible := none } }

/-- Runs a pass, applies its events to the surface, and measures.  If the items were changed,
targets are bound anew even when no item lies elsewhere. -/
def runPass (S : Surface σ κ α) (f : Stage σ κ α) (reasons : Reasons) :
    Except Fault (Stage σ κ α) := do
  let (pass, events, layout) ← f.presenter.layout.reflow
  let f := { f with
    presenter := { f.presenter with layout }
    report := { f.report with pass := some pass } }
  let f := events.foldl (deliver S) f
  let placed := events.any fun event => event matches .itemsPlaced _
  let f :=
    if !placed && reasons.contains .items then f.reconcile S f.presenter.layout.published else f
  let f := f.measureTargets S
  return if f.presenter.smooth.isSome then
    { f with presenter := f.presenter.invalidate .scroll }
  else
    f

end Stage

namespace Presenter

/-- Runs one frame. -/
def frame (S : Surface σ κ α) (p : Presenter κ α) (s : σ) (now : Nat) :
    Except Fault (FrameReport α × Presenter κ α × σ) := do
  let (p, s) ← p.advance S s now
  match p.scheduler.begin with
  | (none, scheduler) => return (.idle, { p with scheduler }, s)
  | (some reasons, scheduler) =>
    let f : Stage σ κ α :=
      ⟨{ p with scheduler }, s, { FrameReport.idle with reasons := some reasons }⟩
    let f := f.announceVisible S
    let f ← if reasons.needsPass then f.runPass S reasons else pure f
    return (f.report, f.presenter, f.surface)

/-- Runs frames `step` milliseconds apart until one leaves nothing to do, at most `frames` of
them.  Answers with the report of each. -/
def run (S : Surface σ κ α) (p : Presenter κ α) (s : σ) (now step frames : Nat) :
    Except Fault (List (FrameReport α) × Presenter κ α × σ) :=
  match frames with
  | 0 => .ok ([], p, s)
  | frames + 1 => do
    let (report, p, s) ← p.frame S s now
    if p.isComplete then
      return ([report], p, s)
    else
      let (reports, p, s) ← run S p s (now + step) step frames
      return (report :: reports, p, s)

end Presenter

end VirtualList
