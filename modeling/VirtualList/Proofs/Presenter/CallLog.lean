import VirtualList.Proofs.Presenter.Bindings
import VirtualList.Proofs.Presenter.Measuring

/-!
# What a frame adds to the log

A surface that records its calls tells what was last said to it: where a target was put, which
window was announced, which extent was set.  These are three readings of the log, and each of them
overlooks the other calls.  This file follows a reading through the parts of a frame.

## Key results

- `lastPlaced`, `lastWindow`, `lastScrollSize`: what the log says last
- `reconcile_reading`, `deliver_reading`, `measureTargets_reading`: readings after a part of a frame
- `events_findSome?`: what is read from the events of a pass
-/

namespace VirtualList

open Std (ExtTreeMap)

/-! ## Readings -/

/-- What a reading finds first in a list that begins with `x`. -/
theorem findSome?_cons_eq_or {γ β : Type} (read : γ → Option β) (x : γ) (xs : List γ) :
    (x :: xs).findSome? read = (read x).or (xs.findSome? read) := by
  rw [List.findSome?_cons]
  cases read x <;> rfl

namespace SurfaceCall

variable {κ α β : Type}

/-- The item in whose place a call puts the target of a key. -/
def placed? [Ord κ] (key : κ) : SurfaceCall κ α → Option (PlacedItem α)
  | .place k item => if compare k key = .eq then some item else none
  | _ => none

/-- The window that a call announces. -/
def window? : SurfaceCall κ α → Option WindowChange
  | .windowChanged change => some change
  | _ => none

/-- The extent that a call sets. -/
def scrollSize? : SurfaceCall κ α → Option α
  | .setScrollSize size => some size
  | _ => none

/-- The reading takes note of places, windows and extents only. -/
structure Overlooks (read : SurfaceCall κ α → Option β) : Prop where
  bind : ∀ key i, read (.bind key i) = none
  release : ∀ key, read (.release key) = none
  measure : ∀ key answer, read (.measure key answer) = none
  scrollTo : ∀ position, read (.scrollTo position) = none

theorem overlooks_placed? [Ord κ] (key : κ) : Overlooks (placed? (α := α) key) :=
  ⟨fun _ _ => rfl, fun _ => rfl, fun _ _ => rfl, fun _ => rfl⟩

theorem overlooks_window? : Overlooks (window? (κ := κ) (α := α)) :=
  ⟨fun _ _ => rfl, fun _ => rfl, fun _ _ => rfl, fun _ => rfl⟩

theorem overlooks_scrollSize? : Overlooks (scrollSize? (κ := κ) (α := α)) :=
  ⟨fun _ _ => rfl, fun _ => rfl, fun _ _ => rfl, fun _ => rfl⟩

/-- The item in whose place the target of a key was put last, in a log with the latest call
first. -/
def lastPlaced [Ord κ] (calls : List (SurfaceCall κ α)) (key : κ) : Option (PlacedItem α) :=
  calls.findSome? (placed? key)

/-- The window that was announced last. -/
def lastWindow (calls : List (SurfaceCall κ α)) : Option WindowChange := calls.findSome? window?

/-- The extent that was set last. -/
def lastScrollSize (calls : List (SurfaceCall κ α)) : Option α := calls.findSome? scrollSize?

/-- The last item of a list whose showing is read. -/
def readItems (read : SurfaceCall κ α → Option β) (keyOf : Nat → κ)
    (items : List (PlacedItem α)) : Option β :=
  items.reverse.findSome? fun item => read (.place (keyOf item.index) item)

/-- What is read while an event is applied. -/
def readEvent (read : SurfaceCall κ α → Option β) (keyOf : Nat → κ) : LayoutEvent α → Option β
  | .windowChanged change => read (.windowChanged change)
  | .itemsPlaced items => readItems read keyOf items
  | .scrollSizeChanged size => read (.setScrollSize size)
  | .scrollMoved _ => none

end SurfaceCall

open SurfaceCall

namespace Stage

variable {σ κ α β : Type} [Ord κ]

/-- What is read from the log of the surface. -/
def reading (read : SurfaceCall κ α → Option β) (f : Stage (Recorded σ κ α) κ α) : Option β :=
  f.surface.calls.findSome? read

variable {read : SurfaceCall κ α → Option β} (S : Surface σ κ α)
  (f : Stage (Recorded σ κ α) κ α)

/-! ## Announcing and showing -/

theorem announceVisible_reading : (f.announceVisible S.recorded).reading read =
    (f.presenter.visible.bind fun change => read (.windowChanged change)).or (f.reading read) := by
  unfold announceVisible
  split
  · rename_i hnone
    simp [hnone]
  · rename_i change hsome
    rw [hsome]
    exact findSome?_cons_eq_or read (.windowChanged change) f.surface.calls

/-- What a reading finds in other calls than announcements stays. -/
theorem announceVisible_reading_of_none (hread : ∀ change, read (.windowChanged change) = none) :
    (f.announceVisible S.recorded).reading read = f.reading read := by
  rw [announceVisible_reading]
  cases f.presenter.visible with
  | none => rfl
  | some change => rw [Option.bind_some, hread, Option.none_or]

variable [Std.TransOrd κ]

/-- Showing an item puts its target in its place. -/
theorem showItem_reading (hread : Overlooks read) (next : ExtTreeMap κ Nat) (item : PlacedItem α) :
    (showItem S.recorded next f item).2.reading read =
      (read (.place (f.presenter.keyOf item.index) item)).or (f.reading read) := by
  have hbind (i : Nat) : (SurfaceCall.bind (f.presenter.keyOf item.index) i ::
      f.surface.calls).findSome? read = f.reading read := by
    rw [findSome?_cons_eq_or, hread.bind]
    rfl
  simp only [showItem]
  split
  · rw [← hbind item.index]
    exact findSome?_cons_eq_or ..
  · split
    · exact findSome?_cons_eq_or ..
    · rw [← hbind item.index]
      exact findSome?_cons_eq_or ..

/-- A target that is given up is not put in another place. -/
theorem releaseKey_reading (hread : Overlooks read) (key : κ) :
    (releaseKey S.recorded f key).reading read = f.reading read := by
  show (SurfaceCall.release key :: f.surface.calls).findSome? read = _
  rw [findSome?_cons_eq_or, hread.release]
  rfl

/-- Showing items puts each in its place, the last one last. -/
theorem reconcile_reading [Std.LawfulEqOrd κ] (hread : Overlooks read)
    (items : List (PlacedItem α)) : (f.reconcile S.recorded items).reading read =
      (readItems read f.presenter.keyOf items).or (f.reading read) := by
  have hshown : (items.foldl (showNext S.recorded) (∅, f)).2.reading read =
      (readItems read f.presenter.keyOf items).or (f.reading read) := by
    induction items using List.reverseRecOn with
    | nil => rfl
    | append_singleton items x ih =>
      obtain ⟨g, targets, resized, hfold, hg, -⟩ := foldl_showNext S.recorded f items
      rw [List.foldl_append, hfold, List.foldl_cons, List.foldl_nil, showNext,
        showItem_reading S g hread]
      rw [hfold] at ih
      rw [ih, hg]
      simp [readItems, findSome?_cons_eq_or, Option.or_assoc]
  have hreleased (keys : List κ) (g : Stage (Recorded σ κ α) κ α) :
      (keys.foldl (releaseKey S.recorded) g).reading read = g.reading read :=
    List.foldlRecOn (motive := fun h : Stage (Recorded σ κ α) κ α => h.reading read =
      g.reading read) keys _ rfl fun h hh key _ => (releaseKey_reading S h hread key).trans hh
  rw [reconcile_eq S.recorded f rfl, hreleased, ← hshown]
  rfl

variable [Scalar α]

theorem deliver_reading [Std.LawfulEqOrd κ] (hread : Overlooks read) (event : LayoutEvent α) :
    (f.deliver S.recorded event).reading read =
      (readEvent read f.presenter.keyOf event).or (f.reading read) := by
  cases event with
  | itemsPlaced items => exact reconcile_reading S f hread items
  | windowChanged change => exact findSome?_cons_eq_or ..
  | scrollSizeChanged size => exact findSome?_cons_eq_or ..
  | scrollMoved distance =>
    show (SurfaceCall.scrollTo _ :: f.surface.calls).findSome? read = _
    rw [findSome?_cons_eq_or, hread.scrollTo]
    rfl

/-- Of the events of a pass the last one that is read counts. -/
theorem foldl_deliver_reading [Std.LawfulEqOrd κ] (hread : Overlooks read)
    (events : List (LayoutEvent α)) : (events.foldl (deliver S.recorded) f).reading read =
      (events.reverse.findSome? (readEvent read f.presenter.keyOf)).or (f.reading read) := by
  induction events generalizing f with
  | nil => rfl
  | cons event rest ih =>
    rw [List.foldl_cons, ih, deliver_reading S f hread,
      (deliver_presenter S.recorded f event).1.keyOf, ← Option.or_assoc]
    simp [List.findSome?_append, findSome?_cons_eq_or]

omit [Ord κ] [Std.TransOrd κ] in
/-- What is read from the events of a pass. -/
theorem events_findSome? (keyOf : Nat → κ) (before after : Layout α) (remeasure : Bool) (moved : α) :
    (Layout.events before after remeasure moved).reverse.findSome? (readEvent read keyOf) =
      ((if after.scrollSize != before.scrollSize then read (.setScrollSize after.scrollSize)
        else none).or
      (if after.published != before.published then readItems read keyOf after.published
        else none)).or
      (if after.range ≠ before.range ∨ after.stable ≠ before.stable ∨ remeasure = true then
        read (.windowChanged (after.windowChange remeasure)) else none) := by
  have hone (c : Prop) [Decidable c] (event : LayoutEvent α) :
      (if c then [event] else []).reverse.findSome? (readEvent read keyOf) =
        if c then readEvent read keyOf event else none := by
    split
    · exact (findSome?_cons_eq_or _ event []).trans Option.or_none
    · rfl
  simp only [Layout.events, List.reverse_append, List.findSome?_append, hone]
  simp [readEvent, Option.or_assoc]

/-- Showing a pass, with its items shown once more if the data changed in place. -/
theorem showPass_reading [Std.LawfulEqOrd κ] (hread : Overlooks read) (reasons : Reasons)
    (events : List (LayoutEvent α)) : (f.showPass S.recorded reasons events).reading read =
      (if !placesItems events && reasons.contains .items then
        readItems read f.presenter.keyOf f.presenter.layout.published else none).or
      ((events.reverse.findSome? (readEvent read f.presenter.keyOf)).or (f.reading read)) := by
  have hplan := foldl_deliver_keepsPlan S.recorded f events
  rw [← foldl_deliver_reading S f hread, showPass]
  split
  · rw [reconcile_reading S _ hread, hplan.keyOf, hplan.layout]
  · rfl

/-! ## Easing and measuring -/

omit [Std.TransOrd κ] in
/-- An eased scroll moves the surface at most. -/
theorem advance_reading (hread : Overlooks read) {p p' : Presenter κ α}
    {s s' : Recorded σ κ α} {now : Nat} (h : p.advance S.recorded s now = .ok (p', s')) :
    s'.calls.findSome? read = s.calls.findSome? read := by
  rcases Presenter.advance_calls h with heq | ⟨position, heq⟩ <;> rw [heq]
  rw [findSome?_cons_eq_or, hread.scrollTo, Option.none_or]

/-- A target that is measured is not put in another place. -/
theorem measureTarget_reading (hread : Overlooks read) (key : κ) (i : Nat) :
    (measureTarget S.recorded f key i).2.reading read = f.reading read := by
  rw [reading, measureTarget_surface]
  show (SurfaceCall.measure key _ :: f.surface.calls).findSome? read = _
  rw [findSome?_cons_eq_or, hread.measure]
  rfl

/-- Measuring puts no target in another place. -/
theorem measureTargets_reading (hread : Overlooks read) :
    (f.measureTargets S.recorded).reading read = f.reading read := by
  have hloop (xs : List (κ × Nat)) (x : Bool × Stage (Recorded σ κ α) κ α) :
      (xs.foldl (measureNext S.recorded) x).2.reading read = x.2.reading read :=
    List.foldlRecOn (motive := fun y : Bool × Stage (Recorded σ κ α) κ α =>
      y.2.reading read = x.2.reading read) xs _ rfl fun y hy target _ =>
        (measureTarget_reading S y.2 hread target.1 target.2).trans hy
  rw [measureTargets_eq S.recorded f rfl]
  split <;> exact hloop _ (false, f)

end Stage

end VirtualList
