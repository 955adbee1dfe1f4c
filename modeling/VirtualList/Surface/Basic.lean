import VirtualList.Measurement
import VirtualList.Window

/-!
# Surfaces

A surface owns the rendered targets of a list.  It is told which keys to show and where, and is
asked for sizes.  A surface is a record of operations on its own states, so that one can be built
on top of another: `quiet` leaves out the announcements of the window, and `recorded` keeps a log
of all calls.
-/

namespace VirtualList

/-- The operations of a surface with states `σ`, for targets with keys `κ`. -/
structure Surface (σ κ α : Type) where
  /-- Shows item `i` under a key, whatever the key showed before. -/
  bind : κ → Nat → σ → σ
  /-- Gives up the target of a key that left the window. -/
  release : κ → σ → σ
  /-- Puts the target of a key in its place. -/
  place : κ → PlacedItem α → σ → σ
  /-- The measurement of a key's target, or `none` if it is not laid out yet. -/
  measure : κ → σ → Option (Measurement α) × σ
  /-- Sets the extent of the list. -/
  setScrollSize : α → σ → σ
  /-- Sets the scroll offset. -/
  scrollTo : α → σ → σ
  /-- Takes note of the window before items are placed in it. -/
  windowChanged : WindowChange → σ → σ := fun _ s => s

/-- A call that a surface received, with what it answered. -/
inductive SurfaceCall (κ α : Type) where
  | bind (key : κ) (index : Nat)
  | release (key : κ)
  | place (key : κ) (item : PlacedItem α)
  | measure (key : κ) (answer : Option (Measurement α))
  | setScrollSize (size : α)
  | scrollTo (position : α)
  | windowChanged (change : WindowChange)
  deriving DecidableEq, Repr

/-- A surface's state with the calls it received, the latest first. -/
structure Recorded (σ κ α : Type) where
  surface : σ
  calls : List (SurfaceCall κ α)

namespace Recorded

variable {σ κ α : Type}

/-- Adds a call to the log and lets the surface act on it. -/
def log (call : SurfaceCall κ α) (act : σ → σ) (r : Recorded σ κ α) : Recorded σ κ α :=
  ⟨act r.surface, call :: r.calls⟩

/-- The calls in the order in which they came. -/
def history (r : Recorded σ κ α) : List (SurfaceCall κ α) := r.calls.reverse

end Recorded

namespace Surface

variable {σ κ α : Type}

/-- The surface without announcements of the window. -/
def quiet (S : Surface σ κ α) : Surface σ κ α := { S with windowChanged := fun _ s => s }

/-- The surface with a log of the calls it receives. -/
def recorded (S : Surface σ κ α) : Surface (Recorded σ κ α) κ α where
  bind key i := .log (.bind key i) (S.bind key i)
  release key := .log (.release key) (S.release key)
  place key item := .log (.place key item) (S.place key item)
  measure key r :=
    let (answer, s) := S.measure key r.surface
    (answer, ⟨s, .measure key answer :: r.calls⟩)
  setScrollSize size := .log (.setScrollSize size) (S.setScrollSize size)
  scrollTo position := .log (.scrollTo position) (S.scrollTo position)
  windowChanged change := .log (.windowChanged change) (S.windowChanged change)

end Surface

end VirtualList
