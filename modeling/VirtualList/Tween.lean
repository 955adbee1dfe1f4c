import VirtualList.Scalar

/-!
# Eased movement

A tween leads from one value to another in a given time; its easing says how the movement is
distributed over that time.  Times are in milliseconds.
-/

namespace VirtualList

/-- How a movement is distributed over its time. -/
inductive Easing where
  | linear
  | smoothStep
  | easeInOutCubic
  deriving DecidableEq, Repr

/-- A movement from `origin` to `destination`. -/
structure Tween (α : Type) where
  origin : α
  destination : α
  /-- The time at which the movement starts. -/
  start : Nat
  duration : Nat
  easing : Easing
  deriving DecidableEq, Repr

variable {α : Type} [Scalar α]

/-- The part of the way that is covered after the part `t` of the time. -/
def Easing.sample (easing : Easing) (t : α) : α :=
  let one : α := ((1 : Nat) : α)
  let two : α := ((2 : Nat) : α)
  match easing with
  | .linear => t
  | .smoothStep => t * t * (((3 : Nat) : α) - two * t)
  | .easeInOutCubic =>
    if t < Scalar.half then
      ((4 : Nat) : α) * t * t * t
    else
      let rest := two - two * t
      one - rest * rest * rest / two

namespace Tween

/-- A movement that takes at least a millisecond. -/
def ofDuration (origin destination : α) (start duration : Nat) (easing : Easing) : Tween α :=
  ⟨origin, destination, start, max duration 1, easing⟩

/-- The time since the start, zero before it. -/
def elapsed (tween : Tween α) (now : Nat) : Nat := now - tween.start

/-- The movement's time is over. -/
def isDone (tween : Tween α) (now : Nat) : Bool := decide (tween.duration ≤ tween.elapsed now)

/-- The part of the time that has passed, from zero to one. -/
def progress (tween : Tween α) (now : Nat) : α :=
  Scalar.confine ((tween.elapsed now : α) / (tween.duration : α)) 0 ((1 : Nat) : α)

/-- The value at a time, never negative. -/
def sample (tween : Tween α) (now : Nat) : α :=
  let covered := tween.easing.sample (tween.progress now)
  Scalar.max (tween.origin + (tween.destination - tween.origin) * covered) 0

/-- Moves both ends by `delta`. -/
def shift (tween : Tween α) (delta : α) : Tween α :=
  { tween with origin := tween.origin + delta, destination := tween.destination + delta }

end Tween

end VirtualList
