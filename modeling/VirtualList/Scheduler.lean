import VirtualList.Index
import VirtualList.Reasons

/-!
# The frame scheduler

The scheduler collects reasons for a frame.  The first reason that arrives while it is idle asks
the host for one frame; what arrives before that frame begins is handled by the same frame.
-/

namespace VirtualList

/-- Whether a frame has been asked for. -/
inductive SchedulerState where
  | idle
  | pending
  deriving DecidableEq, Repr

/-- The name of a state. -/
def SchedulerState.name : SchedulerState → String
  | idle => "Idle"
  | pending => "Pending"

/-- A scheduler together with the host's end of it. -/
structure Scheduler where
  state : SchedulerState
  /-- The reasons since the last frame. -/
  pending : Reasons
  /-- The host has a callback in place that is to be called for a frame. -/
  listening : Bool
  /-- How many frames were asked for; the count stops at the largest representable number. -/
  framesRequested : Nat
  /-- How often the host's callback was called. -/
  calls : Nat
  deriving DecidableEq, Repr

namespace Scheduler

/-- An idle scheduler. -/
def idle (listening : Bool) : Scheduler where
  state := .idle
  pending := .none
  listening := listening
  framesRequested := 0
  calls := 0

/-- A frame has been asked for and has not begun. -/
def isPending (s : Scheduler) : Bool := s.state == .pending

/-- Installs or removes the host's callback. -/
def setListening (s : Scheduler) (on : Bool) : Scheduler := { s with listening := on }

/-- Adds reasons for a frame.  Answers whether a frame had to be asked for, that is, whether the
scheduler was idle before. -/
def invalidate (s : Scheduler) (reasons : Reasons) : Bool × Scheduler :=
  if reasons.isEmpty then
    (false, s)
  else
    let pending := s.pending ∪ reasons
    match s.state with
    | .pending => (false, { s with pending })
    | .idle =>
      let calls := if s.listening then s.calls + 1 else s.calls
      (true, { s with
        state := .pending
        pending := pending
        framesRequested := Index.next s.framesRequested
        calls := calls })

/-- Begins the frame that was asked for, if one was: the scheduler is idle again and hands out
the reasons it has collected. -/
def begin (s : Scheduler) : Option Reasons × Scheduler :=
  match s.state with
  | .idle => (none, s)
  | .pending => (some s.pending, { s with state := .idle, pending := .none })

/-- A one-line summary. -/
def text (s : Scheduler) : String :=
  s!"ReflowScheduler \x7b state: {s.state.name}, pending: {s.pending.text}, " ++
    s!"frames_requested: {s.framesRequested}, .. \x7d"

end Scheduler

end VirtualList
