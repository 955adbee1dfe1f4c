import VirtualList.Proofs.Scheduler

/-!
# One frame for many reasons

Over a whole run a scheduler loses no reason and asks for no frame twice.  A run is any sequence of
calls, with a log of what was answered to them; what the scheduler holds is compared with what its
log says.

## Key results

- `respond`, `Logged`: calls and runs
- `Exchange.begins`, `Exchange.asks`, `arrivals`: what a log says
- `Tallies`, `Tallies.step`: what the scheduler holds is what its log says, and each call keeps it so
- `Logged.coalesces`: the reasons, the frames and the calls of the host's callback in every run
-/

namespace VirtualList

/-- There is no reason in any of several sets iff there is none in all of them together. -/
theorem Reasons.isEmpty_foldr_union (rs : List Reasons) :
    (rs.foldr (· ∪ ·) .none).isEmpty = true ↔ ∀ r ∈ rs, r.isEmpty = true := by
  induction rs with
  | nil => simp [Reasons.isEmpty, Reasons.none]
  | cons r rest ih =>
    rw [List.foldr_cons, isEmpty_union, Bool.and_eq_true, ih, List.forall_mem_cons]

namespace Scheduler

/-! ## Runs -/

/-- A call to a scheduler. -/
inductive Request where
  | invalidate (reasons : Reasons)
  | begin
  /-- The host installs its callback for frames, or removes it. -/
  | setListening (on : Bool)
  deriving DecidableEq, Repr

/-- What a scheduler answers to a call. -/
inductive Answer where
  | done
  /-- Whether a frame had to be asked for. -/
  | asked (value : Bool)
  /-- The reasons for the frame that begins, if one was asked for. -/
  | begun (reasons : Option Reasons)
  deriving DecidableEq, Repr

/-- Carries out a call. -/
def respond (s : Scheduler) : Request → Answer × Scheduler
  | .invalidate reasons =>
    let (asked, s) := s.invalidate reasons
    (.asked asked, s)
  | .begin =>
    let (reasons, s) := s.begin
    (.begun reasons, s)
  | .setListening on => (.done, s.setListening on)

/-- A call with its answer, and the scheduler before and after it. -/
structure Exchange where
  before : Scheduler
  request : Request
  answer : Answer
  after : Scheduler
  deriving DecidableEq, Repr

/-- The exchange that a call leads to. -/
def exchange (s : Scheduler) (r : Request) : Exchange :=
  ⟨s, r, (s.respond r).1, (s.respond r).2⟩

/-- The schedulers that runs lead to from a new one, with the exchanges so far, the latest first. -/
inductive Logged (listening : Bool) : Scheduler → List Exchange → Prop
  | start : Logged listening (idle listening) []
  | step {s : Scheduler} {log : List Exchange} (r : Request) :
      Logged listening s log → Logged listening (s.respond r).2 (s.exchange r :: log)

/-! ## What a log says -/

namespace Exchange

/-- The reasons that the exchange gives, if it gives some. -/
def reasons? (x : Exchange) : Option Reasons :=
  match x.request with
  | .invalidate reasons => some reasons
  | _ => none

/-- Whether a callback is in place from the exchange on, if the exchange settles it. -/
def listens? (x : Exchange) : Option Bool :=
  match x.request with
  | .setListening on => some on
  | _ => none

/-- A frame began. -/
def begins (x : Exchange) : Bool :=
  match x.answer with
  | .begun (some _) => true
  | _ => false

/-- The scheduler moved from idle to pending. -/
def asks (x : Exchange) : Bool := x.before.state == .idle && x.after.state == .pending

end Exchange

/-- The reasons that have arrived since the last frame began, the latest first. -/
def arrivals (log : List Exchange) : List Reasons :=
  (log.takeWhile fun x => !x.begins).filterMap Exchange.reasons?

/-- With a new frame the reasons before it are done with. -/
theorem arrivals_of_begins {x : Exchange} (h : x.begins = true) (log : List Exchange) :
    arrivals (x :: log) = [] := by
  simp [arrivals, h]

/-- Until then the reasons of an exchange come in addition. -/
theorem arrivals_of_not_begins {x : Exchange} (h : x.begins = false) (log : List Exchange) :
    arrivals (x :: log) = x.reasons?.toList ++ arrivals log := by
  cases hr : x.reasons? <;> simp [arrivals, h, hr]

/-! ## What a scheduler holds -/

/-- The scheduler holds what its log says. -/
structure Tallies (listening : Bool) (s : Scheduler) (log : List Exchange) : Prop where
  /-- A frame has been asked for iff there is a reason. -/
  state_iff : s.state = .pending ↔ s.pending.isEmpty = false
  /-- The reasons are those that have arrived since the last frame. -/
  pending_eq : s.pending = (arrivals log).foldr (· ∪ ·) .none
  /-- Each frame that began was asked for once, and so was the one that is still to begin. -/
  frames_eq : s.framesRequested =
    min (log.countP Exchange.begins + if s.isPending then 1 else 0) Index.limit
  /-- The callback is called where the scheduler moves to pending, if it is in place. -/
  calls_eq : s.calls = log.countP fun x => x.asks && x.before.listening
  /-- The callback is in place as the host settled it last. -/
  listening_eq : s.listening = (log.findSome? Exchange.listens?).getD listening

namespace Tallies

variable {listening : Bool} {s : Scheduler} {log : List Exchange}

theorem start (listening : Bool) : Tallies listening (idle listening) [] where
  state_iff := by simp [idle, Reasons.isEmpty, Reasons.none]
  pending_eq := rfl
  frames_eq := by simp [idle, isPending]
  calls_eq := rfl
  listening_eq := rfl

/-- Reasons that arrive. -/
theorem invalidate (h : Tallies listening s log) (r : Reasons) :
    Tallies listening (s.invalidate r).2 (s.exchange (.invalidate r) :: log) := by
  have hbegins : (s.exchange (.invalidate r)).begins = false := rfl
  have harrivals : arrivals (s.exchange (.invalidate r) :: log) = r :: arrivals log :=
    arrivals_of_not_begins hbegins log
  -- The exchange says nothing of the callback.
  have hlistening : s.listening =
      ((s.exchange (.invalidate r) :: log).findSome? Exchange.listens?).getD listening :=
    h.listening_eq
  have hpending : (s.invalidate r).2.pending =
      (arrivals (s.exchange (.invalidate r) :: log)).foldr (· ∪ ·) .none := by
    rw [pending_invalidate, harrivals, List.foldr_cons, ← h.pending_eq, Reasons.union_comm]
  have hasks : (s.exchange (.invalidate r)).asks =
      (s.state == .idle && (s.invalidate r).2.state == .pending) := rfl
  have hbefore : (s.exchange (.invalidate r)).before = s := rfl
  have hframes := h.frames_eq
  have hcalls := h.calls_eq
  rcases s.invalidate_cases r with ⟨hempty, heq⟩ | ⟨hsome, hstate, heq⟩ | ⟨hsome, hstate, heq⟩
  · -- Nothing happens.
    rw [heq] at hpending hasks ⊢
    refine ⟨h.state_iff, hpending, ?_, ?_, hlistening⟩
    · rw [List.countP_cons, hbegins]
      simpa using hframes
    · rw [List.countP_cons, hasks]
      cases hs : s.state <;> simpa using hcalls
  · -- The frame has been asked for already.
    rw [heq] at hpending hasks ⊢
    refine ⟨?_, hpending, ?_, ?_, hlistening⟩
    · simp [hstate, Reasons.isEmpty_union, hsome]
    · rw [List.countP_cons, hbegins]
      simpa [isPending, hstate] using hframes
    · rw [List.countP_cons, hasks]
      simpa [hstate] using hcalls
  · -- The frame is asked for now.
    rw [heq] at hpending hasks ⊢
    refine ⟨?_, hpending, ?_, ?_, hlistening⟩
    · simp [Reasons.isEmpty_union, hsome]
    · have hidle : s.framesRequested = min (log.countP Exchange.begins) Index.limit := by
        simpa [isPending, hstate] using hframes
      rw [List.countP_cons, hbegins]
      show min (s.framesRequested + 1) Index.limit =
        min (log.countP Exchange.begins + 0 + 1) Index.limit
      omega
    · rw [List.countP_cons, hasks, hbefore]
      cases s.listening <;> simp [hstate, hcalls]

/-- A frame that begins, if one was asked for. -/
theorem begin (h : Tallies listening s log) :
    Tallies listening s.begin.2 (s.exchange .begin :: log) := by
  have hanswer : (s.exchange .begin).answer = .begun s.begin.1 := rfl
  have hlistening : s.listening =
      ((s.exchange .begin :: log).findSome? Exchange.listens?).getD listening := h.listening_eq
  have hreasons : (s.exchange .begin).reasons? = none := rfl
  have hasks : (s.exchange .begin).asks =
      (s.state == .idle && s.begin.2.state == .pending) := rfl
  have hframes := h.frames_eq
  have hcalls := h.calls_eq
  rcases s.begin_cases with ⟨hstate, heq⟩ | ⟨hstate, heq⟩
  · have hbegins : (s.exchange .begin).begins = false := by
      rw [Exchange.begins, hanswer, heq]
    rw [heq] at hasks ⊢
    refine ⟨h.state_iff, ?_, ?_, ?_, hlistening⟩
    · rw [arrivals_of_not_begins hbegins, hreasons]
      exact h.pending_eq
    · rw [List.countP_cons, hbegins]
      simpa using hframes
    · rw [List.countP_cons, hasks]
      simpa [hstate] using hcalls
  · have hbegins : (s.exchange .begin).begins = true := by
      rw [Exchange.begins, hanswer, heq]
    rw [heq] at hasks ⊢
    refine ⟨?_, ?_, ?_, ?_, hlistening⟩
    · simp [Reasons.isEmpty, Reasons.none]
    · rw [arrivals_of_begins hbegins]
      rfl
    · -- The frame that was still to begin counts among those that began.
      rw [List.countP_cons, hbegins]
      simpa [isPending, hstate] using hframes
    · rw [List.countP_cons, hasks]
      simpa [hstate] using hcalls

theorem setListening (h : Tallies listening s log) (on : Bool) :
    Tallies listening (s.setListening on) (s.exchange (.setListening on) :: log) := by
  have hbegins : (s.exchange (.setListening on)).begins = false := rfl
  have hasks : (s.exchange (.setListening on)).asks = (s.state == .idle && s.state == .pending) :=
    rfl
  refine ⟨h.state_iff, ?_, ?_, ?_, rfl⟩
  · rw [arrivals_of_not_begins hbegins]
    exact h.pending_eq
  · rw [List.countP_cons, hbegins]
    exact h.frames_eq
  · have hcalls : (s.setListening on).calls = _ := h.calls_eq
    rw [List.countP_cons, hasks]
    cases hs : s.state <;> simpa using hcalls

/-- What a scheduler holds is what its log says, after every call. -/
theorem step (h : Tallies listening s log) (r : Request) :
    Tallies listening (s.respond r).2 (s.exchange r :: log) := by
  cases r with
  | invalidate reasons => exact h.invalidate reasons
  | begin => exact h.begin
  | setListening on => exact h.setListening on

end Tallies

theorem Logged.tallies {listening : Bool} {s : Scheduler} {log : List Exchange}
    (h : Logged listening s log) : Tallies listening s log := by
  induction h with
  | start => exact .start listening
  | step r _ ih => exact ih.step r

/-- In every run of a scheduler:

* a frame has been asked for iff there is a reason for one;
* a frame begins iff a reason has arrived since the last one began, and is handed exactly the
  reasons that have;
* as many frames were asked for as began, and one more if one is still to begin;
* the host's callback was called once for each time that the scheduler moved from idle to pending
  while it was in place, that is, while the host had not removed it. -/
theorem Logged.coalesces {listening : Bool} {s : Scheduler} {log : List Exchange}
    (h : Logged listening s log) :
    (s.state = .pending ↔ s.pending.isEmpty = false) ∧
    (s.begin.1 = none ↔ ∀ r ∈ arrivals log, r.isEmpty = true) ∧
    (∀ reasons, s.begin.1 = some reasons → reasons = (arrivals log).foldr (· ∪ ·) .none) ∧
    (log.countP Exchange.begins + (if s.isPending then 1 else 0) ≤ Index.limit →
      s.framesRequested = log.countP Exchange.begins + if s.isPending then 1 else 0) ∧
    s.calls = (log.countP fun x => x.asks && x.before.listening) ∧
    s.listening = (log.findSome? Exchange.listens?).getD listening := by
  have ht := h.tallies
  refine ⟨ht.state_iff, ?_, ?_, ?_, ht.calls_eq, ht.listening_eq⟩
  · rw [← Reasons.isEmpty_foldr_union, ← ht.pending_eq]
    rcases s.begin_cases with ⟨hstate, heq⟩ | ⟨hstate, heq⟩
    · -- An idle scheduler has no reason left.
      have hnone : s.pending.isEmpty = true := by
        rw [← Bool.not_eq_false, ← ht.state_iff, hstate]
        exact SchedulerState.noConfusion
      simp [heq, hnone]
    · simp [heq, ht.state_iff.1 hstate]
  · intro reasons hbegin
    rw [← ht.pending_eq]
    rcases s.begin_cases with ⟨-, heq⟩ | ⟨-, heq⟩
    · rw [heq] at hbegin
      cases hbegin
    · rw [heq] at hbegin
      exact (Option.some.inj hbegin).symm
  · intro hfew
    rw [ht.frames_eq]
    exact Nat.min_eq_left hfew

/-- Reasons that arrive one after the other, two frames between them, and a callback that is taken
away for one of the frames. -/
theorem Logged.coalesces_of_interleaved : ∃ (s : Scheduler) (log : List Exchange),
    Logged true s log ∧ arrivals log = [.none, .scroll, .viewport] ∧
      s.begin.1 = some (.viewport ∪ .scroll) ∧ s.framesRequested = 3 ∧ s.calls = 2 := by
  have h : Logged true _ _ :=
    ((((((((((Logged.start.step (.invalidate .none)).step (.invalidate .totalItems)).step
      (.invalidate .reset)).step .begin).step .begin).step (.setListening false)).step
      (.invalidate .items)).step .begin).step (.setListening true)).step
      (.invalidate .viewport)).step (.invalidate .scroll)
  have hlast := h.step (.invalidate .none)
  obtain ⟨-, hnone, hsome, hframes, hcalls, -⟩ := hlast.coalesces
  refine ⟨_, _, hlast, by decide, ?_, ?_, ?_⟩
  · obtain ⟨reasons, hbegin⟩ := Option.ne_none_iff_exists'.1
      (mt hnone.1 (by decide))
    rw [hbegin, hsome reasons hbegin]
    decide
  · rw [hframes (by decide)]
    decide
  · rw [hcalls]
    decide

end Scheduler

end VirtualList
