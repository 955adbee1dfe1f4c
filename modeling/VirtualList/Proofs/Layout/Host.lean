import VirtualList.Proofs.Layout.ScrollError
import VirtualList.Proofs.Same

/-!
# What a host knows

A host sees a layout through its answers: the events of a pass, and the announcements of a visible
part that moved without one.  A host that keeps copies of what it is told, and changes them when it
is told and at no other time, has what the layout has.  So nothing of the window, the extent or the
scroll position changes without being told.

## Key results

- `Logged`: a run with the exchanges that it consists of
- `Host.note`, `Host.after`: what a host makes of an exchange, and of a run
- `Logged.scroll_errors_account`: the host and the layout agree on the scroll position
- `Logged.host_informed`: and on everything else, and items are to be measured again after a change
  of the width to lay out in, and only then
-/

namespace VirtualList.Layout

variable {α : Type}

/-! ## Runs with a log -/

/-- A request and what the layout, as it was then, answered to it. -/
structure Exchange (α : Type) where
  before : Layout α
  request : Request α
  answer : Answer α

variable [Scalar α] {options : Options α} {l l' : Layout α} {log : List (Exchange α)}
  {r : Request α} {answer : Answer α}

/-- The layouts that runs lead to from the one with the given options, with the exchanges so far,
the latest first. -/
inductive Logged (options : Options α) : Layout α → List (Exchange α) → Prop
  | start {l : Layout α} : ofOptions options = .ok l → Logged options l []
  | step {l l' : Layout α} {log : List (Exchange α)} {r : Request α} {answer : Answer α} :
      Logged options l log → r.Representable → l.respond r = .ok (answer, l') →
        Logged options l' (⟨l, r, answer⟩ :: log)

/-- Every layout that a run leads to has a log. -/
theorem Reachable.exists_log (h : Reachable l) : ∃ options log, Logged options l log := by
  induction h with
  | start h => exact ⟨_, [], .start h⟩
  | step _ hr h ih =>
    obtain ⟨options, log, hlog⟩ := ih
    exact ⟨options, _, hlog.step hr h⟩

/-! ## The host -/

/-- The copies that a host keeps. -/
structure Host (α : Type) where
  /-- The scroll position of the host. -/
  offset : α
  range : Option WindowRange
  stable : Bool
  items : List (PlacedItem α)
  scrollSize : α

/-- The requests whose answers tell a host something: to move, to look for the visible part, and to
run a pass. -/
def Request.IsNoted : Request α → Prop
  | .moveTo _ | .refreshVisible | .reflow => True
  | _ => False

namespace Host

/-- What a host has before it was told anything. -/
def initial (options : Options α) : Host α := ⟨0, none, true, [], options.minScrollSize⟩

/-- Takes over a window that was announced. -/
def onWindow (host : Host α) (change : WindowChange) : Host α :=
  { host with range := change.range, stable := change.stable }

/-- Takes over what an event tells. -/
def onEvent (host : Host α) : LayoutEvent α → Host α
  | .windowChanged change => host.onWindow change
  | .itemsPlaced items => { host with items }
  | .scrollSizeChanged scrollSize => { host with scrollSize }
  | .scrollMoved distance => { host with offset := host.offset + distance }

/-- Takes note of an exchange.  The host moves to a position when the layout has taken it over. -/
def note (host : Host α) (x : Exchange α) : Host α :=
  match x.request, x.answer with
  | .moveTo position, .flag _ => { host with offset := position }
  | _, .announced (some change) => host.onWindow change
  | _, .passed _ events => events.foldl onEvent host
  | _, _ => host

/-- The host after the exchanges of a log. -/
def after (options : Options α) (log : List (Exchange α)) : Host α :=
  log.foldr (fun x host => host.note x) (initial options)

/-- What a host makes of the events of a pass. -/
theorem foldl_onEvent (host : Host α) (before after : Layout α) (remeasure : Bool) (moved : α) :
    (events before after remeasure moved).foldl onEvent host =
      let announced :=
        after.range ≠ before.range ∨ after.stable ≠ before.stable ∨ remeasure = true
      { offset := if moved != 0 then host.offset + moved else host.offset
        range := if announced then after.range else host.range
        stable := if announced then after.stable else host.stable
        items := if after.published != before.published then after.published else host.items
        scrollSize := if after.scrollSize != before.scrollSize then after.scrollSize
          else host.scrollSize } := by
  have hone (c : Prop) [Decidable c] (event : LayoutEvent α) (host : Host α) :
      (if c then [event] else []).foldl onEvent host = if c then host.onEvent event else host := by
    split <;> rfl
  simp only [events, List.foldl_append, hone]
  split_ifs <;> rfl

/-- A host takes no note of other requests. -/
theorem note_eq_self (host : Host α) (hr : ¬r.IsNoted) (h : l.respond r = .ok (answer, l')) :
    host.note ⟨l, r, answer⟩ = host := by
  have hanswer {β : Type} (f : β → Answer α) (hf : ∀ b, host.note ⟨l, r, f b⟩ = host)
      (x : Except (InputError α) β) : host.note ⟨l, r, .ofExcept f x⟩ = host := by
    cases x with
    | error e => cases r <;> rfl
    | ok b => exact hf b
  cases r <;> simp only [respond, Except.ok.injEq, Prod.mk.injEq] at h
  case moveTo | refreshVisible | reflow => exact absurd trivial hr
  case pinTo =>
    obtain ⟨_, -, h⟩ := bind_eq_ok.1 h
    cases h
    rfl
  case setTotal | unpin | forget =>
    obtain ⟨rfl, -⟩ := h
    rfl
  case setOptions | setViewport | setViewportMain | record | recordAll =>
    obtain ⟨rfl, -⟩ := h
    exact hanswer _ (fun _ => rfl) _

end Host

/-! ## What an exchange tells -/

/-- Nothing that a host has a copy of has changed. -/
structure LooksLike (l l' : Layout α) : Prop where
  scrollPosition : l'.scrollPosition = l.scrollPosition
  range : l'.range = l.range
  stable : l'.stable = l.stable
  published : l'.published = l.published
  scrollSize : l'.scrollSize = l.scrollSize

/-- Other requests change nothing that a host has a copy of. -/
theorem Effect.looksLike (h : Effect l r l') (hr : ¬r.IsNoted) : LooksLike l l' := by
  cases h with
  | scrolled | visible | passed => exact absurd trivial hr
  | _ => exact ⟨rfl, rfl, rfl, rfl, rfl⟩

/-- What a host is told by an exchange. -/
inductive Tells (l : Layout α) : Request α → Answer α → Layout α → Prop
  | nothing {r : Request α} {answer : Answer α} {l' : Layout α} :
      (∀ host : Host α, host.note ⟨l, r, answer⟩ = host) → LooksLike l l' → Tells l r answer l'
  | moved (scrollPosition : α) (pin : Option ScrollTarget) {position : α} {changed : Bool} :
      l.moveTo position = (.ok changed, { l with scrollPosition, pin }) →
        Tells l (.moveTo position) (.flag changed) { l with scrollPosition, pin }
  | announced (range : Option WindowRange) : Tells l .refreshVisible
      (.announced (some (windowChange { l with range } false))) { l with range }
  | passed {report : PassReport α} {events : List (LayoutEvent α)} {l' : Layout α} :
      l.reflow = .ok (report, events, l') → Tells l .reflow (.passed report events) l'

/-- A host is told of every exchange that changes what it has a copy of. -/
theorem respond_tells (h : l.respond r = .ok (answer, l')) : Tells l r answer l' := by
  cases r
  case moveTo position =>
    simp only [respond, Except.ok.injEq, Prod.mk.injEq] at h
    obtain ⟨rfl, rfl⟩ := h
    rcases l.moveTo_cases position with ⟨e, heq⟩ | heq | ⟨-, heq⟩
    · rw [heq]
      exact .nothing (fun _ => rfl) ⟨rfl, rfl, rfl, rfl, rfl⟩
    · rw [heq]
      exact .moved l.scrollPosition l.pin heq
    · rw [heq]
      exact .moved position none heq
  case refreshVisible =>
    simp only [respond, Except.ok.injEq, Prod.mk.injEq] at h
    obtain ⟨rfl, rfl⟩ := h
    rcases l.refreshVisible_cases with heq | ⟨range, heq⟩
    · rw [heq]
      exact .nothing (fun _ => rfl) ⟨rfl, rfl, rfl, rfl, rfl⟩
    · rw [heq]
      exact .announced range
  case reflow =>
    obtain ⟨⟨report, events, l₁⟩, hreflow, h⟩ := bind_eq_ok.1 h
    cases h
    exact .passed hreflow
  all_goals
    -- The host takes no note of any other request, and does not have to.
    exact .nothing (fun host => host.note_eq_self id h) ((respond_effect h).looksLike id)

/-! ## The scroll position -/

/-- A finite position is not refused. -/
theorem moveTo_of_isFinite (l : Layout α) {position : α} (h : Scalar.isFinite position = true) :
    ∃ changed l', l.moveTo position = (.ok changed, l') := by
  simp only [moveTo, h, Bool.not_true, Bool.false_eq_true, if_false]
  split
  · exact ⟨false, l, rfl⟩
  · exact ⟨true, _, rfl⟩

section Exact

variable {options : Options Rat} {l l' : Layout Rat} {log : List (Exchange Rat)}
  {r : Request Rat} {answer : Answer Rat}

/-- A layout that has taken a position over is there. -/
theorem scrollPosition_moveTo {position : Rat} {changed : Bool}
    (h : l.moveTo position = (.ok changed, l')) : l'.scrollPosition = position := by
  unfold moveTo at h
  split at h
  · cases h
  · split at h
    · rename_i heq
      cases h
      exact (eq_of_beq heq).symm
    · cases h
      rfl

/-- A host that has the scroll position of the layout has it after every exchange. -/
theorem Tells.offset {host : Host Rat} (h : Tells l r answer l')
    (hhost : host.offset = l.scrollPosition) :
    (host.note ⟨l, r, answer⟩).offset = l'.scrollPosition := by
  cases h with
  | nothing hnote hsame => rw [hnote, hsame.scrollPosition, hhost]
  | moved _ _ hmove => exact (scrollPosition_moveTo hmove).symm
  | announced range => exact hhost
  | @passed report events l' hreflow =>
    obtain ⟨herror, -⟩ := reflow_scrollError hreflow
    obtain ⟨moved, after, -, rfl, rfl, rfl⟩ := reflow_cases hreflow
    show ((events l after after.remeasure moved).foldl Host.onEvent host).offset = _
    rw [Host.foldl_onEvent]
    simp only at herror ⊢
    by_cases hzero : moved = 0
    · rw [if_neg (by simp [hzero])]
      linarith
    · rw [if_pos (by simp [hzero])]
      linarith

/-- The distance that a pass reports is the one by which it moved the scroll position, and the host
is told of it once unless it is zero.  So a host that starts at zero and moves its own position
along has that of the layout at all times. -/
theorem Logged.scroll_errors_account (h : Logged options l log) :
    (∀ report events l', l.reflow = .ok (report, events, l') →
      report.scrollError = l'.scrollPosition - l.scrollPosition ∧
        events.filterMap LayoutEvent.distance? =
          if report.scrollError = 0 then [] else [report.scrollError]) ∧
    (Host.after options log).offset = l.scrollPosition := by
  refine ⟨fun report events l' => reflow_scrollError, ?_⟩
  induction h with
  | start h =>
    obtain ⟨_, -, h⟩ := bind_eq_ok.1 h
    cases h
    rfl
  | step _ _ h ih => exact (respond_tells h).offset ih

/-- The first item turns out shorter than estimated after the host has moved, so the pass moves the
scroll position and the host follows. -/
theorem Logged.scroll_errors_account_of_shorter : ∃ (options : Options Rat) (l l' : Layout Rat)
    (log : List (Exchange Rat)) (report : PassReport Rat) (events : List (LayoutEvent Rat)),
    Logged options l log ∧ l.reflow = .ok (report, events, l') ∧ report.scrollError ≠ 0 ∧
      report.scrollError = l'.scrollPosition - l.scrollPosition ∧
      events.filterMap LayoutEvent.distance? = [report.scrollError] ∧
      (Host.after options log).offset = l.scrollPosition := by
  obtain ⟨l, l', report, events, hl, hreflow, htest⟩ := Reachable.exists_reflow_of_any (α := Rat)
    ⟨10, 5, 2, .vertical, true, 1⟩
    [.setTotal 6, .setViewport ⟨20, 30⟩, .moveTo 40, .reflow,
      .recordAll ([1, 2, 3, 4, 5].map fun i => (i, ⟨3 * (i : Nat), none, ⟨1, 2⟩⟩)), .reflow,
      .record 0 ⟨7, none, ⟨1, 2⟩⟩, .moveTo 8]
    (fun l l' : Layout Rat => decide (l'.scrollPosition ≠ l.scrollPosition))
    (by simp [Request.Representable, Index.limit]) (by decide +kernel)
  obtain ⟨options, log, hlog⟩ := hl.exists_log
  obtain ⟨hpass, hhost⟩ := hlog.scroll_errors_account
  obtain ⟨herror, htold⟩ := hpass report events l' hreflow
  have hmoved : report.scrollError ≠ 0 := by
    rw [herror]
    exact sub_ne_zero.2 (of_decide_eq_true htest)
  rw [if_neg hmoved] at htold
  exact ⟨options, l, l', log, report, events, hlog, hreflow, hmoved, herror, htold, hhost⟩

end Exact

/-! ## What was announced -/

/-- What a host has been told of the window and of the extent is what the layout has, up to what a
comparison of scalars overlooks. -/
structure Host.Knows (host : Host α) (l : Layout α) : Prop where
  range : host.range = l.range
  stable : host.stable = l.stable
  items : Same host.items l.published
  scrollSize : Same host.scrollSize l.scrollSize

/-- The events of a pass tell a host what it does not know yet. -/
theorem Host.Knows.foldl_onEvent [PartialEquivBEq α] {host : Host α} {before : Layout α}
    (h : host.Knows before) (after : Layout α) (remeasure : Bool) (moved : α) :
    ((events before after remeasure moved).foldl Host.onEvent host).Knows after := by
  rw [Host.foldl_onEvent]
  refine ⟨?_, ?_, h.items.update, h.scrollSize.update⟩
  · show ite _ _ _ = _
    split
    · rfl
    · rename_i hsame
      rw [h.range]
      exact (not_not.1 (not_or.1 hsame).1).symm
  · show ite _ _ _ = _
    split
    · rfl
    · rename_i hsame
      rw [h.stable]
      exact (not_not.1 (not_or.1 (not_or.1 hsame).2).1).symm

/-- A host that knows the layout knows it after every exchange. -/
theorem Tells.knows [PartialEquivBEq α] {host : Host α} (h : Tells l r answer l')
    (hhost : host.Knows l) : (host.note ⟨l, r, answer⟩).Knows l' := by
  cases h with
  | nothing hnote hsame =>
    rw [hnote]
    refine ⟨?_, ?_, ?_, ?_⟩
    · exact hhost.range.trans hsame.range.symm
    · exact hhost.stable.trans hsame.stable.symm
    · rw [hsame.published]
      exact hhost.items
    · rw [hsame.scrollSize]
      exact hhost.scrollSize
  | moved => exact ⟨hhost.range, hhost.stable, hhost.items, hhost.scrollSize⟩
  | announced range => exact ⟨rfl, rfl, hhost.items, hhost.scrollSize⟩
  | passed hreflow =>
    obtain ⟨moved, after, -, rfl, rfl, rfl⟩ := reflow_cases hreflow
    have hafter := hhost.foldl_onEvent after after.remeasure moved
    exact ⟨hafter.range, hafter.stable, hafter.items, hafter.scrollSize⟩

/-! ## Dropped measurements -/

/-- The viewport that a request asks for. -/
def Request.viewport? (r : Request α) (l : Layout α) : Option (Viewport α) :=
  match r with
  | .setViewport viewport => some viewport
  | .setViewportMain main => some { l.viewport with main }
  | _ => none

/-- A viewport was set that differs across the scroll axis from one that was not empty there. -/
def Exchange.resizesAcross (x : Exchange α) : Bool :=
  (x.request.viewport? x.before).any fun viewport =>
    viewport.check.isOk && viewport.cross != x.before.viewport.cross &&
      decide (0 < x.before.viewport.cross)

/-- A pass was run. -/
def Exchange.isPass (x : Exchange α) : Bool :=
  match x.request with
  | .reflow => true
  | _ => false

/-- The viewport changed across the scroll axis since the last pass of the log. -/
def resizedAcross (log : List (Exchange α)) : Bool :=
  (log.takeWhile fun x => !x.isPass).any Exchange.resizesAcross

/-- A request for a viewport is one to set it. -/
theorem respond_viewport {viewport : Viewport α} (hviewport : r.viewport? l = some viewport)
    (h : l.respond r = .ok (answer, l')) : l' = (l.setViewport viewport).2 := by
  cases r <;> cases hviewport <;> cases h <;> rfl

/-- A change across the scroll axis is remembered for the next pass. -/
theorem remeasure_setViewport (l : Layout α) (viewport : Viewport α) :
    (l.setViewport viewport).2.remeasure = (viewport.check.isOk &&
      viewport.cross != l.viewport.cross && decide (0 < l.viewport.cross) || l.remeasure) := by
  unfold setViewport
  cases hcheck : viewport.check with
  | error e => rfl
  | ok u =>
    simp only [Except.isOk, Except.toBool, Bool.true_and]
    split
    · rename_i hchanged
      rw [hchanged, Bool.true_or]
    · rename_i hsame
      rw [Bool.eq_false_iff.2 hsame, Bool.false_or]

/-- Only requests for a viewport and passes touch what is remembered. -/
theorem Effect.remeasure_eq (h : Effect l r l') (hviewport : r.viewport? l = none)
    (hpass : r ≠ .reflow) : l'.remeasure = l.remeasure := by
  cases h with
  | viewport hr => rcases hr with rfl | ⟨main, rfl, -⟩ <;> cases hviewport
  | passed => exact absurd rfl hpass
  | _ => rfl

theorem respond_remeasure (hpass : r ≠ .reflow) (h : l.respond r = .ok (answer, l')) :
    l'.remeasure = (Exchange.resizesAcross ⟨l, r, answer⟩ || l.remeasure) := by
  unfold Exchange.resizesAcross
  cases hviewport : r.viewport? l with
  | none => simpa using (respond_effect h).remeasure_eq hviewport hpass
  | some viewport =>
    rw [respond_viewport hviewport h, remeasure_setViewport]
    rfl

/-- A pass hands on what was remembered. -/
theorem pass_remeasure {moved : α} {after : Layout α} (h : l.pass = .ok (moved, after)) :
    after.remeasure = l.remeasure := by
  obtain ⟨o, hopen, hcases⟩ := pass_cases h
  obtain ⟨_, -, rfl⟩ := opened_eq_ok hopen
  rcases hcases with ⟨-, -, rfl⟩ | ⟨-, c, hcourse, -, rfl⟩
  · rfl
  · obtain ⟨corrections, heq⟩ := hcourse.base_fields
    show c.base.remeasure = l.remeasure
    rw [heq]
    rfl

/-- What is remembered is whether the viewport changed across the scroll axis since the last
pass. -/
theorem Logged.remeasure_eq (h : Logged options l log) : l.remeasure = resizedAcross log := by
  induction h with
  | start h =>
    obtain ⟨_, -, h⟩ := bind_eq_ok.1 h
    cases h
    rfl
  | @step l l' log r answer _ _ h ih =>
    by_cases hpass : r = .reflow
    · subst hpass
      obtain ⟨⟨report, events, l₁⟩, hreflow, h⟩ := bind_eq_ok.1 h
      cases h
      obtain ⟨moved, after, -, -, -, rfl⟩ := reflow_cases hreflow
      rfl
    · have hnot : Exchange.isPass ⟨l, r, answer⟩ = false := by
        cases r <;> first | rfl | exact absurd rfl hpass
      rw [respond_remeasure hpass h, ih]
      simp [resizedAcross, hnot]

/-- A pass asks to measure again iff it was remembered. -/
theorem reflow_remeasure {report : PassReport α} {events : List (LayoutEvent α)}
    (h : l.reflow = .ok (report, events, l')) :
    (∃ change, .windowChanged change ∈ events ∧ change.remeasure = true) ↔ l.remeasure = true := by
  obtain ⟨moved, after, hpass, -, rfl, -⟩ := reflow_cases h
  rw [pass_remeasure hpass]
  constructor
  · rintro ⟨change, hmem, hchange⟩
    -- The only event of this kind announces the window after the pass.
    rcases mem_events.1 hmem with ⟨-, heq⟩ | ⟨-, heq⟩ | ⟨-, heq⟩ | ⟨-, heq⟩ <;> cases heq
    exact hchange
  · intro hremeasure
    exact ⟨after.windowChange l.remeasure,
      mem_events.2 (Or.inl ⟨Or.inr (Or.inr hremeasure), rfl⟩), hremeasure⟩

/-- Without a pass no announcement asks to measure again. -/
theorem refreshVisible_remeasure {change : WindowChange} (h : l.refreshVisible.1 = some change) :
    change.remeasure = false := by
  rcases l.refreshVisible_cases with heq | ⟨range, heq⟩ <;> rw [heq] at h <;> cases h
  rfl

/-- A host that keeps copies of what it is told has the window and the extent of the layout at all
times.  It is told to measure again by the first pass after a change across the scroll axis, and
only then. -/
theorem Logged.host_informed [PartialEquivBEq α] (h : Logged options l log) :
    (Host.after options log).Knows l ∧
    (∀ report events l', l.reflow = .ok (report, events, l') →
      ((∃ change, .windowChanged change ∈ events ∧ change.remeasure = true) ↔
        resizedAcross log = true)) ∧
    ∀ change, l.refreshVisible.1 = some change → change.remeasure = false := by
  refine ⟨?_, fun report events l' hreflow => ?_, fun change => refreshVisible_remeasure⟩
  · induction h with
    | start h =>
      obtain ⟨_, -, h⟩ := bind_eq_ok.1 h
      cases h
      exact ⟨rfl, rfl, .refl _, .refl _⟩
    | step _ _ h ih => exact (respond_tells h).knows ih
  · rw [reflow_remeasure hreflow, h.remeasure_eq]

/-- The viewport becomes wider, then shorter, and the next pass has everything measured again. -/
theorem Logged.host_informed_of_wider : ∃ (options : Options Rat) (l l' : Layout Rat)
    (log : List (Exchange Rat)) (report : PassReport Rat) (events : List (LayoutEvent Rat)),
    Logged options l log ∧ l.reflow = .ok (report, events, l') ∧ l.published ≠ [] ∧
      (Host.after options log).Knows l ∧ resizedAcross log = true ∧
      ∃ change, .windowChanged change ∈ events ∧ change.remeasure = true := by
  obtain ⟨l, hl, htest⟩ := Reachable.exists_of_any (α := Rat)
    ⟨10, 5, 2, .vertical, true, 1⟩
    [.setTotal 6, .setViewport ⟨20, 30⟩, .moveTo 15, .reflow,
      .recordAll ((List.range 3).map fun i => (i, ⟨12, none, ⟨1, 2⟩⟩)), .reflow, .moveTo 20,
      .refreshVisible, .setViewport ⟨20, 40⟩, .setViewportMain 15]
    (fun l : Layout Rat => decide (l.published ≠ [] ∧ l.remeasure = true) &&
      l.reflow.toOption.any fun _ => true)
    (by simp [Request.Representable, Index.limit]) (by decide +kernel)
  simp only [Bool.and_eq_true, decide_eq_true_eq] at htest
  obtain ⟨⟨hitems, hremeasure⟩, htest⟩ := htest
  obtain ⟨⟨report, events, l'⟩, hreflow, -⟩ := exists_ok_of_any htest
  obtain ⟨options, log, hlog⟩ := hl.exists_log
  obtain ⟨hknows, hpass, -⟩ := hlog.host_informed
  have hresized : resizedAcross log = true := hlog.remeasure_eq.symm.trans hremeasure
  exact ⟨options, l, l', log, report, events, hlog, hreflow, hitems, hknows, hresized,
    (hpass report events l' hreflow).2 hresized⟩

end VirtualList.Layout
