import Mathlib.Tactic.Linarith
import VirtualList.Proofs.Layout.Course

/-!
# Every movement is booked

A pass moves the scroll position in several places: to where a pinned item is wanted, back into the
extent, towards an anchor out of reach, along with the window, and to the alignment of the pinned
item.  Each of them is booked, so in exact arithmetic the distance that a pass reports is the one
by which it moved the scroll position, whatever layout it began with.

## Key results

- `ScrollTrack.Books`: what has been booked leads from where the pass began to where it is
- `Takes.books`: the movements of a pass with a window are booked
- `reflow_scrollError`: the distance reported is the distance moved
- `events_distances`: the host is told of it once, unless it is zero
-/

namespace VirtualList

/-! ## Booked movements -/

namespace ScrollTrack

/-- What has been booked is the distance from `origin` to the position. -/
def Books (t : ScrollTrack Rat) (origin : Rat) : Prop := t.moved = t.position - origin

theorem books_startingAt (origin : Rat) : (startingAt origin).Books origin := (sub_self origin).symm

variable {t : ScrollTrack Rat} {origin : Rat}

theorem Books.moveTo (h : t.Books origin) (position : Rat) : (t.moveTo position).Books origin := by
  unfold Books at *
  show t.moved + (position - t.position) = position - origin
  linarith

theorem Books.shift (h : t.Books origin) (distance : Rat) : (t.shift distance).Books origin := by
  unfold Books at *
  show t.moved + distance = t.position + distance - origin
  linarith

end ScrollTrack

/-- The distance by which an event has the host move its scroll position. -/
def LayoutEvent.distance? {α : Type} : LayoutEvent α → Option α
  | .scrollMoved distance => some distance
  | _ => none

namespace Layout

/-- The events of a pass tell the host of a movement at most once, and of none that is zero. -/
theorem events_distances {α : Type} [Scalar α] (before after : Layout α) (remeasure : Bool)
    (moved : α) : (events before after remeasure moved).filterMap LayoutEvent.distance? =
      if moved != 0 then [moved] else [] := by
  have hone (c : Prop) [Decidable c] (event : LayoutEvent α) :
      (if c then [event] else []).filterMap LayoutEvent.distance? =
        if c then event.distance?.toList else [] := by
    split
    · cases event <;> rfl
    · rfl
  simp only [events, List.filterMap_append, hone]
  simp [LayoutEvent.distance?]

/-! ## The movements of a pass -/

variable {l o l' : Layout Rat} {c : Course Rat} {scroll : ScrollTrack Rat}

/-- A position held within the extent is booked. -/
theorem clampedScroll_books (h : l.clampedScroll = .ok scroll) : scroll.Books l.scrollPosition := by
  obtain ⟨clamped, -, h⟩ := bind_eq_ok.1 h
  have hstart := ScrollTrack.books_startingAt l.scrollPosition
  simp only at h
  split at h
  · cases h
    exact hstart
  · cases h
    exact hstart.moveTo clamped

/-- So is the position at which a pinned item is wanted. -/
theorem pinnedAnchor_books {t : ScrollTarget} {a : Anchor Rat}
    (h : l.pinnedAnchor t = .ok (a, scroll)) : scroll.Books l.scrollPosition := by
  simp only [pinnedAnchor, bind_eq_ok] at h
  obtain ⟨final, -, wanted, -, position, -, h⟩ := h
  cases h
  exact (ScrollTrack.books_startingAt l.scrollPosition).moveTo wanted

/-- Whatever the choice of an anchor moves is booked. -/
theorem chooseAnchor_books {a : Anchor Rat} {source : AnchorSource}
    (h : l.chooseAnchor = .ok (a, source, scroll)) : scroll.Books l.scrollPosition := by
  rcases chooseAnchor_cases h with ⟨t, -, -, hpinned⟩ | ⟨-, hclamped, -⟩
  · exact pinnedAnchor_books hpinned
  · exact clampedScroll_books hclamped

/-- The alignment of a pinned item is booked on top of what was booked before. -/
theorem realigned_books {source : AnchorSource} {a : Anchor Rat} {size origin : Rat}
    {scroll' : ScrollTrack Rat} (hscroll : scroll.Books origin)
    (h : l.realigned source a size scroll = .ok scroll') : scroll'.Books origin := by
  cases source with
  | pinned align =>
    obtain ⟨aligned, -, h⟩ := bind_eq_ok.1 h
    cases h
    exact hscroll.moveTo aligned
  | _ =>
    cases h
    exact hscroll

/-- All movements of a pass with a window are booked. -/
theorem Takes.books (h : o.Takes c) : c.scroll.Books o.scrollPosition :=
  realigned_books (((chooseAnchor_books h.choose).shift c.drift).shift c.offset) h.realign

/-- The distance that a pass reports is the distance by which it moved the scroll position, and the
host is told of it once unless it is zero. -/
theorem reflow_scrollError {report : PassReport Rat} {events : List (LayoutEvent Rat)}
    (h : l.reflow = .ok (report, events, l')) :
    report.scrollError = l'.scrollPosition - l.scrollPosition ∧
      events.filterMap LayoutEvent.distance? =
        if report.scrollError = 0 then [] else [report.scrollError] := by
  obtain ⟨moved, after, hpass, rfl, rfl, rfl⟩ := reflow_cases h
  constructor
  · obtain ⟨o, hopen, hcases⟩ := pass_cases hpass
    obtain ⟨scrollSize, -, rfl⟩ := opened_eq_ok hopen
    rcases hcases with ⟨-, rfl, rfl⟩ | ⟨-, c, hcourse, rfl, rfl⟩
    · -- Without a window the position stays where it is, even outside the extent.
      exact (sub_self l.scrollPosition).symm
    · exact hcourse.books
  · rw [events_distances]
    simp

end Layout

end VirtualList
