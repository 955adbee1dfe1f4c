import VirtualList.Proofs.Layout.Coverage
import VirtualList.Proofs.Layout.ScrollTarget

/-!
# The scroll position and the extent

A pass holds the scroll position within the extent that was known before it.  What it then measures
out may be shorter, and the position moves along with the window; only for a pinned item is it held
within the new extent again.  So without a pinned item the position may end up outside, where the
window reaches the end of the list: never farther than the viewport and the overhang, and only
until the next pass.

## Key results

- `drift_meets`: the stretch to fill is moved until it meets the anchor
- `Takes.start_within`, `Takes.end_within`: a window that ends inside the list keeps the position in
- `Takes.in_reach`: how far outside the position can be
- `Reachable.scroll_in_bounds`: where a pass leaves the scroll position
- `Reachable.scroll_past_extent`: a shorter last item leaves it behind the extent
-/

namespace VirtualList

/-- A value confined to bounds lies between them. -/
theorem Scalar.clamp_bounds {x lo hi y : Rat} (h : clamp x lo hi = .ok y) : lo ≤ y ∧ y ≤ hi := by
  unfold clamp at h
  split at h
  · rename_i hle
    cases h
    rcases confine_cases x hle with ⟨hlo, hhi, heq⟩ | ⟨-, heq⟩ | ⟨-, heq⟩ <;> rw [heq]
    · exact ⟨hlo, hhi⟩
    · exact ⟨le_refl lo, hle⟩
    · exact ⟨hle, le_refl hi⟩
  · cases h

namespace Layout

variable {l l' o : Layout Rat} {c : Course Rat}

/-- A viewport that ends within the extent is scrolled to a valid position. -/
theorem le_maxScrollPosition (h : l.scrollPosition + l.viewport.main ≤ l.scrollSize) :
    l.scrollPosition ≤ l.maxScrollPosition := by
  have hmax := (Scalar.le_max (l.scrollSize - l.viewport.main) 0).1
  unfold LayoutState.maxScrollPosition
  linarith

/-- The valid positions end at zero, or where the viewport reaches the end of the extent. -/
theorem maxScrollPosition_le {x : Rat} (hzero : 0 ≤ x)
    (hend : l.scrollSize - l.viewport.main ≤ x) : l.maxScrollPosition ≤ x := by
  show (if _ then _ else _) ≤ x
  split
  · exact hzero
  · exact hend

/-- The extent is at least the configured bound. -/
theorem minScrollSize_le_extentFrom {final last : Nat} {upper scrollSize : Rat}
    (h : l.extentFrom final last upper = .ok scrollSize) :
    l.options.minScrollSize ≤ scrollSize := by
  obtain ⟨beyond, -, h⟩ := bind_eq_ok.1 h
  cases h
  exact (Scalar.le_max _ _).2

/-- The stretch to fill is moved until it meets the anchor. -/
theorem drift_meets {f : Footing Rat} {b : Bounds Rat} (hf : f.lower ≤ f.upper)
    (hb : b.lower ≤ b.upper) :
    b.lower + f.drift b ≤ f.upper ∧ f.lower ≤ b.upper + f.drift b := by
  unfold Footing.drift
  by_cases hbelow : f.upper < b.lower
  · rw [if_pos hbelow]
    constructor <;> linarith
  · rw [if_neg hbelow]
    by_cases habove : b.upper < f.lower
    · rw [if_pos habove]
      constructor <;> linarith
    · rw [if_neg habove]
      constructor <;> linarith

namespace Takes

/-- Where a pass without a pinned item starts from, and what can take it outside. -/
theorem chosenAt_bounds (h : o.Takes c) (hpin : o.pin = none) :
    Scalar.clamp o.scrollPosition 0 o.maxScrollPosition = .ok c.chosenAt.position := by
  rcases chooseAnchor_cases h.choose with ⟨t, ht, -⟩ | ⟨-, hclamped, -⟩
  · rw [hpin] at ht
    cases ht
  · exact clampedScroll_position hclamped

section Unpinned

variable (hopen : l.opened = .ok o) (h : o.Takes c) (hextents : o.NonnegExtents)
  (hoverhang : 0 ≤ l.options.overhang) (hsource : ∀ align, c.source ≠ .pinned align)

include hopen h hextents hoverhang hsource

/-- A stable window that does not start the list keeps the position behind the start. -/
theorem start_within (hstable : c.strip.stable = true) (hfirst : 0 < c.strip.first) :
    0 ≤ c.scroll.position := by
  have hbase : c.base.NonnegExtents := hextents.congr h.base_options h.base_total h.base_book
  have hcovers := (h.strip_covers hopen (Or.inl hstable)).1.resolve_left (by omega)
  obtain ⟨growth, heq⟩ := settled_lower hstable
  have hplace := sub_extentError_nonneg hbase (c.base.total - 1) c.strip (c.strip.lower + growth)
    (c.strip.upper + growth)
  rw [h.scroll_position_eq hsource]
  linarith

/-- A window that does not end the list keeps the position in front of the end. -/
theorem end_within (hgrows : c.base.GrowsOn c.strip.stable) (hlast : c.strip.last + 1 < l.total) :
    c.scroll.position ≤ c.outcome.maxScrollPosition := by
  have hbase : c.base.NonnegExtents := hextents.congr h.base_options h.base_total h.base_book
  have hcovers := (h.strip_covers hopen hgrows).2.resolve_left (by omega)
  have hend := le_extentFrom hbase h.extent
  obtain ⟨-, hviewport, -⟩ := h.base_inputs hopen
  have hview : c.outcome.viewport = l.viewport := hviewport
  apply le_maxScrollPosition (l := c.outcome)
  show c.scroll.position + c.outcome.viewport.main ≤ c.scrollSize
  rw [h.scroll_position_eq hsource, hview]
  linarith

/-- Wherever a stable window lies, the position is not farther outside the extent than the viewport
and the overhang reach: there is an item in reach, and it lies within the extent. -/
theorem in_reach (hmain : 0 ≤ l.viewport.main) (hstable : c.strip.stable = true) :
    -(l.viewport.main + l.options.overhang) ≤ c.scroll.position ∧
      c.scroll.position ≤ c.scrollSize + l.options.overhang := by
  have hbase : c.base.NonnegExtents := hextents.congr h.base_options h.base_total h.base_book
  obtain ⟨hoptions, hviewport, -⟩ := h.base_inputs hopen
  have hfooting := (footing_eq_ok h.footing).2
  have hlead : c.footing.lower ≤ c.footing.upper := by
    have hsize := hbase.size c.anchor.index
    have hlead := hbase.space c.anchor.index
    have htrail := hbase.space (c.anchor.index + 1)
    rw [hfooting, Footing.lower, Footing.upper]
    linarith
  have hmeets := drift_meets (b := c.base.boundsAt c.chosenAt.position) hlead (by
    simp only [boundsAt, hoptions, hviewport]
    linarith)
  obtain ⟨hlower, hupper⟩ := growWindow_edges hbase h.grow
  obtain ⟨growth, heq⟩ := settled_lower hstable
  have hplace := sub_extentError_nonneg hbase (c.base.total - 1) c.strip (c.strip.lower + growth)
    (c.strip.upper + growth)
  have hend := le_extentFrom hbase h.extent
  simp only [boundsAt, hoptions, hviewport] at hmeets
  rw [h.scroll_position_eq hsource, Course.drift]
  simp only [boundsAt, hoptions, hviewport]
  constructor <;> linarith [hmeets.1, hmeets.2]

end Unpinned

end Takes

/-- Where a pass that leaves a window leaves the scroll position, in every state of a run:

* a pinned item is brought into view within the extent;
* without one, the position is within the extent unless the pass moved it on after it was held
  within the extent known before, or the extent came out shorter than that;
* without negative margins, where the window does not reach the end of the list, the position does
  not reach past the extent there;
* and nowhere it is farther outside than the viewport and the overhang. -/
theorem Reachable.scroll_in_bounds {report : PassReport Rat} {events : List (LayoutEvent Rat)}
    {r : WindowRange} (hl : Reachable l) (h : l.reflow = .ok (report, events, l'))
    (hrange : l'.range = some r) :
    (l.pin.isSome = true → 0 ≤ l'.scrollPosition ∧ l'.scrollPosition ≤ l'.maxScrollPosition) ∧
    (l.pin = none → ∃ o position, l.opened = .ok o ∧
      Scalar.clamp l.scrollPosition 0 o.maxScrollPosition = .ok position ∧
      (position ≤ l'.scrollPosition → 0 ≤ l'.scrollPosition) ∧
      (l'.scrollPosition ≤ position → o.scrollSize ≤ l'.scrollSize →
        l'.scrollPosition ≤ l'.maxScrollPosition)) ∧
    (l.book.NonnegMargins →
      (l'.stable = true → 0 < r.first → 0 ≤ l'.scrollPosition) ∧
      (l'.stable = true ∨ l.options.estimate = true → r.last + 1 < l.total →
        l'.scrollPosition ≤ l'.maxScrollPosition) ∧
      (l'.stable = true → -(l.viewport.main + l.options.overhang) ≤ l'.scrollPosition ∧
        l'.scrollPosition ≤ l'.scrollSize + l.options.overhang)) := by
  obtain ⟨o, c, hopen, hcourse, rfl⟩ := reflow_takes_of_range (by simp [hrange]) h
  cases hrange
  obtain ⟨hoptions, hviewport, htotal, hbook, hpin⟩ := opened_inputs hopen
  have hview : c.outcome.viewport = l.viewport := hcourse.base_viewport.trans hviewport
  have haligned (t : ScrollTarget) (ht : l.pin = some t) :
      0 ≤ c.scroll.position ∧ c.scroll.position ≤ c.outcome.maxScrollPosition :=
    Scalar.clamp_bounds (hcourse.clamp_of_pin (hcourse.of_pin hopen ht).1)
  refine ⟨fun hsome => ?_, fun hnone => ?_, fun hmargins => ?_⟩
  · obtain ⟨t, ht⟩ := Option.isSome_iff_exists.1 hsome
    exact haligned t ht
  · have hstart := hcourse.chosenAt_bounds (hpin.trans hnone)
    obtain ⟨hlow, hhigh⟩ := Scalar.clamp_bounds hstart
    have hscrolled : o.scrollPosition = l.scrollPosition := by
      obtain ⟨_, -, rfl⟩ := opened_eq_ok hopen
      rfl
    rw [hscrolled] at hstart
    refine ⟨o, _, hopen, hstart, fun hle => hlow.trans hle, fun hle hgrown => ?_⟩
    -- A longer extent has more valid positions.
    show c.scroll.position ≤ c.outcome.maxScrollPosition
    have hmono : o.maxScrollPosition ≤ c.outcome.maxScrollPosition := by
      obtain ⟨hend, hzero⟩ := Scalar.le_max (c.scrollSize - c.outcome.viewport.main) 0
      change o.scrollSize ≤ c.scrollSize at hgrown
      apply maxScrollPosition_le hzero
      rw [hviewport, ← hview]
      exact le_trans (by linarith) hend
    change c.scroll.position ≤ c.chosenAt.position at hle
    linarith
  · have hextents : o.NonnegExtents :=
      (hl.nonnegExtents hmargins).congr hoptions htotal hbook
    have hoverhang := hl.overhang_nonneg
    have hmain := hl.viewport_main_nonneg
    cases ht : l.pin with
    | some t =>
      obtain ⟨hlow, hhigh⟩ := haligned t ht
      have hsize : 0 ≤ c.scrollSize := by
        have hmin := minScrollSize_le_extentFrom hcourse.extent
        rw [hcourse.base_options, hoptions] at hmin
        exact hl.minScrollSize_nonneg.trans hmin
      have hbehind : -(l.viewport.main + l.options.overhang) ≤ c.scroll.position := by linarith
      refine ⟨fun _ _ => hlow, fun _ _ => hhigh, fun _ => ⟨hbehind, hhigh.trans ?_⟩⟩
      apply maxScrollPosition_le
      · show 0 ≤ c.scrollSize + l.options.overhang
        linarith
      · show c.scrollSize - c.outcome.viewport.main ≤ c.scrollSize + l.options.overhang
        rw [hview]
        linarith
    | none =>
      have hsource := hcourse.source_ne_pinned hopen ht
      refine ⟨fun hstable hfirst => ?_, fun hgrows hlast => ?_, fun hstable => ?_⟩
      · exact hcourse.start_within hopen hextents hoverhang hsource hstable hfirst
      · have hgrowsOn : c.base.GrowsOn c.strip.stable := by
          rw [GrowsOn, hcourse.base_options, hoptions]
          exact hgrows
        exact hcourse.end_within hopen hextents hoverhang hsource hgrowsOn hlast
      · exact hcourse.in_reach hopen hextents hoverhang hsource hmain hstable

/-- A window in the middle of a list, laid out anew after one of its items became larger, and a
pass that brings the last item into view. -/
theorem Reachable.scroll_in_bounds_of_middle :
    (∃ (l l' : Layout Rat) (report : PassReport Rat) (events : List (LayoutEvent Rat))
      (r : WindowRange), Reachable l ∧ l.reflow = .ok (report, events, l') ∧ l'.range = some r ∧
        l.book.NonnegMargins ∧ l'.stable = true ∧ 0 < r.first ∧ r.last + 1 < l.total ∧
        l'.scrollSize < l.scrollSize ∧
        0 ≤ l'.scrollPosition ∧ l'.scrollPosition ≤ l'.maxScrollPosition) ∧
    ∃ (l l' : Layout Rat) (report : PassReport Rat) (events : List (LayoutEvent Rat))
      (r : WindowRange), Reachable l ∧ l.reflow = .ok (report, events, l') ∧ l'.range = some r ∧
        l.pin.isSome = true ∧ l'.scrollSize < l.scrollSize ∧
        0 ≤ l'.scrollPosition ∧ l'.scrollPosition ≤ l'.maxScrollPosition := by
  constructor
  · obtain ⟨l, l', report, events, hl, hreflow, htest⟩ := Reachable.exists_reflow_of_any (α := Rat)
      ⟨10, 5, 2, .vertical, true, 1⟩
      [.setTotal 20, .setViewport ⟨20, 30⟩, .moveTo 100, .reflow,
        .recordAll ((List.range 20).map fun i => (i, ⟨12, none, ⟨1, 2⟩⟩)), .reflow,
        .record 8 ⟨3, none, ⟨1, 2⟩⟩]
      (fun l l' : Layout Rat => decide (l.book.NonnegMargins ∧ l'.stable = true ∧
        l'.scrollSize < l.scrollSize) && l'.range.any fun r : WindowRange =>
          decide (0 < r.first ∧ r.last + 1 < l.total))
      (by simp [Request.Representable, Index.limit]) (by decide +kernel)
    simp only [Bool.and_eq_true, decide_eq_true_eq] at htest
    obtain ⟨⟨hmargins, hstable, hshorter⟩, htest⟩ := htest
    obtain ⟨r, hrange, htest⟩ := (Option.any_eq_true _ _).1 htest
    obtain ⟨hfirst, hlast⟩ := of_decide_eq_true htest
    obtain ⟨hstart, hend, -⟩ := (hl.scroll_in_bounds hreflow hrange).2.2 hmargins
    exact ⟨l, l', report, events, r, hl, hreflow, hrange, hmargins, hstable, hfirst, hlast,
      hshorter, hstart hstable hfirst, hend (Or.inl hstable) hlast⟩
  · obtain ⟨l, l', report, events, hl, hreflow, htest⟩ := Reachable.exists_reflow_of_any (α := Rat)
      ⟨10, 5, 2, .vertical, true, 1⟩
      [.setTotal 6, .setViewport ⟨20, 30⟩, .reflow,
        .recordAll ((List.range 6).map fun i => (i, ⟨3, none, ⟨1, 2⟩⟩)), .pinTo 5 .finish]
      (fun l l' : Layout Rat => decide (l.pin.isSome = true ∧ l'.scrollSize < l.scrollSize) &&
        l'.range.isSome)
      (by simp [Request.Representable, Index.limit]) (by decide +kernel)
    simp only [Bool.and_eq_true, decide_eq_true_eq] at htest
    obtain ⟨⟨hpin, hshorter⟩, htest⟩ := htest
    obtain ⟨r, hrange⟩ := Option.isSome_iff_exists.1 htest
    exact ⟨l, l', report, events, r, hl, hreflow, hrange, hpin, hshorter,
      (hl.scroll_in_bounds hreflow hrange).1 hpin⟩

/-- A list of four items, all of them measured, is scrolled to its end.  Then the last item turns
out shorter.  The pass that follows is stable and gives the list its new extent, but leaves the
scroll position where it was, behind the last valid one. -/
theorem Reachable.scroll_past_extent : ∃ (l₀ l l' : Layout Rat) (report : PassReport Rat)
    (events : List (LayoutEvent Rat)), ofOptions (Options.ofEstimateSize 10) = .ok l₀ ∧
      l₀.run [.setTotal 4, .setViewportMain 30, .moveTo 10, .reflow,
        .recordAll ((List.range 4).map fun i => (i, ⟨10, none, ⟨0, 0⟩⟩)), .reflow,
        .record 3 ⟨4, none, ⟨0, 0⟩⟩] = .ok l ∧
      Reachable l ∧ l.reflow = .ok (report, events, l') ∧ l'.range.isSome = true ∧
      l'.stable = true ∧ l'.scrollPosition = 10 ∧ l'.maxScrollPosition = 4 := by
  obtain ⟨l₀, l, l', report, events, hstart, hrun, hl, hreflow, htest⟩ :=
    Reachable.exists_run_of_any (α := Rat) (Options.ofEstimateSize 10)
      [.setTotal 4, .setViewportMain 30, .moveTo 10, .reflow,
        .recordAll ((List.range 4).map fun i => (i, ⟨10, none, ⟨0, 0⟩⟩)), .reflow,
        .record 3 ⟨4, none, ⟨0, 0⟩⟩]
      (fun _ l' => decide (l'.range.isSome = true ∧ l'.stable = true ∧ l'.scrollPosition = 10 ∧
        l'.maxScrollPosition = 4))
      (by simp [Request.Representable, Index.limit]) (by decide +kernel)
  exact ⟨l₀, l, l', report, events, hstart, hrun, hl, hreflow, of_decide_eq_true htest⟩

end Layout

end VirtualList
