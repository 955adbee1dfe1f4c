import VirtualList.Proofs.Layout.Course

/-!
# Consistency of a layout

What a layout shows of itself hangs together in every state that a run can lead to: the published
items are exactly those of the window, the visible part lies in it, and the anchor is one of them
and lies where it was published.  Right after a pass the window lies within the list, and a stable
pass leaves nothing over from earlier ones.

Nothing is assumed of the arithmetic: the window is built by index, and no comparison of positions
can take it apart.

## Key results

- `Consistent`, `Consistent.effect`: every request keeps a layout consistent
- `FreshlyLaidOut`, `reflow_freshlyLaidOut`: what holds in addition right after a pass
- `Reachable.consistent`: the layout is consistent in every state of a run
-/

namespace VirtualList.Layout

variable {α : Type} [Scalar α]

/-- The parts of a layout that describe its window agree with each other. -/
structure Consistent (l : Layout α) : Prop where
  /-- There is a window iff there are published items. -/
  range_eq_none_iff : l.range = none ↔ l.published = []
  /-- The published items are those of the window, each under its own index. -/
  published_eq : ∀ r, l.range = some r → l.published.map PlacedItem.index = r.indices
  /-- The visible part lies in the window. -/
  ordered : ∀ r, l.range = some r →
    r.first ≤ r.firstVisible ∧ r.firstVisible ≤ r.lastVisible ∧ r.lastVisible ≤ r.last
  /-- The anchor is an item of the window and lies where it was published. -/
  anchor_placed : ∀ a, l.anchor = some a → ∃ r, l.range = some r ∧ r.contains a.index = true ∧
    ∃ item, l.item? a.index = some item ∧ item.position = a.position
  /-- The last stable window is a run of neighbours. -/
  settled_consecutive : ∃ first, Consecutive l.settled first

/-- What a pass leaves behind, whatever was there before. -/
structure FreshlyLaidOut (l : Layout α) : Prop where
  /-- There is a window iff there are items and the viewport is not empty. -/
  range_eq_none_iff : l.range = none ↔ l.IsBlank
  /-- The window ends within the list. -/
  last_lt : ∀ r, l.range = some r → r.last < l.total
  /-- A stable window is the last stable window. -/
  settled_eq : l.stable = true → l.settled = l.published
  /-- After a stable pass no anchor waits for the next one. -/
  retained_eq : l.stable = true → l.retained = none
  /-- A stable pass is done with the pinned item, unless there is no viewport to bring it into. -/
  pin_eq : l.stable = true → l.pin = none ∨ (l.viewport.main == 0) = true
  /-- A list without items has no item to bring into view. -/
  pin_eq_of_empty : l.total = 0 → l.pin = none
  /-- After a stable pass no growth is left to correct for. -/
  corrections_eq : l.stable = true → l.corrections = ∅

/-! ## A pass -/

omit [Scalar α] in
/-- A layout without a window is consistent if nothing is left over from one. -/
theorem consistent_of_range_eq_none {l : Layout α} (hrange : l.range = none)
    (hpublished : l.published = []) (hanchor : l.anchor = none) (hsettled : l.settled = []) :
    l.Consistent where
  range_eq_none_iff := ⟨fun _ => hpublished, fun _ => hrange⟩
  published_eq r hr := by
    rw [hrange] at hr
    cases hr
  ordered r hr := by
    rw [hrange] at hr
    cases hr
  anchor_placed a ha := by
    rw [hanchor] at ha
    cases ha
  settled_consecutive := by
    rw [hsettled]
    exact ⟨0, .nil 0⟩

theorem publishNothing_freshlyLaidOut {l : Layout α} (h : l.IsBlank) :
    l.publishNothing.FreshlyLaidOut where
  range_eq_none_iff := ⟨fun _ => h, fun _ => rfl⟩
  last_lt _ h := by cases h
  settled_eq _ := rfl
  retained_eq _ := rfl
  pin_eq _ := by
    -- With a list but without a viewport the item stays pinned.
    rcases h with htotal | hmain
    · exact Or.inl (if_pos htotal)
    · exact Or.inr hmain
  pin_eq_of_empty htotal := if_pos htotal
  corrections_eq _ := rfl

namespace Takes

variable {l o : Layout α} {c : Course α}

/-- The items of a window are neighbours in their places, too. -/
theorem items_consecutive (hopen : l.opened = .ok o) (h : o.Takes c) :
    Consecutive c.items c.strip.first :=
  (h.spans hopen).consecutive.map fun _ => rfl

/-- The items in their places are those of the window. -/
theorem items_indices (hopen : l.opened = .ok o) (h : o.Takes c) :
    c.items.map PlacedItem.index = List.range' c.strip.first (c.strip.last + 1 - c.strip.first) := by
  have hlen : c.items.length = c.strip.last + 1 - c.strip.first := by
    have hcount := (h.spans hopen).length_eq
    rw [Course.items, List.length_map]
    omega
  rw [h.items_consecutive hopen, hlen]

/-- The anchor is among the items in their places. -/
theorem anchor_mem (hopen : l.opened = .ok o) (h : o.Takes c) :
    c.footing.item.shift c.offset ∈ c.items :=
  List.mem_map_of_mem (h.spans hopen).mem

/-- The anchor is found in its place. -/
theorem item?_anchor (hopen : l.opened = .ok o) (h : o.Takes c) :
    c.outcome.item? c.footing.anchor.index = some (c.footing.item.shift c.offset) :=
  (h.items_consecutive hopen).find?_eq (h.anchor_mem hopen)

/-- What was left of the last stable window when the pass began is still a run of neighbours. -/
theorem base_settled_consecutive (hopen : l.opened = .ok o) (h : o.Takes c)
    (hl : ∃ first, Consecutive l.settled first) : ∃ first, Consecutive c.base.settled first := by
  obtain ⟨first, hsettled⟩ := hl
  obtain ⟨corrections, hbase⟩ := h.base_fields
  obtain ⟨scrollSize, -, rfl⟩ := opened_eq_ok hopen
  rw [hbase]
  exact ⟨first, hsettled.filter_lt l.total⟩

theorem outcome_consistent (hopen : l.opened = .ok o) (h : o.Takes c)
    (hl : ∃ first, Consecutive l.settled first) : c.outcome.Consistent where
  range_eq_none_iff := by
    -- A window holds at least its anchor.
    have hne : c.items ≠ [] := List.ne_nil_of_mem (h.anchor_mem hopen)
    constructor
    · intro hnone
      cases hnone
    · intro hempty
      exact absurd hempty hne
  published_eq r hr := by
    cases hr
    exact h.items_indices hopen
  ordered r hr := by
    cases hr
    -- The visible ends are items of the window, so their indices are within its bounds.
    have hspan := h.spans hopen
    have hcons := h.items_consecutive hopen
    obtain ⟨hx, hy, hle⟩ := visibleEnds_mem hcons h.visible
    have hfirst := (hcons.index_bounds hx).1
    have hlast := (hcons.index_bounds hy).2
    have hlen := hspan.length_eq
    rw [Course.items, List.length_map] at hlast
    refine ⟨hfirst, hle, ?_⟩
    show c.lastVisible.index ≤ c.strip.last
    omega
  anchor_placed a ha := by
    cases ha
    have hspan := h.spans hopen
    refine ⟨_, rfl, ?_, _, h.item?_anchor hopen, rfl⟩
    simp only [WindowRange.contains, decide_eq_true_eq]
    exact ⟨hspan.first_le, hspan.le_last⟩
  settled_consecutive := by
    by_cases hstable : c.strip.stable = true
    · refine ⟨c.strip.first, ?_⟩
      simp only [Course.outcome, if_pos hstable]
      exact h.items_consecutive hopen
    · -- An unstable pass keeps what the list still holds of the last stable window.
      simp only [Course.outcome, if_neg hstable]
      exact h.base_settled_consecutive hopen hl

theorem outcome_freshlyLaidOut (hopen : l.opened = .ok o) (hfull : ¬o.IsBlank) (h : o.Takes c) :
    c.outcome.FreshlyLaidOut where
  range_eq_none_iff := by
    -- A pass changes neither the list nor the viewport.
    have hsame : c.outcome.IsBlank ↔ o.IsBlank := by
      show c.base.total = 0 ∨ (c.base.viewport.main == 0) = true ↔ o.IsBlank
      rw [h.base_total, h.base_viewport]
      exact Iff.rfl
    rw [hsame]
    constructor
    · intro hnone
      cases hnone
    · intro hblank
      exact absurd hblank hfull
  last_lt r hr := by
    cases hr
    have hle := (h.spans hopen).last_le
    have hpos := h.pos_total
    rw [← h.base_total] at hpos
    show c.strip.last < c.base.total
    omega
  settled_eq hstable := if_pos hstable
  retained_eq hstable := if_pos hstable
  pin_eq hstable := Or.inl (if_pos hstable)
  pin_eq_of_empty htotal := by
    have hpos := h.pos_total
    rw [← h.base_total] at hpos
    exact absurd htotal (Nat.ne_of_gt hpos)
  corrections_eq hstable := if_pos hstable

end Takes

/-- After a pass everything hangs together. -/
theorem reflow_consistent {l l' : Layout α} {report : PassReport α}
    {events : List (LayoutEvent α)} (h : l.reflow = .ok (report, events, l'))
    (hl : ∃ first, Consecutive l.settled first) : l'.Consistent := by
  obtain ⟨moved, after, hpass, -, -, rfl⟩ := reflow_cases h
  -- That sizes need not be measured again is no part of the window.
  have hafter : after.Consistent := by
    obtain ⟨o, hopen, ⟨-, -, rfl⟩ | ⟨-, c, hcourse, -, rfl⟩⟩ := pass_cases hpass
    · exact consistent_of_range_eq_none rfl rfl rfl rfl
    · exact hcourse.outcome_consistent hopen hl
  exact ⟨hafter.range_eq_none_iff, hafter.published_eq, hafter.ordered, hafter.anchor_placed,
    hafter.settled_consecutive⟩

/-- A pass leaves a window that is up to date, whatever was there before. -/
theorem reflow_freshlyLaidOut {l l' : Layout α} {report : PassReport α}
    {events : List (LayoutEvent α)} (h : l.reflow = .ok (report, events, l')) :
    l'.FreshlyLaidOut := by
  obtain ⟨moved, after, hpass, -, -, rfl⟩ := reflow_cases h
  have hafter : after.FreshlyLaidOut := by
    obtain ⟨o, hopen, ⟨hblank, -, rfl⟩ | ⟨hfull, c, hcourse, -, rfl⟩⟩ := pass_cases hpass
    · exact publishNothing_freshlyLaidOut hblank
    · exact hcourse.outcome_freshlyLaidOut hopen hfull
  exact ⟨hafter.range_eq_none_iff, hafter.last_lt, hafter.settled_eq, hafter.retained_eq,
    hafter.pin_eq, hafter.pin_eq_of_empty, hafter.corrections_eq⟩

/-! ## Other requests -/

theorem ofOptions_consistent {options : Options α} {l : Layout α}
    (h : ofOptions options = .ok l) : l.Consistent := by
  obtain ⟨-, -, h⟩ := bind_eq_ok.1 h
  cases h
  exact consistent_of_range_eq_none rfl rfl rfl rfl

namespace Consistent

variable {l l' : Layout α}

omit [Scalar α] in
/-- The published items are neighbours from the start of the window on. -/
theorem published_consecutive (hl : l.Consistent) {r : WindowRange} (hr : l.range = some r) :
    Consecutive l.published r.first ∧ r.first + l.published.length = r.last + 1 := by
  have heq := hl.published_eq r hr
  obtain ⟨h₁, h₂, h₃⟩ := hl.ordered r hr
  have hlen : l.published.length = r.last + 1 - r.first := by
    rw [← List.length_map (f := PlacedItem.index), heq, WindowRange.indices, List.length_range']
  constructor
  · unfold Consecutive
    rw [heq, WindowRange.indices, hlen]
  · omega

omit [Scalar α] in
/-- A published item is in the window. -/
theorem mem_range (hl : l.Consistent) {item : PlacedItem α} (hitem : item ∈ l.published) :
    ∃ r, l.range = some r ∧ r.contains item.index = true := by
  cases hr : l.range with
  | none =>
    rw [hl.range_eq_none_iff.1 hr] at hitem
    cases hitem
  | some r =>
    obtain ⟨hcons, hlen⟩ := hl.published_consecutive hr
    obtain ⟨hfirst, hlast⟩ := hcons.index_bounds hitem
    refine ⟨r, rfl, ?_⟩
    simp only [WindowRange.contains, decide_eq_true_eq]
    omega

omit [Scalar α] in
/-- No two published items have the same index. -/
theorem nodup_index (hl : l.Consistent) : (l.published.map PlacedItem.index).Nodup := by
  cases hr : l.range with
  | none => simp [hl.range_eq_none_iff.1 hr]
  | some r =>
    rw [hl.published_eq r hr]
    exact List.nodup_range'

/-- Right after a pass a published item is in the list and in the window. -/
theorem index_lt (hl : l.Consistent) (hfresh : l.FreshlyLaidOut) {item : PlacedItem α}
    (hitem : item ∈ l.published) :
    item.index < l.total ∧ l.range.any (·.contains item.index) = true := by
  obtain ⟨r, hr, hcontains⟩ := hl.mem_range hitem
  have hlast := hfresh.last_lt r hr
  rw [hr]
  refine ⟨?_, hcontains⟩
  simp only [WindowRange.contains, decide_eq_true_eq] at hcontains
  omega

omit [Scalar α] in
/-- Whoever keeps the window keeps it consistent. -/
theorem keepsWindow (hl : l.Consistent) (h : KeepsWindow l l') : l'.Consistent where
  range_eq_none_iff := by
    rw [h.range, h.published]
    exact hl.range_eq_none_iff
  published_eq r hr := by
    rw [h.range] at hr
    rw [h.published]
    exact hl.published_eq r hr
  ordered r hr := by
    rw [h.range] at hr
    exact hl.ordered r hr
  anchor_placed a ha := by
    -- An anchor that was forgotten asks for nothing.
    rcases h.anchor with heq | hnone
    · rw [heq] at ha
      obtain ⟨r, hr, hin, item, hitem, hposition⟩ := hl.anchor_placed a ha
      refine ⟨r, ?_, hin, item, ?_, hposition⟩
      · rw [h.range, hr]
      · rw [item?, h.published]
        exact hitem
    · rw [hnone] at ha
      cases ha
  settled_consecutive := by
    rcases h.settled with heq | hempty
    · rw [heq]
      exact hl.settled_consecutive
    · rw [hempty]
      exact ⟨0, .nil 0⟩

/-- The visible part moves within the window. -/
theorem refreshVisible (hl : l.Consistent) : l.refreshVisible.2.Consistent := by
  unfold Layout.refreshVisible
  split
  · rename_i range first last hrange hends
    simp only
    split
    · exact hl
    · -- Only the visible part is new, and its ends are items of the window.
      obtain ⟨hcons, hlen⟩ := hl.published_consecutive hrange
      obtain ⟨hx, hy, hle⟩ := visibleEnds_mem hcons hends
      have hfirst := (hcons.index_bounds hx).1
      have hlast := (hcons.index_bounds hy).2
      have hne : l.published ≠ [] := List.ne_nil_of_mem hx
      refine ⟨?_, ?_, ?_, ?_, hl.settled_consecutive⟩
      · constructor
        · intro hnone
          cases hnone
        · intro hempty
          exact absurd hempty hne
      · intro r hr
        cases hr
        exact hl.published_eq range hrange
      · intro r hr
        cases hr
        refine ⟨hfirst, hle, ?_⟩
        show last.index ≤ range.last
        omega
      · intro a ha
        obtain ⟨r, hr, hin, hitem⟩ := hl.anchor_placed a ha
        obtain rfl : range = r := Option.some.inj (hrange.symm.trans hr)
        exact ⟨_, rfl, hin, hitem⟩
  · exact hl

/-- Every request keeps a layout consistent. -/
theorem effect {r : Request α} (hl : l.Consistent) (h : Effect l r l') : l'.Consistent := by
  -- Only two requests touch the window: a search for its visible part, and a pass.
  by_cases hvisible : r = .refreshVisible
  · subst hvisible
    cases h with
    | unchanged => exact hl
    | viewport hr => simp at hr
    | measured hr => simp at hr
    | visible heq =>
      rw [← heq]
      exact hl.refreshVisible
  by_cases hpass : r = .reflow
  · subst hpass
    cases h with
    | unchanged => exact hl
    | viewport hr => simp at hr
    | measured hr => simp at hr
    | passed hreflow => exact reflow_consistent hreflow hl.settled_consecutive
  · exact hl.keepsWindow (h.keepsWindow hvisible hpass)

end Consistent

theorem Reachable.consistent {l : Layout α} (h : Reachable l) : l.Consistent := by
  induction h with
  | start h => exact ofOptions_consistent h
  | step _ _ h ih => exact ih.effect (respond_effect h)

/-- In every state that a run can lead to the layout is consistent, and a pass that is run there
leaves a window that is up to date. -/
theorem Reachable.window_invariant {l : Layout α} (h : Reachable l) :
    l.Consistent ∧ ∀ report events l', l.reflow = .ok (report, events, l') →
      l'.Consistent ∧ l'.FreshlyLaidOut := by
  refine ⟨h.consistent, fun report events l' hreflow => ?_⟩
  exact ⟨reflow_consistent hreflow h.consistent.settled_consecutive,
    reflow_freshlyLaidOut hreflow⟩

/-- Three items, of which the second is measured after the first pass: the next one is not
stable. -/
theorem Reachable.window_invariant_of_threeItems : ∃ (l l' : Layout Rat) (report : PassReport Rat)
    (events : List (LayoutEvent Rat)), Reachable l ∧ l.reflow = .ok (report, events, l') ∧
      report.stable = false ∧ l.Consistent ∧ l'.Consistent ∧ l'.FreshlyLaidOut := by
  obtain ⟨l, hl, htest⟩ := Reachable.exists_of_any
    ⟨10, 5, 0, .vertical, true, 1⟩
    [.setTotal 3, .setViewport ⟨20, 30⟩, .reflow, .record 1 ⟨7, none, ⟨1, 2⟩⟩]
    (fun l : Layout Rat => l.reflow.toOption.any fun passed => !passed.1.stable)
    (by simp [Request.Representable, Index.limit]) (by decide +kernel)
  obtain ⟨⟨report, events, l'⟩, hreflow, hstable⟩ := exists_ok_of_any htest
  obtain ⟨hnow, hnext⟩ := hl.window_invariant
  exact ⟨l, l', report, events, hl, hreflow, by simpa using hstable, hnow,
    hnext report events l' hreflow⟩

end VirtualList.Layout
