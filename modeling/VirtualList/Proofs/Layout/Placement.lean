import VirtualList.Proofs.Layout.Extent
import VirtualList.Proofs.Layout.Stability
import VirtualList.Proofs.Layout.Tiling

/-!
# A stable window lies in its place

Anchors, estimates, growth and pinned items move a window about, but a stable pass corrects all of
this in one step.  In exact arithmetic a stable window that holds the first item lies exactly where
the measured sizes and spaces put it, and any other one leaves room for the items in front of it.

## Key results

- `sub_extentError_eq_zero`, `sub_extentError_pos`: where the leading edge comes to lie
- `Takes.settled_position`: the items of a window that starts the list lie where the sizes and
  spaces in front of them add up to
- `Reachable.stable_window_in_place`: what a stable pass leaves behind
-/

namespace VirtualList.Layout

variable {l : Layout Rat}

/-! ## The leading edge -/

/-- Corrected by its error a window with the first item starts at zero. -/
theorem sub_extentError_eq_zero {s : Strip Rat} (hfirst : s.first = 0) (final : Nat)
    (lower upper : Rat) : lower - l.extentError final s lower upper = 0 := by
  simp [extentError, hfirst]

/-- Corrected by its error any other window starts behind zero, since there are items in front of
it. -/
theorem sub_extentError_pos {s : Strip Rat} (hfirst : 0 < s.first) (hstep : 0 < l.averageDelta)
    (final : Nat) (lower upper : Rat) : 0 < lower - l.extentError final s lower upper := by
  simp only [extentError, if_neg (Nat.ne_of_gt hfirst)]
  split
  · -- The window was too far in front: it is moved to where the averages put it.
    have hroom : (0 : Rat) < s.first := by exact_mod_cast hfirst
    have := mul_pos hroom hstep
    linarith
  · split
    · linarith
    · linarith

namespace Takes

variable {o : Layout Rat} {c : Course Rat}

/-- The items of a stable window that starts the list lie where the sizes and spaces in front of
them add up to. -/
theorem settled_position (hopen : l.opened = .ok o) (h : o.Takes c)
    (hstable : c.strip.stable = true) (hfirst : c.strip.first = 0) :
    ∀ item ∈ c.items, item.position =
      ∑ k ∈ Finset.range item.index, (c.outcome.book.sizeOf k).value +
        ∑ k ∈ Finset.range (item.index + 1), (c.outcome.spaceBefore k).value := by
  intro item hitem
  obtain ⟨growth, hedge⟩ := settled_lower hstable
  obtain ⟨hposition, -⟩ := h.items_tile hopen item hitem
  rw [hposition, hedge, sub_extentError_eq_zero hfirst, hfirst, placeFrom, itemsLength_zero,
    Finset.sum_range_succ]
  ring

/-- A stable window that starts the list holds the items in front of each of its items, all of them
measured. -/
theorem settled_isMeasured (hl : Reachable l) (hopen : l.opened = .ok o) (h : o.Takes c)
    (hstable : c.strip.stable = true) (hfirst : c.strip.first = 0) :
    ∀ item ∈ c.items, ∀ k ≤ item.index, c.outcome.book.isMeasured k = true := by
  intro item hitem k hk
  obtain ⟨other, hother, rfl⟩ : ∃ other ∈ c.items, other.index = k := by
    have hlast := List.mem_map_of_mem (f := PlacedItem.index) hitem
    rw [h.items_indices hopen, List.mem_range'_1] at hlast
    rw [← List.mem_map, h.items_indices hopen, List.mem_range'_1]
    omega
  obtain ⟨-, -, -, hbook⟩ := h.base_inputs hopen
  rw [(KeepsInputs.outcome c).agrees.isMeasured_eq, hbook]
  exact (h.stable_iff hl hopen).1 hstable other hother

end Takes

/-- After a stable pass that leaves a window, whatever was estimated, corrected or pinned before:

* the items of a window that starts the list lie where the measured sizes in front of them and the
  spaces up to their own add up to;
* any other window leaves room for the items in front of it, if the averages give them any;
* without negative margins the window with the space behind it ends within the extent. -/
theorem Reachable.stable_window_in_place {l' : Layout Rat} {report : PassReport Rat}
    {events : List (LayoutEvent Rat)} {r : WindowRange} (hl : Reachable l)
    (h : l.reflow = .ok (report, events, l')) (hstable : l'.stable = true)
    (hrange : l'.range = some r) :
    (r.first = 0 → ∀ item ∈ l'.published,
      (∀ k ≤ item.index, l'.book.isMeasured k = true) ∧
      item.position = ∑ k ∈ Finset.range item.index, (l'.book.sizeOf k).value +
        ∑ k ∈ Finset.range (item.index + 1), (l'.spaceBefore k).value) ∧
    (0 < r.first → 0 < l'.averageDelta → ∃ head, l'.item? r.first = some head ∧
      0 < head.position - (l'.spaceBefore r.first).value) ∧
    (l'.book.NonnegMargins → ∃ tail, l'.item? r.last = some tail ∧
      tail.finish + (l'.spaceBefore (r.last + 1)).value ≤ l'.scrollSize) := by
  have hl' : Reachable l' :=
    hl.step (r := .reflow) trivial (by simp only [respond, h]; rfl)
  obtain ⟨o, c, hopen, hcourse, rfl⟩ := reflow_takes_of_range (by simp [hrange]) h
  cases hrange
  have hkept := KeepsInputs.outcome c
  refine ⟨fun hfirst item hitem => ?_, fun hfirst hstep => ?_, fun hmargins => ?_⟩
  · exact ⟨hcourse.settled_isMeasured hl hopen hstable hfirst item hitem,
      hcourse.settled_position hopen hstable hfirst item hitem⟩
  · obtain ⟨head, hhead, hleading⟩ := hcourse.exists_head hopen
    obtain ⟨growth, hedge⟩ := settled_lower hstable
    refine ⟨head, hhead, ?_⟩
    have hstep' : 0 < c.base.averageDelta := by
      rw [← hkept.averageDelta_eq]
      exact hstep
    have hpos := sub_extentError_pos hfirst hstep' (c.base.total - 1) (c.strip.lower + growth)
      (c.strip.upper + growth)
    rw [← hedge, ← hleading] at hpos
    exact hpos
  · obtain ⟨tail, htail, htrailing⟩ := hcourse.exists_tail hopen
    refine ⟨tail, htail, ?_⟩
    -- Where no margin is negative after the pass none was before it.
    have hextents : c.outcome.NonnegExtents := (hl'.nonnegExtents hmargins).congr rfl rfl rfl
    have hbase := hextents.of_keepsInputs hkept
    have hle := le_extentFrom hbase hcourse.extent
    rw [← htrailing] at hle
    exact hle

/-- A window that moved to the start of the list after growth above it, and one in the middle of the
list, both of items with margins. -/
theorem Reachable.stable_window_in_place_of_corrected :
    (∃ (l l' : Layout Rat) (report : PassReport Rat) (events : List (LayoutEvent Rat))
      (r : WindowRange), Reachable l ∧ l.reflow = .ok (report, events, l') ∧ l'.stable = true ∧
        l'.range = some r ∧ r.first = 0 ∧ l'.scrollPosition ≠ l.scrollPosition ∧
        (∀ item ∈ l'.published, (∀ k ≤ item.index, l'.book.isMeasured k = true) ∧
          item.position = ∑ k ∈ Finset.range item.index, (l'.book.sizeOf k).value +
            ∑ k ∈ Finset.range (item.index + 1), (l'.spaceBefore k).value) ∧
        l'.book.NonnegMargins ∧ ∃ tail, l'.item? r.last = some tail ∧
          tail.finish + (l'.spaceBefore (r.last + 1)).value ≤ l'.scrollSize) ∧
    ∃ (l l' : Layout Rat) (report : PassReport Rat) (events : List (LayoutEvent Rat))
      (r : WindowRange), Reachable l ∧ l.reflow = .ok (report, events, l') ∧ l'.stable = true ∧
        l'.range = some r ∧ 0 < r.first ∧ 0 < l'.averageDelta ∧
        ∃ head, l'.item? r.first = some head ∧
          0 < head.position - (l'.spaceBefore r.first).value := by
  constructor
  · obtain ⟨l, l', report, events, hl, hreflow, htest⟩ := Reachable.exists_reflow_of_any (α := Rat)
      ⟨10, 5, 2, .vertical, true, 1⟩
      [.setTotal 6, .setViewport ⟨20, 30⟩, .moveTo 40, .reflow,
        .recordAll ([1, 2, 3, 4, 5].map fun i => (i, ⟨3 * (i : Nat), none, ⟨1, 2⟩⟩)), .reflow,
        .record 0 ⟨7, none, ⟨1, 2⟩⟩, .moveTo 8]
      (fun l l' : Layout Rat => l'.range.any fun r : WindowRange => decide (l'.stable = true ∧ r.first = 0 ∧
        l'.scrollPosition ≠ l.scrollPosition ∧ l'.book.NonnegMargins))
      (by simp [Request.Representable, Index.limit]) (by decide +kernel)
    obtain ⟨r, hrange, htest⟩ := Option.any_eq_true _ _ |>.1 htest
    simp only [decide_eq_true_eq] at htest
    obtain ⟨hstable, hfirst, hmoved, hmargins⟩ := htest
    obtain ⟨hplaced, -, hends⟩ := hl.stable_window_in_place hreflow hstable hrange
    exact ⟨l, l', report, events, r, hl, hreflow, hstable, hrange, hfirst, hmoved, hplaced hfirst,
      hmargins, hends hmargins⟩
  · obtain ⟨l, l', report, events, hl, hreflow, htest⟩ := Reachable.exists_reflow_of_any (α := Rat)
      ⟨10, 5, 2, .vertical, true, 1⟩
      [.setTotal 6, .setViewport ⟨20, 30⟩, .moveTo 40, .reflow,
        .recordAll ((List.range 6).map fun i => (i, ⟨10 + 3 * (i : Nat), none, ⟨1, 2⟩⟩))]
      (fun _ l' : Layout Rat => l'.range.any fun r : WindowRange => decide (l'.stable = true ∧ 0 < r.first ∧
        0 < l'.averageDelta))
      (by simp [Request.Representable, Index.limit]) (by decide +kernel)
    obtain ⟨r, hrange, htest⟩ := Option.any_eq_true _ _ |>.1 htest
    simp only [decide_eq_true_eq] at htest
    obtain ⟨hstable, hfirst, hstep⟩ := htest
    obtain ⟨-, hroom, -⟩ := hl.stable_window_in_place hreflow hstable hrange
    exact ⟨l, l', report, events, r, hl, hreflow, hstable, hrange, hfirst, hstep,
      hroom hfirst hstep⟩

end VirtualList.Layout
