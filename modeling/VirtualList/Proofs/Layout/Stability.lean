import VirtualList.Proofs.Layout.Consistency
import VirtualList.Proofs.Layout.Inputs

/-!
# When a pass is stable

Only measurements make a pass stable, and the items of its own window are all that it takes: the
spaces at the ends of the window, which it shares with items outside, are known as well by then.

## Key results

- `reflow_stable_iff`: a pass is stable iff every item of its window has been measured
- `Reachable.stable_iff_window_measured`: the same by index, with the spaces of such a window
-/

namespace VirtualList.Layout

variable {α : Type} [Scalar α]

omit [Scalar α] in
/-- What holds of all the items of a window holds of all its indices. -/
theorem forall_index_iff {items : List (PlacedItem α)} {first last : Nat}
    (h : items.map PlacedItem.index = List.range' first (last + 1 - first)) (P : Nat → Prop) :
    (∀ item ∈ items, P item.index) ↔ ∀ i, first ≤ i → i ≤ last → P i := by
  have hmem (i : Nat) : i ∈ items.map PlacedItem.index ↔ first ≤ i ∧ i ≤ last := by
    rw [h, List.mem_range'_1]
    omega
  constructor
  · intro hall i hfirst hlast
    obtain ⟨item, hitem, rfl⟩ := List.mem_map.1 ((hmem i).2 ⟨hfirst, hlast⟩)
    exact hall item hitem
  · intro hall item hitem
    obtain ⟨hfirst, hlast⟩ := (hmem item.index).1 (List.mem_map_of_mem hitem)
    exact hall item.index hfirst hlast

/-- A window is stable iff all of its items have been measured. -/
theorem Takes.stable_iff {l o : Layout α} {c : Course α} (hl : Reachable l)
    (hopen : l.opened = .ok o) (h : o.Takes c) :
    c.strip.stable = true ↔ ∀ item ∈ c.items, l.book.isMeasured item.index = true := by
  obtain ⟨-, -, -, hbase⟩ := h.base_inputs hopen
  have hsound : c.base.book.Sound := by
    rw [hbase]
    exact hl.book_sound
  rw [(h.spans hopen).stable_iff_isMeasured h.footing hsound (h.final_lt hl hopen), hbase]
  exact (forall_index_iff (h.items_indices hopen) fun i => l.book.isMeasured i = true).symm

/-- A pass is stable iff every item of its window has been measured. -/
theorem reflow_stable_iff {l l' : Layout α} {report : PassReport α}
    {events : List (LayoutEvent α)} (hl : Reachable l)
    (h : l.reflow = .ok (report, events, l')) :
    l'.stable = true ↔ ∀ item ∈ l'.published, l'.book.isMeasured item.index = true := by
  have hkept := (reflow_keepsInputs h).agrees.isMeasured_eq
  simp only [hkept]
  obtain ⟨moved, after, hpass, -, -, rfl⟩ := reflow_cases h
  obtain ⟨o, hopen, ⟨-, -, rfl⟩ | ⟨-, c, hcourse, -, rfl⟩⟩ := pass_cases hpass
  · -- A pass without a window is stable, and there is no item.
    simp [publishNothing]
  · exact hcourse.stable_iff hl hopen

/-- All the spaces of a measured window are measured: those between its items, and those at its two
ends, whatever lies beyond them. -/
theorem isMeasured_spaceBefore_of_window {l : Layout α} (hs : l.book.Sound) {first last k : Nat}
    (hlast : last < Index.limit)
    (hall : ∀ i, first ≤ i → i ≤ last → l.book.isMeasured i = true) (hfirst : first ≤ k)
    (hk : k ≤ last + 1) (hle : first ≤ last) : (l.spaceBefore k).isMeasured = true := by
  rcases Nat.lt_or_ge last k with hlt | hge
  · -- The space behind the last item.
    obtain rfl : k = last + 1 := by omega
    exact (measured_of_isMeasured hs hlast (hall last hle (Nat.le_refl _))).2.2
  · exact (measured_of_isMeasured hs (by omega) (hall k hfirst hge)).1.2

/-- A pass that publishes a window is stable iff every item of the window has been measured, before
the pass as well as after it.  Then every space that the window needs has been measured, too,
those at its ends included. -/
theorem Reachable.stable_iff_window_measured {l l' : Layout α} {report : PassReport α}
    {events : List (LayoutEvent α)} {r : WindowRange} (hl : Reachable l)
    (h : l.reflow = .ok (report, events, l')) (hrange : l'.range = some r) :
    report.stable = l'.stable ∧
      (∀ i, l'.book.isMeasured i = l.book.isMeasured i) ∧
      (l'.stable = true ↔ ∀ i, r.first ≤ i → i ≤ r.last → l'.book.isMeasured i = true) ∧
      ((∀ i, r.first ≤ i → i ≤ r.last → l'.book.isMeasured i = true) →
        ∀ k, r.first ≤ k → k ≤ r.last + 1 → (l'.spaceBefore k).isMeasured = true) := by
  have hl' := hl.reflow h
  have hconsistent := hl'.consistent
  refine ⟨?_, (reflow_keepsInputs h).agrees.isMeasured_eq, ?_, fun hall k hfirst hk => ?_⟩
  · obtain ⟨moved, after, -, rfl, -, rfl⟩ := reflow_cases h
    rfl
  · rw [reflow_stable_iff hl h]
    exact forall_index_iff (hconsistent.published_eq r hrange) fun i => l'.book.isMeasured i = true
  · obtain ⟨hle₁, hle₂, hle₃⟩ := hconsistent.ordered r hrange
    have hlt := (reflow_freshlyLaidOut h).last_lt r hrange
    have htotal := hl'.total_le
    exact isMeasured_spaceBefore_of_window hl'.book_sound (by omega) hall hfirst hk (by omega)

/-- Twenty items, of which three in the middle are measured. -/
def threeMeasured : List (Request Rat) :=
  [.setTotal 20, .setViewport ⟨20, 30⟩, .pinTo 6 .start, .reflow,
    .recordAll ((List.range' 6 3).map fun i => (i, ⟨12, none, ⟨-1, 2⟩⟩))]

/-- Twenty items, of which three have been measured: a window of these three is stable, with
unmeasured neighbours on either side.  Further down a window with an unmeasured item is not. -/
theorem Reachable.stable_iff_window_measured_of_middle :
    (∃ (l l' : Layout Rat) (report : PassReport Rat) (events : List (LayoutEvent Rat))
      (r : WindowRange), Reachable l ∧ l.reflow = .ok (report, events, l') ∧ l'.range = some r ∧
        0 < r.first ∧ l'.book.isMeasured (r.first - 1) = false ∧
        l'.book.isMeasured (r.last + 1) = false ∧ l'.stable = true ∧
        (∀ i, r.first ≤ i → i ≤ r.last → l'.book.isMeasured i = true) ∧
        (l'.spaceBefore r.first).isMeasured = true ∧
        (l'.spaceBefore (r.last + 1)).isMeasured = true) ∧
    ∃ (l l' : Layout Rat) (report : PassReport Rat) (events : List (LayoutEvent Rat))
      (r : WindowRange), Reachable l ∧ l.reflow = .ok (report, events, l') ∧ l'.range = some r ∧
        l'.stable = false ∧ ¬∀ i, r.first ≤ i → i ≤ r.last → l'.book.isMeasured i = true := by
  constructor
  · obtain ⟨l, l', report, events, hl, hreflow, htest⟩ := Reachable.exists_reflow_of_any
      ⟨10, 0, 2, .vertical, true, 1⟩ (threeMeasured ++ [.moveTo 87])
      (fun _ l' : Layout Rat => l'.stable && l'.range.any fun r : WindowRange =>
        decide (0 < r.first ∧ r.first ≤ r.last ∧ l'.book.isMeasured (r.first - 1) = false ∧
          l'.book.isMeasured (r.last + 1) = false))
      (by simp [threeMeasured, Request.Representable, Index.limit]) (by decide +kernel)
    simp only [Bool.and_eq_true, Option.any_eq_true, decide_eq_true_eq] at htest
    obtain ⟨hstable, r, hrange, hfirst, hle, hbefore, hbehind⟩ := htest
    obtain ⟨-, -, hiff, hspaces⟩ := hl.stable_iff_window_measured hreflow hrange
    have hall := hiff.1 hstable
    exact ⟨l, l', report, events, r, hl, hreflow, hrange, hfirst, hbefore, hbehind, hstable, hall,
      hspaces hall _ (Nat.le_refl _) (by omega), hspaces hall _ (by omega) (Nat.le_refl _)⟩
  · obtain ⟨l, l', report, events, hl, hreflow, htest⟩ := Reachable.exists_reflow_of_any
      ⟨10, 0, 2, .vertical, true, 1⟩ (threeMeasured ++ [.moveTo 100])
      (fun _ l' : Layout Rat => !l'.stable && l'.range.isSome)
      (by simp [threeMeasured, Request.Representable, Index.limit]) (by decide +kernel)
    simp only [Bool.and_eq_true, Bool.not_eq_true', Option.isSome_iff_exists] at htest
    obtain ⟨hstable, r, hrange⟩ := htest
    obtain ⟨-, -, hiff, -⟩ := hl.stable_iff_window_measured hreflow hrange
    refine ⟨l, l', report, events, r, hl, hreflow, hrange, hstable, ?_⟩
    rw [← hiff, hstable]
    exact Bool.false_ne_true

end VirtualList.Layout
