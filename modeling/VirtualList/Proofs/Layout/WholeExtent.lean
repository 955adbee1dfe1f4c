import VirtualList.Proofs.Layout.Placement
import VirtualList.Proofs.SizeBook.Complete

/-!
# The extent of a fully measured list

Once every item has been measured, the extent that the averages give is no estimate any more: it is
the length of the items stacked one behind the other, with the margins between them and at both ends
and with the gaps.  A window that holds the whole list is as long, so that a pass reports just this
extent, or the least one configured.

All of this asks for a book without anything behind the end of the list.  Otherwise the margin
behind the last item collapses with a margin of an item that the list does not have.

## Key results

- `Reachable.spaceBefore_total`, `Reachable.spaceBefore_total_eq_iff`: what lies behind the last
  item, and when it is its own margin
- `Reachable.removed_margin_stays`: a removed item whose margin still makes the list longer
- `stackedExtent`, `averages_eq_stackedExtent`: the averages give the extent of the items
- `placeFrom_total`, `Takes.whole_upper`: a window that holds the whole list is as long
- `Reachable.extent_exact`: the extent that a pass reports
-/

namespace VirtualList.Layout

/-! ## Behind the last item -/

/-- Behind a measured last item lies what its margin collapses to with the one on record for an item
behind it, though the list has none. -/
theorem Reachable.spaceBefore_total {α : Type} [Scalar α] {l : Layout α} {m : Measurement α}
    (hl : Reachable l) (hpos : 0 < l.total) (hm : l.book.recorded? (l.total - 1) = some m) :
    l.spaceBefore l.total =
      .measured (Margins.collapse m.margins.after (l.book.leadingMargin l.total) + 0) := by
  have hlimit := hl.total_le
  have hmargin := hl.book_sound.marginBefore_succ (by omega) hm
  rw [Nat.sub_add_cancel hpos] at hmargin
  -- The end of the list is not between two items, so there is no gap.
  simp only [spaceBefore, hmargin, Nat.lt_irrefl, and_false, if_false]
  rfl

/-- In exact arithmetic this is the margin of the last item itself iff the other one lies between
zero and it. -/
theorem Reachable.spaceBefore_total_eq_iff {l : Layout Rat} {m : Measurement Rat} (hl : Reachable l)
    (hpos : 0 < l.total) (hm : l.book.recorded? (l.total - 1) = some m) :
    l.spaceBefore l.total = .measured m.margins.after ↔
      l.book.leadingMargin l.total ∈ Set.uIcc 0 m.margins.after := by
  rw [hl.spaceBefore_total hpos hm, add_zero, Size.measured.injEq, Margins.collapse_eq_left_iff]

/-- So it is where nothing is on record behind the last item. -/
theorem Reachable.spaceBefore_total_of_none {l : Layout Rat} {m : Measurement Rat}
    (hl : Reachable l) (hpos : 0 < l.total) (hm : l.book.recorded? (l.total - 1) = some m)
    (hnone : l.book.recorded? l.total = none) :
    l.spaceBefore l.total = .measured m.margins.after := by
  rw [hl.spaceBefore_total_eq_iff hpos hm, SizeBook.leadingMargin, hnone]
  exact Set.left_mem_uIcc

/-- Behind the last item, once it has been measured, lies what its own margin collapses to with the
one on record for an item behind it, though the list has none.  In exact arithmetic this is its own
margin iff the other one lies between zero and it, and so it is if nothing is on record there. -/
theorem Reachable.space_behind_last {α : Type} [Scalar α] {l : Layout α} {q : Layout Rat}
    {m : Measurement α} {w : Measurement Rat} (hl : Reachable l) (hq : Reachable q)
    (hpos : 0 < l.total) (hqpos : 0 < q.total) (hm : l.book.recorded? (l.total - 1) = some m)
    (hw : q.book.recorded? (q.total - 1) = some w) :
    l.spaceBefore l.total =
        .measured (Margins.collapse m.margins.after (l.book.leadingMargin l.total) + 0) ∧
      (q.spaceBefore q.total = .measured w.margins.after ↔
        q.book.leadingMargin q.total ∈ Set.uIcc 0 w.margins.after) ∧
      (q.book.recorded? q.total = none → q.spaceBefore q.total = .measured w.margins.after) :=
  ⟨hl.spaceBefore_total hpos hm, hq.spaceBefore_total_eq_iff hqpos hw,
    hq.spaceBefore_total_of_none hqpos hw⟩

/-- The third of three items has been removed.  Its margin is still on record, but it is smaller
than the one of the last item that is left. -/
theorem Reachable.space_behind_last_of_absorbed : ∃ l : Layout Rat, Reachable l ∧ 0 < l.total ∧
    l.book.recorded? (l.total - 1) = some ⟨10, none, ⟨0, 9⟩⟩ ∧ l.book.leadingMargin l.total = 7 ∧
      l.spaceBefore l.total = .measured 9 := by
  obtain ⟨l, hl, htest⟩ := Reachable.exists_of_any (Options.ofEstimateSize (10 : Rat))
    [.setTotal 3, .record 1 ⟨10, none, ⟨0, 9⟩⟩, .record 2 ⟨1, none, ⟨7, 0⟩⟩, .setTotal 2]
    (fun l : Layout Rat => decide (0 < l.total ∧
      l.book.recorded? (l.total - 1) = some ⟨10, none, ⟨0, 9⟩⟩ ∧
      l.book.leadingMargin l.total = 7))
    (by simp [Request.Representable, Index.limit]) (by decide +kernel)
  obtain ⟨hpos, hlast, hremoved⟩ := of_decide_eq_true htest
  obtain ⟨-, hiff, -⟩ := hl.space_behind_last hl hpos hpos hlast hlast
  refine ⟨l, hl, hpos, hlast, hremoved, hiff.2 ?_⟩
  rw [hremoved, Set.mem_uIcc]
  norm_num

/-- The third of three items has been removed, but its margin of seven is larger than that of the
last item that is left, which is one.  It is the removed margin that lies behind the last item, and
the list is longer by the difference: two sizes of ten and a margin of seven. -/
theorem Reachable.removed_margin_stays : ∃ (l₀ l l' : Layout Rat) (report : PassReport Rat)
    (events : List (LayoutEvent Rat)),
      ofOptions (Options.ofEstimateSize (10 : Rat)) = .ok l₀ ∧
      l₀.run [.setTotal 3, .setViewportMain 30, .record 0 ⟨10, none, ⟨0, 0⟩⟩,
        .record 1 ⟨10, none, ⟨0, 1⟩⟩, .record 2 ⟨1, none, ⟨7, 0⟩⟩, .setTotal 2] = .ok l ∧
      Reachable l ∧ l.total = 2 ∧ l.book.recorded? 1 = some ⟨10, none, ⟨0, 1⟩⟩ ∧
      l.spaceBefore 2 = .measured 7 ∧ l.reflow = .ok (report, events, l') ∧ l'.stable = true ∧
      l'.scrollSize = 27 := by
  obtain ⟨l₀, l, l', report, events, hstart, hrun, hl, hreflow, htest⟩ :=
    Reachable.exists_run_of_any (Options.ofEstimateSize (10 : Rat))
      [.setTotal 3, .setViewportMain 30, .record 0 ⟨10, none, ⟨0, 0⟩⟩,
        .record 1 ⟨10, none, ⟨0, 1⟩⟩, .record 2 ⟨1, none, ⟨7, 0⟩⟩, .setTotal 2]
      (fun l l' : Layout Rat => decide (l.total = 2 ∧
        l.book.recorded? 1 = some ⟨10, none, ⟨0, 1⟩⟩ ∧ l.spaceBefore 2 = .measured 7 ∧
        l'.stable = true ∧ l'.scrollSize = 27))
      (by simp [Request.Representable, Index.limit]) (by decide +kernel)
  obtain ⟨htotal, hlast, hspace, hstable, hsize⟩ := of_decide_eq_true htest
  exact ⟨l₀, l, l', report, events, hstart, hrun, hl, htotal, hlast, hspace, hreflow, hstable,
    hsize⟩

/-! ## The extent of the items -/

/-- The extent of a list of `n` items with the measurements `ms`: all sizes, all margins, and a gap
between any two neighbours. -/
def stackedExtent (gap : Rat) (ms : Nat → Measurement Rat) (n : Nat) : Rat :=
  ∑ i ∈ Finset.range n, (ms i).size + ∑ k ∈ Finset.range (n + 1), SizeBook.listMargin ms n k +
    ((n : Rat) - 1) * gap

variable {l l' o : Layout Rat} {c : Course Rat} {ms : Nat → Measurement Rat}

/-- The averages of a fully measured list give its extent: `n` sizes, `n + 1` margins, and `n - 1`
gaps. -/
theorem averages_eq_stackedExtent (hbook : l.book.Complete ms l.total) (hs : l.book.Sound)
    (ht : l.book.Tallied) (hpos : 0 < l.total) (hlimit : l.total ≤ Index.limit) :
    (l.total : Rat) * l.averageDelta - l.options.gap + l.book.averageMargin =
      stackedExtent l.options.gap ms l.total := by
  have hsizes := hbook.mul_estimate ht hpos
  have hmargins := hbook.mul_averageMargin hs ht hpos hlimit
  rw [stackedExtent, ← hsizes, ← hmargins, averageDelta]
  ring

/-- There is a gap between any two neighbours, and none at the ends. -/
theorem sum_gaps (gap : Rat) {n : Nat} (hn : 0 < n) :
    ∑ k ∈ Finset.range (n + 1), (if 0 < k ∧ k < n then gap else 0) = ((n : Rat) - 1) * gap := by
  obtain ⟨m, rfl⟩ := Nat.exists_eq_succ_of_ne_zero (Nat.ne_of_gt hn)
  have hinside : ∀ k ∈ Finset.range m, (if 0 < k + 1 ∧ k + 1 < m + 1 then gap else 0) = gap := by
    intro k hk
    rw [Finset.mem_range] at hk
    exact if_pos (by omega)
  rw [Finset.sum_range_succ', Finset.sum_range_succ, Finset.sum_congr rfl hinside]
  simp

/-- A list that starts at zero ends where its extent does. -/
theorem placeFrom_total (hbook : l.book.Complete ms l.total) (hs : l.book.Sound)
    (hpos : 0 < l.total) (hlimit : l.total ≤ Index.limit) :
    l.placeFrom 0 0 l.total = stackedExtent l.options.gap ms l.total := by
  have hspace : ∀ k ∈ Finset.range (l.total + 1), (l.spaceBefore k).value =
      SizeBook.listMargin ms l.total k + if 0 < k ∧ k < l.total then l.options.gap else 0 := by
    intro k hk
    rw [Finset.mem_range] at hk
    rw [spaceBefore, hbook.marginBefore_eq hs hpos hlimit (by omega)]
    rfl
  have hsize : ∀ k ∈ Finset.range l.total, (l.book.sizeOf k).value = (ms k).size := by
    intro k hk
    rw [hbook.sizeOf_eq (Finset.mem_range.1 hk)]
    rfl
  calc l.placeFrom 0 0 l.total
      = ∑ k ∈ Finset.range (l.total + 1), (l.spaceBefore k).value +
          ∑ k ∈ Finset.range l.total, (l.book.sizeOf k).value := by
        rw [placeFrom, itemsLength_zero, Finset.sum_range_succ]
        ring
    _ = ∑ k ∈ Finset.range (l.total + 1), SizeBook.listMargin ms l.total k +
          ((l.total : Rat) - 1) * l.options.gap +
          ∑ k ∈ Finset.range l.total, (ms k).size := by
        rw [Finset.sum_congr rfl hspace, Finset.sum_congr rfl hsize, Finset.sum_add_distrib,
          sum_gaps l.options.gap hpos]
    _ = stackedExtent l.options.gap ms l.total := by
        rw [stackedExtent]
        ring

/-! ## Windows that hold the whole list -/

/-- A pass over a fully measured list is stable. -/
theorem Reachable.stable_of_complete {report : PassReport Rat} {events : List (LayoutEvent Rat)}
    (hl : Reachable l) (hbook : l.book.Complete ms l.total)
    (h : l.reflow = .ok (report, events, l')) : l'.stable = true := by
  have hkept := reflow_keepsInputs h
  refine (reflow_stable_iff hl h).2 fun item hitem => ?_
  rw [hkept.agrees.isMeasured_eq, hbook.isMeasured_iff, ← hkept.total]
  exact ((hl.reflow h).consistent.index_lt (reflow_freshlyLaidOut h) hitem).1

/-- A stable window that holds the whole list starts at zero, and ends where the list does. -/
theorem Takes.whole_upper (hopen : l.opened = .ok o) (h : o.Takes c)
    (hstable : c.strip.stable = true) (hfirst : c.strip.first = 0)
    (hlast : c.strip.last + 1 = c.base.total) :
    c.strip.upper + c.offset = c.base.placeFrom 0 0 c.base.total := by
  obtain ⟨growth, hlower⟩ := settled_lower hstable
  rw [sub_extentError_eq_zero hfirst] at hlower
  rw [(h.strip_tiles hopen).upper_eq, ← placeFrom_add, hlower, hfirst, hlast]

/-- A window that holds the whole list leaves nothing to be estimated: the extent is the larger one
of its length and the least one configured. -/
theorem extentFrom_whole (hbook : l.book.Complete ms l.total) (hs : l.book.Sound)
    (ht : l.book.Tallied) (hpos : 0 < l.total) (hlimit : l.total ≤ Index.limit) {last : Nat}
    {scrollSize : Rat} (hlast : last + 1 = l.total)
    (h : l.extentFrom (l.total - 1) last (stackedExtent l.options.gap ms l.total) =
      .ok scrollSize) :
    scrollSize = max (stackedExtent l.options.gap ms l.total) l.options.minScrollSize := by
  have hbase : l.baseExtent = stackedExtent l.options.gap ms l.total := by
    rw [baseExtent, if_neg (Nat.ne_of_gt hpos)]
    exact averages_eq_stackedExtent hbook hs ht hpos hlimit
  simp only [extentFrom, bind_eq_ok, Index.sub_eq_ok_iff] at h
  obtain ⟨beyond, ⟨-, rfl⟩, h⟩ := h
  cases h
  have hnone : l.total - 1 - last = 0 := by omega
  rw [hbase, hnone, Nat.cast_zero, zero_mul, add_zero, Scalar.max_eq, Scalar.max_eq, max_self]

/-- With a window that holds the whole list a pass works out the extent of the items, or the least
one configured. -/
theorem Takes.whole_scrollSize (hl : Reachable l) (hbook : l.book.Complete ms l.total)
    (hopen : l.opened = .ok o) (h : o.Takes c) (hstable : c.strip.stable = true)
    (hfirst : c.strip.first = 0) (hlast : c.strip.last + 1 = c.base.total) :
    c.scrollSize = max (stackedExtent l.options.gap ms l.total) l.options.minScrollSize := by
  obtain ⟨hoptions, -, htotal, hbase⟩ := h.base_inputs hopen
  have hs := hl.book_sound
  have ht := hl.book_tallied
  have hlimit := hl.total_le
  -- The extent is worked out in the layout that the window is laid out for.
  rw [← hbase] at hs ht hbook
  rw [← htotal] at hlimit hbook
  have hpos : 0 < c.base.total := by omega
  have hextent := h.extent
  rw [h.whole_upper hopen hstable hfirst hlast, placeFrom_total hbook hs hpos hlimit] at hextent
  have hsize := extentFrom_whole hbook hs ht hpos hlimit hlast hextent
  rwa [hoptions, htotal] at hsize

/-- In exact arithmetic, once all items of a list have been measured and nothing is on record for
any other,

* the extent that the averages give is that of the items, with their margins and the gaps;
* a pass whose window holds the whole list reports this extent, or the least one configured. -/
theorem Reachable.extent_exact (hl : Reachable l) (hpos : 0 < l.total)
    (hbook : l.book.Complete ms l.total) :
    (l.total : Rat) * l.averageDelta - l.options.gap + l.book.averageMargin =
        stackedExtent l.options.gap ms l.total ∧
      ∀ report events l' r, l.reflow = .ok (report, events, l') → l'.range = some r →
        r.first = 0 → r.last + 1 = l'.total →
          report.scrollSize = max (stackedExtent l.options.gap ms l.total) l.options.minScrollSize ∧
            l'.scrollSize = report.scrollSize := by
  refine ⟨averages_eq_stackedExtent hbook hl.book_sound hl.book_tallied hpos hl.total_le,
    fun report events l' r h hrange hfirst hlast => ?_⟩
  have hstable := hl.stable_of_complete hbook h
  have hreport : l'.scrollSize = report.scrollSize := by
    obtain ⟨moved, after, -, rfl, -, rfl⟩ := reflow_cases h
    rfl
  refine ⟨?_, hreport⟩
  rw [← hreport]
  obtain ⟨o, c, hopen, hcourse, rfl⟩ := reflow_takes_of_range (by simp [hrange]) h
  cases hrange
  exact hcourse.whole_scrollSize hl hbook hopen hstable hfirst hlast

/-- Three items with margins at both ends and between them, one of them negative, and with gaps. -/
def marginsAndGaps : Nat → Measurement Rat
  | 0 => ⟨10, none, ⟨4, 8⟩⟩
  | 1 => ⟨20, none, ⟨-3, 5⟩⟩
  | _ => ⟨30, none, ⟨6, 2⟩⟩

example : stackedExtent 3 marginsAndGaps 3 = (10 + 20 + 30) + (4 + 5 + 6 + 2) + 2 * 3 := by
  decide +kernel

/-- The list of these items in a viewport that is longer. -/
theorem Reachable.extent_exact_of_marginsAndGaps : ∃ (l l' : Layout Rat) (report : PassReport Rat)
    (events : List (LayoutEvent Rat)) (r : WindowRange), Reachable l ∧ l.total = 3 ∧
      l.book.Complete marginsAndGaps l.total ∧
      (l.total : Rat) * l.averageDelta - l.options.gap + l.book.averageMargin = 83 ∧
      l.reflow = .ok (report, events, l') ∧ l'.range = some r ∧ r.first = 0 ∧
      r.last + 1 = l'.total ∧ report.scrollSize = 83 := by
  obtain ⟨l, l', report, events, hl, hreflow, htest⟩ := Reachable.exists_reflow_of_any
    ⟨10, 0, 3, .vertical, true, 1⟩
    [.setTotal 3, .setViewportMain 100,
      .recordAll ((List.range 3).map fun i => (i, marginsAndGaps i))]
    (fun l l' : Layout Rat => decide (l.total = 3 ∧ l.book.Complete marginsAndGaps l.total ∧
      l.options.gap = 3 ∧ l.options.minScrollSize = 1) &&
        l'.range.any fun r : WindowRange => decide (r.first = 0 ∧ r.last + 1 = l'.total))
    (by simp [Request.Representable, Index.limit]) (by decide +kernel)
  simp only [Bool.and_eq_true, Option.any_eq_true, decide_eq_true_eq] at htest
  obtain ⟨⟨htotal, hbook, hgap, hmin⟩, r, hrange, hfirst, hlast⟩ := htest
  obtain ⟨haverages, hreport⟩ := hl.extent_exact (by omega) hbook
  obtain ⟨hsize, -⟩ := hreport report events l' r hreflow hrange hfirst hlast
  have hextent : stackedExtent l.options.gap marginsAndGaps l.total = 83 := by
    rw [hgap, htotal]
    decide +kernel
  rw [hextent] at haverages hsize
  refine ⟨l, l', report, events, r, hl, htotal, hbook, haverages, hreflow, hrange, hfirst, hlast,
    ?_⟩
  rw [hsize, hmin]
  norm_num

end VirtualList.Layout
