import VirtualList.Proofs.Layout.Coverage
import VirtualList.Proofs.Layout.ScrollTarget

/-!
# The window around a pinned item

A pass that brings an item into view lays out its window around the scroll position at which it
expects the item, and aligns the item once the window is in place.  The window does not grow again,
so it covers the viewport only as far as the expectation was right: the overhang absorbs an error up
to its own length.

## Key results

- `revealPosition_eq_ok`: where an item of the expected size is wanted
- `Takes.of_expected`: what a pass expects of a pinned item
- `meets_of_aligned`: an item is in reach of where its alignment wants it
- `Reachable.pinned_covers`: when a pass covers the viewport that it aligned
- `Reachable.pinned_uncovered`: an item that became smaller leaves a part of the viewport empty
-/

namespace VirtualList

/-- An item that comes out with another size at another place is wanted at another scroll position,
which has moved along with it but for no more than the difference of the sizes. -/
theorem Align.scrollPosition_sub_le (align : Align) (start size start' size' view : Rat) :
    |align.scrollPosition start' size' view -
      (align.scrollPosition start size view + (start' - start))| ≤ |size' - size| := by
  have hhalf : (Scalar.half : Rat) = 1 / 2 := rfl
  cases align with
  | center =>
    have heq : Align.center.scrollPosition start' size' view -
        (Align.center.scrollPosition start size view + (start' - start)) = (size' - size) / 2 := by
      simp only [Align.scrollPosition, hhalf]
      ring
    rw [heq, abs_div, abs_two]
    have hnonneg := abs_nonneg (size' - size)
    linarith
  | finish =>
    have heq : Align.finish.scrollPosition start' size' view -
        (Align.finish.scrollPosition start size view + (start' - start)) = size' - size := by
      simp only [Align.scrollPosition]
      ring
    rw [heq]
  | start =>
    simp [Align.scrollPosition]
  | nearest =>
    simp [Align.scrollPosition]

namespace Layout

/-! ## What is expected of an item -/

section Expected

variable {α : Type} [Scalar α]

/-- The size that an item is expected to have when it is brought into view: that of its last
placement, if there was one. -/
def expectedSize (l : Layout α) (i : Nat) : α :=
  match l.item? i with
  | some item => item.size
  | none => (l.book.sizeOf i).value

theorem resolveAlign_of_settled (l : Layout α) (i : Nat) {align : Align} (h : align ≠ .nearest) :
    l.resolveAlign i align = .ok align := by
  cases align with
  | nearest => exact absurd rfl h
  | _ => rfl

/-- The scroll position that brings an item into view is the one at which its alignment wants it,
held within the extent. -/
theorem revealPosition_eq_ok {l : Layout α} {i : Nat} {align : Align} {target : α}
    (hi : i < l.total) (halign : align ≠ .nearest) (h : l.revealPosition i align = .ok target) :
    ∃ start, l.positionOf i = .ok start ∧
      Scalar.clamp (align.scrollPosition start (l.expectedSize i) l.viewport.main) 0
        l.maxScrollPosition = .ok target := by
  have hpos : l.total ≠ 0 := by omega
  have hmin : min i (l.total - 1) = i := by omega
  unfold revealPosition at h
  rw [if_neg hpos] at h
  simp only [lastIndex, bind_eq_ok, Index.sub_eq_ok_iff] at h
  obtain ⟨final, ⟨-, rfl⟩, start, hstart, align', halign', h⟩ := h
  rw [hmin] at hstart halign' h
  rw [l.resolveAlign_of_settled i halign] at halign'
  cases halign'
  exact ⟨start, hstart, h⟩

end Expected

variable {l l' o : Layout Rat} {c : Course Rat} {t : ScrollTarget}

/-! ## Where a pinned item is laid out -/

namespace Takes

/-- A pass that brings an item into view starts from where it expects the item, and from the scroll
position at which it is wanted there. -/
theorem of_expected (hpin : o.pin = some t) (h : o.Takes c) :
    o.positionOf (min t.index (o.total - 1)) = .ok c.anchor.position ∧
      o.revealPosition (min t.index (o.total - 1)) t.align = .ok c.chosenAt.position := by
  rcases chooseAnchor_cases h.choose with ⟨t', ht', -, hpinned⟩ | ⟨hnone, -⟩
  · rw [hpin] at ht'
    cases ht'
    simp only [pinnedAnchor, lastIndex, bind_eq_ok, Index.sub_eq_ok_iff] at hpinned
    obtain ⟨final, ⟨-, rfl⟩, wanted, hwanted, position, hposition, hpinned⟩ := hpinned
    obtain ⟨hanchor, hscroll⟩ := Prod.mk.inj (Except.ok.inj hpinned)
    rw [← hanchor, ← hscroll]
    exact ⟨hposition, hwanted⟩
  · rw [hpin] at hnone
    cases hnone

/-- A pinned item is laid out where it is expected. -/
theorem footing_anchor_of_pin (hopen : l.opened = .ok o) (hpin : l.pin = some t)
    (h : o.Takes c) : c.footing.anchor = c.anchor := by
  obtain ⟨-, -, htotal, -, hpin'⟩ := opened_inputs hopen
  obtain ⟨-, hindex⟩ := h.of_pin hopen hpin
  rw [h.footing_index] at hindex
  rcases Nat.eq_zero_or_pos c.anchor.index with hzero | hpos
  · -- The first item is expected at the start of the list, where it is put in any case.
    obtain ⟨hstart, -⟩ := h.of_expected (hpin'.trans hpin)
    rw [htotal, ← hindex, hzero] at hstart
    have hplace : (o.spaceBefore 0).value = c.anchor.position := Except.ok.inj hstart
    obtain ⟨corrections, hbase⟩ := h.base_fields
    rw [(footing_eq_ok h.footing).2]
    show (⟨c.anchor.index, if c.anchor.index = 0 then (c.base.spaceBefore c.anchor.index).value
      else c.anchor.position⟩ : Anchor Rat) = c.anchor
    rw [if_pos hzero, hzero, hbase]
    exact congrArg₂ Anchor.mk hzero.symm hplace
  · exact footing_anchor_of_pos h.footing hpos

end Takes

/-- An item is in reach of the scroll position that its alignment wants for it, even if its size is
another one than was expected, by no more than the overhang. -/
theorem meets_of_aligned (hextents : l.NonnegExtents) (hmain : 0 ≤ l.viewport.main)
    {start expected : Rat} {i : Nat} (align : Align)
    (hsize : |(l.book.sizeOf i).value - expected| ≤ l.options.overhang) :
    l.Meets ⟨i, start⟩ (align.scrollPosition start expected l.viewport.main) := by
  have hhalf : (Scalar.half : Rat) = 1 / 2 := rfl
  have hnonneg := hextents.size i
  have hlead := hextents.space i
  have htrail := hextents.space (i + 1)
  obtain ⟨hsmaller, hlarger⟩ := abs_le.1 hsize
  unfold Meets boundsAt
  cases align with
  | center =>
    simp only [Align.scrollPosition, hhalf]
    constructor <;> linarith
  | finish =>
    simp only [Align.scrollPosition]
    constructor <;> linarith
  | start =>
    simp only [Align.scrollPosition]
    constructor <;> linarith
  | nearest =>
    simp only [Align.scrollPosition]
    constructor <;> linarith

/-- A pass with a pinned item expects it at some place, and aims at the scroll position that brings
it into view there.  If the pass is stable or lays out speculatively,

* its window covers the stretch around that position, moved along with the item, as long as the
  item is in reach from there;
* so it covers the viewport if the scroll position at which the pass ends is no farther from there
  than the overhang;
* and this is so, without negative margins, if the extent stands in the way of neither position,
  and the size of the item differs from what was expected by no more than the overhang. -/
theorem Reachable.pinned_covers {report : PassReport Rat} {events : List (LayoutEvent Rat)}
    {r : WindowRange} (hl : Reachable l) (hpin : l.pin = some t)
    (h : l.reflow = .ok (report, events, l')) (hrange : l'.range = some r)
    (hgrows : l'.stable = true ∨ l.options.estimate = true) :
    ∃ o i start target item, i = min t.index (l.total - 1) ∧ l.opened = .ok o ∧
      o.positionOf i = .ok start ∧ o.revealPosition i t.align = .ok target ∧
      l'.item? i = some item ∧
      (o.Meets ⟨i, start⟩ target →
        l'.Covers r (l'.boundsAt (target + (item.position - start))) ∧
        (|l'.scrollPosition - (target + (item.position - start))| ≤ l'.options.overhang →
          l'.Covers r ⟨l'.scrollPosition, l'.scrollPosition + l'.viewport.main⟩)) ∧
      (l.book.NonnegMargins →
        target = t.align.scrollPosition start (o.expectedSize i) l.viewport.main →
        l'.scrollPosition = t.align.scrollPosition item.position item.size l.viewport.main →
        |item.size - o.expectedSize i| ≤ l.options.overhang →
          l'.Covers r ⟨l'.scrollPosition, l'.scrollPosition + l'.viewport.main⟩) := by
  obtain ⟨o, c, hopen, hcourse, rfl⟩ := reflow_takes_of_range (by simp [hrange]) h
  cases hrange
  obtain ⟨hoptions, hviewport, htotal, hbook, hpin'⟩ := opened_inputs hopen
  obtain ⟨-, hindex⟩ := hcourse.of_pin hopen hpin
  obtain ⟨hstart, htarget⟩ := hcourse.of_expected (hpin'.trans hpin)
  have hanchor := hcourse.footing_anchor_of_pin hopen hpin
  have hmoved : c.placed.position - c.anchor.position = c.offset := by
    show c.footing.anchor.position + c.offset - c.anchor.position = c.offset
    rw [hanchor]
    ring
  have hgrowsOn : c.base.GrowsOn c.strip.stable := by
    rw [GrowsOn, hcourse.base_options, hoptions]
    exact hgrows
  have hoverhang : c.outcome.options.overhang = l.options.overhang :=
    congrArg Options.overhang (hcourse.base_options.trans hoptions)
  -- The window is laid out around the position aimed at, and moved along with the item.
  have hcovers (hmeets : o.Meets c.anchor c.chosenAt.position) : c.outcome.Covers
      ⟨c.strip.first, c.strip.last, c.firstVisible.index, c.lastVisible.index⟩
      (c.outcome.boundsAt (c.chosenAt.position + (c.placed.position - c.anchor.position))) := by
    have hcovered := hcourse.outcome_covers hopen hgrowsOn
    rw [hcourse.drift_eq_zero_of_anchor hanchor hmeets, add_zero, ← hmoved] at hcovered
    exact hcovered
  rw [htotal, ← hindex, hanchor] at hstart htarget
  rw [hanchor] at hindex
  refine ⟨o, c.anchor.index, c.anchor.position, c.chosenAt.position,
    c.footing.item.shift c.offset, hindex, hopen, hstart, htarget, ?_, ?_, ?_⟩
  · rw [← hanchor]
    exact hcourse.item?_anchor hopen
  · intro hmeets
    exact ⟨hcovers hmeets, fun hnear => (hcovers hmeets).viewport hnear⟩
  · intro hmargins hexpected haligned hsize
    have hextents : o.NonnegExtents := (hl.nonnegExtents hmargins).congr hoptions htotal hbook
    have hfooting : c.footing.size = (o.book.sizeOf c.anchor.index).value := by
      rw [(footing_eq_ok hcourse.footing).2, hcourse.base_book]
    change c.scroll.position = t.align.scrollPosition c.placed.position c.footing.size
      l.viewport.main at haligned
    change |c.footing.size - o.expectedSize c.anchor.index| ≤ l.options.overhang at hsize
    have hmeets : o.Meets c.anchor c.chosenAt.position := by
      rw [hexpected, ← hviewport]
      apply meets_of_aligned hextents
      · rw [hviewport]
        exact hl.viewport_main_nonneg
      · rw [hoptions, ← hfooting]
        exact hsize
    apply (hcovers hmeets).viewport
    -- Only another size of the item has made a difference.
    calc |c.scroll.position - (c.chosenAt.position + (c.placed.position - c.anchor.position))|
        ≤ |c.footing.size - o.expectedSize c.anchor.index| := by
          rw [haligned, hexpected]
          exact t.align.scrollPosition_sub_le _ _ _ _ _
      _ ≤ c.outcome.options.overhang := hsize.trans_eq hoverhang.symm

/-- An item in the middle of a list was brought into view, has become larger since, and is brought
into view again. -/
theorem Reachable.pinned_covers_of_grown : ∃ (l l' : Layout Rat) (report : PassReport Rat)
    (events : List (LayoutEvent Rat)) (r : WindowRange), Reachable l ∧
      l.pin = some ⟨10, .center⟩ ∧ l.reflow = .ok (report, events, l') ∧ l'.range = some r ∧
      l'.stable = true ∧ 0 < r.first ∧ r.last + 1 < l.total ∧
      l'.Covers r ⟨l'.scrollPosition, l'.scrollPosition + l'.viewport.main⟩ := by
  obtain ⟨l, l', report, events, hl, hreflow, htest⟩ := Reachable.exists_reflow_of_any (α := Rat)
    ⟨10, 5, 2, .vertical, true, 1⟩
    [.setTotal 20, .setViewport ⟨20, 30⟩,
      .recordAll ((List.range 20).map fun i => (i, ⟨10, none, ⟨1, 2⟩⟩)), .pinTo 10 .center,
      .reflow, .record 10 ⟨13, none, ⟨1, 2⟩⟩, .pinTo 10 .center]
    (fun l l' : Layout Rat => decide (l.pin = some ⟨10, .center⟩ ∧ l.book.NonnegMargins ∧
        l'.stable = true ∧ min 10 (l.total - 1) = 10) &&
      (l'.range.any fun r : WindowRange => decide (0 < r.first ∧ r.last + 1 < l.total)) &&
      (l.opened.toOption.any fun o => (o.positionOf 10).toOption.any fun start =>
        (o.revealPosition 10 .center).toOption.any fun target => (l'.item? 10).any fun item =>
          decide (target = Align.center.scrollPosition start (o.expectedSize 10) l.viewport.main ∧
            l'.scrollPosition =
              Align.center.scrollPosition item.position item.size l.viewport.main ∧
            |item.size - o.expectedSize 10| ≤ l.options.overhang)))
    (by simp [Request.Representable, Index.limit]) (by decide +kernel)
  simp only [Bool.and_eq_true, decide_eq_true_eq] at htest
  obtain ⟨⟨⟨hpin, hmargins, hstable, hmin⟩, hinside⟩, htest⟩ := htest
  obtain ⟨r, hrange, hinside⟩ := (Option.any_eq_true _ _).1 hinside
  obtain ⟨hfirst, hlast⟩ := of_decide_eq_true hinside
  obtain ⟨o', hopen', htest⟩ := exists_ok_of_any htest
  obtain ⟨start', hstart', htest⟩ := exists_ok_of_any htest
  obtain ⟨target', htarget', htest⟩ := exists_ok_of_any htest
  obtain ⟨item', hitem', htest⟩ := (Option.any_eq_true _ _).1 htest
  obtain ⟨o, i, start, target, item, hindex, hopen, hstart, htarget, hitem, -, hcovers⟩ :=
    hl.pinned_covers hpin hreflow hrange (Or.inl hstable)
  -- What the pass expected is what the test has worked out.
  obtain rfl : i = 10 := hindex.trans hmin
  obtain rfl : o = o' := Except.ok.inj (hopen.symm.trans hopen')
  obtain rfl : start = start' := Except.ok.inj (hstart.symm.trans hstart')
  obtain rfl : target = target' := Except.ok.inj (htarget.symm.trans htarget')
  obtain rfl : item = item' := Option.some.inj (hitem.symm.trans hitem')
  obtain ⟨hexpected, haligned, hsize⟩ := of_decide_eq_true htest
  exact ⟨l, l', report, events, r, hl, hpin, hreflow, hrange, hstable, hfirst, hlast,
    hcovers hmargins hexpected haligned hsize⟩

/-- In the default configuration, an item two thousand long has become ten long, and is brought
into view with its end at the end of the viewport.  The pass is stable and aligns it, but the window
still starts at the item, and leaves the part of the viewport in front of it empty. -/
theorem Reachable.pinned_uncovered : ∃ (l₀ l l' : Layout Rat) (report : PassReport Rat)
    (events : List (LayoutEvent Rat)) (r : WindowRange) (head : PlacedItem Rat),
      ofOptions (Options.ofEstimateSize 10) = .ok l₀ ∧
      l₀.run [.setTotal 2, .setViewportMain 30, .record 0 ⟨30, none, ⟨0, 0⟩⟩,
        .record 1 ⟨2000, none, ⟨0, 0⟩⟩, .reflow, .record 1 ⟨10, none, ⟨0, 0⟩⟩,
        .pinTo 1 .finish] = .ok l ∧
      Reachable l ∧ l.pin.isSome = true ∧ l.reflow = .ok (report, events, l') ∧
      l'.stable = true ∧ l'.range = some r ∧ r.first = 1 ∧ l'.item? r.first = some head ∧
      head.position - (l'.spaceBefore r.first).value = 30 ∧ l'.scrollPosition = 10 ∧
      ¬l'.Covers r ⟨l'.scrollPosition, l'.scrollPosition + l'.viewport.main⟩ := by
  obtain ⟨l₀, l, l', report, events, hstart, hrun, hl, hreflow, htest⟩ :=
    Reachable.exists_run_of_any (α := Rat) (Options.ofEstimateSize 10)
      [.setTotal 2, .setViewportMain 30, .record 0 ⟨30, none, ⟨0, 0⟩⟩,
        .record 1 ⟨2000, none, ⟨0, 0⟩⟩, .reflow, .record 1 ⟨10, none, ⟨0, 0⟩⟩, .pinTo 1 .finish]
      (fun l l' => decide (l.pin.isSome = true ∧ l'.stable = true ∧ l'.scrollPosition = 10) &&
        l'.range.any fun r : WindowRange => decide (r.first = 1) &&
          (l'.item? r.first).any fun head =>
            decide (head.position - (l'.spaceBefore r.first).value = 30))
      (by simp [Request.Representable, Index.limit]) (by decide +kernel)
  simp only [Bool.and_eq_true, decide_eq_true_eq] at htest
  obtain ⟨⟨hpin, hstable, hposition⟩, htest⟩ := htest
  obtain ⟨r, hrange, htest⟩ := (Option.any_eq_true _ _).1 htest
  obtain ⟨hfirst, htest⟩ := Bool.and_eq_true_iff.1 htest
  obtain ⟨head, hhead, hleading⟩ := (Option.any_eq_true _ _).1 htest
  replace hfirst := of_decide_eq_true hfirst
  replace hleading := of_decide_eq_true hleading
  refine ⟨l₀, l, l', report, events, r, head, hstart, hrun, hl, hpin, hreflow, hstable, hrange,
    hfirst, hhead, hleading, hposition, fun hcovers => ?_⟩
  obtain ⟨head', -, hhead', -, hstarts, -⟩ := hcovers
  obtain rfl : head = head' := Option.some.inj (hhead.symm.trans hhead')
  rcases hstarts with hzero | hle
  · omega
  · rw [hleading, hposition] at hle
    exact absurd hle (by norm_num)

end Layout

end VirtualList
