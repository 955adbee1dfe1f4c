import VirtualList.Proofs.Bisection
import VirtualList.Proofs.Layout.Rest
import VirtualList.Proofs.Layout.ScrollBounds

/-!
# Scrolling without a pass

As long as no pass is called for, the visible part of the list is worked out from the window as it
is.  A pass run all the same would do more: it would take the item at the start of the viewport for
its anchor, lay out no more items than it needs around it, and perhaps move them to where the
averages put them.  But it would show the same items.

## Key results

- `Steady`: a window that a stable pass has put into its place
- `Suffices`, `Standing.suffices`: what it means that no pass is called for
- `Pivot`, `Steady.chooseAnchor_eq`: the anchor of a pass is where the viewport starts
- `GrownFrom.visibleEnds_eq`: a window grown from there has the same visible part
- `Reachable.visible_without_pass`: so a pass shows what is shown without one
-/

namespace VirtualList

/-- Two runs of numbers, one behind the other. -/
theorem range'_sub_append {a b c : Nat} (hab : a ≤ b) (hbc : b ≤ c) :
    List.range' a (b - a) ++ List.range' b (c - b) = List.range' a (c - a) := by
  have hb : b = a + (b - a) := by omega
  have hc : c - a = b - a + (c - b) := by omega
  rw [hc, ← List.range'_append_1, ← hb]

namespace Layout

variable {l : Layout Rat} {s s' : Strip Rat} {b : Bounds Rat} {i : Nat} {x y : PlacedItem Rat}

/-! ## A window in its place -/

/-- A window that a stable pass has put into its place.  Its items have a size, and the spaces at
its two ends are not longer than the stretch that a window is to fill. -/
structure Steady (l : Layout Rat) (s : Strip Rat) : Prop extends Layout.Standing l s where
  extents : l.NonnegExtents
  step_pos : 0 < l.averageDelta
  size_pos : ∀ i, s.first ≤ i → i ≤ s.last → 0 < (l.book.sizeOf i).value
  lower_zero : s.first = 0 → s.lower = 0
  lower_pos : 0 < s.first → 0 < s.lower
  lead_le : (l.spaceBefore s.first).value ≤ l.viewport.main + 2 * l.options.overhang
  trail_le : (l.spaceBefore (s.last + 1)).value ≤ l.viewport.main + 2 * l.options.overhang
  view_nonneg : 0 ≤ l.viewport.main
  overhang_nonneg : 0 ≤ l.options.overhang
  sound : l.book.Sound
  limit : l.total ≤ Index.limit

/-- Scrolling does not move a window out of its place. -/
theorem Steady.moveTo (h : l.Steady s) (position : Rat) :
    ({ l with scrollPosition := position } : Layout Rat).Steady s where
  toStanding := h.toStanding.elsewhere l.anchor position
  extents := h.extents.congr rfl rfl rfl
  step_pos := h.step_pos
  size_pos := h.size_pos
  lower_zero := h.lower_zero
  lower_pos := h.lower_pos
  lead_le := h.lead_le
  trail_le := h.trail_le
  view_nonneg := h.view_nonneg
  overhang_nonneg := h.overhang_nonneg
  sound := h.sound
  limit := h.limit

/-- Without a pinned item, taking over a scroll position changes nothing else. -/
theorem moveTo_of_free (hpin : l.pin = none) (position : Rat) :
    (l.moveTo position).2 = { l with scrollPosition := position } := by
  unfold Layout.moveTo
  split
  · rename_i hinfinite
    cases hinfinite
  · split
    · rename_i hsame
      rw [eq_of_beq hsame]
    · rw [← hpin]

/-! ## When no pass is called for -/

/-- The scroll position is within the extent, and around it the window reaches as far as the list
does. -/
structure Suffices (l : Layout Rat) (s : Strip Rat) : Prop where
  start : 0 ≤ l.scrollPosition
  finish : l.scrollPosition ≤ l.maxScrollPosition
  lower_le : s.lower ≤ max (l.boundsAt l.scrollPosition).lower 0
  le_upper : min (l.boundsAt l.scrollPosition).upper l.scrollSize ≤ s.upper

/-- A window suffices as long as no pass is called for. -/
theorem Standing.suffices (h : l.Standing s) (hlimit : l.total ≤ Index.limit)
    (hneeds : l.needsPass = .ok false) : l.Suffices s := by
  obtain ⟨head, hhead, hfirst, hplace, -⟩ := h.whole.exists_head
  obtain ⟨tail, htail, hlast, -, -, hupper⟩ := h.whole.exists_tail
  have hlt := h.whole.last_lt
  rw [← h.published_eq] at hhead htail
  have hlower : head.position - (l.spaceBefore s.first).value = s.lower := by
    rw [hplace, add_sub_cancel_right]
  simp only [needsPass, hhead, htail, hfirst, hlast, Index.succ_of_lt (lt_of_lt_of_le hlt hlimit)]
    at hneeds
  split at hneeds
  · cases hneeds
  · split at hneeds
    · cases hneeds
    · rename_i hinside
      have htest := Except.ok.inj hneeds
      rw [Bool.or_eq_false_iff, decide_eq_false_iff_not, decide_eq_false_iff_not, not_lt, not_lt,
        hlower, hupper, Scalar.max_eq, Scalar.min_eq] at htest
      rw [not_or, not_lt, not_lt] at hinside
      exact ⟨hinside.1, hinside.2, htest.1, htest.2⟩

/-- The extent ends behind a window that does not hold the last item. -/
theorem lt_extentFrom (hstep : 0 < l.averageDelta) {final last : Nat} {upper scrollSize : Rat}
    (hlt : last < final) (h : l.extentFrom final last upper = .ok scrollSize) :
    upper < scrollSize := by
  obtain ⟨beyond, hbeyond, h⟩ := bind_eq_ok.1 h
  obtain ⟨-, rfl⟩ := Index.sub_eq_ok_iff.1 hbeyond
  cases h
  have hcount : (0 : Rat) < (final - last : Nat) := by
    exact_mod_cast Nat.sub_pos_of_lt hlt
  have hbehind := mul_pos hcount hstep
  calc upper
      < upper + ((final - last : Nat) : Rat) * l.averageDelta := by linarith
    _ ≤ Scalar.max l.baseExtent _ := (Scalar.le_max _ _).2
    _ ≤ Scalar.max _ l.options.minScrollSize := (Scalar.le_max _ _).1

namespace Steady

variable (h : l.Steady s) (hs : l.Suffices s)

include h

theorem lower_nonneg : 0 ≤ s.lower := by
  rcases Nat.eq_zero_or_pos s.first with hzero | hpos
  · rw [h.lower_zero hzero]
  · exact le_of_lt (h.lower_pos hpos)

theorem lower_le_upper : s.lower ≤ s.upper := by
  have hlength := h.extents.itemsLength_mono (le_refl s.first)
    (Nat.le_succ_of_le h.whole.first_le)
  have hspace := h.extents.space (s.last + 1)
  rw [itemsLength_self] at hlength
  rw [h.whole.tiles.upper_eq, placeFrom]
  linarith

include hs

/-- Around the scroll position the window covers the stretch as far as the list goes. -/
theorem encloses : l.Encloses s (l.boundsAt l.scrollPosition) where
  lower_le := by
    rcases Nat.eq_zero_or_pos s.first with hzero | hpos
    · exact Or.inl hzero
    · have hlower := h.lower_pos hpos
      exact Or.inr ((le_max_iff.1 hs.lower_le).resolve_right (not_le.2 hlower))
  le_upper := by
    rcases min_le_iff.1 hs.le_upper with hle | hle
    · exact Or.inr hle
    · -- The window ends at the extent only with the last item.
      left
      by_contra hne
      have hlt := h.whole.last_lt
      have hextent := lt_extentFrom h.step_pos (by omega) h.extent
      linarith

/-- The window reaches into the stretch from both sides. -/
theorem meets : s.lower ≤ (l.boundsAt l.scrollPosition).upper ∧
    (l.boundsAt l.scrollPosition).lower ≤ s.upper := by
  have hview := h.view_nonneg
  have hoverhang := h.overhang_nonneg
  have hstart := hs.start
  have hordered := h.lower_le_upper
  have hnonneg := h.lower_nonneg
  have hupper := l.boundsAt_upper l.scrollPosition
  have hlower := l.boundsAt_lower l.scrollPosition
  constructor
  · rcases le_max_iff.1 hs.lower_le with hle | hle <;> linarith
  · have hmax : l.maxScrollPosition = max (l.scrollSize - l.viewport.main) 0 := Scalar.max_eq _ _
    have hfinish := hs.finish
    rw [hmax] at hfinish
    rcases min_le_iff.1 hs.le_upper with hle | hle
    · linarith
    · rcases le_max_iff.1 hfinish with hend | hend <;> linarith

end Steady

/-! ## Where the viewport starts -/

/-- Item `i` of the window lies at the scroll position: the items in front of it end there or
before, and it ends behind it, unless it is the last one. -/
structure Pivot (l : Layout Rat) (s : Strip Rat) (position : Rat) (i : Nat) : Prop where
  first_le : s.first ≤ i
  le_last : i ≤ s.last
  passed : s.first < i → s.lower + l.itemsLength s.first i ≤ position
  ahead : i < s.last → position < s.lower + l.itemsLength s.first (i + 1)

/-- The items of a window one by one. -/
theorem Whole.getElem?_items (h : l.Whole s) {j : Nat} (hj : s.first + j ≤ s.last) :
    s.items[j]? = some ⟨s.first + j, l.placeFrom s.lower s.first (s.first + j),
      (l.book.sizeOf (s.first + j)).value⟩ := by
  have hlt : j < s.last + 1 - s.first := by omega
  rw [h.tiles.items_eq h.consecutive h.length_eq, List.getElem?_map, List.getElem?_range' hlt,
    Option.map_some, Nat.one_mul]

/-- The items of a window end in the order of their indices, so the search finds the first one of
them that ends behind a target. -/
theorem Whole.bisect_finish (h : l.Whole s) (hextents : l.NonnegExtents) (target : Rat) {j : Nat}
    (hj : s.first + j ≤ s.last) :
    s.lower + l.itemsLength s.first (s.first + j + 1) ≤ target ↔
      j < bisect (fun item => decide (item.finish ≤ target)) s.items := by
  have hordered : s.items.Pairwise fun x y =>
      decide (y.finish ≤ target) = true → decide (x.finish ≤ target) = true := by
    rw [h.tiles.items_eq h.consecutive h.length_eq, List.pairwise_map]
    refine List.Pairwise.imp_of_mem (fun {a b} ha hb hab => ?_) List.pairwise_lt_range'
    have ha := (List.mem_range'_1.1 ha).1
    have hb := (List.mem_range'_1.1 hb).1
    have hlength := hextents.itemsLength_mono (Nat.le_succ_of_le ha) (Nat.succ_le_succ hab.le)
    rw [decide_eq_true_eq, decide_eq_true_eq]
    show l.placeFrom s.lower s.first b + (l.book.sizeOf b).value ≤ target →
      l.placeFrom s.lower s.first a + (l.book.sizeOf a).value ≤ target
    rw [placeFrom_add_size l s.lower ha, placeFrom_add_size l s.lower hb]
    intro hle
    linarith
  rw [← splitsAt_bisect hordered j, h.getElem?_items hj, Option.any_some, decide_eq_true_eq]
  show _ ↔ l.placeFrom s.lower s.first (s.first + j) + (l.book.sizeOf (s.first + j)).value ≤ target
  rw [placeFrom_add_size l s.lower (Nat.le_add_right _ _)]

/-- The item that the search finds for a target lies there. -/
theorem Whole.pivot_bisect (h : l.Whole s) (hextents : l.NonnegExtents) (target : Rat) :
    l.Pivot s target (s.first + min (bisect (fun item => decide (item.finish ≤ target)) s.items)
      (s.items.length - 1)) := by
  have hlength := h.length_eq
  have hle := h.first_le
  have hends := fun j hj => h.bisect_finish hextents target (j := j) hj
  generalize bisect (fun item : PlacedItem Rat => decide (item.finish ≤ target)) s.items = passed
    at hends ⊢
  obtain ⟨place, hplace⟩ : ∃ place, place = min passed (s.items.length - 1) := ⟨_, rfl⟩
  rw [← hplace]
  refine ⟨by omega, by omega, fun hlt => ?_, fun hlt => ?_⟩
  · have hbefore := (hends (place - 1) (by omega)).2 (by omega)
    have hindex : s.first + (place - 1) + 1 = s.first + place := by omega
    rwa [hindex] at hbefore
  · exact not_le.1 fun hend => absurd ((hends place (by omega)).1 hend) (by omega)

namespace Steady

variable (h : l.Steady s) (hs : l.Suffices s)

include h

/-- An item that lies where the scroll position is confined to the window lies at the position: in
front of the window there is only its first item, and behind it only its last one. -/
theorem pivot_of_confine {head tail : PlacedItem Rat} (hhead : s.items.head? = some head)
    (htail : s.items.getLast? = some tail) {position : Rat}
    (hpivot : l.Pivot s (Scalar.confine position head.position tail.finish) i) :
    l.Pivot s position i := by
  obtain ⟨head', hhead', -, hplace, -⟩ := h.whole.exists_head
  obtain ⟨tail', htail', -, -, hfinish, -⟩ := h.whole.exists_tail
  obtain rfl : head = head' := Option.some.inj (hhead.symm.trans hhead')
  obtain rfl : tail = tail' := Option.some.inj (htail.symm.trans htail')
  have hle := h.whole.first_le
  have hsize := h.size_pos s.first (le_refl _) hle
  have hfirst : s.lower + l.itemsLength s.first (s.first + 1) =
      head.position + (l.book.sizeOf s.first).value := by
    rw [hplace, itemsLength_succ l (le_refl _), itemsLength_self]
    ring
  have hlength := h.extents.itemsLength_mono (Nat.le_succ s.first) (Nat.succ_le_succ hle)
  obtain ⟨hfirst_le, hle_last, hpassed, hahead⟩ := hpivot
  have hordered : head.position ≤ tail.finish := by linarith
  have hcases := Scalar.confine_cases position hordered
  refine ⟨hfirst_le, hle_last, fun hlt => ?_, fun hlt => ?_⟩
  · -- The first item does not end at its own start.
    have hbehind := h.extents.itemsLength_mono (Nat.le_succ s.first) (Nat.succ_le_of_lt hlt)
    have hpassed := hpassed hlt
    rcases hcases with ⟨-, -, heq⟩ | ⟨hfront, heq⟩ | ⟨hbeyond, heq⟩ <;> linarith
  · have hbehind := h.extents.itemsLength_mono (Nat.le_succ_of_le hfirst_le)
      (Nat.succ_le_succ hle_last)
    have hahead := hahead hlt
    rcases hcases with ⟨-, -, heq⟩ | ⟨hfront, heq⟩ | ⟨hbeyond, heq⟩ <;> linarith

/-- An item of the window is where it was published. -/
theorem positionOf_eq (hfirst : s.first ≤ i) (hlast : i ≤ s.last) :
    l.positionOf i = .ok (l.placeFrom s.lower s.first i) := by
  have hlength := h.whole.length_eq
  unfold positionOf
  split
  · rename_i hzero
    subst hzero
    have hstart : s.first = 0 := Nat.le_zero.1 hfirst
    rw [hstart, placeFrom_self, h.lower_zero hstart, zero_add]
    rfl
  · obtain ⟨j, rfl⟩ := Nat.exists_eq_add_of_le hfirst
    have hitem := h.whole.getElem?_items hlast
    have hfound := h.whole.consecutive.find?_eq (List.mem_of_getElem? hitem)
    rw [← h.published_eq] at hfound
    simp only [item?, hfound]
    rfl

/-! ## The anchor of a pass -/

/-- The last stable window offers the item at the scroll position if it reaches into the stretch. -/
theorem settledAnchor?_pivot (position : Rat)
    (hlower : s.lower + (l.spaceBefore s.first).value ≤ b.upper)
    (hupper : b.lower ≤ s.lower + l.itemsLength s.first (s.last + 1)) :
    ∃ i, l.Pivot s position i ∧
      l.settledAnchor? position b = .ok (some ⟨i, l.placeFrom s.lower s.first i⟩) := by
  obtain ⟨head, hhead, -, hplace, hfinish⟩ := h.whole.exists_head
  obtain ⟨tail, htail, -, -, hfinish', -⟩ := h.whole.exists_tail
  have hordered : head.position ≤ tail.finish := by
    have hlength := h.extents.itemsLength_mono (Nat.le_succ s.first)
      (Nat.succ_le_succ h.whole.first_le)
    have hsize := h.size_pos s.first (le_refl _) h.whole.first_le
    rw [itemsLength_succ l (le_refl _), itemsLength_self] at hlength
    linarith
  have hplaced := h.whole.pivot_bisect h.extents
    (Scalar.confine position head.position tail.finish)
  have hpivot := h.pivot_of_confine hhead htail hplaced
  rw [← h.settled_eq] at hhead htail
  obtain ⟨item, hitem, hsettled⟩ := settledAnchor?_eq position hhead htail
    (hplace ▸ hlower) (hfinish' ▸ hupper) hordered
  rw [h.settled_eq, h.whole.getElem?_items hpivot.le_last] at hitem
  refine ⟨_, hpivot, ?_⟩
  obtain rfl := Option.some.inj hitem
  exact hsettled

/-- It offers none if the stretch lies in front of its first item or behind its last one. -/
theorem settledAnchor?_none (position : Rat)
    (hbeyond : b.upper < s.lower + (l.spaceBefore s.first).value ∨
      s.lower + l.itemsLength s.first (s.last + 1) < b.lower) :
    l.settledAnchor? position b = .ok none := by
  obtain ⟨head, hhead, -, hplace, -⟩ := h.whole.exists_head
  obtain ⟨tail, htail, -, -, hfinish, -⟩ := h.whole.exists_tail
  rw [← h.settled_eq] at hhead htail
  rw [← hplace, ← hfinish] at hbeyond
  unfold settledAnchor?
  rw [hhead, htail]
  simp only
  rw [if_neg]
  · rfl
  · intro hmeets
    rcases hbeyond with hlt | hlt
    · exact absurd hmeets.1 (not_le.2 hlt)
    · exact absurd hmeets.2 (not_le.2 hlt)

include hs

/-- A stretch in front of the first item of the window lies in the space at the start of the list,
and one behind the last item in the space at the end of it.  There the averages say which item to
take. -/
theorem estimatedIndex_pivot
    (hbeyond : (l.boundsAt l.scrollPosition).upper < s.lower + (l.spaceBefore s.first).value ∨
      s.lower + l.itemsLength s.first (s.last + 1) < (l.boundsAt l.scrollPosition).lower) :
    l.Pivot s l.scrollPosition
      (l.estimatedIndex (l.total - 1) (l.boundsAt l.scrollPosition)) := by
  have hencloses := h.encloses hs
  have hle := h.whole.first_le
  have hlead := h.lead_le
  have htrail := h.trail_le
  have hview := h.view_nonneg
  have hoverhang := h.overhang_nonneg
  have hupper := l.boundsAt_upper l.scrollPosition
  have hlower := l.boundsAt_lower l.scrollPosition
  unfold estimatedIndex
  rcases hbeyond with hfront | hbehind
  · have hfirst : s.first = 0 := hencloses.lower_le.resolve_right (by linarith)
    have hsize := h.extents.size 0
    rw [h.lower_zero hfirst, hfirst] at hfront
    rw [hfirst] at hlead
    rw [if_pos (by linarith)]
    refine ⟨hfirst.le, Nat.zero_le _, fun hlt => by omega, fun _ => ?_⟩
    rw [h.lower_zero hfirst, hfirst, itemsLength_succ l (le_refl 0), itemsLength_self]
    linarith
  · have hend : s.upper = s.lower + l.itemsLength s.first (s.last + 1) +
        (l.spaceBefore (s.last + 1)).value := h.whole.tiles.upper_eq
    have hlast : s.last = l.total - 1 := hencloses.le_upper.resolve_right (by linarith)
    have hextent := (min_le_iff.1 hs.le_upper).resolve_left (by linarith)
    have hnonneg := h.lower_nonneg
    have hlength := h.extents.itemsLength_mono (le_refl s.first) (Nat.le_succ_of_le hle)
    have hlength' := h.extents.itemsLength_mono hle (Nat.le_succ s.last)
    rw [itemsLength_self] at hlength
    rw [if_neg (by linarith), if_pos (by linarith), ← hlast]
    refine ⟨hle, le_refl _, fun _ => ?_, fun hlt => absurd hlt (lt_irrefl _)⟩
    linarith

/-- A pass takes the item at the scroll position for its anchor, where it lies. -/
theorem chooseAnchor_eq : ∃ i source, l.Pivot s l.scrollPosition i ∧
    (∀ align, source ≠ .pinned align) ∧
    l.chooseAnchor = .ok (⟨i, l.placeFrom s.lower s.first i⟩, source,
      .startingAt l.scrollPosition) := by
  have hscroll := clampedScroll_of_mem hs.start hs.finish
  obtain ⟨i, source, hpivot, hsource, hfree⟩ : ∃ i source, l.Pivot s l.scrollPosition i ∧
      (∀ align, source ≠ .pinned align) ∧ l.freeAnchor (.startingAt l.scrollPosition) =
        .ok (⟨i, l.placeFrom s.lower s.first i⟩, source) := by
    by_cases hbeyond : (l.boundsAt l.scrollPosition).upper <
        s.lower + (l.spaceBefore s.first).value ∨
      s.lower + l.itemsLength s.first (s.last + 1) < (l.boundsAt l.scrollPosition).lower
    · have hpivot := h.estimatedIndex_pivot hs hbeyond
      refine ⟨_, .estimated, hpivot, nofun, ?_⟩
      have hnone := h.settledAnchor?_none l.scrollPosition hbeyond
      have hposition := h.positionOf_eq hpivot.first_le hpivot.le_last
      have hlast : l.lastIndex = .ok (l.total - 1) :=
        Index.sub_of_le (Nat.succ_le_of_lt (Nat.zero_lt_of_lt h.whole.last_lt))
      unfold freeAnchor
      rw [h.retained]
      exact bind_eq_ok.2 ⟨none, hnone, bind_eq_ok.2 ⟨_, hlast, bind_eq_ok.2 ⟨_, hposition, rfl⟩⟩⟩
    · rw [not_or, not_lt, not_lt] at hbeyond
      obtain ⟨i, hpivot, hsettled⟩ := h.settledAnchor?_pivot l.scrollPosition hbeyond.1 hbeyond.2
      exact ⟨i, .settled, hpivot, nofun,
        freeAnchor_of_settled (.startingAt l.scrollPosition) h.retained hsettled⟩
  refine ⟨i, source, hpivot, hsource, ?_⟩
  unfold chooseAnchor
  rw [h.pin]
  exact bind_eq_ok.2 ⟨_, hscroll, bind_eq_ok.2 ⟨_, hfree, rfl⟩⟩

/-- The item at the scroll position is in reach. -/
theorem meets_pivot (hpivot : l.Pivot s l.scrollPosition i) :
    l.Meets ⟨i, l.placeFrom s.lower s.first i⟩ l.scrollPosition := by
  obtain ⟨hmeets, hmeets'⟩ := h.meets hs
  have hview := h.view_nonneg
  have hoverhang := h.overhang_nonneg
  have hupper := l.boundsAt_upper l.scrollPosition
  have hlower := l.boundsAt_lower l.scrollPosition
  have hends := placeFrom_add_size l s.lower hpivot.first_le
  constructor
  · show _ ≤ l.placeFrom s.lower s.first i + _ + _
    rcases Nat.lt_or_eq_of_le hpivot.le_last with hlt | rfl
    · have hahead := hpivot.ahead hlt
      have hspace := h.extents.space (i + 1)
      linarith
    · -- Behind the last item the window ends.
      rw [← placeFrom_succ l s.lower hpivot.first_le, ← h.whole.tiles.upper_eq]
      exact hmeets'
  · show l.placeFrom s.lower s.first i - _ ≤ _
    rw [placeFrom, add_sub_cancel_right]
    rcases Nat.lt_or_eq_of_le hpivot.first_le with hlt | heq
    · have hpassed := hpivot.passed hlt
      linarith
    · rw [← heq, itemsLength_self, add_zero]
      exact hmeets

end Steady

/-! ## What a pass shows -/

/-- A window that takes nothing new is part of the one that was there. -/
theorem GrownFrom.items_split (h : l.GrownFrom s b i s') (hs : l.Whole s)
    (hinside : s.first ≤ s'.first ∧ s'.last ≤ s.last) :
    ∃ pre post, s.items = pre ++ s'.items ++ post ∧
      (∀ x ∈ pre, s.first ≤ x.index ∧ x.index < s'.first ∧
        x.finish = s.lower + l.itemsLength s.first (x.index + 1)) ∧
      (∀ x ∈ post, s'.last < x.index ∧ x.index ≤ s.last ∧
        x.position = l.placeFrom s.lower s.first x.index) := by
  have hfirst := h.first_le
  have hlast := h.le_last
  let item (k : Nat) : PlacedItem Rat :=
    ⟨k, l.placeFrom s.lower s.first k, (l.book.sizeOf k).value⟩
  refine ⟨(List.range' s.first (s'.first - s.first)).map item,
    (List.range' (s'.last + 1) (s.last + 1 - (s'.last + 1))).map item, ?_, fun x hx => ?_,
    fun x hx => ?_⟩
  · have hmid : s'.items = (List.range' s'.first (s'.last + 1 - s'.first)).map item := by
      rw [h.tiles.items_eq h.consecutive h.length_eq]
      refine List.map_congr_left fun k hk => ?_
      have hk := (List.mem_range'_1.1 hk).1
      rw [h.placeFrom_eq (by omega) hk]
    rw [hs.tiles.items_eq hs.consecutive hs.length_eq, hmid, ← List.map_append, ← List.map_append,
      range'_sub_append hinside.1 (by omega), range'_sub_append (by omega) (by omega)]
  · obtain ⟨k, hk, rfl⟩ := List.mem_map.1 hx
    obtain ⟨hk, hlt⟩ := List.mem_range'_1.1 hk
    have hlt : k < s'.first := by omega
    exact ⟨hk, hlt, placeFrom_add_size l s.lower hk⟩
  · obtain ⟨k, hk, rfl⟩ := List.mem_map.1 hx
    obtain ⟨hk, hlt⟩ := List.mem_range'_1.1 hk
    have hle : k ≤ s.last := by omega
    exact ⟨hk, hle, rfl⟩

/-- A window grown from the item at the scroll position shows the same items: those that it does not
take lie outside the viewport. -/
theorem GrownFrom.visibleEnds_eq (h : l.GrownFrom s b i s') (hs : l.Whole s)
    (hextents : l.NonnegExtents) (hencloses : l.Encloses s b) {position view : Rat}
    (hpivot : l.Pivot s position i) (hview : position + view ≤ b.upper) :
    visibleEnds s.items position view = visibleEnds s'.items position view := by
  have hfirst := h.first_le
  have hlast := h.le_last
  obtain ⟨hinside, hinside'⟩ := hencloses.within hs h hpivot.first_le hpivot.le_last
  have hstable := h.stable_of_within hs ⟨hinside, hinside'⟩
  obtain ⟨pre, post, hitems, hpre, hpost⟩ := h.items_split hs ⟨hinside, hinside'⟩
  obtain ⟨item, hitem, hindex⟩ : ∃ item ∈ s'.items, item.index = i := by
    have hlength := h.length_eq
    rw [← List.mem_map, h.consecutive, List.mem_range'_1]
    omega
  rw [hitems]
  apply visibleEnds_append (List.ne_nil_of_mem hitem)
  · intro x hx
    obtain ⟨hle, hlt, hfinish⟩ := hpre x hx
    have hpassed := hpivot.passed (by omega)
    have hlength := hextents.itemsLength_mono (Nat.le_succ_of_le hle)
      (show x.index + 1 ≤ i by omega)
    show x.finish ≤ position
    linarith
  · intro x hx
    obtain ⟨hlt, hle, hposition⟩ := hpost x hx
    have hlt' := hs.last_lt
    have hend := (h.reaches (Or.inl hstable)).2.resolve_left (by omega)
    have hmono := hextents.placeFrom_mono s.lower (show s.first ≤ s'.last + 1 by omega)
      (Nat.succ_le_of_lt hlt)
    rw [h.tiles.upper_eq, h.placeFrom_eq (by omega) (by omega)] at hend
    show position + view ≤ x.position
    linarith
  · rcases Nat.lt_or_eq_of_le hinside' with hlt | heq
    · -- The item that the window has grown from is in the viewport, or behind it.
      right
      refine ⟨item, hitem, ?_⟩
      have hahead := hpivot.ahead (by omega)
      have hposition := h.tiles.position_eq item hitem
      have hsize := h.tiles.size_eq item hitem
      rw [hindex, h.placeFrom_eq hpivot.first_le hfirst] at hposition
      rw [hindex] at hsize
      have hfinish := placeFrom_add_size l s.lower hpivot.first_le
      show ¬item.position + item.size ≤ position
      linarith
    · left
      refine List.eq_nil_iff_forall_not_mem.2 fun x hx => ?_
      obtain ⟨hlt, hle, -⟩ := hpost x hx
      omega

/-- A pass at a scroll position that calls for none is stable, and shows the items of the window
that lie in the viewport. -/
theorem Steady.takes (h : l.Steady s) (hs : l.Suffices s)
    (hends : visibleEnds s.items l.scrollPosition l.viewport.main = some (x, y)) :
    ∃ c : Course Rat, l.Takes c ∧ c.strip.stable = true ∧
      c.firstVisible.index = x.index ∧ c.lastVisible.index = y.index := by
  obtain ⟨i, source, hpivot, hsource, hchoose⟩ := h.chooseAnchor_eq hs
  have hencloses := h.encloses hs
  have hlt := h.whole.last_lt
  have hlimit := h.limit
  have hle := hpivot.le_last
  obtain ⟨f, hf⟩ := l.footing_exists_ok ⟨i, l.placeFrom s.lower s.first i⟩
    (show i < Index.limit by omega)
  have hanchor := footing_anchor_of_placed h.lower_zero hpivot.first_le hf
  have hdrift := drift_eq_zero_of_meets hf hanchor (h.meets_pivot hs hpivot)
  have hfinal : f.anchor.index ≤ l.total - 1 := by
    rw [hanchor]
    show i ≤ l.total - 1
    omega
  obtain ⟨s', hgrow⟩ := l.growWindow_exists_ok f (l.boundsAt l.scrollPosition) hfinal (by omega)
  have hgrown := growWindow_grownFrom h.whole h.sound hlimit hpivot.first_le hle hf hanchor hgrow
  have hinside := hencloses.within h.whole hgrown hpivot.first_le hle
  have hstable := hgrown.stable_of_within h.whole hinside
  have hview : l.scrollPosition + l.viewport.main ≤ (l.boundsAt l.scrollPosition).upper :=
    le_add_of_nonneg_right h.overhang_nonneg
  rw [hgrown.visibleEnds_eq h.whole h.extents hencloses hpivot hview] at hends
  obtain ⟨c, hcourse, -, -, -, -, hstrip, -, hx, hy⟩ :=
    h.exists_takes hchoose hsource hf hdrift hgrow hgrown.last_le hends
  refine ⟨c, hcourse, ?_, ?_, ?_⟩
  · rw [hstrip]
    exact hstable
  · rw [hx]
    rfl
  · rw [hy]
    rfl

/-! ## With a pass and without -/

/-- What a stable pass leaves behind is in its place, if the sizes and margins on record are as they
should be and no space around the window is longer than the stretch to fill. -/
theorem Reachable.steady {l₀ : Layout Rat} {report : PassReport Rat}
    {events : List (LayoutEvent Rat)} {r : WindowRange} (hl : Reachable l₀)
    (h : l₀.reflow = .ok (report, events, l)) (hstable : l.stable = true)
    (hrange : l.range = some r) (hsizes : l.book.PositiveSizes) (hmargins : l.book.NonnegMargins)
    (hspaces : ∀ i, r.first ≤ i → i ≤ r.last + 1 →
      (l.spaceBefore i).value ≤ l.viewport.main + 2 * l.options.overhang) :
    ∃ s, l.Steady s := by
  have hl' := hl.reflow h
  obtain ⟨moved, after, hpass, -, -, rfl⟩ := reflow_cases h
  obtain ⟨o, hopen, ⟨-, -, rfl⟩ | ⟨hfull, c, hcourse, -, rfl⟩⟩ := pass_cases hpass
  · cases hrange
  cases hrange
  have hsettled := hcourse.settled hl hopen hfull hstable
  have hrecorded : ∀ i, c.strip.first ≤ i → i ≤ c.strip.last →
      ∃ m, c.outcome.book.recorded? i = some m := fun i hfirst hlast => by
    have hmeasured := hsettled.whole.measured i hfirst hlast
    rw [SizeBook.isMeasured_eq] at hmeasured
    exact Option.isSome_iff_exists.1 hmeasured
  have hle : c.strip.first ≤ c.strip.last := hsettled.whole.first_le
  obtain ⟨m, hm⟩ := hrecorded _ (le_refl _) hle
  have hstep := hl'.averageDelta_pos hmargins hsizes hm
  have hbase : 0 < c.base.averageDelta := by
    rw [← (KeepsInputs.outcome c).averageDelta_eq]
    exact hstep
  obtain ⟨growth, hedge⟩ := settled_lower hstable
  exact ⟨c.strip.shift c.offset, {
    toStanding := hsettled.toStanding
    extents := hl'.nonnegExtents hmargins
    step_pos := hstep
    size_pos := fun i hfirst hlast => by
      obtain ⟨m, hm⟩ := hrecorded i hfirst hlast
      exact SizeBook.sizeOf_pos hsizes hm
    lower_zero := fun hfirst => hedge.trans (sub_extentError_eq_zero hfirst _ _ _)
    lower_pos := fun hfirst => by
      show 0 < c.strip.lower + c.offset
      rw [hedge]
      exact sub_extentError_pos hfirst hbase _ _ _
    lead_le := hspaces _ (le_refl _) (Nat.le_succ_of_le hle)
    trail_le := hspaces _ (Nat.le_succ_of_le hle) (le_refl _)
    view_nonneg := hl'.viewport_main_nonneg
    overhang_nonneg := hl'.overhang_nonneg
    sound := hl'.book_sound
    limit := hl'.total_le }⟩

/-- As long as no pass is called for, working out the visible part again comes to the same as a
pass.  Take any state of a run that a stable pass has just left with a window, in which

* every size on record is positive, and no margin on record is negative;
* no space in the window or next to it is longer than the viewport with the overhang on both sides.

Wherever the list is scrolled to from there, if no pass is called for, then a pass run all the same
does not fault, is stable, and publishes the visible part that is there without it. -/
theorem Reachable.visible_without_pass {l₀ l : Layout Rat} {report : PassReport Rat}
    {events : List (LayoutEvent Rat)} {r : WindowRange} (hl : Reachable l₀)
    (h : l₀.reflow = .ok (report, events, l)) (hstable : l.stable = true)
    (hrange : l.range = some r) (hsizes : l.book.PositiveSizes) (hmargins : l.book.NonnegMargins)
    (hspaces : ∀ i, r.first ≤ i → i ≤ r.last + 1 →
      (l.spaceBefore i).value ≤ l.viewport.main + 2 * l.options.overhang) (position : Rat)
    (hneeds : (l.moveTo position).2.needsPass = .ok false) :
    ∃ report' events' l' r' r'', (l.moveTo position).2.reflow = .ok (report', events', l') ∧
      report'.stable = true ∧ l'.stable = true ∧ l'.range = some r' ∧
      (l.moveTo position).2.refreshVisible.2.range = some r'' ∧
      r'.firstVisible = r''.firstVisible ∧ r'.lastVisible = r''.lastVisible := by
  obtain ⟨s, hsteady⟩ := hl.steady h hstable hrange hsizes hmargins hspaces
  rw [moveTo_of_free hsteady.pin] at hneeds ⊢
  have hmoved := hsteady.moveTo position
  have hsuffices := hmoved.suffices hmoved.limit hneeds
  obtain ⟨head, hhead, -⟩ := hsteady.whole.exists_head
  obtain ⟨x, y, hends⟩ := visibleEnds_ne_none (List.ne_nil_of_mem (List.mem_of_head? hhead))
    position l.viewport.main
  obtain ⟨c, hcourse, hstable', hfirst, hlast⟩ := hmoved.takes hsuffices hends
  have hreflow := hcourse.reflow_eq (hmoved.opened_eq hmoved.limit) hmoved.full
  rw [← hsteady.published_eq] at hends
  exact ⟨_, _, _, _, _, hreflow, hstable', hstable', rfl, refreshVisible_range hrange hends, hfirst,
    hlast⟩

/-- A window of four items, of which the first one is left behind without a pass being called for.
A pass would drop it from the window; without one it stays, but is no longer visible. -/
theorem Reachable.visible_without_pass_of_leftBehind : ∃ (l₀ l l' : Layout Rat)
    (report report' : PassReport Rat) (events events' : List (LayoutEvent Rat))
    (r' r'' : WindowRange),
      Reachable l₀ ∧ l₀.reflow = .ok (report, events, l) ∧ l.stable = true ∧
      l.range = some ⟨4, 7, 4, 6⟩ ∧ (l.moveTo 52).2.needsPass = .ok false ∧
      (l.moveTo 52).2.reflow = .ok (report', events', l') ∧ l'.stable = true ∧
      l'.range = some r' ∧ (l.moveTo 52).2.refreshVisible.2.range = some r'' ∧
      r'.firstVisible = r''.firstVisible ∧ r'.lastVisible = r''.lastVisible ∧
      r' = ⟨5, 7, 5, 7⟩ ∧ r'' = ⟨4, 7, 5, 7⟩ := by
  obtain ⟨l₀, l, report, events, hl, hreflow, htest⟩ := Reachable.exists_reflow_of_any (α := Rat)
    ⟨10, 5, 2, .vertical, true, 1⟩
    [.setTotal 20, .setViewport ⟨20, 30⟩, .moveTo 46,
      .recordAll ((List.range 20).map fun i => (i, ⟨6, none, ⟨1, 2⟩⟩))]
    (fun _ l : Layout Rat => decide (l.stable = true ∧ l.range = some ⟨4, 7, 4, 6⟩ ∧
        l.book.PositiveSizes ∧ l.book.NonnegMargins ∧
        (∀ i : Nat, i < 9 → 4 ≤ i →
          (l.spaceBefore i).value ≤ l.viewport.main + 2 * l.options.overhang) ∧
        (l.moveTo 52).2.refreshVisible.2.range = some ⟨4, 7, 5, 7⟩) &&
      (l.moveTo 52).2.needsPass.toOption.any (! ·) &&
      (l.moveTo 52).2.reflow.toOption.any fun (_, _, l') => decide (l'.range = some ⟨5, 7, 5, 7⟩))
    (by simp [Request.Representable, Index.limit]) (by decide +kernel)
  simp only [Bool.and_eq_true, decide_eq_true_eq] at htest
  obtain ⟨⟨⟨hstable, hrange, hsizes, hmargins, hspaces, hshown⟩, hneeds⟩, hpassed⟩ := htest
  obtain ⟨needs, hneeds, hnot⟩ := exists_ok_of_any hneeds
  obtain rfl : needs = false := by simpa using hnot
  obtain ⟨report', events', l', r', r'', hpass, -, hstable', hrange', hrange'', hfirst, hlast⟩ :=
    hl.visible_without_pass hreflow hstable hrange hsizes hmargins
      (fun i hi hi' => hspaces i (Nat.lt_succ_of_le hi') hi) 52 hneeds
  obtain ⟨⟨report₁, events₁, l₁⟩, hpass₁, hwindow⟩ := exists_ok_of_any hpassed
  have hsame := Except.ok.inj (hpass.symm.trans hpass₁)
  cases hsame
  obtain rfl := Option.some.inj (hrange'.symm.trans (of_decide_eq_true hwindow))
  obtain rfl := Option.some.inj (hrange''.symm.trans hshown)
  exact ⟨l₀, l, l', report, report', events, events', _, _, hl, hreflow, hstable, hrange, hneeds,
    hpass, hstable', hrange', hrange'', hfirst, hlast, rfl, rfl⟩

end Layout

end VirtualList
