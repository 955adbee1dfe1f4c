import VirtualList.Proofs.Layout.SettledOrder

/-!
# The visible part of a window is exact

The search for the visible part passes over items from both sides of a window.  Where the items lie
one behind the other, no item between the two that it stops at can lie outside the viewport, so the
visible part holds the items of the window that lie in the viewport and no others.

Without negative margins a published window is in order, and it stays so until the next pass,
whatever is measured, set or scrolled in between: the visible part can be worked out from it again
at any time.

## Key results

- `InOrder.visible_iff`: the visible part of items in order
- `ShowsExactly`: the visible part of the window is made up of the items in the viewport
- `reflow_showsExactly`, `refreshVisible_showsExactly`: it is after a pass, and when it is worked
  out again
- `run_shows_exactly`: the visible part is exact in every run without negative margins
-/

namespace VirtualList

/-- Of items in order exactly those lie between the ends of the visible part that lie in the
viewport, if any of them does. -/
theorem InOrder.visible_iff {items : List (PlacedItem Rat)} {first : Nat} {position view : Rat}
    {x y : PlacedItem Rat} (horder : InOrder items) (hitems : Consecutive items first)
    (hends : visibleEnds items position view = some (x, y))
    (hseen : ∃ item ∈ items, position < item.finish ∧ item.position < position + view)
    {item : PlacedItem Rat} (hitem : item ∈ items) :
    x.index ≤ item.index ∧ item.index ≤ y.index ↔
      position < item.finish ∧ item.position < position + view := by
  obtain ⟨seen, hseen, hended, hstarts⟩ := hseen
  obtain ⟨hx, hy⟩ := visibleEnds_meet hends hseen (not_le.2 hended) (not_le.2 hstarts)
  obtain ⟨hxmem, hymem, -⟩ := visibleEnds_mem hitems hends
  rw [not_le] at hx hy
  constructor
  · intro hbetween
    obtain ⟨hxi, hiy⟩ := hbetween
    have hsize := horder.size_nonneg item hitem
    constructor
    · -- The item is the first visible one, or lies behind it.
      rcases Nat.eq_or_lt_of_le hxi with heq | hlt
      · rwa [← hitems.index_inj hxmem hitem heq]
      · have hbehind := hitems.rel_of_lt horder.pairwise hxmem hitem hlt
        calc position
            < x.finish := hx
          _ ≤ item.position := hbehind
          _ ≤ item.finish := le_add_of_nonneg_right hsize
    · -- It is the last visible one, or lies in front of it.
      rcases Nat.eq_or_lt_of_le hiy with heq | hlt
      · rwa [hitems.index_inj hitem hymem heq]
      · have hahead := hitems.rel_of_lt horder.pairwise hitem hymem hlt
        calc item.position
            ≤ item.finish := le_add_of_nonneg_right hsize
          _ ≤ y.position := hahead
          _ < position + view := hy
  · intro hseen
    exact visibleEnds_of_meets hitems hends hitem (not_le.2 hseen.1) (not_le.2 hseen.2)

namespace Layout

variable {l l' o : Layout Rat} {c : Course Rat}

/-! ## The visible part of a layout -/

/-- The item lies in the viewport, at least in part. -/
def InView (l : Layout Rat) (item : PlacedItem Rat) : Prop :=
  l.scrollPosition < item.finish ∧ item.position < l.scrollPosition + l.viewport.main

instance (l : Layout Rat) (item : PlacedItem Rat) : Decidable (l.InView item) :=
  inferInstanceAs (Decidable (_ ∧ _))

/-- The visible part of the window is made up of the published items that lie in the viewport, as
long as there are any. -/
def ShowsExactly (l : Layout Rat) : Prop :=
  ∀ r, l.range = some r → (∃ item ∈ l.published, l.InView item) →
    ∀ i, r.isVisible i = true ↔ ∃ item, l.item? i = some item ∧ l.InView item

/-- The visible part of the window is what the search for it finds. -/
def Refreshed (l : Layout Rat) : Prop :=
  ∀ r, l.range = some r → ∃ x y,
    visibleEnds l.published l.scrollPosition l.viewport.main = some (x, y) ∧
      r.firstVisible = x.index ∧ r.lastVisible = y.index

/-- What the search for the visible part finds in a window in order is exact. -/
theorem Refreshed.showsExactly (h : l.Refreshed) (hl : l.Consistent)
    (horder : InOrder l.published) : l.ShowsExactly := by
  intro r hr hseen i
  obtain ⟨x, y, hends, hfirst, hlast⟩ := h r hr
  obtain ⟨hcons, hlength⟩ := hl.published_consecutive hr
  have hiff {item : PlacedItem Rat} (hitem : item ∈ l.published) :=
    horder.visible_iff hcons hends hseen hitem
  rw [WindowRange.isVisible, decide_eq_true_eq, hfirst, hlast]
  constructor
  · intro hbetween
    -- The visible part lies in the window, so there is an item with this index.
    obtain ⟨hxmem, hymem, -⟩ := visibleEnds_mem hcons hends
    have hlow := (hcons.index_bounds hxmem).1
    have hhigh := (hcons.index_bounds hymem).2
    obtain ⟨item, hitem, rfl⟩ := hcons.exists_mem (i := i) (by omega) (by omega)
    exact ⟨item, hcons.find?_eq hitem, (hiff hitem).1 hbetween⟩
  · intro hitem
    obtain ⟨item, hfind, hinView⟩ := hitem
    have hindex : item.index = i := by simpa using List.find?_some hfind
    rw [← hindex]
    exact (hiff (List.mem_of_find?_eq_some hfind)).2 hinView

/-! ## After a pass and without one -/

/-- A pass finds the visible part of its window after the last change of the scroll position. -/
theorem reflow_refreshed {report : PassReport Rat} {events : List (LayoutEvent Rat)}
    (h : l.reflow = .ok (report, events, l')) : l'.Refreshed := by
  obtain ⟨moved, after, hpass, -, -, rfl⟩ := reflow_cases h
  obtain ⟨o, hopen, ⟨-, -, rfl⟩ | ⟨-, c, hcourse, -, rfl⟩⟩ := pass_cases hpass
  · exact fun r hr => nomatch hr
  · intro r hr
    cases hr
    exact ⟨_, _, hcourse.visible, rfl, rfl⟩

/-- After a pass the visible part of the window is exact. -/
theorem Reachable.reflow_showsExactly {report : PassReport Rat} {events : List (LayoutEvent Rat)}
    (hl : Reachable l) (hmargins : l.book.NonnegMargins)
    (h : l.reflow = .ok (report, events, l')) : l'.ShowsExactly := by
  have horder := reflow_published_inOrder (hl.nonnegExtents hmargins) h
  exact (reflow_refreshed h).showsExactly (hl.reflow h).consistent horder

theorem refreshVisible_refreshed (hl : l.Consistent) : l.refreshVisible.2.Refreshed := by
  cases hrange : l.range with
  | none =>
    intro r hr
    have hsame : l.refreshVisible.2 = l := by simp [refreshVisible, hrange]
    rw [hsame, hrange] at hr
    cases hr
  | some r₀ =>
    have hne : l.published ≠ [] := fun hnil => by simp [hl.range_eq_none_iff.2 hnil] at hrange
    obtain ⟨x, y, hends⟩ := visibleEnds_ne_none hne l.scrollPosition l.viewport.main
    have hmoved := refreshVisible_range hrange hends
    obtain ⟨range, heq⟩ := l.refreshVisible_eq
    intro r hr
    rw [hmoved] at hr
    cases hr
    rw [heq]
    exact ⟨x, y, hends, rfl, rfl⟩

/-- When the visible part of a window in order is worked out again, it is exact. -/
theorem refreshVisible_showsExactly (hl : l.Consistent) (horder : InOrder l.published) :
    l.refreshVisible.2.ShowsExactly := by
  refine (refreshVisible_refreshed hl).showsExactly hl.refreshVisible ?_
  obtain ⟨range, heq⟩ := l.refreshVisible_eq
  rw [heq]
  exact horder

/-! ## Runs without negative margins -/

/-- Every request keeps the published window in order. -/
theorem Effect.published_inOrder {r : Request Rat} (hl : Reachable l)
    (hmargins : l.book.NonnegMargins) (hpublished : InOrder l.published) (h : Effect l r l') :
    InOrder l'.published := by
  cases h with
  | passed hreflow => exact reflow_published_inOrder (hl.nonnegExtents hmargins) hreflow
  | _ => exact hpublished

/-- In exact arithmetic, as long as there is no negative margin on record, the visible part of the
window is exact: wherever a run of requests to a new layout leads,

* a pass that is run there leaves a window whose visible part is made up of the published items that
  lie in the viewport, as long as there are any;
* so does working out the visible part again, without a pass, whatever has happened since the
  window was published. -/
theorem run_shows_exactly {options : Options Rat} {l₀ : Layout Rat} {rs : List (Request Rat)}
    (hstart : ofOptions options = .ok l₀) (hrs : ∀ r ∈ rs, r.Representable)
    (hmargins : l₀.NonnegMarginsThroughout rs) :
    ∃ l, l₀.run rs = .ok l ∧
      (∃ report events l', l.reflow = .ok (report, events, l') ∧ l'.ShowsExactly) ∧
      l.refreshVisible.2.ShowsExactly := by
  have hnew : InOrder l₀.settled ∧ InOrder l₀.published := by
    obtain ⟨u, -, h⟩ := bind_eq_ok.1 hstart
    cases h
    exact ⟨.nil, .nil⟩
  obtain ⟨l, hrun, hl, hnow, hsettled, hpublished⟩ :=
    hmargins.induction (P := fun l => InOrder l.settled ∧ InOrder l.published) (.start hstart) hrs
      hnew (fun l hl hboth => hl.respond_exists_ok hboth.1)
      fun l r l' hl hnow hboth h =>
        ⟨h.settled_inOrder hl hnow hboth.1, h.published_inOrder hl hnow hboth.2⟩
  obtain ⟨answer, l', hrespond⟩ := hl.respond_exists_ok hsettled .reflow
  obtain ⟨⟨report, events, l₁⟩, hreflow, -⟩ := bind_eq_ok.1 hrespond
  exact ⟨l, hrun, ⟨report, events, l₁, hreflow, hl.reflow_showsExactly hnow hreflow⟩,
    refreshVisible_showsExactly hl.consistent hpublished⟩

/-- Eight items with margins, one of them without a size.  After a pass the third one grows, the gap
becomes larger, and the list is scrolled on: without another pass the item without a size comes
first among those that are visible, and there are items of the window in front of it and behind the
last visible one. -/
theorem run_shows_exactly_of_scrolledOn : ∃ (l₀ l l' : Layout Rat) (rs : List (Request Rat))
    (r : WindowRange) (report : PassReport Rat) (events : List (LayoutEvent Rat)),
    ofOptions (⟨10, 40, 2, .vertical, true, 1⟩ : Options Rat) = .ok l₀ ∧
      l₀.NonnegMarginsThroughout rs ∧ l₀.run rs = .ok l ∧
      l.refreshVisible.2.range = some r ∧ r.first < r.firstVisible ∧
      (l.book.sizeOf r.firstVisible).value = 0 ∧ r.firstVisible < r.lastVisible ∧
      r.lastVisible < r.last ∧
      (∀ i, r.isVisible i = true ↔
        ∃ item, l.refreshVisible.2.item? i = some item ∧ l.refreshVisible.2.InView item) ∧
      l.reflow = .ok (report, events, l') ∧ l'.ShowsExactly := by
  let rs : List (Request Rat) := [.setTotal 8, .setViewport ⟨30, 30⟩,
    .recordAll ((List.range 8).map fun i => (i, ⟨if i = 2 then 0 else 10, none, ⟨1, 2⟩⟩)),
    .reflow, .record 3 ⟨20, none, ⟨1, 2⟩⟩, .setOptions ⟨10, 40, 6, .vertical, true, 1⟩,
    .moveTo 28]
  have htest : ((ofOptions (⟨10, 40, 2, .vertical, true, 1⟩ : Options Rat)).toOption.any fun l₀ =>
      decide l₀.book.NonnegMargins && (l₀.run rs).toOption.any fun l =>
        l.refreshVisible.2.range.any fun r => decide (r.first < r.firstVisible ∧
          (l.book.sizeOf r.firstVisible).value = 0 ∧ r.firstVisible < r.lastVisible ∧
          r.lastVisible < r.last ∧
          ∃ item ∈ l.refreshVisible.2.published, l.refreshVisible.2.InView item)) = true := by
    decide +kernel
  obtain ⟨l₀, hstart, htest⟩ := exists_ok_of_any htest
  obtain ⟨hnew, htest⟩ := Bool.and_eq_true_iff.1 htest
  obtain ⟨l, hrun, htest⟩ := exists_ok_of_any htest
  obtain ⟨r, hrange, htest⟩ := Option.any_eq_true _ _ |>.1 htest
  obtain ⟨hfront, hempty, hseveral, hbehind, hseen⟩ := of_decide_eq_true htest
  have hmargins : l₀.NonnegMarginsThroughout rs :=
    nonnegMarginsThroughout_of_requests (by decide +kernel) (of_decide_eq_true hnew)
  obtain ⟨l₁, hrun₁, ⟨report, events, l', hreflow, hpass⟩, hagain⟩ :=
    run_shows_exactly hstart (by simp [rs, Request.Representable, Index.limit]) hmargins
  obtain rfl : l = l₁ := Except.ok.inj (hrun.symm.trans hrun₁)
  exact ⟨l₀, l, l', rs, r, report, events, hstart, hmargins, hrun, hrange, hfront, hempty, hseveral,
    hbehind, hagain r hrange hseen, hreflow, hpass⟩

end Layout

end VirtualList
