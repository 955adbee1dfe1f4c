import VirtualList.Proofs.Layout.Consistency
import VirtualList.Proofs.Layout.Inputs

/-!
# Where a stable window comes to lie

In exact arithmetic and without negative margins nothing that a pass adds up is negative.  A
window then grows outward from its anchor, and a stable one is moved so that all of it lies
between zero and the extent.

## Key results

- `NonnegExtents`, `Reachable.nonnegExtents`: no size and no space is negative
- `growWindow_edges`: the anchor with its spaces lies within the edges of the window
- `sub_extentError_nonneg`, `le_extentFrom`: a stable window lies between zero and the extent
- `Takes.anchor_in_extent`: so does the anchor of a stable pass
-/

namespace VirtualList

/-- In exact arithmetic the larger of two values is the usual one. -/
theorem Scalar.max_eq (a b : Rat) : Scalar.max a b = Max.max a b := (max_def a b).symm

/-- Neither of two values is larger than the larger one. -/
theorem Scalar.le_max (a b : Rat) : a ≤ Scalar.max a b ∧ b ≤ Scalar.max a b := by
  rw [Scalar.max_eq]
  exact ⟨le_max_left a b, le_max_right a b⟩

/-- And so is the smaller one. -/
theorem Scalar.min_eq (a b : Rat) : Scalar.min a b = Min.min a b := (min_def a b).symm

namespace Layout

/-- No size, no space and no average step from one item to the next is negative. -/
structure NonnegExtents (l : Layout Rat) : Prop where
  size : ∀ i, 0 ≤ (l.book.sizeOf i).value
  space : ∀ i, 0 ≤ (l.spaceBefore i).value
  step : 0 ≤ l.averageDelta

/-- In a run no extent is negative as long as no margin is. -/
theorem Reachable.nonnegExtents {l : Layout Rat} (h : Reachable l)
    (hmargins : l.book.NonnegMargins) : l.NonnegExtents where
  size i := h.sizeOf_nonneg i
  space i := by
    have hmargin := SizeBook.marginBefore_nonneg h.book_sound h.book_tallied hmargins i
    have hgap := h.gap_nonneg
    -- Only a space between two items has a gap in it.
    simp only [spaceBefore, Size.value_map]
    split
    · linarith
    · linarith
  step := by
    have hsize := SizeBook.estimate_nonneg h.book_sound h.book_tallied h.defaultEstimate_nonneg
    have hmargin := SizeBook.averageMargin_nonneg h.book_sound h.book_tallied hmargins
    have hgap := h.gap_nonneg
    unfold averageDelta
    linarith

/-- In a run the average step from one item to the next is positive as soon as an item has been
measured, if every size on record is. -/
theorem Reachable.averageDelta_pos {l : Layout Rat} (h : Reachable l)
    (hmargins : l.book.NonnegMargins) (hsizes : l.book.PositiveSizes) {i : Nat}
    {m : Measurement Rat} (hi : l.book.recorded? i = some m) : 0 < l.averageDelta := by
  have hsize := SizeBook.estimate_pos h.book_tallied hsizes hi
  have hmargin := SizeBook.averageMargin_nonneg h.book_sound h.book_tallied hmargins
  have hgap := h.gap_nonneg
  unfold averageDelta
  linarith

variable {l : Layout Rat}

/-- Extents depend on the inputs only. -/
theorem NonnegExtents.congr {l' : Layout Rat} (h : l.NonnegExtents)
    (hoptions : l'.options = l.options) (htotal : l'.total = l.total) (hbook : l'.book = l.book) :
    l'.NonnegExtents where
  size i := by
    rw [hbook]
    exact h.size i
  space i := by
    have heq : l'.spaceBefore i = l.spaceBefore i := by
      unfold spaceBefore
      rw [hoptions, htotal, hbook]
    rw [heq]
    exact h.space i
  step := by
    have heq : l'.averageDelta = l.averageDelta := by
      unfold averageDelta
      rw [hoptions, hbook]
    rw [heq]
    exact h.step

/-- A pass does not bring in a negative extent. -/
theorem NonnegExtents.of_keepsInputs {l' : Layout Rat} (hkept : KeepsInputs l l')
    (h : l'.NonnegExtents) : l.NonnegExtents where
  size i := by
    rw [← hkept.agrees.sizeOf_eq]
    exact h.size i
  space i := by
    rw [← hkept.spaceBefore_eq]
    exact h.space i
  step := by
    rw [← hkept.averageDelta_eq]
    exact h.step

/-- Nor does it take one out. -/
theorem NonnegExtents.keepsInputs {l' : Layout Rat} (hkept : KeepsInputs l l')
    (h : l.NonnegExtents) : l'.NonnegExtents where
  size i := by
    rw [hkept.agrees.sizeOf_eq]
    exact h.size i
  space i := by
    rw [hkept.spaceBefore_eq]
    exact h.space i
  step := by
    rw [hkept.averageDelta_eq]
    exact h.step

/-! ## The edges of a window -/

/-- Growing backward moves the leading edge backward. -/
theorem growBackward_edge_le (h : l.NonnegExtents) (lower : Rat) (first : Nat) (edge : Rat)
    (stable : Bool) (items : List (PlacedItem Rat)) :
    (l.growBackward lower first edge stable items).edge ≤ edge := by
  induction first generalizing edge stable items with
  | zero => exact le_refl edge
  | succ i ih =>
    have hsize := h.size i
    have hspace := h.space i
    have hnext : edge - (l.book.sizeOf i).value - (l.spaceBefore i).value ≤ edge := by linarith
    unfold growBackward
    split
    · simp only
      split
      · exact le_trans (ih _ _ _) hnext
      · exact hnext
    · exact le_refl edge

/-- Growing forward moves the trailing edge forward. -/
theorem le_growForward_edge (h : l.NonnegExtents) {upper : Rat} {remaining last : Nat} {edge : Rat}
    {stable : Bool} {g : Growth Rat}
    (hg : l.growForward upper remaining last edge stable = .ok g) : edge ≤ g.edge := by
  induction remaining generalizing last edge stable g with
  | zero =>
    cases hg
    exact le_refl edge
  | succ remaining ih =>
    unfold growForward at hg
    split at hg
    · simp only [bind_eq_ok, Index.succ_eq_ok_iff] at hg
      obtain ⟨i, ⟨-, rfl⟩, next, ⟨-, rfl⟩, hg⟩ := hg
      have hsize := h.size (last + 1)
      have hspace := h.space (last + 1 + 1)
      have hnext : edge ≤ edge +
          ((l.book.sizeOf (last + 1)).value + (l.spaceBefore (last + 1 + 1)).value) := by linarith
      split at hg
      · obtain ⟨rest, hrest, hg⟩ := bind_eq_ok.1 hg
        cases hg
        have hgrown := ih hrest
        exact le_trans hnext hgrown
      · cases hg
        exact hnext
    · cases hg
      exact le_refl edge

/-- The anchor with its spaces lies within the edges of the window. -/
theorem growWindow_edges (h : l.NonnegExtents) {final : Nat} {f : Footing Rat} {b : Bounds Rat}
    {s : Strip Rat} (hs : l.growWindow final f b = .ok s) : s.lower ≤ f.lower ∧ f.upper ≤ s.upper := by
  simp only [growWindow, bind_eq_ok] at hs
  obtain ⟨ahead, hahead, hs⟩ := hs
  cases hs
  exact ⟨growBackward_edge_le h _ _ _ _ _, le_growForward_edge h hahead⟩

/-! ## A stable window in its place -/

/-- A stable window is moved by some growth, and then by the error that is left: this is where its
leading edge comes to lie. -/
theorem settled_lower {c : Course Rat} (hstable : c.strip.stable = true) :
    ∃ growth, c.strip.lower + c.offset = c.strip.lower + growth -
      c.base.extentError (c.base.total - 1) c.strip (c.strip.lower + growth)
        (c.strip.upper + growth) := by
  obtain ⟨growth, hoffset⟩ : ∃ growth,
      c.base.settlingOffset (c.base.total - 1) c.source c.anchor.index c.strip =
        growth - c.base.extentError (c.base.total - 1) c.strip (c.strip.lower + growth)
          (c.strip.upper + growth) := ⟨_, rfl⟩
  refine ⟨growth, ?_⟩
  rw [Course.offset, if_pos hstable, hoffset]
  ring

/-- Corrected by its error a window does not start in front of the list. -/
theorem sub_extentError_nonneg (h : l.NonnegExtents) (final : Nat) (s : Strip Rat)
    (lower upper : Rat) : 0 ≤ lower - l.extentError final s lower upper := by
  unfold extentError
  -- With the first item the window has to start at zero; else there has to be room for the items
  -- in front of it, by their average step.
  split
  · linarith
  · split
    · have hstep := h.step
      have hroom : 0 ≤ (s.first : Rat) * l.averageDelta := by positivity
      linarith
    · split
      · linarith
      · linarith

/-- The extent does not end in front of the window. -/
theorem le_extentFrom (h : l.NonnegExtents) {final last : Nat} {upper scrollSize : Rat}
    (hsize : l.extentFrom final last upper = .ok scrollSize) : upper ≤ scrollSize := by
  obtain ⟨beyond, -, hsize⟩ := bind_eq_ok.1 hsize
  cases hsize
  have hstep := h.step
  have hbeyond : 0 ≤ (beyond : Rat) * l.averageDelta := by positivity
  calc upper
      ≤ upper + (beyond : Rat) * l.averageDelta := by linarith
    _ ≤ Scalar.max l.baseExtent _ := (Scalar.le_max _ _).2
    _ ≤ Scalar.max _ l.options.minScrollSize := (Scalar.le_max _ _).1

/-- After a stable pass its anchor lies between zero and the extent. -/
theorem Takes.anchor_in_extent {o : Layout Rat} {c : Course Rat} (h : o.Takes c)
    (ho : o.NonnegExtents) (hstable : c.strip.stable = true) :
    0 ≤ (c.footing.item.shift c.offset).position ∧
      (c.footing.item.shift c.offset).finish ≤ c.scrollSize := by
  have hbase : c.base.NonnegExtents := ho.congr h.base_options h.base_total h.base_book
  -- The anchor with its spaces lies within the window, and the spaces are not negative.
  obtain ⟨hlower, hupper⟩ := growWindow_edges hbase h.grow
  have hfooting := (footing_eq_ok h.footing).2
  have hlead : 0 ≤ c.footing.lead := by
    rw [hfooting]
    exact hbase.space _
  have htrail : 0 ≤ c.footing.trail := by
    rw [hfooting]
    exact hbase.space _
  have hend := le_extentFrom hbase h.extent
  -- In its place the window starts at its lower edge, moved by the growth above the anchor and
  -- corrected by the error that is left then.
  have hstart : 0 ≤ c.strip.lower + c.offset := by
    obtain ⟨growth, heq⟩ := settled_lower hstable
    rw [heq]
    exact sub_extentError_nonneg hbase _ _ _ _
  simp only [Footing.lower, Footing.upper] at hlower hupper
  simp only [PlacedItem.finish, PlacedItem.shift, Footing.item]
  constructor
  · linarith
  · linarith

end Layout

end VirtualList
