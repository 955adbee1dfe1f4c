import Mathlib.Algebra.BigOperators.Intervals
import VirtualList.Proofs.Layout.Consistency
import VirtualList.Proofs.Layout.Inputs

/-!
# How a window tiles the scroll axis

A window is put together from sizes and spaces, one after the other, starting at its anchor and
going outward.  In exact arithmetic it does not matter where this starts: every item lies where the
sizes and spaces in front of it add up to, counted from the leading edge of the window.

## Key results

- `itemsLength`, `placeFrom`: where items lie that tile the axis from an edge on
- `growBackward_tiles`, `growForward_tiles`: one induction for each direction
- `Takes.items_tile`: the window that a pass publishes tiles the axis from edge to edge
-/

namespace VirtualList.Layout

variable {l : Layout Rat}

/-! ## Lengths -/

/-- The length of the items from `a` up to, but not including, `b`, each together with the space in
front of it. -/
def itemsLength (l : Layout Rat) (a b : Nat) : Rat :=
  ∑ k ∈ Finset.Ico a b, ((l.spaceBefore k).value + (l.book.sizeOf k).value)

@[simp] theorem itemsLength_self (l : Layout Rat) (a : Nat) : l.itemsLength a a = 0 := by
  simp [itemsLength]

theorem itemsLength_succ (l : Layout Rat) {a b : Nat} (h : a ≤ b) : l.itemsLength a (b + 1) =
    l.itemsLength a b + ((l.spaceBefore b).value + (l.book.sizeOf b).value) := by
  simp only [itemsLength, Finset.sum_Ico_succ_top h]

/-- From the start of the list on, sizes and spaces can be added up separately. -/
theorem itemsLength_zero (l : Layout Rat) (b : Nat) : l.itemsLength 0 b =
    ∑ k ∈ Finset.range b, (l.spaceBefore k).value +
      ∑ k ∈ Finset.range b, (l.book.sizeOf k).value := by
  simp only [itemsLength, Nat.Ico_zero_eq_range, Finset.sum_add_distrib]

/-- Where item `i` lies if the items from `first` on tile the axis from `lower` on. -/
def placeFrom (l : Layout Rat) (lower : Rat) (first i : Nat) : Rat :=
  lower + l.itemsLength first i + (l.spaceBefore i).value

theorem placeFrom_self (l : Layout Rat) (lower : Rat) (first : Nat) :
    l.placeFrom lower first first = lower + (l.spaceBefore first).value := by
  simp [placeFrom]

/-- An item lies behind the one before it and the space between the two. -/
theorem placeFrom_succ (l : Layout Rat) (lower : Rat) {first i : Nat} (h : first ≤ i) :
    l.placeFrom lower first (i + 1) =
      l.placeFrom lower first i + (l.book.sizeOf i).value + (l.spaceBefore (i + 1)).value := by
  simp only [placeFrom, itemsLength_succ l h]
  ring

theorem placeFrom_add (l : Layout Rat) (lower offset : Rat) (first i : Nat) :
    l.placeFrom (lower + offset) first i = l.placeFrom lower first i + offset := by
  simp only [placeFrom]
  ring

/-- Lengths depend on the inputs only. -/
theorem KeepsInputs.placeFrom_eq {l' : Layout Rat} (h : KeepsInputs l l') (lower : Rat)
    (first i : Nat) : l'.placeFrom lower first i = l.placeFrom lower first i := by
  simp only [placeFrom, itemsLength, h.spaceBefore_eq, h.agrees.sizeOf_eq]

/-! ## Growth in one direction -/

/-- What is placed by growing backward from item `first` tiles the axis up to the `edge` at which
it started. -/
structure TilesBackward (l : Layout Rat) (first : Nat) (edge : Rat) (items : List (PlacedItem Rat))
    (g : Growth Rat) : Prop where
  reached_le : g.reached ≤ first
  edge_eq : edge = g.edge + l.itemsLength g.reached first
  position_eq : ∀ x ∈ g.items, x ∈ items ∨ x.position = l.placeFrom g.edge g.reached x.index

namespace TilesBackward

variable {first i : Nat} {edge : Rat} {items : List (PlacedItem Rat)} {g : Growth Rat}

theorem stop (l : Layout Rat) (first : Nat) (edge : Rat) (stable : Bool)
    (items : List (PlacedItem Rat)) : l.TilesBackward first edge items ⟨items, first, edge, stable⟩ where
  reached_le := Nat.le_refl _
  edge_eq := by simp
  position_eq x hx := Or.inl hx

/-- The item in front is placed before whatever comes in front of that. -/
theorem add (h : l.TilesBackward i (edge - (l.book.sizeOf i).value - (l.spaceBefore i).value)
    (⟨i, edge - (l.book.sizeOf i).value, (l.book.sizeOf i).value⟩ :: items) g) :
    l.TilesBackward (i + 1) edge items g where
  reached_le := by
    have := h.reached_le
    omega
  edge_eq := by
    rw [itemsLength_succ l h.reached_le]
    have := h.edge_eq
    linarith
  position_eq x hx := by
    rcases h.position_eq x hx with hmem | hplace
    · rcases List.mem_cons.1 hmem with rfl | hmem
      · -- The item ends at the old edge.
        right
        have := h.edge_eq
        simp only [placeFrom]
        linarith
      · exact Or.inl hmem
    · exact Or.inr hplace

end TilesBackward

theorem growBackward_tiles (l : Layout Rat) (lower : Rat) (first : Nat) (edge : Rat)
    (stable : Bool) (items : List (PlacedItem Rat)) :
    l.TilesBackward first edge items (l.growBackward lower first edge stable items) := by
  induction first generalizing edge stable items with
  | zero => exact .stop l 0 edge stable items
  | succ i ih =>
    unfold growBackward
    split
    · simp only
      split
      · exact (ih _ _ _).add
      · exact (TilesBackward.stop l i _ _ _).add
    · exact .stop l (i + 1) edge stable items

/-- Growing forward goes on tiling the axis from where the window starts. -/
theorem growForward_tiles {lower upper edge : Rat} {first remaining last : Nat} {stable : Bool}
    {g : Growth Rat} (hfirst : first ≤ last + 1)
    (hedge : edge = l.placeFrom lower first (last + 1))
    (h : l.growForward upper remaining last edge stable = .ok g) :
    g.edge = l.placeFrom lower first (g.reached + 1) ∧
      ∀ x ∈ g.items, x.position = l.placeFrom lower first x.index := by
  induction remaining generalizing last edge stable g with
  | zero =>
    cases h
    simp [hedge]
  | succ remaining ih =>
    unfold growForward at h
    split at h
    · simp only [bind_eq_ok, Index.succ_eq_ok_iff] at h
      obtain ⟨i, ⟨-, rfl⟩, next, ⟨-, rfl⟩, h⟩ := h
      have hnext : edge + ((l.book.sizeOf (last + 1)).value + (l.spaceBefore (last + 1 + 1)).value) =
          l.placeFrom lower first (last + 1 + 1) := by
        rw [placeFrom_succ l lower hfirst, hedge]
        ring
      split at h
      · obtain ⟨rest, hrest, h⟩ := bind_eq_ok.1 h
        cases h
        obtain ⟨hlast, hitems⟩ := ih (by omega) hnext hrest
        exact ⟨hlast, List.forall_mem_cons.2 ⟨hedge, hitems⟩⟩
      · cases h
        exact ⟨hnext, by simp [hedge]⟩
    · cases h
      simp [hedge]

/-! ## The whole window -/

/-- The items of the window lie one after the other between its edges, with their spaces. -/
structure Tiles (l : Layout Rat) (s : Strip Rat) : Prop where
  position_eq : ∀ x ∈ s.items, x.position = l.placeFrom s.lower s.first x.index
  size_eq : ∀ x ∈ s.items, x.size = (l.book.sizeOf x.index).value
  upper_eq : s.upper = l.placeFrom s.lower s.first (s.last + 1)

/-- A window that has grown backward from its anchor places the anchor, and ends behind it. -/
theorem footing_place {a : Anchor Rat} {f : Footing Rat} {lower : Rat} {first : Nat}
    (hf : l.footing a = .ok f) (hfirst : first ≤ f.anchor.index)
    (hlower : f.lower = lower + l.itemsLength first f.anchor.index) :
    f.anchor.position = l.placeFrom lower first f.anchor.index ∧
      f.upper = l.placeFrom lower first (f.anchor.index + 1) := by
  obtain ⟨-, hfooting⟩ := footing_eq_ok hf
  have hsize : f.size = (l.book.sizeOf f.anchor.index).value := by rw [hfooting]
  have hlead : f.lead = (l.spaceBefore f.anchor.index).value := by rw [hfooting]
  have htrail : f.trail = (l.spaceBefore (f.anchor.index + 1)).value := by rw [hfooting]
  -- The anchor lies where the items in front of it end.
  have hanchor : f.anchor.position = l.placeFrom lower first f.anchor.index := by
    simp only [Footing.lower] at hlower
    rw [placeFrom, ← hlower, hlead]
    ring
  refine ⟨hanchor, ?_⟩
  rw [placeFrom_succ l lower hfirst, Footing.upper, hanchor, hsize, htrail]

/-- A window tiles the axis, wherever its anchor is. -/
theorem growWindow_tiles {final : Nat} {a : Anchor Rat} {f : Footing Rat} {b : Bounds Rat}
    {s : Strip Rat} (hf : l.footing a = .ok f) (hfinal : f.anchor.index ≤ final)
    (h : l.growWindow final f b = .ok s) : l.Tiles s := by
  have hspans := growWindow_spans h hfinal
  have hsize : f.size = (l.book.sizeOf f.anchor.index).value := by rw [(footing_eq_ok hf).2]
  simp only [growWindow, bind_eq_ok] at h
  obtain ⟨ahead, hahead, h⟩ := h
  obtain ⟨hle, hlower, hback⟩ := l.growBackward_tiles b.lower f.anchor.index f.lower f.stable []
  generalize l.growBackward b.lower f.anchor.index f.lower f.stable [] = back at *
  cases h
  obtain ⟨hanchor, hupper⟩ := footing_place hf hle hlower
  obtain ⟨hlast, hahead⟩ := growForward_tiles (by omega) hupper hahead
  refine ⟨fun x hx => ?_, fun x hx => ?_, hlast⟩
  · rcases List.mem_append.1 hx with hx | hx
    · simpa using hback x hx
    · rcases List.mem_cons.1 hx with rfl | hx
      · exact hanchor
      · exact hahead x hx
  · rcases hspans.size_eq x hx with rfl | heq
    · exact hsize
    · exact heq

namespace Takes

variable {o : Layout Rat} {c : Course Rat}

/-- The window tiles the axis before it is moved to its place. -/
theorem strip_tiles (hopen : l.opened = .ok o) (h : o.Takes c) : c.base.Tiles c.strip := by
  have hlt := h.anchor_lt hopen
  refine growWindow_tiles h.footing ?_ h.grow
  rw [h.footing_index, h.base_total]
  omega

/-- The items that a pass publishes tile the axis, from the leading edge of the window on. -/
theorem items_tile (hopen : l.opened = .ok o) (h : o.Takes c) : ∀ item ∈ c.items,
    item.position = c.outcome.placeFrom (c.strip.lower + c.offset) c.strip.first item.index ∧
      item.size = (c.outcome.book.sizeOf item.index).value := by
  intro item hitem
  obtain ⟨x, hx, rfl⟩ := List.mem_map.1 hitem
  have htiles := h.strip_tiles hopen
  have hkept := KeepsInputs.outcome c
  rw [hkept.placeFrom_eq, hkept.agrees.sizeOf_eq, placeFrom_add]
  refine ⟨?_, htiles.size_eq x hx⟩
  show x.position + c.offset = _
  rw [htiles.position_eq x hx]
  rfl

/-- Every item of the window is published in the place where the items before it end. -/
theorem exists_item (hopen : l.opened = .ok o) (h : o.Takes c) {i : Nat}
    (hfirst : c.strip.first ≤ i) (hlast : i ≤ c.strip.last) :
    ∃ item, c.outcome.item? i = some item ∧
      item.position = c.outcome.placeFrom (c.strip.lower + c.offset) c.strip.first i ∧
      item.size = (c.outcome.book.sizeOf i).value := by
  obtain ⟨item, hmem, hindex⟩ : ∃ item ∈ c.items, item.index = i := by
    rw [← List.mem_map, h.items_indices hopen, List.mem_range'_1]
    omega
  have hplace := h.items_tile hopen item hmem
  have hfind := (h.items_consecutive hopen).find?_eq hmem
  rw [hindex] at hplace hfind
  exact ⟨item, hfind, hplace⟩

/-- The first item of the window is published behind the leading edge and the space in front of
it. -/
theorem exists_head (hopen : l.opened = .ok o) (h : o.Takes c) :
    ∃ head, c.outcome.item? c.strip.first = some head ∧
      head.position - (c.outcome.spaceBefore c.strip.first).value = c.strip.lower + c.offset := by
  have hspan := h.spans hopen
  obtain ⟨head, hitem, hposition, -⟩ := h.exists_item hopen (Nat.le_refl _)
    (hspan.first_le.trans hspan.le_last)
  refine ⟨head, hitem, ?_⟩
  rw [hposition, placeFrom_self]
  ring

/-- The last item of the window is published in front of the trailing edge and the space behind
it. -/
theorem exists_tail (hopen : l.opened = .ok o) (h : o.Takes c) :
    ∃ tail, c.outcome.item? c.strip.last = some tail ∧
      tail.finish + (c.outcome.spaceBefore (c.strip.last + 1)).value =
        c.strip.upper + c.offset := by
  have hspan := h.spans hopen
  have hle : c.strip.first ≤ c.strip.last := hspan.first_le.trans hspan.le_last
  obtain ⟨tail, hitem, hposition, hsize⟩ := h.exists_item hopen hle (Nat.le_refl _)
  have hkept := KeepsInputs.outcome c
  refine ⟨tail, hitem, ?_⟩
  rw [PlacedItem.finish, hposition, hsize, ← placeFrom_succ _ _ hle, placeFrom_add,
    hkept.placeFrom_eq, (h.strip_tiles hopen).upper_eq]

end Takes

end VirtualList.Layout
