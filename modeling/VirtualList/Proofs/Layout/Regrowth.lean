import VirtualList.Proofs.Layout.Coverage

/-!
# Growing a window once more

A window grows from its anchor, but which of its items that is makes no difference: growth passes
over nothing that it has not reached, so from any of its items a stable window grows to the same
ends, provided that it fits the stretch.

## Key results

- `growBackward_passes`, `growForward_passes`: a window takes no item that it does not need
- `growWindow_exists_ok`: growing a window does not fault
- `Tiles.items_eq`: a window that tiles the axis is determined by its ends
- `Encloses`, `Encloses.within`: a window grown from an item of one that covers the stretch
- `Fits`, `Fits.ends_eq`: one that has grown from an item of a window with both ends in the stretch
- `Fits.growWindow_eq`: a window that fits grows again from any of its items
-/

namespace VirtualList.Layout

variable {l : Layout Rat}

/-! ## What growth passes -/

theorem itemsLength_add (l : Layout Rat) {a b c : Nat} (hab : a ≤ b) (hbc : b ≤ c) :
    l.itemsLength a b + l.itemsLength b c = l.itemsLength a c :=
  Finset.sum_Ico_consecutive _ hab hbc

/-- Without negative extents a longer run of items is longer. -/
theorem NonnegExtents.itemsLength_mono (h : l.NonnegExtents) {a b c : Nat} (hab : a ≤ b)
    (hbc : b ≤ c) : l.itemsLength a b ≤ l.itemsLength a c := by
  have hrest : 0 ≤ l.itemsLength b c :=
    Finset.sum_nonneg fun k _ => add_nonneg (h.space k) (h.size k)
  rw [← itemsLength_add l hab hbc]
  linarith

/-- Without negative extents an item does not lie in front of the ones before it. -/
theorem NonnegExtents.placeFrom_mono (h : l.NonnegExtents) (lower : Rat) {first i k : Nat}
    (hi : first ≤ i) (hik : i ≤ k) : l.placeFrom lower first i ≤ l.placeFrom lower first k := by
  induction k, hik using Nat.le_induction with
  | base => exact le_refl _
  | succ k hk ih =>
    have hsize := h.size k
    have hspace := h.space (k + 1)
    rw [placeFrom_succ l lower (hi.trans hk)]
    linarith

/-- Growing backward takes another item only while the window ends behind the bound. -/
theorem growBackward_passes (l : Layout Rat) (lower : Rat) (first : Nat) (edge : Rat)
    (stable : Bool) (items : List (PlacedItem Rat)) {k : Nat}
    (hk : (l.growBackward lower first edge stable items).reached < k) (hfirst : k ≤ first) :
    lower < edge - l.itemsLength k first := by
  induction first generalizing edge stable items with
  | zero => omega
  | succ i ih =>
    unfold growBackward at hk
    split at hk
    · rename_i hedge
      rcases Nat.lt_or_eq_of_le hfirst with hlt | rfl
      · -- The window was longer by item `i` when it came to item `k`.
        have hle : k ≤ i := Nat.le_of_lt_succ hlt
        simp only at hk
        split at hk
        · have hpassed := ih _ _ _ hk hle
          rw [itemsLength_succ l hle]
          linarith
        · simp only at hk
          omega
      · rw [itemsLength_self]
        linarith
    · simp only at hk
      omega

/-- Growing forward takes another item only while the window ends in front of the bound. -/
theorem growForward_passes {lower upper edge : Rat} {first remaining last : Nat} {stable : Bool}
    {g : Growth Rat} (hfirst : first ≤ last + 1)
    (hedge : edge = l.placeFrom lower first (last + 1))
    (h : l.growForward upper remaining last edge stable = .ok g) {k : Nat} (hk : last ≤ k)
    (hreached : k < g.reached) : l.placeFrom lower first (k + 1) < upper := by
  induction remaining generalizing last edge stable g with
  | zero =>
    cases h
    simp only at hreached
    omega
  | succ remaining ih =>
    unfold growForward at h
    split at h
    · rename_i hbefore
      simp only [bind_eq_ok, Index.succ_eq_ok_iff] at h
      obtain ⟨i, ⟨-, rfl⟩, next, ⟨-, rfl⟩, h⟩ := h
      rcases Nat.lt_or_eq_of_le hk with hlt | rfl
      · split at h
        · obtain ⟨rest, hrest, h⟩ := bind_eq_ok.1 h
          cases h
          refine ih (by omega) ?_ hrest hlt hreached
          rw [placeFrom_succ l lower hfirst, hedge]
          ring
        · cases h
          simp only at hreached
          omega
      · rw [← hedge]
        exact hbefore
    · cases h
      simp only at hreached
      omega

/-- A window takes no item that it does not need to cover the stretch. -/
theorem growWindow_passes {final : Nat} {a : Anchor Rat} {f : Footing Rat} {b : Bounds Rat}
    {s : Strip Rat} (hf : l.footing a = .ok f) (h : l.growWindow final f b = .ok s) {k : Nat} :
    (s.first < k → k ≤ f.anchor.index → b.lower < s.lower + l.itemsLength s.first k) ∧
    (f.anchor.index ≤ k → k < s.last → l.placeFrom s.lower s.first (k + 1) < b.upper) := by
  simp only [growWindow, bind_eq_ok] at h
  obtain ⟨ahead, hahead, h⟩ := h
  obtain ⟨hle, hlower, -⟩ := l.growBackward_tiles b.lower f.anchor.index f.lower f.stable []
  have hback := fun hk hfirst =>
    l.growBackward_passes b.lower f.anchor.index f.lower f.stable [] (k := k) hk hfirst
  generalize l.growBackward b.lower f.anchor.index f.lower f.stable [] = back at *
  cases h
  obtain ⟨-, hupper⟩ := footing_place hf hle hlower
  constructor
  · intro hk hfirst
    have hpassed := hback hk hfirst
    rw [hlower, ← itemsLength_add l (Nat.le_of_lt hk) hfirst] at hpassed
    show b.lower < back.edge + l.itemsLength back.reached k
    linarith
  · intro hk hlast
    exact growForward_passes (by omega) hupper hahead hk hlast

/-! ## Growing does not fault -/

section Succeeds

variable {α : Type} [Scalar α]

/-- Growing forward succeeds as long as the list ends at a representable index. -/
theorem growForward_exists_ok (l : Layout α) (upper : α) (remaining last : Nat) (edge : α)
    (stable : Bool) (h : last + remaining < Index.limit) :
    ∃ g, l.growForward upper remaining last edge stable = .ok g := by
  induction remaining generalizing last edge stable with
  | zero => exact ⟨_, rfl⟩
  | succ remaining ih =>
    unfold growForward
    split
    · have hi := Index.succ_of_lt (i := last) (by omega)
      have hnext := Index.succ_of_lt (i := last + 1) (by omega)
      obtain ⟨rest, hrest⟩ := ih (last + 1)
        (edge + ((l.book.sizeOf (last + 1)).value + (l.spaceBefore (last + 1 + 1)).value))
        (stable && ((l.book.sizeOf (last + 1)).isMeasured &&
          (l.spaceBefore (last + 1 + 1)).isMeasured)) (by omega)
      simp only [hi, hnext, bind_eq_ok, Except.ok.injEq, exists_eq_left']
      split
      · exact ⟨_, bind_eq_ok.2 ⟨rest, hrest, rfl⟩⟩
      · exact ⟨_, rfl⟩
    · exact ⟨_, rfl⟩

/-- A window grows from every item of a list that ends at a representable index. -/
theorem growWindow_exists_ok (l : Layout α) {final : Nat} (f : Footing α) (b : Bounds α)
    (hi : f.anchor.index ≤ final) (hfinal : final < Index.limit) :
    ∃ s, l.growWindow final f b = .ok s := by
  obtain ⟨ahead, hahead⟩ := l.growForward_exists_ok b.upper (final - f.anchor.index)
    f.anchor.index f.upper
    (l.growBackward b.lower f.anchor.index f.lower f.stable []).stable (by omega)
  simp only [growWindow, bind_eq_ok]
  exact ⟨_, ahead, hahead, rfl⟩

/-- An item at a representable index has a footing. -/
theorem footing_exists_ok (l : Layout α) (a : Anchor α) (h : a.index < Index.limit) :
    ∃ f, l.footing a = .ok f := by
  simp only [footing, Index.succ_of_lt h, bind_eq_ok]
  exact ⟨_, _, rfl, rfl⟩

end Succeeds

/-! ## A window that fits -/

/-- The items of a window that tiles the axis, spelt out. -/
theorem Tiles.items_eq {s : Strip Rat} (h : l.Tiles s) (hitems : Consecutive s.items s.first)
    (hlength : s.first + s.items.length = s.last + 1) :
    s.items = (List.range' s.first (s.last + 1 - s.first)).map fun i =>
      ⟨i, l.placeFrom s.lower s.first i, (l.book.sizeOf i).value⟩ := by
  have hcount : s.items.length = s.last + 1 - s.first := by omega
  rw [← hcount, ← hitems, List.map_map]
  symm
  refine (List.map_congr_left fun x hx => ?_).trans (List.map_id s.items)
  show (⟨x.index, l.placeFrom s.lower s.first x.index, (l.book.sizeOf x.index).value⟩ :
    PlacedItem Rat) = x
  rw [← h.position_eq x hx, ← h.size_eq x hx]

/-- A window of the items from `s.first` to `s.last`, all of them measured. -/
structure Whole (l : Layout Rat) (s : Strip Rat) : Prop where
  tiles : l.Tiles s
  consecutive : Consecutive s.items s.first
  length_eq : s.first + s.items.length = s.last + 1
  first_le : s.first ≤ s.last
  last_lt : s.last < l.total
  stable : s.stable = true
  measured : ∀ i, s.first ≤ i → i ≤ s.last → l.book.isMeasured i = true

/-- The window covers the stretch as far as the list goes. -/
structure Encloses (l : Layout Rat) (s : Strip Rat) (b : Bounds Rat) : Prop where
  lower_le : s.first = 0 ∨ s.lower ≤ b.lower
  le_upper : s.last = l.total - 1 ∨ b.upper ≤ s.upper

/-- The window covers the stretch as far as the list goes, and both of its ends reach into it. -/
structure Fits (l : Layout Rat) (s : Strip Rat) (b : Bounds Rat) : Prop where
  lower_le : s.first = 0 ∨ s.lower ≤ b.lower
  le_upper : s.last = l.total - 1 ∨ b.upper ≤ s.upper
  first_reaches : b.lower < s.lower + l.itemsLength s.first (s.first + 1)
  last_reaches : l.placeFrom s.lower s.first s.last < b.upper

/-- Two windows that place one item alike end in front of each item alike. -/
theorem edge_eq_of_placeFrom_eq (l : Layout Rat) {lower lower' : Rat} {first first' i k : Nat}
    (hi : first ≤ i) (hi' : first' ≤ i)
    (h : l.placeFrom lower' first' i = l.placeFrom lower first i) (hk : first ≤ k)
    (hk' : first' ≤ k) :
    lower' + l.itemsLength first' k = lower + l.itemsLength first k := by
  unfold placeFrom at h
  rcases Nat.le_total k i with hle | hle
  · rw [← itemsLength_add l hk hle, ← itemsLength_add l hk' hle] at h
    linarith
  · rw [← itemsLength_add l hi hle, ← itemsLength_add l hi' hle]
    linarith

/-- What is known of a window that has grown from item `i` of the window `s`, where that has placed
it. -/
structure GrownFrom (l : Layout Rat) (s : Strip Rat) (b : Bounds Rat) (i : Nat) (s' : Strip Rat) :
    Prop where
  tiles : l.Tiles s'
  consecutive : Consecutive s'.items s'.first
  length_eq : s'.first + s'.items.length = s'.last + 1
  first_le : s'.first ≤ i
  le_last : i ≤ s'.last
  last_le : s'.last ≤ l.total - 1
  edge_eq : ∀ k, s.first ≤ k → s'.first ≤ k →
    s'.lower + l.itemsLength s'.first k = s.lower + l.itemsLength s.first k
  passes_back : ∀ k, s'.first < k → k ≤ i → b.lower < s'.lower + l.itemsLength s'.first k
  passes_ahead : ∀ k, i ≤ k → k < s'.last → l.placeFrom s'.lower s'.first (k + 1) < b.upper
  reaches : l.GrowsOn s'.stable →
    (s'.first = 0 ∨ s'.lower ≤ b.lower) ∧ (s'.last = l.total - 1 ∨ b.upper ≤ s'.upper)
  stable_iff : s'.stable = true ↔ ∀ k, s'.first ≤ k → k ≤ s'.last → l.book.isMeasured k = true

section Regrown

variable {s s' : Strip Rat} {b : Bounds Rat} {i : Nat} {f : Footing Rat}

theorem growWindow_grownFrom (hs : l.Whole s) (hsound : l.book.Sound)
    (hlimit : l.total ≤ Index.limit) (hfirst : s.first ≤ i) (hlast : i ≤ s.last)
    (hf : l.footing ⟨i, l.placeFrom s.lower s.first i⟩ = .ok f)
    (hanchor : f.anchor = ⟨i, l.placeFrom s.lower s.first i⟩)
    (h : l.growWindow (l.total - 1) f b = .ok s') : l.GrownFrom s b i s' := by
  have hlt := hs.last_lt
  have hindex : f.anchor.index = i := by rw [hanchor]
  have hfinal : f.anchor.index ≤ l.total - 1 := by omega
  have htiles := growWindow_tiles hf hfinal h
  have hspans := growWindow_spans h hfinal
  have hpasses {k : Nat} := growWindow_passes hf h (k := k)
  rw [hindex] at hpasses
  have hfirst' : s'.first ≤ i := hindex ▸ hspans.first_le
  -- Both windows hold the anchor, at the same place.
  have hplace : l.placeFrom s'.lower s'.first i = l.placeFrom s.lower s.first i := by
    have hitem := htiles.position_eq f.item hspans.mem
    simp only [Footing.item, hanchor] at hitem
    exact hitem.symm
  exact {
    tiles := htiles
    consecutive := hspans.consecutive
    length_eq := hspans.length_eq
    first_le := hfirst'
    le_last := hindex ▸ hspans.le_last
    last_le := hspans.last_le
    edge_eq := fun k hk hk' => edge_eq_of_placeFrom_eq l hfirst hfirst' hplace hk hk'
    passes_back := fun k => hpasses.1
    passes_ahead := fun k => hpasses.2
    reaches := growWindow_covers hfinal h
    stable_iff := hspans.stable_iff_isMeasured hf hsound (by omega) }

/-- The window places the items that the two have in common where the other one does. -/
theorem GrownFrom.placeFrom_eq (h : l.GrownFrom s b i s') {k : Nat} (hk : s.first ≤ k)
    (hk' : s'.first ≤ k) : l.placeFrom s'.lower s'.first k = l.placeFrom s.lower s.first k := by
  rw [placeFrom, h.edge_eq k hk hk', placeFrom]

/-- A window that has grown from an item of one that covers the stretch takes nothing that is not in
it. -/
theorem Encloses.within (hcovers : l.Encloses s b) (hs : l.Whole s) (h : l.GrownFrom s b i s')
    (hfirst : s.first ≤ i) (hlast : i ≤ s.last) : s.first ≤ s'.first ∧ s'.last ≤ s.last := by
  constructor
  · by_contra hlt
    have hpassed := h.passes_back s.first (not_le.1 hlt) hfirst
    rw [h.edge_eq s.first (le_refl _) (by omega), itemsLength_self, add_zero] at hpassed
    rcases hcovers.lower_le with hzero | hle
    · omega
    · linarith
  · by_contra hlt
    have hpassed := h.passes_ahead s.last hlast (not_le.1 hlt)
    have hbehind : s'.first ≤ s.last + 1 := by
      have hle := h.first_le
      omega
    rw [h.placeFrom_eq (by omega) hbehind, ← hs.tiles.upper_eq] at hpassed
    rcases hcovers.le_upper with hend | hle
    · have hle := h.last_le
      omega
    · linarith

/-- So all of its items have been measured. -/
theorem GrownFrom.stable_of_within (h : l.GrownFrom s b i s') (hs : l.Whole s)
    (hinside : s.first ≤ s'.first ∧ s'.last ≤ s.last) : s'.stable = true :=
  h.stable_iff.2 fun k hk hk' => hs.measured k (hinside.1.trans hk) (hk'.trans hinside.2)

namespace Fits

theorem encloses (hfits : l.Fits s b) : l.Encloses s b := ⟨hfits.lower_le, hfits.le_upper⟩

/-- From an item of a window that fits it grows on to the same ends. -/
theorem ends_eq (hfits : l.Fits s b) (hs : l.Whole s) (h : l.GrownFrom s b i s')
    (hextents : l.NonnegExtents) (hfirst : s.first ≤ i) (hlast : i ≤ s.last) :
    s'.stable = true ∧ s'.first = s.first ∧ s'.last = s.last := by
  obtain ⟨hinside, hinside'⟩ := hfits.encloses.within hs h hfirst hlast
  have hfirst' := h.first_le
  have hlast' := h.le_last
  have hstable := h.stable_of_within hs ⟨hinside, hinside'⟩
  obtain ⟨hlower, hupper⟩ := h.reaches (Or.inl hstable)
  refine ⟨hstable, ?_, ?_⟩
  · -- If it started later it would start behind the end of the first item.
    by_contra hne
    have hlt : s.first < s'.first := Nat.lt_of_le_of_ne hinside (Ne.symm hne)
    have hreaches := hfits.first_reaches
    have hmono := hextents.itemsLength_mono (Nat.le_succ s.first) (Nat.succ_le_of_lt hlt)
    have hsame := h.edge_eq s'.first hinside (le_refl _)
    rw [itemsLength_self, add_zero] at hsame
    have hle := hlower.resolve_left (by omega)
    linarith
  · by_contra hne
    have hlt : s'.last < s.last := Nat.lt_of_le_of_ne hinside' hne
    have hreaches := hfits.last_reaches
    have hmono : l.placeFrom s.lower s.first (s'.last + 1) ≤ l.placeFrom s.lower s.first s.last :=
      hextents.placeFrom_mono s.lower (by omega) (by omega)
    have hend := hs.last_lt
    have hle := hupper.resolve_left (by omega)
    rw [h.tiles.upper_eq, h.placeFrom_eq (by omega) (by omega)] at hle
    linarith

/-- A window of measured items that fits a stretch grows again from any of its items. -/
theorem growWindow_eq (hfits : l.Fits s b) (hs : l.Whole s) (hextents : l.NonnegExtents)
    (hsound : l.book.Sound) (hlimit : l.total ≤ Index.limit) (hfirst : s.first ≤ i)
    (hlast : i ≤ s.last) (hf : l.footing ⟨i, l.placeFrom s.lower s.first i⟩ = .ok f)
    (hanchor : f.anchor = ⟨i, l.placeFrom s.lower s.first i⟩) :
    l.growWindow (l.total - 1) f b = .ok s := by
  have hlt := hs.last_lt
  have hfinal : f.anchor.index ≤ l.total - 1 := by
    rw [hanchor]
    show i ≤ l.total - 1
    omega
  obtain ⟨s', h⟩ := l.growWindow_exists_ok f b hfinal (by omega)
  have hgrown := growWindow_grownFrom hs hsound hlimit hfirst hlast hf hanchor h
  obtain ⟨hstable, hfirst_eq, hlast_eq⟩ := hfits.ends_eq hs hgrown hextents hfirst hlast
  have hlower : s'.lower = s.lower := by
    have hsame := hgrown.edge_eq s.first (le_refl _) (le_of_eq hfirst_eq)
    rw [hfirst_eq] at hsame
    linarith
  have hupper : s'.upper = s.upper := by
    rw [hgrown.tiles.upper_eq, hs.tiles.upper_eq, hlower, hfirst_eq, hlast_eq]
  have hitems : s'.items = s.items := by
    rw [hgrown.tiles.items_eq hgrown.consecutive hgrown.length_eq,
      hs.tiles.items_eq hs.consecutive hs.length_eq, hlower, hfirst_eq, hlast_eq]
  have heq : s' = s := by
    cases s
    cases s'
    simp only [Strip.mk.injEq]
    exact ⟨hfirst_eq, hlast_eq, hitems, hlower, hupper, hstable.trans hs.stable.symm⟩
  rw [h, heq]

end Fits

end Regrown

end VirtualList.Layout
