import VirtualList.Proofs.Layout.Placement
import VirtualList.Proofs.Layout.Regrowth
import VirtualList.Proofs.Same

/-!
# A layout at rest

A pass takes up where the last stable one left off: it finds the same extent, takes its anchor from
the window that was laid out, and grows the window again from there.  It changes nothing, provided
that the scroll position is within the extent, that the window fits the stretch around it, and that
nothing is left to correct.  A stable pass usually leaves a layout like that, but not always: an
anchor that the stretch only touches may be left over, and so may the second of two corrections.

A pass that finds the list or the viewport empty is stable as well.  It works out the extent from
the settled window and then gives the window up, so that the next pass may come to another extent,
from the averages.

## Key results

- `Standing`, `Settled`, `Takes.settled`: what a stable pass leaves behind
- `Standing.opened_eq`, `Settled.chooseAnchor_eq`: how the next pass begins
- `Settled.takes`: the course of the next pass
- `Takes.corrected`: when a stable pass leaves nothing to correct
- `Reachable.reflow_at_rest`: when it leaves everything as it was
- `Reachable.reflow_restless`: a layout without changes that the next pass moves all the same
- `reflow_vacant`, `Reachable.reflow_vacant_restless`: the same for layouts without a window, where
  the second pass changes the extent at most, and does change it in one of them
-/

namespace VirtualList

/-- The window moved by a distance. -/
def Strip.shift {α : Type} [Scalar α] (s : Strip α) (offset : α) : Strip α :=
  { s with
    items := s.items.map (·.shift offset)
    lower := s.lower + offset
    upper := s.upper + offset }

/-- Moving by no distance leaves an item where it is. -/
@[simp] theorem PlacedItem.shift_zero (item : PlacedItem Rat) : item.shift 0 = item := by
  show { item with position := item.position + 0 } = item
  rw [add_zero]

@[simp] theorem Bounds.shift_zero (b : Bounds Rat) : b.shift 0 = b := by
  simp [Bounds.shift]

@[simp] theorem ScrollTrack.shift_zero (t : ScrollTrack Rat) : t.shift 0 = t := by
  simp [ScrollTrack.shift]

/-- Items that are moved together with the viewport have the same visible part. -/
theorem visibleEnds_shift {items : List (PlacedItem Rat)} {position view : Rat}
    {x y : PlacedItem Rat} (offset : Rat) (h : visibleEnds items position view = some (x, y)) :
    visibleEnds (items.map (·.shift offset)) (position + offset) view =
      some (x.shift offset, y.shift offset) := by
  obtain ⟨hx, hy⟩ := visibleEnds_eq_some_iff.1 h
  have hfinished (item : PlacedItem Rat) :
      (item.shift offset).finish ≤ position + offset ↔ item.finish ≤ position := by
    show item.position + offset + item.size ≤ position + offset ↔ _
    rw [add_right_comm, add_le_add_iff_right]
    rfl
  have hunstarted (item : PlacedItem Rat) : position + offset + view ≤ (item.shift offset).position ↔
      position + view ≤ item.position := by
    show position + offset + view ≤ item.position + offset ↔ _
    rw [add_right_comm, add_le_add_iff_right]
  have hunfinished : unfinished (items.map (·.shift offset)) (position + offset) =
      (unfinished items position).map (·.shift offset) := dropLeading_map hfinished items
  have hback := dropLeading_map (q := fun item => position + offset + view ≤ item.position)
    (f := (·.shift offset)) hunstarted (unfinished items position).reverse
  apply visibleEnds_eq_some_iff.2
  constructor
  · rw [hunfinished, List.head?_map, hx, Option.map_some]
  · rw [hunfinished, ← List.map_reverse, hback, List.head?_map, hy, Option.map_some]

namespace Layout

variable {l l' o : Layout Rat} {c : Course Rat} {s : Strip Rat} {x y : PlacedItem Rat}

/-! ## What a stable pass leaves behind -/

/-- A window that is moved still tiles the axis. -/
theorem Tiles.shift (h : l.Tiles s) (offset : Rat) : l.Tiles (s.shift offset) where
  position_eq item hitem := by
    obtain ⟨x, hx, rfl⟩ := List.mem_map.1 hitem
    show x.position + offset = l.placeFrom (s.lower + offset) s.first x.index
    rw [placeFrom_add, h.position_eq x hx]
  size_eq item hitem := by
    obtain ⟨x, hx, rfl⟩ := List.mem_map.1 hitem
    exact h.size_eq x hx
  upper_eq := by
    show s.upper + offset = l.placeFrom (s.lower + offset) s.first (s.last + 1)
    rw [placeFrom_add, h.upper_eq]

/-- How a window tiles the axis depends on the inputs only. -/
theorem KeepsInputs.tiles (hkept : KeepsInputs l l') (h : l.Tiles s) : l'.Tiles s where
  position_eq item hitem := by
    rw [hkept.placeFrom_eq, h.position_eq item hitem]
  size_eq item hitem := by
    rw [hkept.agrees.sizeOf_eq, h.size_eq item hitem]
  upper_eq := by
    rw [hkept.placeFrom_eq, h.upper_eq]

theorem KeepsInputs.baseExtent_eq (h : KeepsInputs l l') : l'.baseExtent = l.baseExtent := by
  simp only [baseExtent, h.total, h.averageDelta_eq, h.options, h.agrees.averageMargin_eq]

theorem KeepsInputs.extentFrom_eq (h : KeepsInputs l l') (final last : Nat) (upper : Rat) :
    l'.extentFrom final last upper = l.extentFrom final last upper := by
  simp only [extentFrom, h.averageDelta_eq, h.baseExtent_eq, h.options]

theorem KeepsInputs.extentError_eq (h : KeepsInputs l l') (final : Nat) (s : Strip Rat)
    (lower upper : Rat) :
    l'.extentError final s lower upper = l.extentError final s lower upper := by
  simp only [extentError, h.averageDelta_eq, h.baseExtent_eq]

/-- What a stable pass with a window leaves behind, wherever the scroll position has gone since: its
window, and nothing to go on with but that. -/
structure Standing (l : Layout Rat) (s : Strip Rat) : Prop where
  whole : l.Whole s
  published_eq : l.published = s.items
  settled_eq : l.settled = s.items
  extent : l.extentFrom (l.total - 1) s.last s.upper = .ok l.scrollSize
  full : ¬l.IsBlank
  stable : l.stable = true
  retained : l.retained = none
  pin : l.pin = none
  corrections : l.corrections = ∅
  remeasure : l.remeasure = false

/-- What it leaves behind together with the visible part of the window. -/
structure Settled (l : Layout Rat) (s : Strip Rat) (x y : PlacedItem Rat) : Prop
    extends Layout.Standing l s where
  range_eq : l.range = some ⟨s.first, s.last, x.index, y.index⟩
  visible : visibleEnds s.items l.scrollPosition l.viewport.main = some (x, y)

/-- A stable pass settles the window that it has moved to its place. -/
theorem Takes.settled (hl : Reachable l) (hopen : l.opened = .ok o) (hfull : ¬o.IsBlank)
    (h : o.Takes c) (hstable : c.strip.stable = true) :
    ({ c.outcome with remeasure := false } : Layout Rat).Settled (c.strip.shift c.offset)
      c.firstVisible c.lastVisible := by
  have hspans := h.spans hopen
  have hkept : KeepsInputs c.base { c.outcome with remeasure := false } :=
    ⟨rfl, rfl, rfl, c.items, rfl⟩
  have hwhole : ({ c.outcome with remeasure := false } : Layout Rat).Whole
      (c.strip.shift c.offset) := {
    tiles := hkept.tiles ((h.strip_tiles hopen).shift c.offset)
    consecutive := h.items_consecutive hopen
    length_eq := by
      show c.strip.first + (c.strip.items.map _).length = c.strip.last + 1
      rw [List.length_map, hspans.length_eq]
    first_le := hspans.first_le.trans hspans.le_last
    last_lt := by
      have hle := hspans.last_le
      have hpos := h.pos_total
      have htotal := h.base_total
      show c.strip.last < c.base.total
      omega
    stable := hstable
    measured := fun i hfirst hlast => by
      have hmem : i ∈ c.items.map PlacedItem.index := by
        change c.strip.first ≤ i at hfirst
        change i ≤ c.strip.last at hlast
        rw [h.items_indices hopen, List.mem_range'_1]
        omega
      obtain ⟨item, hitem, rfl⟩ := List.mem_map.1 hmem
      obtain ⟨-, -, -, hbook, -⟩ := opened_inputs hopen
      rw [hkept.agrees.isMeasured_eq, h.base_book, hbook]
      exact (h.stable_iff hl hopen).1 hstable item hitem }
  exact {
    whole := hwhole
    published_eq := rfl
    settled_eq := if_pos hstable
    range_eq := rfl
    visible := h.visible
    extent := (hkept.extentFrom_eq _ _ _).trans h.extent
    full := fun hblank => hfull (by
      rw [IsBlank, ← h.base_total, ← h.base_viewport]
      exact hblank)
    stable := hstable
    retained := if_pos hstable
    pin := if_pos hstable
    corrections := if_pos hstable
    remeasure := rfl }

/-- With nothing measured anew no item has grown. -/
theorem growthAbove_of_empty (h : l.corrections = ∅) (i : Nat) : l.growthAbove i = 0 := by
  have hentries : l.corrections.toList = [] := Std.ExtTreeMap.toList_eq_nil_iff.2 h
  simp [growthAbove, hentries]

/-- Measured items leave no estimates to note. -/
theorem foldl_noteEstimate_of_isMeasured {b : SizeBook Rat} {items : List (PlacedItem Rat)}
    (h : ∀ item ∈ items, b.isMeasured item.index = true) :
    items.foldl (fun book item => book.noteEstimate item.index item.size) b = b := by
  induction items with
  | nil => rfl
  | cons item rest ih =>
    obtain ⟨hitem, hrest⟩ := List.forall_mem_cons.1 h
    rw [List.foldl_cons, SizeBook.noteEstimate_of_isMeasured hitem]
    exact ih hrest

/-! ## How the next pass begins -/

/-- An item of a window is laid out again where it lies, the first item of the list included if the
window starts at zero. -/
theorem footing_anchor_of_placed (hstart : s.first = 0 → s.lower = 0) {i : Nat} (hi : s.first ≤ i)
    {f : Footing Rat} (hf : l.footing ⟨i, l.placeFrom s.lower s.first i⟩ = .ok f) :
    f.anchor = ⟨i, l.placeFrom s.lower s.first i⟩ := by
  rcases Nat.eq_zero_or_pos i with rfl | hpos
  · have hfirst : s.first = 0 := Nat.le_zero.1 hi
    rw [(footing_eq_ok hf).2]
    show (⟨0, (l.spaceBefore 0).value⟩ : Anchor Rat) = _
    rw [hfirst, placeFrom_self, hstart hfirst, zero_add]
  · exact footing_anchor_of_pos hf hpos

/-- A pass drops nothing if everything that was laid out is in the list. -/
theorem truncate_eq_self (hsettled : ∀ item ∈ l.settled, item.index < l.total)
    (hpublished : ∀ item ∈ l.published, item.index < l.total) (hcorrections : l.corrections = ∅)
    (hretained : l.retained = none) : l.truncate = l := by
  have hsettled' : (l.settled.filter fun item => decide (item.index < l.total)) = l.settled :=
    List.filter_eq_self.2 fun item hitem => decide_eq_true (hsettled item hitem)
  have hpublished' : (l.published.filter fun item => decide (item.index < l.total)) = l.published :=
    List.filter_eq_self.2 fun item hitem => decide_eq_true (hpublished item hitem)
  have hcorrections' : (l.corrections.filter fun i _ => decide (i < l.total)) = l.corrections := by
    rw [hcorrections]
    apply Std.ExtTreeMap.ext_getElem?
    simp
  have hretained' : (l.retained.filter fun a => decide (a.index < l.total)) = l.retained := by
    rw [hretained]
    rfl
  unfold truncate
  rw [hsettled', hpublished', hcorrections', hretained']

/-- The extent known before a pass is the one that the last stable window leads to. -/
theorem estimatedExtent_of_tail {tail : PlacedItem Rat} (hpos : 0 < l.total)
    (htail : l.settled.getLast? = some tail) (hindex : tail.index < Index.limit) :
    l.estimatedExtent = l.extentFrom (l.total - 1) tail.index
      (tail.finish + (l.spaceBefore (tail.index + 1)).value) := by
  have hne : l.total ≠ 0 := by omega
  simp only [estimatedExtent, extentFrom, if_neg hne, htail, lastIndex, Index.sub_of_le hpos,
    Index.succ_of_lt hindex]
  show (Index.sub (l.total - 1) tail.index >>= _) = _
  cases Index.sub (l.total - 1) tail.index with
  | error fault => rfl
  | ok beyond => rfl

/-- An item ends where the items up to it end. -/
theorem placeFrom_add_size (l : Layout Rat) (lower : Rat) {first i : Nat} (h : first ≤ i) :
    l.placeFrom lower first i + (l.book.sizeOf i).value = lower + l.itemsLength first (i + 1) := by
  rw [placeFrom, itemsLength_succ l h]
  ring

namespace Whole

/-- The first item of a window lies behind the leading edge and the space in front of it. -/
theorem exists_head (h : l.Whole s) : ∃ head, s.items.head? = some head ∧
    head.index = s.first ∧ head.position = s.lower + (l.spaceBefore s.first).value ∧
    head.finish = s.lower + l.itemsLength s.first (s.first + 1) := by
  have hle := h.first_le
  have hne : s.last + 1 - s.first ≠ 0 := by omega
  refine ⟨⟨s.first, l.placeFrom s.lower s.first s.first, (l.book.sizeOf s.first).value⟩, ?_, rfl,
    placeFrom_self l s.lower s.first, placeFrom_add_size l s.lower (le_refl _)⟩
  rw [h.tiles.items_eq h.consecutive h.length_eq, List.head?_map, List.head?_range', if_neg hne,
    Option.map_some]

/-- The last item of a window lies in front of the trailing edge and the space behind it. -/
theorem exists_tail (h : l.Whole s) : ∃ tail, s.items.getLast? = some tail ∧
    tail.index = s.last ∧ tail.position = l.placeFrom s.lower s.first s.last ∧
    tail.finish = s.lower + l.itemsLength s.first (s.last + 1) ∧
    tail.finish + (l.spaceBefore (s.last + 1)).value = s.upper := by
  have hle := h.first_le
  have hne : s.last + 1 - s.first ≠ 0 := by omega
  have hlast : s.first + (s.last + 1 - s.first) - 1 = s.last := by omega
  refine ⟨⟨s.last, l.placeFrom s.lower s.first s.last, (l.book.sizeOf s.last).value⟩, ?_, rfl, rfl,
    placeFrom_add_size l s.lower hle, ?_⟩
  · rw [h.tiles.items_eq h.consecutive h.length_eq, List.getLast?_map, List.getLast?_range',
      if_neg hne, Option.map_some, hlast]
  · rw [h.tiles.upper_eq, placeFrom_succ l s.lower hle]
    rfl

end Whole

/-- The anchor that the last stable window offers is its item at the scroll position, as soon as the
window reaches into the stretch. -/
theorem settledAnchor?_eq (position : Rat) {b : Bounds Rat} {head tail : PlacedItem Rat}
    (hhead : l.settled.head? = some head) (htail : l.settled.getLast? = some tail)
    (hlower : head.position ≤ b.upper) (hupper : b.lower ≤ tail.finish)
    (hle : head.position ≤ tail.finish) : ∃ item,
      l.settled[min (bisect (fun item => decide
        (item.finish ≤ Scalar.confine position head.position tail.finish)) l.settled)
          (l.settled.length - 1)]? = some item ∧
      l.settledAnchor? position b = .ok (some ⟨item.index, item.position⟩) := by
  have hpos : 0 < l.settled.length := List.length_pos_of_mem (List.mem_of_head? hhead)
  generalize hpassed : bisect (fun item : PlacedItem Rat => decide
    (item.finish ≤ Scalar.confine position head.position tail.finish)) l.settled = passed
  have hplace : min passed (l.settled.length - 1) < l.settled.length := by omega
  have hitem := List.getElem?_eq_getElem hplace
  refine ⟨_, hitem, ?_⟩
  unfold settledAnchor?
  rw [hhead, htail]
  simp only [if_pos (And.intro hlower hupper)]
  apply bind_eq_ok.2
  refine ⟨_, Scalar.clamp_of_le hle, ?_⟩
  rw [hpassed, hitem]
  rfl

/-- The anchor that the last stable window offers is taken if no other was retained. -/
theorem freeAnchor_of_settled (scroll : ScrollTrack Rat) {a : Anchor Rat}
    (hretained : l.retained = none)
    (h : l.settledAnchor? scroll.position (l.boundsAt scroll.position) = .ok (some a)) :
    l.freeAnchor scroll = .ok (a, .settled) := by
  unfold freeAnchor
  rw [hretained]
  exact bind_eq_ok.2 ⟨some a, h, rfl⟩

/-- A scroll position within the extent is taken as it is. -/
theorem clampedScroll_of_mem (hstart : 0 ≤ l.scrollPosition)
    (hend : l.scrollPosition ≤ l.maxScrollPosition) :
    l.clampedScroll = .ok (.startingAt l.scrollPosition) := by
  have hclamp : Scalar.clamp l.scrollPosition 0 l.maxScrollPosition = .ok l.scrollPosition := by
    rw [Scalar.clamp_of_le (hstart.trans hend), Scalar.confine, if_neg (not_lt.2 hstart)]
    exact congrArg _ (if_neg (not_lt.2 hend))
  unfold clampedScroll
  rw [hclamp]
  show Except.ok (if l.scrollPosition == l.scrollPosition then _ else _) = _
  rw [if_pos (beq_self_eq_true _)]

/-- Once corrected, a window has no error left, unless it holds the last item and still ends in
front of the extent that the averages give. -/
theorem extentError_corrected (hextents : l.NonnegExtents) (final : Nat) (s : Strip Rat)
    (lower upper : Rat) {error : Rat} (herror : l.extentError final s lower upper = error)
    (h : s.first = 0 ∨ s.last ≠ final ∨ l.baseExtent ≤ upper - error) :
    l.extentError final s (lower - error) (upper - error) = 0 := by
  have hstep := hextents.step
  have hroom : 0 ≤ (s.first : Rat) * l.averageDelta := by positivity
  unfold extentError at herror ⊢
  by_cases hfirst : s.first = 0
  · rw [if_pos hfirst] at herror ⊢
    rw [herror, sub_self]
  · rw [if_neg hfirst] at herror ⊢
    have hend : ¬(s.last = final ∧ upper - error < l.baseExtent) := by
      intro hshort
      rcases h with hzero | hinside | hle
      · exact hfirst hzero
      · exact hinside hshort.1
      · exact absurd hle (not_le.2 hshort.2)
    rw [if_neg hend]
    by_cases hlower : lower ≤ 0
    · -- The window has been moved to where the averages put it, which may be the start.
      rw [if_pos hlower] at herror
      rw [← herror]
      split <;> linarith
    · rw [if_neg hlower] at herror
      rw [if_neg]
      split at herror
      · rename_i hshort
        linarith [hshort.2]
      · linarith

namespace Standing

/-- What a stable pass leaves behind stays, whatever item it held fixed and wherever the list is
scrolled to. -/
theorem elsewhere (h : l.Standing s) (a : Option (Anchor Rat)) (position : Rat) :
    ({ l with anchor := a, scrollPosition := position } : Layout Rat).Standing s where
  whole := {
    tiles := ⟨h.whole.tiles.position_eq, h.whole.tiles.size_eq, h.whole.tiles.upper_eq⟩
    consecutive := h.whole.consecutive
    length_eq := h.whole.length_eq
    first_le := h.whole.first_le
    last_lt := h.whole.last_lt
    stable := h.whole.stable
    measured := h.whole.measured }
  published_eq := h.published_eq
  settled_eq := h.settled_eq
  extent := h.extent
  full := h.full
  stable := h.stable
  retained := h.retained
  pin := h.pin
  corrections := h.corrections
  remeasure := h.remeasure

/-- A pass begins with the layout as it is. -/
theorem opened_eq (h : l.Standing s) (hlimit : l.total ≤ Index.limit) :
    l.opened = .ok l := by
  have hlt := h.whole.last_lt
  have hindex : ∀ item ∈ s.items, item.index < l.total := by
    intro item hitem
    have hbounds := h.whole.consecutive.index_bounds hitem
    have hlength := h.whole.length_eq
    omega
  have htruncate : l.truncate = l := by
    apply truncate_eq_self
    · rw [h.settled_eq]
      exact hindex
    · rw [h.published_eq]
      exact hindex
    · exact h.corrections
    · exact h.retained
  obtain ⟨tail, htail, hlast, -, -, hupper⟩ := h.whole.exists_tail
  rw [← h.settled_eq] at htail
  have hextent := estimatedExtent_of_tail (by omega) htail (by omega)
  rw [hlast, hupper, h.extent] at hextent
  unfold opened
  rw [htruncate, hextent]
  rfl

/-- Nothing is left to correct, so a pass goes on with the layout as it is. -/
theorem goingOnFrom_eq_self (h : l.Standing s) (source : AnchorSource) :
    l.goingOnFrom source = l := by
  unfold goingOnFrom
  split
  · rw [← h.corrections]
  · rfl

/-- From an anchor in reach a pass lays out the window that grows from it, and moves it and the scroll
position to where the window belongs. -/
theorem exists_takes (h : l.Standing s) {a : Anchor Rat} {source : AnchorSource} {f : Footing Rat}
    {s' : Strip Rat}
    (hchoose : l.chooseAnchor = .ok (a, source, .startingAt l.scrollPosition))
    (hsource : ∀ align, source ≠ .pinned align) (hf : l.footing a = .ok f)
    (hdrift : f.drift (l.boundsAt l.scrollPosition) = 0)
    (hgrow : l.growWindow (l.total - 1) f (l.boundsAt l.scrollPosition) = .ok s')
    (hlast : s'.last ≤ l.total - 1)
    (hends : visibleEnds s'.items l.scrollPosition l.viewport.main = some (x, y)) :
    ∃ c : Course Rat, l.Takes c ∧ c.base = l ∧ c.anchor = a ∧ c.source = source ∧ c.footing = f ∧
      c.strip = s' ∧ c.scroll = (ScrollTrack.startingAt l.scrollPosition).shift c.offset ∧
      c.firstVisible = x.shift c.offset ∧ c.lastVisible = y.shift c.offset := by
  obtain ⟨offset, hoffset⟩ : ∃ offset, offset =
      if s'.stable then l.settlingOffset (l.total - 1) source a.index s' else 0 := ⟨_, rfl⟩
  obtain ⟨scrollSize, hsize⟩ : ∃ scrollSize,
      l.extentFrom (l.total - 1) s'.last (s'.upper + offset) = .ok scrollSize :=
    ⟨_, bind_eq_ok.2 ⟨_, Index.sub_of_le hlast, rfl⟩⟩
  have hmoved := visibleEnds_shift offset hends
  let c : Course Rat := ⟨l, a, source, .startingAt l.scrollPosition, f, s', scrollSize,
    (ScrollTrack.startingAt l.scrollPosition).shift offset, x.shift offset, y.shift offset⟩
  have hcdrift : c.drift = 0 := hdrift
  have hcoffset : c.offset = offset := hoffset.symm
  refine ⟨c, ?_, rfl, rfl, rfl, rfl, rfl, ?_, ?_, ?_⟩
  · exact {
      base_eq := (h.goingOnFrom_eq_self source).symm
      pos_total := Nat.zero_lt_of_lt h.whole.last_lt
      choose := hchoose
      footing := hf
      grow := by
        rw [hcdrift, Bounds.shift_zero]
        exact hgrow
      extent := by
        rw [hcoffset]
        exact hsize
      realign := by
        rw [hcdrift, hcoffset, ScrollTrack.shift_zero]
        exact realigned_of_free _ hsource _ _ _
      visible := by
        show visibleEnds (s'.items.map (·.shift c.offset)) _ _ = _
        rw [hcoffset]
        exact hmoved }
  all_goals rw [hcoffset]

end Standing

namespace Settled

/-- The anchor is an item of the window. -/
theorem chooseAnchor_eq (h : l.Settled s x y) (hextents : l.NonnegExtents)
    (hfits : l.Fits s (l.boundsAt l.scrollPosition)) (hstart : 0 ≤ l.scrollPosition)
    (hend : l.scrollPosition ≤ l.maxScrollPosition) : ∃ item ∈ s.items,
      l.settledAnchor? l.scrollPosition (l.boundsAt l.scrollPosition) =
        .ok (some ⟨item.index, item.position⟩) ∧
      l.chooseAnchor =
        .ok (⟨item.index, item.position⟩, .settled, .startingAt l.scrollPosition) := by
  obtain ⟨head, hhead, -, hhead', -⟩ := h.whole.exists_head
  obtain ⟨tail, htail, -, htail', hfinish, -⟩ := h.whole.exists_tail
  have hordered : head.position ≤ tail.position := by
    rw [hhead', htail', ← placeFrom_self]
    exact hextents.placeFrom_mono s.lower (le_refl _) h.whole.first_le
  have hlength := hextents.itemsLength_mono (Nat.le_succ s.first)
    (Nat.succ_le_succ h.whole.first_le)
  have hreaches := hfits.first_reaches
  have hreaches' := hfits.last_reaches
  have hsize := hextents.size s.last
  have hbehind : head.position ≤ tail.finish := by
    have hplace := placeFrom_add_size l s.lower h.whole.first_le
    linarith
  rw [← h.settled_eq] at hhead htail ⊢
  obtain ⟨item, hitem, hsettled⟩ := settledAnchor?_eq l.scrollPosition
    (b := l.boundsAt l.scrollPosition) hhead htail (by linarith) (by linarith) hbehind
  refine ⟨item, List.mem_of_getElem? hitem, hsettled, ?_⟩
  have hscroll := clampedScroll_of_mem hstart hend
  have hfree := freeAnchor_of_settled (.startingAt l.scrollPosition) h.retained hsettled
  unfold chooseAnchor
  rw [h.pin]
  exact bind_eq_ok.2 ⟨_, hscroll, bind_eq_ok.2 ⟨_, hfree, rfl⟩⟩

/-- An item of a window that fits the stretch around the scroll position is in reach. -/
theorem meets_of_mem (h : l.Settled s x y) (hextents : l.NonnegExtents)
    (hfits : l.Fits s (l.boundsAt l.scrollPosition)) {item : PlacedItem Rat}
    (hitem : item ∈ s.items) : l.Meets ⟨item.index, item.position⟩ l.scrollPosition := by
  obtain ⟨hfirst, hlast⟩ := h.whole.consecutive.index_bounds hitem
  have hlength := h.whole.length_eq
  have hposition := h.whole.tiles.position_eq item hitem
  have hspace := hextents.space item.index
  have hspace' := hextents.space (item.index + 1)
  have hreaches := hfits.first_reaches
  have hreaches' := hfits.last_reaches
  constructor
  · have hends := placeFrom_add_size l s.lower hfirst
    have hmono := hextents.itemsLength_mono (Nat.le_succ s.first) (Nat.succ_le_succ hfirst)
    show _ ≤ item.position + _ + _
    linarith
  · have hmono : l.placeFrom s.lower s.first item.index ≤ l.placeFrom s.lower s.first s.last :=
      hextents.placeFrom_mono s.lower hfirst (by omega)
    show item.position - _ ≤ _
    linarith

/-- A pass that lays the same window out again changes nothing but the anchor. -/
theorem outcome_eq (h : l.Settled s x y) {c : Course Rat} (hbase : c.base = l)
    (hstrip : c.strip = s) (hitems : c.items = s.items)
    (hscroll : c.scroll.position = l.scrollPosition) (hsize : c.scrollSize = l.scrollSize)
    (hfirst : c.firstVisible = x) (hlast : c.lastVisible = y) :
    c.outcome = { l with anchor := some c.placed } := by
  have hbook : s.items.foldl (fun book item => book.noteEstimate item.index item.size) l.book =
      l.book := by
    refine foldl_noteEstimate_of_isMeasured fun item hitem => ?_
    have hbounds := h.whole.consecutive.index_bounds hitem
    have hlength := h.whole.length_eq
    exact h.whole.measured item.index hbounds.1 (by omega)
  have hsettled : (if s.stable = true then s.items else l.settled) = l.settled := by
    rw [if_pos h.whole.stable, h.settled_eq]
  have hretained : (if s.stable = true then none else some c.placed) = l.retained := by
    rw [if_pos h.whole.stable, h.retained]
  have hpin : (if s.stable = true then none else l.pin) = l.pin := by
    rw [if_pos h.whole.stable, h.pin]
  have hcorrections : (if s.stable = true then ∅ else l.corrections) = l.corrections := by
    rw [if_pos h.whole.stable, h.corrections]
  unfold Course.outcome
  rw [hitems, hscroll, hsize, hfirst, hlast, hstrip, hbase, hbook, hsettled, hretained, hpin,
    hcorrections, ← h.range_eq, ← h.published_eq, h.whole.stable, ← h.stable]

/-- The next pass lays the same window out again. -/
theorem takes (h : l.Settled s x y) (hextents : l.NonnegExtents) (hsound : l.book.Sound)
    (hlimit : l.total ≤ Index.limit) (hfits : l.Fits s (l.boundsAt l.scrollPosition))
    (hstart : 0 ≤ l.scrollPosition) (hend : l.scrollPosition ≤ l.maxScrollPosition)
    (hplace : l.extentError (l.total - 1) s s.lower s.upper = 0) : ∃ a c,
      l.settledAnchor? l.scrollPosition (l.boundsAt l.scrollPosition) = .ok (some a) ∧
      l.Takes c ∧ c.scroll.moved = 0 ∧ c.outcome = { l with anchor := some a } := by
  obtain ⟨item, hitem, hsettled, hchoose⟩ := h.chooseAnchor_eq hextents hfits hstart hend
  obtain ⟨hfirst, hlast⟩ := h.whole.consecutive.index_bounds hitem
  have hlength := h.whole.length_eq
  have hlt := h.whole.last_lt
  have hposition := h.whole.tiles.position_eq item hitem
  have hindex : item.index < Index.limit := by omega
  obtain ⟨f, hf⟩ := l.footing_exists_ok ⟨item.index, item.position⟩ hindex
  -- Nothing is left to correct, so a window that holds the first item starts at zero.
  have hstart' : s.first = 0 → s.lower = 0 := fun hzero => by
    rwa [extentError, if_pos hzero] at hplace
  have hanchor : f.anchor = ⟨item.index, item.position⟩ := by
    rw [hposition] at hf ⊢
    exact footing_anchor_of_placed hstart' hfirst hf
  have hdrift := drift_eq_zero_of_meets hf hanchor (h.meets_of_mem hextents hfits hitem)
  have hgrow : l.growWindow (l.total - 1) f (l.boundsAt l.scrollPosition) = .ok s := by
    apply hfits.growWindow_eq h.whole hextents hsound hlimit hfirst (by omega)
    · rw [← hposition]
      exact hf
    · rw [← hposition]
      exact hanchor
  have hfree : ∀ align, AnchorSource.settled ≠ .pinned align := by simp
  obtain ⟨c, hcourse, hbase, hchosen, hsource, hfooting, hstrip, hscroll, hx, hy⟩ :=
    h.exists_takes hchoose hfree hf hdrift hgrow (by omega) h.visible
  -- The window is not moved, so neither are its items, its visible part and the scroll position.
  have hoffset : c.offset = 0 := by
    unfold Course.offset
    rw [hbase, hchosen, hsource, hstrip, if_pos h.whole.stable]
    show l.growthAbove item.index - l.extentError (l.total - 1) s
      (s.lower + l.growthAbove item.index) (s.upper + l.growthAbove item.index) = 0
    rw [growthAbove_of_empty h.corrections, add_zero, add_zero, hplace, sub_zero]
  rw [hoffset, ScrollTrack.shift_zero] at hscroll
  rw [hoffset, PlacedItem.shift_zero] at hx hy
  have hitems : c.items = s.items := by
    unfold Course.items
    rw [hoffset, hstrip]
    simp
  have hplaced : c.placed = ⟨item.index, item.position⟩ := by
    unfold Course.placed
    rw [hfooting, hanchor, hoffset, add_zero]
  have hsize : c.scrollSize = l.scrollSize := by
    have hextent := hcourse.extent
    rw [hbase, hstrip, hoffset, add_zero, h.extent] at hextent
    exact (Except.ok.inj hextent).symm
  have hposition' : c.scroll.position = l.scrollPosition := by rw [hscroll]; rfl
  refine ⟨⟨item.index, item.position⟩, c, hsettled, hcourse, ?_, ?_⟩
  · rw [hscroll]
    rfl
  · rw [← hplaced]
    exact h.outcome_eq hbase hstrip hitems hposition' hsize hx hy

/-- So a settled layout is at rest if the scroll position is within the extent, the window fits the
stretch around it, and nothing is left to correct. -/
theorem reflow_eq (h : l.Settled s x y) (hextents : l.NonnegExtents) (hsound : l.book.Sound)
    (hlimit : l.total ≤ Index.limit) (hfits : l.Fits s (l.boundsAt l.scrollPosition))
    (hstart : 0 ≤ l.scrollPosition) (hend : l.scrollPosition ≤ l.maxScrollPosition)
    (hplace : l.extentError (l.total - 1) s s.lower s.upper = 0) : ∃ a,
      l.settledAnchor? l.scrollPosition (l.boundsAt l.scrollPosition) = .ok (some a) ∧
      l.reflow = .ok (⟨l.range, true, 0, l.scrollSize⟩, [], { l with anchor := some a }) := by
  obtain ⟨a, c, hsettled, hcourse, hmoved, houtcome⟩ :=
    h.takes hextents hsound hlimit hfits hstart hend hplace
  refine ⟨a, hsettled, ?_⟩
  have hreflow := hcourse.reflow_eq (h.opened_eq hlimit) h.full
  have hsilent : events l { l with anchor := some a } l.remeasure 0 = [] := by
    simp [events, h.remeasure]
  rw [houtcome, hmoved] at hreflow
  rw [hreflow, hsilent, h.stable, ← h.remeasure]

/-- Which item the last pass held fixed makes no difference to the next one. -/
theorem withAnchor (h : l.Settled s x y) (a : Option (Anchor Rat)) :
    ({ l with anchor := a } : Layout Rat).Settled s x y where
  toStanding := h.toStanding.elsewhere a l.scrollPosition
  range_eq := h.range_eq
  visible := h.visible

/-- A window that covers a stretch fits it if both of its ends reach into it. -/
theorem fits (h : l.Settled s x y) {b : Bounds Rat} {head tail : PlacedItem Rat}
    (hcovers : l.Covers ⟨s.first, s.last, x.index, y.index⟩ b)
    (hhead : l.item? s.first = some head) (htail : l.item? s.last = some tail)
    (hfirst : b.lower < head.finish) (hlast : tail.position < b.upper) : l.Fits s b := by
  obtain ⟨head', hhead', hindex, hposition, hfinish⟩ := h.whole.exists_head
  obtain ⟨tail', htail', hindex', hposition', -, hupper⟩ := h.whole.exists_tail
  have hfound {item : PlacedItem Rat} (hitem : item ∈ s.items) :
      l.item? item.index = some item := by
    rw [item?, h.published_eq]
    exact h.whole.consecutive.find?_eq hitem
  have hsome := hfound (List.mem_of_head? hhead')
  have hsome' := hfound (List.mem_of_getLast? htail')
  rw [hindex] at hsome
  rw [hindex'] at hsome'
  obtain rfl : head = head' := Option.some.inj (hhead.symm.trans hsome)
  obtain rfl : tail = tail' := Option.some.inj (htail.symm.trans hsome')
  obtain ⟨head₁, tail₁, hhead₁, htail₁, hleading, htrailing⟩ := hcovers
  obtain rfl : head = head₁ := Option.some.inj (hhead.symm.trans hhead₁)
  obtain rfl : tail = tail₁ := Option.some.inj (htail.symm.trans htail₁)
  rw [hposition, add_sub_cancel_right] at hleading
  rw [hupper] at htrailing
  exact {
    lower_le := hleading
    le_upper := htrailing
    first_reaches := hfinish ▸ hfirst
    last_reaches := hposition' ▸ hlast }

end Settled

/-! ## Two passes in a row -/

/-- A stable pass without a pinned item covers the stretch around the scroll position. -/
theorem Takes.covers_of_free (hopen : l.opened = .ok o) (hpin : l.pin = none) (h : o.Takes c)
    (hstable : c.strip.stable = true) : c.outcome.Covers
      ⟨c.strip.first, c.strip.last, c.firstVisible.index, c.lastVisible.index⟩
      (c.outcome.boundsAt c.scroll.position) := by
  rw [h.scroll_position_eq (h.source_ne_pinned hopen hpin)]
  exact h.outcome_covers hopen (Or.inl hstable)

/-- A stable pass leaves nothing to correct, unless its window holds the last item and not the
first, and ends in front of the extent that the averages give. -/
theorem Takes.corrected (hopen : l.opened = .ok o) (h : o.Takes c) (hextents : o.NonnegExtents)
    (hstable : c.strip.stable = true)
    (hplace : c.strip.first = 0 ∨ c.strip.last + 1 < l.total ∨
      c.base.baseExtent ≤ c.strip.upper + c.offset) :
    c.base.extentError (c.base.total - 1) c.strip (c.strip.lower + c.offset)
      (c.strip.upper + c.offset) = 0 := by
  have hbase : c.base.NonnegExtents := hextents.congr h.base_options h.base_total h.base_book
  obtain ⟨-, -, htotal, -⟩ := opened_inputs hopen
  -- The window was moved by the growth above its anchor, and then by the error left.
  obtain ⟨growth, hoffset⟩ : ∃ growth, c.offset = growth - c.base.extentError (c.base.total - 1)
      c.strip (c.strip.lower + growth) (c.strip.upper + growth) := by
    rw [Course.offset, if_pos hstable]
    exact ⟨_, rfl⟩
  have hcorrected := extentError_corrected hbase (c.base.total - 1) c.strip
    (c.strip.lower + growth) (c.strip.upper + growth) rfl
  rw [add_sub_assoc, ← hoffset, add_sub_assoc, ← hoffset] at hcorrected
  apply hcorrected
  rcases hplace with hzero | hinside | hle
  · exact Or.inl hzero
  · refine Or.inr (Or.inl ?_)
    rw [h.base_total, htotal]
    omega
  · exact Or.inr (Or.inr hle)

/-- A stable pass that leaves a window leaves a layout at rest, in every state of a run without
negative margins, provided that

* the scroll position is within the extent;
* the window fits the stretch around the scroll position: if an item was pinned, it covers it, and
  in any case both of its ends reach into it;
* the window does not hold the last item but not the first, and end in front of the extent that the
  averages give.

A second pass then tells of no event, and changes nothing but which item it holds fixed; and a third
one changes nothing at all. -/
theorem Reachable.reflow_at_rest {report : PassReport Rat} {events : List (LayoutEvent Rat)}
    {r : WindowRange} {head tail : PlacedItem Rat} (hl : Reachable l)
    (hmargins : l.book.NonnegMargins) (h : l.reflow = .ok (report, events, l'))
    (hstable : l'.stable = true) (hrange : l'.range = some r)
    (hhead : l'.item? r.first = some head) (htail : l'.item? r.last = some tail)
    (hstart : 0 ≤ l'.scrollPosition) (hend : l'.scrollPosition ≤ l'.maxScrollPosition)
    (hcovers : l.pin = none ∨ l'.Covers r (l'.boundsAt l'.scrollPosition))
    (hfirst : l'.scrollPosition - l'.options.overhang < head.finish)
    (hlast : tail.position < l'.scrollPosition + l'.viewport.main + l'.options.overhang)
    (hplace : r.first = 0 ∨ r.last + 1 < l'.total ∨
      l'.baseExtent ≤ tail.finish + (l'.spaceBefore (r.last + 1)).value) : ∃ a,
    l'.reflow = .ok (⟨some r, true, 0, l'.scrollSize⟩, [], { l' with anchor := some a }) ∧
    ({ l' with anchor := some a } : Layout Rat).reflow =
      .ok (⟨some r, true, 0, l'.scrollSize⟩, [], { l' with anchor := some a }) := by
  have hl' := hl.reflow h
  have hkept := reflow_keepsInputs h
  obtain ⟨moved, after, hpass, -, -, rfl⟩ := reflow_cases h
  obtain ⟨o, hopen, ⟨-, -, rfl⟩ | ⟨hfull, c, hcourse, -, rfl⟩⟩ := pass_cases hpass
  · cases hrange
  cases hrange
  obtain ⟨hoptions, -, htotal, hbook, -⟩ := opened_inputs hopen
  have hextents := (hl.nonnegExtents hmargins).keepsInputs hkept
  have hsettled := hcourse.settled hl hopen hfull hstable
  have hcovers' := hcovers.elim (fun hpin => hcourse.covers_of_free hopen hpin hstable) id
  have hfits := hsettled.fits hcovers' hhead htail hfirst hlast
  have hcorrected : c.outcome.extentError (c.outcome.total - 1) (c.strip.shift c.offset)
      (c.strip.lower + c.offset) (c.strip.upper + c.offset) = 0 := by
    rw [(KeepsInputs.outcome c).extentError_eq]
    apply hcourse.corrected hopen ((hl.nonnegExtents hmargins).congr hoptions htotal hbook) hstable
    obtain ⟨tail', htail', htrailing⟩ := hcourse.exists_tail hopen
    obtain rfl : tail = tail' := Option.some.inj (htail.symm.trans htail')
    rw [← htrailing, ← hkept.total, ← (KeepsInputs.outcome c).baseExtent_eq]
    exact hplace
  obtain ⟨a, hchosen, hsecond⟩ := hsettled.reflow_eq hextents hl'.book_sound hl'.total_le hfits
    hstart hend hcorrected
  refine ⟨a, hsecond, ?_⟩
  obtain ⟨a', hchosen', hthird⟩ := (hsettled.withAnchor (some a)).reflow_eq
    (hextents.congr rfl rfl rfl) hl'.book_sound hl'.total_le
    ⟨hfits.lower_le, hfits.le_upper, hfits.first_reaches, hfits.last_reaches⟩ hstart hend hcorrected
  -- The third pass finds the same window, and so the same anchor in it.
  obtain rfl : a = a' := Option.some.inj (Except.ok.inj (hchosen.symm.trans hchosen'))
  exact hthird

/-- A window in the middle of a list, all of it measured, after an item in front of it became
larger. -/
theorem Reachable.reflow_at_rest_of_middle : ∃ (l l' : Layout Rat) (report : PassReport Rat)
    (events : List (LayoutEvent Rat)) (r : WindowRange) (a : Anchor Rat), Reachable l ∧
      l.reflow = .ok (report, events, l') ∧ l'.stable = true ∧ l'.range = some r ∧ 0 < r.first ∧
      r.last + 1 < l'.total ∧ l'.scrollPosition ≠ l.scrollPosition ∧
      l'.reflow = .ok (⟨some r, true, 0, l'.scrollSize⟩, [], { l' with anchor := some a }) := by
  obtain ⟨l, l', report, events, hl, hreflow, htest⟩ := Reachable.exists_reflow_of_any (α := Rat)
    ⟨10, 5, 2, .vertical, true, 1⟩
    [.setTotal 20, .setViewport ⟨20, 30⟩, .moveTo 100,
      .recordAll ((List.range 20).map fun i => (i, ⟨12, none, ⟨1, 2⟩⟩)), .reflow,
      .record 3 ⟨17, none, ⟨1, 2⟩⟩]
    (fun l l' : Layout Rat => decide (l.book.NonnegMargins ∧ l'.stable = true ∧ l.pin = none ∧
        0 ≤ l'.scrollPosition ∧ l'.scrollPosition ≤ l'.maxScrollPosition ∧
        l'.scrollPosition ≠ l.scrollPosition) &&
      l'.range.any fun r : WindowRange => decide (0 < r.first ∧ r.last + 1 < l'.total) &&
        (l'.item? r.first).any fun head => (l'.item? r.last).any fun tail =>
          decide (l'.scrollPosition - l'.options.overhang < head.finish ∧
            tail.position < l'.scrollPosition + l'.viewport.main + l'.options.overhang))
    (by simp [Request.Representable, Index.limit]) (by decide +kernel)
  simp only [Bool.and_eq_true, decide_eq_true_eq] at htest
  obtain ⟨⟨hmargins, hstable, hpin, hstart, hend, hmoved⟩, htest⟩ := htest
  obtain ⟨r, hrange, htest⟩ := (Option.any_eq_true _ _).1 htest
  simp only [Bool.and_eq_true, decide_eq_true_eq] at htest
  obtain ⟨⟨hfirst, hlast⟩, htest⟩ := htest
  obtain ⟨head, hhead, htest⟩ := (Option.any_eq_true _ _).1 htest
  obtain ⟨tail, htail, htest⟩ := (Option.any_eq_true _ _).1 htest
  obtain ⟨hbehind, hahead⟩ := of_decide_eq_true htest
  obtain ⟨a, hsecond, -⟩ := hl.reflow_at_rest hmargins hreflow hstable hrange hhead htail hstart
    hend (Or.inl hpin) hbehind hahead (Or.inr (Or.inl hlast))
  exact ⟨l, l', report, events, r, a, hl, hreflow, hstable, hrange, hfirst, hlast, hmoved, hsecond⟩

/-- A list of two measured items, the first one without a size, laid out without overhang.  The
first pass is stable, and puts both items at the start of the list.  The second one is run right
after it, takes the other item for its anchor, loses the first one from the window, and moves the
window and the scroll position to where the averages put the item. -/
theorem Reachable.reflow_restless : ∃ (l₀ l l' l'' : Layout Rat) (report report' : PassReport Rat)
    (events events' : List (LayoutEvent Rat)),
      ofOptions { Options.ofEstimateSize (8 : Rat) with overhang := 0 } = .ok l₀ ∧
      l₀.run [.setTotal 2, .setViewportMain 20, .record 0 ⟨0, none, ⟨0, 0⟩⟩,
        .record 1 ⟨23, none, ⟨0, 0⟩⟩] = .ok l ∧
      Reachable l ∧ l.reflow = .ok (report, events, l') ∧ l'.stable = true ∧
      l'.reflow = .ok (report', events', l'') ∧ events' ≠ [] ∧
      l'.range = some ⟨0, 1, 1, 1⟩ ∧ l''.range = some ⟨1, 1, 1, 1⟩ ∧
      l'.scrollPosition = 0 ∧ l''.scrollPosition = 23 / 2 := by
  obtain ⟨l₀, l, l', report, events, hstart, hrun, hl, hreflow, htest⟩ :=
    Reachable.exists_run_of_any (α := Rat) { Options.ofEstimateSize (8 : Rat) with overhang := 0 }
      [.setTotal 2, .setViewportMain 20, .record 0 ⟨0, none, ⟨0, 0⟩⟩,
        .record 1 ⟨23, none, ⟨0, 0⟩⟩]
      (fun _ l' => decide (l'.stable = true ∧ l'.range = some ⟨0, 1, 1, 1⟩ ∧
          l'.scrollPosition = 0) &&
        l'.reflow.toOption.any fun (_, events', l'') => decide (events' ≠ [] ∧
          l''.range = some ⟨1, 1, 1, 1⟩ ∧ l''.scrollPosition = 23 / 2))
      (by simp [Request.Representable, Index.limit]) (by decide +kernel)
  simp only [Bool.and_eq_true, decide_eq_true_eq] at htest
  obtain ⟨⟨hstable, hrange, hposition⟩, htest⟩ := htest
  obtain ⟨⟨report', events', l''⟩, hreflow', htest⟩ := exists_ok_of_any htest
  obtain ⟨hevents, hrange', hposition'⟩ := of_decide_eq_true htest
  exact ⟨l₀, l, l', l'', report, report', events, events', hstart, hrun, hl, hreflow, hstable,
    hreflow', hevents, hrange, hrange', hposition, hposition'⟩

/-! ## Nothing to lay out -/

/-- The extent of the list if there is no settled window to work it out from. -/
def extentByAverages (l : Layout Rat) : Rat :=
  if l.total = 0 then l.options.minScrollSize
  else max (max l.baseExtent 0) l.options.minScrollSize

theorem estimatedExtent_of_unsettled (h : l.settled = []) :
    l.estimatedExtent = .ok l.extentByAverages := by
  unfold estimatedExtent extentByAverages
  by_cases htotal : l.total = 0
  · rw [if_pos htotal, if_pos htotal]
    rfl
  · simp only [if_neg htotal, h, List.getLast?_nil, lastIndex,
      Index.sub_of_le (Nat.pos_of_ne_zero htotal), Scalar.max_eq]
    rfl

theorem publishNothing_publishNothing (l : Layout Rat) :
    l.publishNothing.publishNothing = l.publishNothing := by
  unfold publishNothing
  by_cases htotal : l.total = 0 <;> simp only [htotal, if_true, if_false]

theorem truncate_publishNothing (l : Layout Rat) : l.publishNothing.truncate = l.publishNothing :=
  truncate_eq_self (fun _ h => absurd h List.not_mem_nil) (fun _ h => absurd h List.not_mem_nil)
    rfl rfl

/-- What a pass leaves behind that found nothing to lay out. -/
structure Vacant (l : Layout Rat) : Prop where
  blank : l.IsBlank
  unpublished : l.publishNothing = l
  remeasure : l.remeasure = false

/-- A pass leaves a layout without a window only if it found nothing to lay out. -/
theorem reflow_cleared {report : PassReport Rat} {events : List (LayoutEvent Rat)}
    (h : l.reflow = .ok (report, events, l')) (hrange : l'.range = none) :
    ∃ o, l.opened = .ok o ∧ o.IsBlank ∧ l' = { o.publishNothing with remeasure := false } := by
  obtain ⟨moved, after, hpass, -, -, rfl⟩ := reflow_cases h
  obtain ⟨o, hopen, ⟨hblank, -, rfl⟩ | ⟨-, c, -, -, rfl⟩⟩ := pass_cases hpass
  · exact ⟨o, hopen, hblank, rfl⟩
  · cases hrange

theorem vacant_of_reflow {report : PassReport Rat} {events : List (LayoutEvent Rat)}
    (h : l.reflow = .ok (report, events, l')) (hrange : l'.range = none) : l'.Vacant := by
  obtain ⟨o, -, hblank, rfl⟩ := reflow_cleared h hrange
  exact {
    blank := hblank
    unpublished := congrArg (fun l : Layout Rat => { l with remeasure := false })
      o.publishNothing_publishNothing
    remeasure := rfl }

/-- The extent is worked out before the settled window is given up.  Without an item of it in the
list the averages are all there is to go by. -/
theorem scrollSize_of_unsettled {report : PassReport Rat} {events : List (LayoutEvent Rat)}
    (h : l.reflow = .ok (report, events, l')) (hrange : l'.range = none)
    (hsettled : ∀ item ∈ l.settled, l.total ≤ item.index) :
    l'.scrollSize = l'.extentByAverages := by
  obtain ⟨o, hopen, -, rfl⟩ := reflow_cleared h hrange
  obtain ⟨scrollSize, hsize, rfl⟩ := opened_eq_ok hopen
  have hnone : l.truncate.settled = [] := List.filter_eq_nil_iff.2 fun item hitem => by
    simpa using hsettled item hitem
  rw [estimatedExtent_of_unsettled hnone] at hsize
  exact (Except.ok.inj hsize).symm

namespace Vacant

/-- A pass over a vacant layout changes its extent at most. -/
theorem reflow_eq (h : l.Vacant) : l.reflow =
    .ok (⟨none, true, 0, l.extentByAverages⟩,
      if l.extentByAverages = l.scrollSize then [] else [.scrollSizeChanged l.extentByAverages],
      { l with scrollSize := l.extentByAverages }) := by
  have htruncate : l.truncate = l := by
    rw [← h.unpublished, truncate_publishNothing]
  have hsettled : l.settled = [] := by
    rw [← h.unpublished]
    rfl
  have hrange : l.range = none := by
    rw [← h.unpublished]
    rfl
  have hstable : l.stable = true := by
    rw [← h.unpublished]
    rfl
  have hpublish (scrollSize : Rat) : ({ l with scrollSize } : Layout Rat).publishNothing =
      { l with scrollSize } :=
    congrArg (fun l : Layout Rat => { l with scrollSize }) h.unpublished
  have hpass : l.pass = .ok (0, { l with scrollSize := l.extentByAverages }) := by
    simp only [pass, htruncate, bind_eq_ok]
    refine ⟨l.extentByAverages, estimatedExtent_of_unsettled hsettled, ?_⟩
    refine (if_pos h.blank).trans ?_
    rw [hpublish]
    rfl
  have hevents : events l { l with scrollSize := l.extentByAverages } l.remeasure 0 =
      if l.extentByAverages = l.scrollSize then []
      else [.scrollSizeChanged l.extentByAverages] := by
    simp [events, h.remeasure]
  unfold reflow
  rw [hpass]
  show Except.ok (_, events l _ l.remeasure 0, _) = _
  rw [hevents, hrange, hstable, ← h.remeasure]

theorem reflow_silent (h : l.Vacant) (hsize : l.scrollSize = l.extentByAverages) :
    l.reflow = .ok (⟨none, true, 0, l.scrollSize⟩, [], l) := by
  rw [h.reflow_eq, if_pos hsize.symm, ← hsize]

theorem withScrollSize (h : l.Vacant) (scrollSize : Rat) :
    ({ l with scrollSize } : Layout Rat).Vacant where
  blank := h.blank
  unpublished := congrArg (fun l : Layout Rat => { l with scrollSize }) h.unpublished
  remeasure := h.remeasure

end Vacant

/-- A pass that finds the list or the viewport empty leaves a layout at rest but for its extent.  A
second pass changes it to the one that the averages give, and a third one changes nothing at all.
If there was no settled window in the list, as there is none in an empty one, the second pass does
not change anything either. -/
theorem reflow_vacant {report : PassReport Rat} {events : List (LayoutEvent Rat)}
    (h : l.reflow = .ok (report, events, l')) (hrange : l'.range = none) :
    l'.reflow = .ok (⟨none, true, 0, l'.extentByAverages⟩,
      if l'.extentByAverages = l'.scrollSize then [] else [.scrollSizeChanged l'.extentByAverages],
      { l' with scrollSize := l'.extentByAverages }) ∧
    ({ l' with scrollSize := l'.extentByAverages } : Layout Rat).reflow =
      .ok (⟨none, true, 0, l'.extentByAverages⟩, [],
        { l' with scrollSize := l'.extentByAverages }) ∧
    ((∀ item ∈ l.settled, l.total ≤ item.index) →
      l'.reflow = .ok (⟨none, true, 0, l'.scrollSize⟩, [], l')) := by
  have hvacant := vacant_of_reflow h hrange
  refine ⟨hvacant.reflow_eq, (hvacant.withScrollSize l'.extentByAverages).reflow_silent rfl, ?_⟩
  exact fun hsettled => hvacant.reflow_silent (scrollSize_of_unsettled h hrange hsettled)

/-- A list of two items, the first one settled, whose viewport is emptied once the other one is
measured too, and turns out to be smaller.  The first pass has the extent from the settled item and
the average size behind it; the second one, right after it, has it from the averages. -/
theorem Reachable.reflow_vacant_restless : ∃ (l₀ l l' l'' : Layout Rat)
    (report report' : PassReport Rat) (events events' : List (LayoutEvent Rat)),
      ofOptions { Options.ofEstimateSize (10 : Rat) with overhang := 0 } = .ok l₀ ∧
      l₀.run [.setTotal 2, .setViewportMain 20, .record 0 ⟨30, none, ⟨0, 0⟩⟩, .reflow,
        .record 1 ⟨10, none, ⟨0, 0⟩⟩, .setViewportMain 0] = .ok l ∧
      Reachable l ∧ l.reflow = .ok (report, events, l') ∧ l'.stable = true ∧ l'.range = none ∧
      l'.reflow = .ok (report', events', l'') ∧ events' = [.scrollSizeChanged 40] ∧
      l'.scrollSize = 50 ∧ l''.scrollSize = 40 := by
  obtain ⟨l₀, l, l', report, events, hstart, hrun, hl, hreflow, htest⟩ :=
    Reachable.exists_run_of_any (α := Rat) { Options.ofEstimateSize (10 : Rat) with overhang := 0 }
      [.setTotal 2, .setViewportMain 20, .record 0 ⟨30, none, ⟨0, 0⟩⟩, .reflow,
        .record 1 ⟨10, none, ⟨0, 0⟩⟩, .setViewportMain 0]
      (fun _ l' => decide (l'.stable = true ∧ l'.range = none ∧ l'.scrollSize = 50 ∧
        l'.extentByAverages = 40))
      (by simp [Request.Representable, Index.limit]) (by decide +kernel)
  obtain ⟨hstable, hrange, hsize, haverages⟩ := of_decide_eq_true htest
  obtain ⟨hreflow', -, -⟩ := reflow_vacant hreflow hrange
  rw [haverages, hsize] at hreflow'
  exact ⟨l₀, l, l', _, report, _, events, _, hstart, hrun, hl, hreflow, hstable, hrange, hreflow',
    rfl, hsize, rfl⟩

end Layout

end VirtualList
