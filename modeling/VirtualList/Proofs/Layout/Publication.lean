import VirtualList.Proofs.Layout.Tiling

/-!
# What a pass publishes, and what it notes

The items of a window lie one behind the other, wherever the anchor is and however the window was
moved to its place: each of them starts behind the end of the one before it, the margin between the
two and the gap.  Their sizes are those of the book.

The book keeps what it says.  A pass enters into it the estimate that it used, once for each item
of the window that has not been measured, and nothing else.

## Key results

- `Tidy.entry?_foldl_noteEstimate`: what is in a book once a window has been noted
- `Takes.item_size`: the items of a window have the sizes of the book
- `Takes.entry?_outcome`: the entries after a pass
- `Reachable.window_tiles`: what is published tiles the axis, and what is noted is the estimate
-/

namespace VirtualList

/-! ## Notes of a whole window -/

/-- Noting the same estimate for each item that was not measured makes an entry with it for each of
them, and leaves the other entries alone. -/
theorem SizeBook.Tidy.entry?_foldl_noteEstimate {α : Type} [Scalar α] {b : SizeBook α} {v : α}
    (hb : b.Tidy) {items : List (PlacedItem α)}
    (hitems : ∀ x ∈ items, b.isMeasured x.index = false → x.size = v) (k : Nat) :
    SizeBook.entry? (items.foldl (fun b x => b.noteEstimate x.index x.size) b) k =
      if k ∈ items.map PlacedItem.index ∧ b.isMeasured k = false then
        some ⟨k, .estimated v, none, .zero⟩
      else b.entry? k := by
  induction items generalizing b with
  | nil => simp
  | cons x rest ih =>
    obtain ⟨hx, hrest⟩ := List.forall_mem_cons.1 hitems
    -- The first note measures nothing, so the others go on as they would without it.
    have hkept (i : Nat) : (b.noteEstimate x.index x.size).isMeasured i = b.isMeasured i :=
      (Agrees.noteEstimate b x.index x.size).isMeasured_eq i
    have hrest' : ∀ y ∈ rest, (b.noteEstimate x.index x.size).isMeasured y.index = false →
        y.size = v := by
      intro y hy hnot
      rw [hkept] at hnot
      exact hrest y hy hnot
    rw [List.foldl_cons, ih (hb.noteEstimate x.index x.size) hrest', hkept,
      hb.entry?_noteEstimate]
    by_cases hnot : b.isMeasured k = false
    · by_cases hk : k = x.index
      · subst hk
        simp [hnot, hx hnot]
      · simp [hk]
    · -- The entry of a measured item is left alone by every note.
      have hkx : ¬(k = x.index ∧ b.isMeasured x.index = false) := by
        intro h
        rw [h.1] at hnot
        exact hnot h.2
      simp [hnot, hkx]

namespace Layout

/-! ## Sizes and entries of a window -/

namespace Takes

variable {α : Type} [Scalar α] {l o : Layout α} {c : Course α}

/-- The items of a window have the sizes that the book says. -/
theorem item_size (hopen : l.opened = .ok o) (h : o.Takes c) :
    ∀ item ∈ c.items, item.size = (l.book.sizeOf item.index).value := by
  obtain ⟨-, -, -, hbase⟩ := h.base_inputs hopen
  intro item hitem
  obtain ⟨x, hx, rfl⟩ := List.mem_map.1 hitem
  show x.size = (l.book.sizeOf x.index).value
  rw [← hbase]
  rcases (h.spans hopen).size_eq x hx with rfl | hsize
  · -- The anchor was given its size with its footing.
    show c.footing.size = _
    rw [(footing_eq_ok h.footing).2]
    rfl
  · exact hsize

/-- A pass enters the estimate for the items of its window that have not been measured. -/
theorem entry?_outcome (hl : l.book.Tidy) (hopen : l.opened = .ok o) (h : o.Takes c) (i : Nat) :
    c.outcome.book.entry? i =
      if c.strip.first ≤ i ∧ i ≤ c.strip.last ∧ l.book.isMeasured i = false then
        some ⟨i, .estimated l.book.estimate, none, .zero⟩
      else l.book.entry? i := by
  obtain ⟨-, -, -, hbase⟩ := h.base_inputs hopen
  have hestimate : ∀ x ∈ c.items, l.book.isMeasured x.index = false →
      x.size = l.book.estimate := by
    intro x hx hnot
    rw [SizeBook.isMeasured_eq, Option.isSome_eq_false_iff, Option.isNone_iff_eq_none] at hnot
    rw [h.item_size hopen x hx, SizeBook.sizeOf_of_not_recorded hnot]
    rfl
  have hspan := h.spans hopen
  have hle : c.strip.first ≤ c.strip.last := hspan.first_le.trans hspan.le_last
  have hmem : i ∈ c.items.map PlacedItem.index ↔ c.strip.first ≤ i ∧ i ≤ c.strip.last := by
    rw [h.items_indices hopen, List.mem_range'_1]
    omega
  show SizeBook.entry? (c.items.foldl _ c.base.book) i = _
  rw [hbase, hl.entry?_foldl_noteEstimate hestimate]
  simp only [hmem, and_assoc]

end Takes

/-! ## The published window -/

/-- The space between two neighbours of the list is the margin and the gap. -/
theorem value_spaceBefore {α : Type} [Scalar α] {l : Layout α} {i : Nat} (hpos : 0 < i)
    (hi : i < l.total) :
    (l.spaceBefore i).value = (l.book.marginBefore i).value + l.options.gap := by
  simp only [spaceBefore, Size.value_map, if_pos (And.intro hpos hi)]

variable {l l' : Layout Rat} {report : PassReport Rat} {events : List (LayoutEvent Rat)}
  {r : WindowRange}

/-- The items that a pass publishes tile the axis: each lies behind the one before it, the margin
between them and the gap, and has the size of the book.  Of the book only the entries of the items
of the window that have not been measured change, and these then hold the estimate. -/
theorem Reachable.window_tiles (hl : Reachable l) (h : l.reflow = .ok (report, events, l'))
    (hrange : l'.range = some r) :
    (∀ i, r.first ≤ i → i < r.last → ∃ x y, l'.item? i = some x ∧ l'.item? (i + 1) = some y ∧
        y.position =
          x.position + x.size + (l'.book.marginBefore (i + 1)).value + l'.options.gap) ∧
      (∀ i, r.first ≤ i → i ≤ r.last →
        ∃ x, l'.item? i = some x ∧ x.size = (l'.book.sizeOf i).value) ∧
      l'.book = { l.book with entries := l'.book.entries } ∧
      ∀ i, l'.book.entry? i =
        if r.first ≤ i ∧ i ≤ r.last ∧ l.book.isMeasured i = false then
          some ⟨i, .estimated l.book.estimate, none, .zero⟩
        else l.book.entry? i := by
  have hlast := (reflow_freshlyLaidOut h).last_lt r hrange
  have hagrees := (reflow_keepsInputs h).agrees
  obtain ⟨o, c, hopen, hcourse, rfl⟩ := reflow_takes_of_range (by rw [hrange]; simp) h
  cases hrange
  refine ⟨?_, ?_, hagrees.eq_entries, hcourse.entry?_outcome hl.book_reachable.tidy hopen⟩
  · intro i hfirst hi
    obtain ⟨x, hx, hposition, hsize⟩ := hcourse.exists_item hopen hfirst (Nat.le_of_lt hi)
    obtain ⟨y, hy, hnext, -⟩ := hcourse.exists_item hopen (Nat.le_succ_of_le hfirst) hi
    refine ⟨x, y, hx, hy, ?_⟩
    -- The place of an item follows from that of the one before it.
    have hspace := value_spaceBefore (l := c.outcome) (Nat.succ_pos i) (Nat.lt_of_le_of_lt hi hlast)
    show y.position = x.position + x.size + (c.outcome.book.marginBefore (i + 1)).value +
      c.outcome.options.gap
    rw [hnext, placeFrom_succ _ _ hfirst, ← hposition, ← hsize, hspace]
    ring
  · intro i hfirst hi
    obtain ⟨x, hx, -, hsize⟩ := hcourse.exists_item hopen hfirst hi
    exact ⟨x, hx, hsize⟩

/-- Twenty items, scrolled to the middle, where the averages have moved on since the last pass: the
first item of the window is noted with the new estimate, and the item behind it, which has been
measured, lies where the first one with its margin and the gap ends. -/
theorem Reachable.window_tiles_of_renewed : ∃ (l l' : Layout Rat) (report : PassReport Rat)
    (events : List (LayoutEvent Rat)) (r : WindowRange) (x y : PlacedItem Rat), Reachable l ∧
      l.reflow = .ok (report, events, l') ∧ l'.range = some r ∧ 0 < r.first ∧
      l.corrections.isEmpty = false ∧
      l.book.entry? r.first = some ⟨r.first, .estimated 12, none, .zero⟩ ∧
      l'.book.entry? r.first = some ⟨r.first, .estimated (61 / 5), none, .zero⟩ ∧
      l'.book.isMeasured (r.first + 1) = true ∧ l'.item? r.first = some x ∧
      l'.item? (r.first + 1) = some y ∧
      y.position =
        x.position + x.size + (l'.book.marginBefore (r.first + 1)).value + l'.options.gap := by
  obtain ⟨l, l', report, events, hl, hreflow, htest⟩ := Reachable.exists_reflow_of_any
    ⟨10, 5, 2, .vertical, true, 1⟩
    [.setTotal 20, .setViewport ⟨20, 30⟩, .reflow,
      .recordAll ((List.range 3).map fun i => (i, ⟨12, none, ⟨-1, 2⟩⟩)), .reflow, .moveTo 100,
      .reflow, .recordAll [(7, ⟨16, none, ⟨3, 1⟩⟩), (8, ⟨9, none, ⟨3, 1⟩⟩)]]
    (fun l l' : Layout Rat => l'.range.any fun r : WindowRange => decide (0 < r.first ∧
      r.first < r.last ∧ l.corrections.isEmpty = false ∧
      l.book.entry? r.first = some ⟨r.first, .estimated 12, none, .zero⟩ ∧
      l.book.isMeasured r.first = false ∧ l.book.estimate = 61 / 5 ∧
      l'.book.isMeasured (r.first + 1) = true))
    (by simp [Request.Representable, Index.limit]) (by decide +kernel)
  simp only [Option.any_eq_true, decide_eq_true_eq] at htest
  obtain ⟨r, hrange, hpos, hlt, hcorrections, hentry, hnot, hestimate, hmeasured⟩ := htest
  obtain ⟨htiles, -, -, hentries⟩ := hl.window_tiles hreflow hrange
  obtain ⟨x, y, hx, hy, hposition⟩ := htiles r.first (Nat.le_refl _) hlt
  have hnoted := hentries r.first
  rw [if_pos ⟨Nat.le_refl _, Nat.le_of_lt hlt, hnot⟩, hestimate] at hnoted
  exact ⟨l, l', report, events, r, x, y, hl, hreflow, hrange, hpos, hcorrections, hentry, hnoted,
    hmeasured, hx, hy, hposition⟩

end Layout

end VirtualList
