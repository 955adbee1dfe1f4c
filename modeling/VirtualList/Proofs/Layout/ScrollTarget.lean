import VirtualList.Proofs.Layout.AnchorStability

/-!
# Bringing an item into view

A pinned item stays pinned until it is given up, replaced, or brought into view: only a few
requests end it, and among passes only one of an empty list or a stable one with a window.  Every
pass in between is laid out around the item and aligns it as well as the extent allows.  In exact
arithmetic the item is visible in the end.

## Key results

- `reflow_pin`: what a pass does to the pinned item
- `EndsPin`, `Effect.pin_cases`: which requests end it
- `run_pin`: an item stays pinned all along a run, or up to a request that ends it
- `reflow_aligns`: a pass aligns the pinned item
- `reflow_visible`: a stable pass brings it into view
-/

namespace VirtualList

/-- A value confined to bounds stays as it is, or is replaced by the bound that it lies beyond. -/
theorem Scalar.confine_cases (x : Rat) {lo hi : Rat} (h : lo ≤ hi) :
    (lo ≤ x ∧ x ≤ hi ∧ confine x lo hi = x) ∨ (x < lo ∧ confine x lo hi = lo) ∨
      (hi < x ∧ confine x lo hi = hi) := by
  unfold confine
  by_cases hx : x < lo
  · rw [if_pos hx, if_neg (not_lt.2 h)]
    exact Or.inr (Or.inl ⟨hx, rfl⟩)
  · rw [if_neg hx]
    by_cases hx' : hi < x
    · rw [if_pos hx']
      exact Or.inr (Or.inr ⟨hx', rfl⟩)
    · rw [if_neg hx']
      exact Or.inl ⟨not_lt.1 hx, not_lt.1 hx', rfl⟩

/-- A position held within an extent lies between the same bounds as the position itself, as far
as these admit a place within the extent at all. -/
theorem Scalar.confine_mem {x lo hi below above : Rat} (hlo : lo ≤ hi) (hbelow : below < x)
    (habove : x < above) (hbelow' : below < hi) (habove' : lo < above) :
    below < confine x lo hi ∧ confine x lo hi < above := by
  -- Held at one end of the extent, it has passed only what lies beyond that end.
  rcases confine_cases x hlo with ⟨-, -, heq⟩ | ⟨hx, heq⟩ | ⟨hx, heq⟩ <;> rw [heq]
  · exact ⟨hbelow, habove⟩
  · exact ⟨by linarith, habove'⟩
  · exact ⟨hbelow', by linarith⟩

/-- An item with a settled alignment lies in the viewport, at least with a part of it. -/
theorem Align.scrollPosition_mem (align : Align) (start : Rat) {size view : Rat}
    (hsize : 0 < size) (hview : 0 < view) :
    start - view < align.scrollPosition start size view ∧
      align.scrollPosition start size view < start + size := by
  have hhalf : (Scalar.half : Rat) = 1 / 2 := rfl
  cases align with
  | center =>
    simp only [Align.scrollPosition, hhalf]
    constructor <;> linarith
  | finish =>
    simp only [Align.scrollPosition]
    constructor <;> linarith
  | start =>
    simp only [Align.scrollPosition]
    constructor <;> linarith
  | nearest =>
    simp only [Align.scrollPosition]
    constructor <;> linarith

namespace Layout

variable {α : Type} [Scalar α]

/-! ## How long an item stays pinned -/

/-- A pass is done with the pinned item if there are no items, or if it is stable and has a
window.  Otherwise the item stays pinned. -/
theorem reflow_pin {l l' : Layout α} {report : PassReport α} {events : List (LayoutEvent α)}
    (h : l.reflow = .ok (report, events, l')) :
    l'.pin = if l.total = 0 ∨ (l'.stable = true ∧ l'.range ≠ none) then none else l.pin := by
  obtain ⟨moved, after, hpass, -, -, rfl⟩ := reflow_cases h
  obtain ⟨o, hopen, hcases⟩ := pass_cases hpass
  obtain ⟨-, -, htotal, -, hpin⟩ := opened_inputs hopen
  rcases hcases with ⟨-, -, rfl⟩ | ⟨-, c, hcourse, -, rfl⟩
  · -- Without a window the pass is stable, but only an empty list ends the wait.
    show (if o.total = 0 then none else o.pin) = _
    rw [htotal, hpin]
    exact if_congr (by simp [publishNothing]) rfl rfl
  · have hpos : l.total ≠ 0 := by
      have htaken := hcourse.pos_total
      omega
    obtain ⟨corrections, hbase⟩ := hcourse.base_fields
    show (if c.strip.stable = true then none else c.base.pin) = _
    rw [hbase, ← hpin]
    exact if_congr (by simp [Course.outcome, hpos]) rfl rfl

/-- The requests that end the wait of a pinned item. -/
inductive EndsPin (l l' : Layout α) : Request α → Prop
  /-- Another item is to be brought into view. -/
  | replaced (i : Nat) (align : Align) : EndsPin l l' (.pinTo i align)
  | unpinned : EndsPin l l' .unpin
  | forgotten : EndsPin l l' .forget
  /-- The user has scrolled to another position. -/
  | scrolled {position : α} : (position == l.scrollPosition) = false →
      EndsPin l l' (.moveTo position)
  /-- There is no item left to bring into view. -/
  | emptied : l.total = 0 → EndsPin l l' .reflow
  /-- A stable pass has placed the item. -/
  | placed : l'.stable = true → l'.range ≠ none → EndsPin l l' .reflow

/-- A request leaves an item pinned, or is one of those that end its wait. -/
theorem Effect.pin_cases {l l' : Layout α} {r : Request α} (h : Effect l r l') :
    l'.pin = l.pin ∨ EndsPin l l' r := by
  cases h with
  | scrolled hne => exact Or.inr (.scrolled hne)
  | pinned => exact Or.inr (.replaced _ _)
  | unpinned => exact Or.inr .unpinned
  | forgotten => exact Or.inr .forgotten
  | passed hreflow =>
    have hpin := reflow_pin hreflow
    split at hpin
    · rename_i hends
      rcases hends with htotal | ⟨hstable, hrange⟩
      · exact Or.inr (.emptied htotal)
      · exact Or.inr (.placed hstable hrange)
    · exact Or.inl hpin
  | _ => exact Or.inl rfl

/-- The item of `t` is pinned before every request of a run and after the last one. -/
def PinnedAlong (t : ScrollTarget) (l : Layout α) : List (Request α) → Prop
  | [] => l.pin = some t
  | r :: rest => l.pin = some t ∧
      ∀ answer l', l.respond r = .ok (answer, l') → PinnedAlong t l' rest

/-- A pinned item stays pinned all along a run, or up to a request that ends its wait. -/
theorem run_pin {l l' : Layout α} {rs : List (Request α)} {t : ScrollTarget}
    (hpin : l.pin = some t) (h : l.run rs = .ok l') :
    l.PinnedAlong t rs ∨ ∃ before r after m answer m', rs = before ++ r :: after ∧
      l.PinnedAlong t before ∧ l.run before = .ok m ∧ m.respond r = .ok (answer, m') ∧
      EndsPin m m' r := by
  -- The induction is on the requests that are left, from the layout that they start from.
  induction rs generalizing l with
  | nil => exact Or.inl hpin
  | cons r rest ih =>
    obtain ⟨⟨answer, l₁⟩, hrespond, h⟩ := bind_eq_ok.1 h
    rcases (respond_effect hrespond).pin_cases with hsame | hends
    · -- The item is pinned after the first request, too.
      have honly (answer' : Answer α) (l₂ : Layout α)
          (hrespond' : l.respond r = .ok (answer', l₂)) : l₂ = l₁ := by
        rw [hrespond] at hrespond'
        cases hrespond'
        rfl
      rcases ih (hsame.trans hpin) h with hall | ⟨before, r', after, m, answer', m', rfl, hall,
          hrun, hrespond', hends⟩
      · refine Or.inl ⟨hpin, fun answer' l₂ hrespond' => ?_⟩
        rw [honly answer' l₂ hrespond']
        exact hall
      · refine Or.inr ⟨r :: before, r', after, m, answer', m', rfl, ⟨hpin, ?_⟩, ?_, hrespond',
          hends⟩
        · intro answer' l₂ hrespond'
          rw [honly answer' l₂ hrespond']
          exact hall
        · exact bind_eq_ok.2 ⟨(answer, l₁), hrespond, hrun⟩
    · exact Or.inr ⟨[], r, rest, l, answer, l₁, rfl, hpin, rfl, hrespond, hends⟩

/-- In a run a pinned item has a settled alignment. -/
theorem Reachable.pin_align {l : Layout α} (h : Reachable l) :
    ∀ t, l.pin = some t → t.align ≠ .nearest := by
  induction h with
  | start h =>
    obtain ⟨u, -, h⟩ := bind_eq_ok.1 h
    cases h
    intro t ht
    cases ht
  | step _ _ h ih =>
    cases respond_effect h with
    | pinned hsettled =>
      intro t ht
      cases ht
      exact hsettled
    | scrolled =>
      intro t ht
      cases ht
    | unpinned =>
      intro t ht
      cases ht
    | forgotten =>
      intro t ht
      cases ht
    | passed hreflow =>
      intro t ht
      rw [reflow_pin hreflow] at ht
      split at ht
      · cases ht
      · exact ih t ht
    | _ => exact ih

/-! ## What a pass does for it -/

/-- A pass with a pinned item is laid out around it. -/
theorem Takes.of_pin {l o : Layout α} {c : Course α} {t : ScrollTarget} (hopen : l.opened = .ok o)
    (hpin : l.pin = some t) (h : o.Takes c) :
    c.source = .pinned t.align ∧ c.footing.anchor.index = min t.index (l.total - 1) := by
  obtain ⟨-, -, htotal, -, hpin'⟩ := opened_inputs hopen
  rcases chooseAnchor_cases h.choose with ⟨t', ht', hsource, hanchor⟩ | ⟨hnone, -⟩
  · rw [hpin', hpin] at ht'
    cases ht'
    obtain ⟨-, hindex, -⟩ := pinnedAnchor_eq_ok hanchor
    rw [h.footing_index, hindex, htotal]
    exact ⟨hsource, rfl⟩
  · rw [hpin', hpin] at hnone
    cases hnone

/-- A pass ends with the pinned item aligned as well as the extent allows. -/
theorem Takes.clamp_of_pin {o : Layout α} {c : Course α} {align : Align} (h : o.Takes c)
    (hsource : c.source = .pinned align) :
    Scalar.clamp (align.scrollPosition c.placed.position c.footing.size c.base.viewport.main) 0
      c.outcome.maxScrollPosition = .ok c.scroll.position := by
  have hrealign := h.realign
  rw [hsource] at hrealign
  obtain ⟨aligned, hclamp, hscroll⟩ := bind_eq_ok.1 hrealign
  rw [← Except.ok.inj hscroll]
  exact hclamp

/-- While an item is pinned every pass with a window has it for its anchor, and ends at the scroll
position that brings it to its alignment as well as the extent allows.  The item is done with iff
the pass is stable. -/
theorem reflow_aligns {l l' : Layout α} {t : ScrollTarget} {report : PassReport α}
    {events : List (LayoutEvent α)} (hpin : l.pin = some t) (hfull : ¬l.IsBlank)
    (h : l.reflow = .ok (report, events, l')) :
    ∃ item, l'.item? (min t.index (l.total - 1)) = some item ∧
      l'.anchor = some ⟨min t.index (l.total - 1), item.position⟩ ∧
      Scalar.clamp (t.align.scrollPosition item.position item.size l.viewport.main) 0
        l'.maxScrollPosition = .ok l'.scrollPosition ∧
      l'.pin = if l'.stable = true then none else some t := by
  obtain ⟨o, c, hopen, hcourse, rfl⟩ := reflow_takes hfull h
  obtain ⟨hsource, hindex⟩ := hcourse.of_pin hopen hpin
  obtain ⟨-, hviewport, -, -, hpin'⟩ := opened_inputs hopen
  have hclamp := hcourse.clamp_of_pin hsource
  rw [hcourse.base_viewport, hviewport] at hclamp
  obtain ⟨corrections, hbase⟩ := hcourse.base_fields
  have hkept : c.base.pin = some t := by rw [hbase, ← hpin, ← hpin']
  -- The anchor in its place is what is found under its index.
  rw [← hindex]
  refine ⟨c.footing.item.shift c.offset, hcourse.item?_anchor hopen, rfl, hclamp, ?_⟩
  show (if c.strip.stable = true then none else c.base.pin) = _
  rw [hkept]
  rfl

/-! ## Exact arithmetic -/

/-- A pass of a layout without negative margins that is done with a pinned item leaves it in the
visible part of the window, unless the item has no size. -/
theorem Reachable.reflow_visible {l l' : Layout Rat} {t : ScrollTarget} {report : PassReport Rat}
    {events : List (LayoutEvent Rat)} {item : PlacedItem Rat} (hl : Reachable l)
    (hmargins : l.book.NonnegMargins) (hpin : l.pin = some t) (htotal : 0 < l.total)
    (hmain : 0 < l.viewport.main) (h : l.reflow = .ok (report, events, l'))
    (hstable : l'.stable = true) (hitem : l'.item? (min t.index (l.total - 1)) = some item)
    (hsize : 0 < item.size) :
    ∃ r, l'.range = some r ∧ r.isVisible (min t.index (l.total - 1)) = true := by
  obtain ⟨o, c, hopen, hcourse, rfl⟩ := reflow_takes (not_isBlank htotal hmain) h
  obtain ⟨hsource, hindex⟩ := hcourse.of_pin hopen hpin
  obtain ⟨hoptions, hviewport, htotal', hbook, -⟩ := opened_inputs hopen
  have hview : c.base.viewport.main = l.viewport.main := by
    rw [hcourse.base_viewport, hviewport]
  rw [← hindex] at hitem ⊢
  obtain rfl : c.footing.item.shift c.offset = item :=
    Option.some.inj ((hcourse.item?_anchor hopen).symm.trans hitem)
  have hextents := (hl.nonnegExtents hmargins).congr hoptions htotal' hbook
  obtain ⟨hstart, hfinish⟩ := hcourse.anchor_in_extent hextents hstable
  -- The scroll position was held within the extent, which holds the item.
  have hclamp := hcourse.clamp_of_pin hsource
  have hmax : 0 ≤ c.outcome.maxScrollPosition ∧
      c.scrollSize - l.viewport.main ≤ c.outcome.maxScrollPosition := by
    rw [← hview]
    exact ⟨(Scalar.le_max _ _).2, (Scalar.le_max _ _).1⟩
  rw [Scalar.clamp_of_le hmax.1, hview] at hclamp
  have hpos : 0 < c.footing.size := hsize
  obtain ⟨hbehind, hahead⟩ := t.align.scrollPosition_mem c.placed.position hpos hmain
  have hends : (c.footing.item.shift c.offset).finish = c.placed.position + c.footing.size := rfl
  have hplace : (c.footing.item.shift c.offset).position = c.placed.position := rfl
  rw [hends] at hfinish
  rw [hplace] at hstart
  -- The alignment puts the item into the viewport, and so does what is left of it once the
  -- position is held within the extent.
  have hscroll := Scalar.confine_mem hmax.1 hbehind hahead (by linarith) (by linarith)
  rw [Except.ok.inj hclamp] at hscroll
  have hvisible := visibleEnds_of_meets (hcourse.items_consecutive hopen) hcourse.visible
    (hcourse.anchor_mem hopen) (by rw [hends]; linarith) (by rw [hview, hplace]; linarith)
  refine ⟨_, rfl, ?_⟩
  simp only [WindowRange.isVisible, decide_eq_true_eq]
  exact hvisible

/-! ## The life of a pinned item -/

/-- A pinned item stays pinned all along a run, or up to a request that ends its wait.  Until then
every pass with a window is laid out around it, or around the last item if the list is shorter, and
aligns it as it comes to lie; the item is done with iff the pass is stable.  In exact arithmetic and
without negative margins that pass leaves an item with a size in the visible part of the window. -/
theorem scrollTarget_kept_until_placed :
    (∀ {α : Type} [Scalar α] {l l' : Layout α} {rs : List (Request α)} {t : ScrollTarget},
      l.pin = some t → l.run rs = .ok l' →
        l.PinnedAlong t rs ∨ ∃ before r after m answer m', rs = before ++ r :: after ∧
          l.PinnedAlong t before ∧ l.run before = .ok m ∧ m.respond r = .ok (answer, m') ∧
          EndsPin m m' r) ∧
    (∀ {α : Type} [Scalar α] {l l' : Layout α} {t : ScrollTarget} {report : PassReport α}
        {events : List (LayoutEvent α)}, Reachable l → l.pin = some t → 0 < l.total →
      (l.viewport.main == 0) = false → l.reflow = .ok (report, events, l') →
        t.align ≠ .nearest ∧ ∃ item, l'.item? (min t.index (l.total - 1)) = some item ∧
          l'.anchor = some ⟨min t.index (l.total - 1), item.position⟩ ∧
          Scalar.clamp (t.align.scrollPosition item.position item.size l.viewport.main) 0
            l'.maxScrollPosition = .ok l'.scrollPosition ∧
          l'.pin = if l'.stable = true then none else some t) ∧
    (∀ {l l' : Layout Rat} {t : ScrollTarget} {report : PassReport Rat}
        {events : List (LayoutEvent Rat)} {item : PlacedItem Rat}, Reachable l →
      l.book.NonnegMargins → l.pin = some t → 0 < l.total → 0 < l.viewport.main →
      l.reflow = .ok (report, events, l') → l'.stable = true →
      l'.item? (min t.index (l.total - 1)) = some item → 0 < item.size →
        ∃ r, l'.range = some r ∧ r.isVisible (min t.index (l.total - 1)) = true) := by
  refine ⟨fun hpin hrun => run_pin hpin hrun, fun hl hpin htotal hmain hreflow => ?_,
    fun hl hmargins hpin htotal hmain hreflow hstable hitem hsize =>
      hl.reflow_visible hmargins hpin htotal hmain hreflow hstable hitem hsize⟩
  refine ⟨hl.pin_align _ hpin, reflow_aligns hpin (fun hblank => ?_) hreflow⟩
  rcases hblank with hzero | hzero
  · omega
  · rw [hmain] at hzero
    cases hzero

/-- The last of five measured items is brought into view for an index past the end. -/
theorem scrollTarget_kept_until_placed_of_measured : ∃ (l l' : Layout Rat)
    (report : PassReport Rat) (events : List (LayoutEvent Rat)), Reachable l ∧
      l.pin = some ⟨7, .finish⟩ ∧ l.reflow = .ok (report, events, l') ∧ l.run [.reflow] = .ok l' ∧
      (l.PinnedAlong ⟨7, .finish⟩ [.reflow] ∨ ∃ before r after m answer m',
        [.reflow] = before ++ r :: after ∧ l.PinnedAlong ⟨7, .finish⟩ before ∧
        l.run before = .ok m ∧ m.respond r = .ok (answer, m') ∧ EndsPin m m' r) ∧
      l'.pin = none ∧ ∃ r, l'.range = some r ∧ r.isVisible (min 7 (l.total - 1)) = true := by
  obtain ⟨l, hl, htest⟩ := Reachable.exists_of_any
    ⟨10, 5, 0, .vertical, true, 1⟩
    [.setTotal 5, .setViewport ⟨20, 30⟩, .reflow,
      .recordAll ((List.range 5).map fun i => (i, ⟨12, none, ⟨1, 2⟩⟩)), .pinTo 7 .finish]
    (fun l : Layout Rat => decide (l.pin = some ⟨7, .finish⟩ ∧ 0 < l.total ∧ 0 < l.viewport.main ∧
        (l.viewport.main == 0) = false ∧ l.book.NonnegMargins) &&
      l.reflow.toOption.any fun (_, _, l') => decide (l'.stable = true) &&
        (l'.item? (min 7 (l.total - 1))).any fun item => decide (0 < item.size))
    (by simp [Request.Representable, Index.limit]) (by decide +kernel)
  simp only [Bool.and_eq_true, decide_eq_true_eq] at htest
  obtain ⟨⟨hpin, htotal, hmain, hmain', hmargins⟩, hreflow⟩ := htest
  obtain ⟨⟨report, events, l'⟩, hreflow, htest⟩ := exists_ok_of_any hreflow
  simp only [Bool.and_eq_true, decide_eq_true_eq, Option.any_eq_true_iff_get] at htest
  obtain ⟨hstable, hsome, hsize⟩ := htest
  have hrun : l.run [.reflow] = .ok l' := by
    simp only [run, respond, hreflow]
    rfl
  obtain ⟨hkept, haligned, hvisible⟩ := scrollTarget_kept_until_placed
  obtain ⟨-, item, hitem, -, -, hdone⟩ := haligned hl hpin htotal hmain' hreflow
  rw [if_pos hstable] at hdone
  exact ⟨l, l', report, events, hl, hpin, hreflow, hrun, hkept hpin hrun, hdone,
    hvisible hl hmargins hpin htotal hmain hreflow hstable (Option.some_get hsome).symm hsize⟩

end Layout

end VirtualList
