import VirtualList.Proofs.Layout.Extent

/-!
# What is seen stays where it is

A pass moves content and scroll position in several places: it clamps the position, reaches for an
anchor outside the stretch to fill, and moves a stable window by the growth above the anchor and by
the error of the extent.  In exact arithmetic all of this cancels out for an anchor that was
already laid out and is in reach: it keeps its distance from the scroll position.

## Key results

- `drift_eq_zero_of_meets`: an anchor in reach is not reached for
- `Takes.onScreen_eq`: the anchor keeps its distance from where it was chosen
- `Reachable.meets_of_overlaps`: in a run a retained anchor is in reach
-/

namespace VirtualList.Layout

/-- There is something to lay out if there are items and the viewport is not empty. -/
theorem not_isBlank {l : Layout Rat} (htotal : 0 < l.total) (hmain : 0 < l.viewport.main) :
    ¬l.IsBlank := by
  intro hblank
  rcases hblank with hzero | hzero
  · omega
  · exact absurd (eq_of_beq hzero) (ne_of_gt hmain)

/-- The item of an anchor, with the spaces on both sides, reaches into the stretch that the window
is to fill at a scroll position. -/
def Meets (l : Layout Rat) (a : Anchor Rat) (position : Rat) : Prop :=
  (l.boundsAt position).lower ≤
      a.position + (l.book.sizeOf a.index).value + (l.spaceBefore (a.index + 1)).value ∧
    a.position - (l.spaceBefore a.index).value ≤ (l.boundsAt position).upper

/-- The window need not be moved to reach an anchor that is in reach. -/
theorem drift_eq_zero {f : Footing Rat} {b : Bounds Rat} (hupper : b.lower ≤ f.upper)
    (hlower : f.lower ≤ b.upper) : f.drift b = 0 := by
  unfold Footing.drift
  rw [if_neg (not_lt.2 hupper), if_neg (not_lt.2 hlower)]

/-- An anchor behind the first item is laid out at the position it was given. -/
theorem footing_anchor_of_pos {l : Layout Rat} {a : Anchor Rat} {f : Footing Rat}
    (h : l.footing a = .ok f) (ha : 0 < a.index) : f.anchor = a := by
  rw [(footing_eq_ok h).2]
  -- Only the first item is put back to the start of the list.
  simp only [if_neg (Nat.ne_of_gt ha)]

/-- An anchor in reach is not reached for, provided that it is laid out where it was chosen. -/
theorem drift_eq_zero_of_meets {l : Layout Rat} {a : Anchor Rat} {f : Footing Rat} {position : Rat}
    (hf : l.footing a = .ok f) (hanchor : f.anchor = a) (hmeets : l.Meets a position) :
    f.drift (l.boundsAt position) = 0 := by
  -- Being in reach is said of the inputs, and the footing is made of these.
  have hfooting := (footing_eq_ok hf).2
  apply drift_eq_zero
  · rw [Footing.upper, hanchor, hfooting]
    exact hmeets.1
  · rw [Footing.lower, hanchor, hfooting]
    exact hmeets.2

/-- Without a pinned item the scroll position follows the window and is not aligned. -/
theorem realigned_of_free (l : Layout Rat) {source : AnchorSource}
    (hsource : ∀ align, source ≠ .pinned align) (a : Anchor Rat) (size : Rat)
    (scroll : ScrollTrack Rat) : l.realigned source a size scroll = .ok scroll := by
  cases source with
  | pinned align => exact absurd rfl (hsource align)
  | _ => rfl

theorem realigned_eq_self {l : Layout Rat} {source : AnchorSource} {a : Anchor Rat} {size : Rat}
    {scroll scroll' : ScrollTrack Rat} (hsource : ∀ align, source ≠ .pinned align)
    (h : l.realigned source a size scroll = .ok scroll') : scroll' = scroll :=
  Except.ok.inj (h.symm.trans (l.realigned_of_free hsource a size scroll))

/-- The scroll position at which a pass without a pinned item chooses its anchor is the one it
found, held within the extent. -/
theorem clampedScroll_position {l : Layout Rat} {scroll : ScrollTrack Rat}
    (h : l.clampedScroll = .ok scroll) :
    Scalar.clamp l.scrollPosition 0 l.maxScrollPosition = .ok scroll.position := by
  obtain ⟨clamped, hclamped, h⟩ := bind_eq_ok.1 h
  rw [hclamped]
  simp only at h
  -- A position within the extent is taken as it is.
  split at h
  · rename_i hsame
    cases h
    exact congrArg _ (eq_of_beq hsame)
  · cases h
    rfl

namespace Takes

variable {l o : Layout Rat} {c : Course Rat}

/-- A pass does not reach for an anchor that is in reach and that it lays out where it was chosen. -/
theorem drift_eq_zero_of_anchor (h : o.Takes c) (hanchor : c.footing.anchor = c.anchor)
    (hmeets : o.Meets c.anchor c.chosenAt.position) : c.drift = 0 := by
  obtain ⟨corrections, hbase⟩ := h.base_fields
  have hmeets' : c.base.Meets c.anchor c.chosenAt.position := by
    rw [hbase]
    exact hmeets
  exact drift_eq_zero_of_meets h.footing hanchor hmeets'

/-- An anchor in reach behind the first item is not reached for. -/
theorem drift_eq_zero (h : o.Takes c) (hpos : 0 < c.anchor.index)
    (hmeets : o.Meets c.anchor c.chosenAt.position) : c.drift = 0 :=
  h.drift_eq_zero_of_anchor (footing_anchor_of_pos h.footing hpos) hmeets

/-- Without a pinned item a pass has no pinned anchor. -/
theorem source_ne_pinned (hopen : l.opened = .ok o) (hpin : l.pin = none) (h : o.Takes c)
    (align : Align) : c.source ≠ .pinned align := by
  obtain ⟨-, -, -, -, hpin'⟩ := opened_inputs hopen
  rcases chooseAnchor_cases h.choose with ⟨t, ht, -⟩ | ⟨-, -, hfree⟩
  · rw [hpin', hpin] at ht
    cases ht
  · rcases freeAnchor_cases hfree with ⟨hsource, -⟩ | ⟨hsource, -⟩ | ⟨hsource, -⟩
    all_goals
      rw [hsource]
      exact AnchorSource.noConfusion

/-- Where the scroll position ends up if no item is pinned: it is moved twice, as is the window. -/
theorem scroll_position_eq (h : o.Takes c) (hsource : ∀ align, c.source ≠ .pinned align) :
    c.scroll.position = c.chosenAt.position + c.drift + c.offset := by
  have hscroll : c.scroll = (c.chosenAt.shift c.drift).shift c.offset :=
    realigned_eq_self hsource h.realign
  rw [hscroll]
  rfl

/-- An anchor that is neither pinned nor reached for keeps its distance from the scroll position:
whatever moves the window moves the scroll position along. -/
theorem onScreen_eq (h : o.Takes c) (hsource : ∀ align, c.source ≠ .pinned align)
    (hdrift : c.drift = 0) :
    (c.footing.item.shift c.offset).position - c.scroll.position =
      c.footing.anchor.position - c.chosenAt.position := by
  have hitem : (c.footing.item.shift c.offset).position =
      c.footing.anchor.position + c.offset := rfl
  rw [h.scroll_position_eq hsource, hitem, hdrift]
  ring

end Takes

/-- In a run an anchor whose item reaches into the stretch does so with its spaces, too. -/
theorem Reachable.meets_of_overlaps {l : Layout Rat} (h : Reachable l)
    (hmargins : l.book.NonnegMargins) {a : Anchor Rat} {position : Rat}
    (hoverlaps : l.overlaps a (l.boundsAt position) = true) : l.Meets a position := by
  simp only [overlaps, Bool.and_eq_true, decide_eq_true_eq] at hoverlaps
  obtain ⟨hlow, hhigh⟩ := hoverlaps
  have hlead := (h.nonnegExtents hmargins).space a.index
  have htrail := (h.nonnegExtents hmargins).space (a.index + 1)
  -- Spaces that are not negative only widen the item.
  constructor
  · linarith
  · linarith

/-- In every state of a run without negative margins, a pass that takes an anchor behind the first
item from the last pass or from the last stable window keeps that anchor where it is seen: its
distance from the scroll position, held within the extent, is the same before and after, provided
that the anchor with its spaces is in reach.  A retained anchor always is. -/
theorem Reachable.anchor_stability {l l' o : Layout Rat} {a : Anchor Rat} {source : AnchorSource}
    {scroll : ScrollTrack Rat} {report : PassReport Rat} {events : List (LayoutEvent Rat)}
    (h : Reachable l) (hmargins : l.book.NonnegMargins) (hpin : l.pin = none)
    (htotal : 0 < l.total) (hmain : 0 < l.viewport.main)
    (hopen : l.opened = .ok o) (hchoose : o.chooseAnchor = .ok (a, source, scroll))
    (hsource : source = .retained ∨ source = .settled) (hpos : 0 < a.index)
    (hreflow : l.reflow = .ok (report, events, l')) :
    Scalar.clamp l.scrollPosition 0 o.maxScrollPosition = .ok scroll.position ∧
      (source = .retained → l.Meets a scroll.position) ∧
      (l.Meets a scroll.position → ∃ item,
        l'.item? a.index = some item ∧ l'.anchor = some ⟨a.index, item.position⟩ ∧
        item.position - l'.scrollPosition = a.position - scroll.position) := by
  obtain ⟨hoptions, hviewport, htotal', hbook, hpin'⟩ := opened_inputs hopen
  have hscrolled : o.scrollPosition = l.scrollPosition := by
    obtain ⟨_, -, rfl⟩ := opened_eq_ok hopen
    rfl
  -- What is in reach can be read off the inputs.
  have hbounds : o.boundsAt scroll.position = l.boundsAt scroll.position := by
    unfold boundsAt
    rw [hoptions, hviewport]
  have hspace (i : Nat) : o.spaceBefore i = l.spaceBefore i := by
    unfold spaceBefore
    rw [hoptions, htotal', hbook]
  have hfree : o.clampedScroll = .ok scroll ∧ o.freeAnchor scroll = .ok (a, source) := by
    rcases chooseAnchor_cases hchoose with ⟨t, ht, -⟩ | ⟨-, hclamped, hfree⟩
    · rw [hpin', hpin] at ht
      cases ht
    · exact ⟨hclamped, hfree⟩
  refine ⟨?_, ?_, ?_⟩
  · rw [← hscrolled]
    exact clampedScroll_position hfree.1
  · -- A retained anchor is taken only if its item reaches into the stretch to fill.
    intro hretained
    rcases freeAnchor_cases hfree.2 with ⟨-, -, -, hoverlaps⟩ | ⟨hne, -⟩ | ⟨hne, -⟩
    · apply h.meets_of_overlaps hmargins
      rw [overlaps, hbook, hbounds] at hoverlaps
      exact hoverlaps
    · rw [hretained] at hne
      cases hne
    · rw [hretained] at hne
      cases hne
  · intro hmeets
    obtain ⟨o', c, hopen', hcourse, rfl⟩ := reflow_takes (not_isBlank htotal hmain) hreflow
    -- The pass makes the same choice as above.
    obtain rfl : o = o' := Except.ok.inj (hopen.symm.trans hopen')
    obtain ⟨rfl, rfl, rfl⟩ : c.anchor = a ∧ c.source = source ∧ c.chosenAt = scroll := by
      have hsame := Except.ok.inj (hcourse.choose.symm.trans hchoose)
      simpa using hsame
    have hmeets' : o.Meets c.anchor c.chosenAt.position := by
      unfold Meets
      rw [hbounds, hspace, hspace, hbook]
      exact hmeets
    have hanchor := footing_anchor_of_pos hcourse.footing hpos
    have hseen := hcourse.onScreen_eq (hcourse.source_ne_pinned hopen hpin)
      (hcourse.drift_eq_zero hpos hmeets')
    rw [← hanchor]
    exact ⟨c.footing.item.shift c.offset, hcourse.item?_anchor hopen, rfl, hseen⟩

instance (l : Layout Rat) (a : Anchor Rat) (position : Rat) : Decidable (l.Meets a position) :=
  inferInstanceAs (Decidable (_ ∧ _))

/-- A list is scrolled into its second item, and then the first one turns out ten larger: the
second one stays where it is seen. -/
theorem Reachable.anchor_stability_of_grown_above : ∃ (l l' o : Layout Rat) (a : Anchor Rat)
    (scroll : ScrollTrack Rat) (report : PassReport Rat) (events : List (LayoutEvent Rat)),
    Reachable l ∧ l.book.NonnegMargins ∧ l.pin = none ∧ 0 < l.total ∧ 0 < l.viewport.main ∧
      l.opened = .ok o ∧ o.chooseAnchor = .ok (a, .settled, scroll) ∧ 0 < a.index ∧
      l.reflow = .ok (report, events, l') ∧ l.Meets a scroll.position ∧
      ∃ item, l'.item? a.index = some item ∧ l'.anchor = some ⟨a.index, item.position⟩ ∧
        item.position - l'.scrollPosition = a.position - scroll.position := by
  obtain ⟨l, hl, htest⟩ := Reachable.exists_of_any
    ⟨10, 5, 0, .vertical, true, 1⟩
    [.setTotal 5, .setViewport ⟨20, 30⟩, .reflow,
      .recordAll [(0, ⟨10, none, ⟨1, 2⟩⟩), (1, ⟨12, none, ⟨1, 2⟩⟩), (2, ⟨9, none, ⟨1, 2⟩⟩)],
      .reflow, .moveTo 15, .record 0 ⟨20, none, ⟨1, 2⟩⟩]
    (fun l : Layout Rat => decide (l.book.NonnegMargins ∧ l.pin = none ∧ 0 < l.total ∧
        0 < l.viewport.main) && l.reflow.toOption.any (fun _ => true) &&
      l.opened.toOption.any fun o => o.chooseAnchor.toOption.any fun (a, source, scroll) =>
        decide (source = .settled ∧ 0 < a.index ∧ l.Meets a scroll.position))
    (by simp [Request.Representable, Index.limit]) (by decide +kernel)
  simp only [Bool.and_eq_true, decide_eq_true_eq] at htest
  obtain ⟨⟨⟨hmargins, hpin, htotal, hmain⟩, hreflow⟩, hopen⟩ := htest
  obtain ⟨⟨report, events, l'⟩, hreflow, -⟩ := exists_ok_of_any hreflow
  obtain ⟨o, hopen, hchoose⟩ := exists_ok_of_any hopen
  obtain ⟨⟨a, source, scroll⟩, hchoose, htest⟩ := exists_ok_of_any hchoose
  simp only [decide_eq_true_eq] at htest
  obtain ⟨rfl, hpos, hmeets⟩ := htest
  have hstays := (hl.anchor_stability hmargins hpin htotal hmain hopen hchoose (Or.inr rfl) hpos
    hreflow).2.2 hmeets
  exact ⟨l, l', o, a, scroll, report, events, hl, hmargins, hpin, htotal, hmain, hopen, hchoose,
    hpos, hreflow, hmeets, hstays⟩

end VirtualList.Layout
