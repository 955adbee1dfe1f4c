import VirtualList.Proofs.Layout.AnchorStability
import VirtualList.Proofs.Layout.Tiling

/-!
# A window covers the viewport

Each direction of a window grows until it reaches the bound it was given or the end of the list;
only without speculative layout can an unmeasured item end it earlier, and such a window is not
stable.  In exact arithmetic the stretch to fill moves with the scroll position and the window, so
in the end the window covers the viewport and the overhang on both sides, as far as the list goes.

## Key results

- `growBackward_reaches`, `growForward_reaches`: how far each direction grows
- `growWindow_covers`: the window covers the stretch it was to fill
- `Covers`, `Takes.outcome_covers`: what a window covers in its place
- `reflow_covers`: a pass without a pinned item covers the viewport and the overhang
-/

namespace VirtualList.Layout

variable {l : Layout Rat}

/-! ## How far a window grows -/

/-- A direction of a window grows on past unmeasured items, or has not come to any. -/
def GrowsOn (l : Layout Rat) (stable : Bool) : Prop := stable = true ∨ l.options.estimate = true

/-- Growing backward reaches the bound or the start of the list. -/
theorem growBackward_reaches (l : Layout Rat) (lower : Rat) (first : Nat) (edge : Rat)
    (stable : Bool) (items : List (PlacedItem Rat)) :
    let g := l.growBackward lower first edge stable items
    l.GrowsOn g.stable → g.reached = 0 ∨ g.edge ≤ lower := by
  induction first generalizing edge stable items with
  | zero => simp [growBackward]
  | succ i ih =>
    unfold growBackward
    split
    · simp only
      split
      · exact ih _ _ _
      · -- Growth that ends at an unmeasured item does not go on.
        rename_i hstops
        intro hgrows
        exact absurd (Bool.or_eq_true_iff.2 hgrows) hstops
    · rename_i hreached
      exact fun _ => Or.inr (not_lt.1 hreached)

/-- Growing forward reaches the bound or the end of the list. -/
theorem growForward_reaches {upper edge : Rat} {remaining last : Nat} {stable : Bool}
    {g : Growth Rat} (h : l.growForward upper remaining last edge stable = .ok g)
    (hgrows : l.GrowsOn g.stable) : g.reached = last + remaining ∨ upper ≤ g.edge := by
  induction remaining generalizing last edge stable g with
  | zero =>
    cases h
    exact Or.inl rfl
  | succ remaining ih =>
    unfold growForward at h
    split at h
    · simp only [bind_eq_ok, Index.succ_eq_ok_iff] at h
      obtain ⟨i, ⟨-, rfl⟩, next, ⟨-, rfl⟩, h⟩ := h
      split at h
      · obtain ⟨rest, hrest, h⟩ := bind_eq_ok.1 h
        cases h
        rcases ih hrest hgrows with hlast | hedge
        · left
          simp only
          omega
        · exact Or.inr hedge
      · rename_i hstops
        cases h
        exact absurd (Bool.or_eq_true_iff.2 hgrows) hstops
    · rename_i hreached
      cases h
      exact Or.inr (not_lt.1 hreached)

/-- A window covers the stretch it was to fill, as far as the list goes. -/
theorem growWindow_covers {final : Nat} {f : Footing Rat} {b : Bounds Rat} {s : Strip Rat}
    (hfinal : f.anchor.index ≤ final) (h : l.growWindow final f b = .ok s)
    (hgrows : l.GrowsOn s.stable) :
    (s.first = 0 ∨ s.lower ≤ b.lower) ∧ (s.last = final ∨ b.upper ≤ s.upper) := by
  simp only [growWindow, bind_eq_ok] at h
  obtain ⟨ahead, hahead, h⟩ := h
  have hback := l.growBackward_reaches b.lower f.anchor.index f.lower f.stable []
  generalize l.growBackward b.lower f.anchor.index f.lower f.stable [] = back at *
  cases h
  constructor
  · -- A window that is stable in the end was so when it had grown backward.
    apply hback
    exact hgrows.imp_left fun hstable => ((growForward_grows hahead).stable_iff.1 hstable).1
  · rcases growForward_reaches hahead hgrows with hlast | hupper
    · left
      simp only
      omega
    · exact Or.inr hupper

/-! ## What a pass covers -/

/-- A pass fills the stretch around the scroll position at which the anchor was chosen, moved to reach
the anchor. -/
theorem Takes.stretch_eq {o : Layout Rat} {c : Course Rat} (hopen : l.opened = .ok o)
    (h : o.Takes c) : (c.base.boundsAt c.chosenAt.position).shift c.drift =
      ⟨c.chosenAt.position + c.drift - l.options.overhang,
        c.chosenAt.position + c.drift + l.viewport.main + l.options.overhang⟩ := by
  obtain ⟨hoptions, hviewport, -⟩ := h.base_inputs hopen
  simp only [Bounds.shift, boundsAt, hoptions, hviewport, Bounds.mk.injEq]
  constructor <;> ring

/-- The window of a pass covers the stretch around the scroll position at which the anchor was
chosen, once both have been moved. -/
theorem Takes.strip_covers {o : Layout Rat} {c : Course Rat} (hopen : l.opened = .ok o)
    (h : o.Takes c) (hgrows : c.base.GrowsOn c.strip.stable) :
    (c.strip.first = 0 ∨ c.strip.lower + c.offset ≤
      c.chosenAt.position + c.drift + c.offset - l.options.overhang) ∧
    (c.strip.last = l.total - 1 ∨ c.chosenAt.position + c.drift + c.offset + l.viewport.main +
      l.options.overhang ≤ c.strip.upper + c.offset) := by
  obtain ⟨-, -, htotal, -⟩ := h.base_inputs hopen
  have hlt := h.anchor_lt hopen
  obtain ⟨hlower, hupper⟩ := growWindow_covers
    (by rw [h.footing_index, h.base_total]; omega) h.grow hgrows
  rw [h.stretch_eq hopen] at hlower hupper
  rw [htotal] at hupper
  constructor
  · refine hlower.imp_right fun hle => ?_
    linarith
  · refine hupper.imp_right fun hle => ?_
    linarith

/-- The window with the spaces at its ends covers a stretch, as far as the list goes. -/
def Covers (l : Layout Rat) (r : WindowRange) (b : Bounds Rat) : Prop :=
  ∃ head tail, l.item? r.first = some head ∧ l.item? r.last = some tail ∧
    (r.first = 0 ∨ head.position - (l.spaceBefore r.first).value ≤ b.lower) ∧
    (r.last = l.total - 1 ∨ b.upper ≤ tail.finish + (l.spaceBefore (r.last + 1)).value)

/-- A window covers whatever lies within a stretch that it covers. -/
theorem Covers.mono {r : WindowRange} {b b' : Bounds Rat} (h : l.Covers r b)
    (hlower : b.lower ≤ b'.lower) (hupper : b'.upper ≤ b.upper) : l.Covers r b' := by
  obtain ⟨head, tail, hhead, htail, hleading, htrailing⟩ := h
  exact ⟨head, tail, hhead, htail, hleading.imp_right fun hle => hle.trans hlower,
    htrailing.imp_right fun hle => hupper.trans hle⟩

/-- The overhang of a window absorbs a distance of the viewport up to its own length. -/
theorem Covers.viewport {r : WindowRange} {position : Rat} (h : l.Covers r (l.boundsAt position))
    (hnear : |l.scrollPosition - position| ≤ l.options.overhang) :
    l.Covers r ⟨l.scrollPosition, l.scrollPosition + l.viewport.main⟩ := by
  obtain ⟨hbehind, hahead⟩ := abs_le.1 hnear
  apply h.mono
  · show position - l.options.overhang ≤ l.scrollPosition
    linarith
  · show l.scrollPosition + l.viewport.main ≤ position + l.viewport.main + l.options.overhang
    linarith

/-- A window in its place covers the stretch around the scroll position at which its anchor was
chosen, moved along with the window. -/
theorem Takes.outcome_covers {o : Layout Rat} {c : Course Rat} (hopen : l.opened = .ok o)
    (h : o.Takes c) (hgrows : c.base.GrowsOn c.strip.stable) :
    c.outcome.Covers ⟨c.strip.first, c.strip.last, c.firstVisible.index, c.lastVisible.index⟩
      (c.outcome.boundsAt (c.chosenAt.position + c.drift + c.offset)) := by
  obtain ⟨hoptions, hviewport, htotal, -⟩ := h.base_inputs hopen
  obtain ⟨head, hhead, hleading⟩ := h.exists_head hopen
  obtain ⟨tail, htail, htrailing⟩ := h.exists_tail hopen
  obtain ⟨hbehind, hahead⟩ := h.strip_covers hopen hgrows
  have hkept := KeepsInputs.outcome c
  refine ⟨head, tail, hhead, htail, ?_, ?_⟩
  · rw [hleading, boundsAt, hkept.options, hoptions]
    exact hbehind
  · rw [htrailing, boundsAt, hkept.options, hkept.viewport, hkept.total, hoptions, hviewport, htotal]
    exact hahead

/-- After a pass without a pinned item that is stable or lays out speculatively, the window with the
spaces at its ends covers the viewport and the overhang on both sides, as far as the list goes.
This holds of every layout, wherever its anchor came from. -/
theorem reflow_covers {l' : Layout Rat} {report : PassReport Rat}
    {events : List (LayoutEvent Rat)} (hpin : l.pin = none) (htotal : 0 < l.total)
    (hmain : 0 < l.viewport.main) (h : l.reflow = .ok (report, events, l'))
    (hgrows : l'.stable = true ∨ l.options.estimate = true) :
    ∃ r head tail, l'.range = some r ∧
      l'.item? r.first = some head ∧ l'.item? r.last = some tail ∧
      (r.first = 0 ∨ head.position - (l'.spaceBefore r.first).value ≤
        l'.scrollPosition - l'.options.overhang) ∧
      (r.last = l'.total - 1 ∨ l'.scrollPosition + l'.viewport.main + l'.options.overhang ≤
        tail.finish + (l'.spaceBefore (r.last + 1)).value) := by
  have hkept := reflow_keepsInputs h
  obtain ⟨o, c, hopen, hcourse, rfl⟩ := reflow_takes (not_isBlank htotal hmain) h
  obtain ⟨hoptions, -⟩ := opened_inputs hopen
  obtain ⟨head, hhead, hleading⟩ := hcourse.exists_head hopen
  obtain ⟨tail, htail, htrailing⟩ := hcourse.exists_tail hopen
  have hgrowsOn : c.base.GrowsOn c.strip.stable := by
    rw [GrowsOn, hcourse.base_options, hoptions]
    exact hgrows
  have hscroll := hcourse.scroll_position_eq (hcourse.source_ne_pinned hopen hpin)
  obtain ⟨hbehind, hahead⟩ := hcourse.strip_covers hopen hgrowsOn
  rw [← hscroll, ← hleading, ← hkept.options] at hbehind
  rw [← hscroll, ← htrailing, ← hkept.options, ← hkept.viewport, ← hkept.total] at hahead
  exact ⟨_, head, tail, rfl, hhead, htail, hbehind, hahead⟩

/-- A list of five items scrolled into its middle: the window ends on both sides inside the
list. -/
theorem reflow_covers_of_middle : ∃ (l l' : Layout Rat) (report : PassReport Rat)
    (events : List (LayoutEvent Rat)), Reachable l ∧ l.pin = none ∧ 0 < l.total ∧
      0 < l.viewport.main ∧ l.reflow = .ok (report, events, l') ∧ l.options.estimate = true ∧
      ∃ r head tail, l'.range = some r ∧ r.first ≠ 0 ∧ r.last ≠ l'.total - 1 ∧
        l'.item? r.first = some head ∧ l'.item? r.last = some tail ∧
        head.position - (l'.spaceBefore r.first).value ≤
          l'.scrollPosition - l'.options.overhang ∧
        l'.scrollPosition + l'.viewport.main + l'.options.overhang ≤
          tail.finish + (l'.spaceBefore (r.last + 1)).value := by
  obtain ⟨l, l', report, events, hl, hreflow, htest⟩ := Reachable.exists_reflow_of_any
    ⟨10, 5, 2, .vertical, true, 1⟩
    [.setTotal 20, .setViewport ⟨20, 30⟩, .reflow,
      .recordAll ((List.range 3).map fun i => (i, ⟨12, none, ⟨-1, 2⟩⟩)), .reflow, .moveTo 100]
    (fun l l' : Layout Rat => decide (l.pin = none ∧ 0 < l.total ∧ 0 < l.viewport.main ∧
      l.options.estimate = true) && l'.range.any fun r : WindowRange =>
        decide (r.first ≠ 0 ∧ r.last ≠ l'.total - 1))
    (by simp [Request.Representable, Index.limit]) (by decide +kernel)
  simp only [Bool.and_eq_true, decide_eq_true_eq] at htest
  obtain ⟨⟨hpin, htotal, hmain, hestimate⟩, htest⟩ := htest
  obtain ⟨r, head, tail, hrange, hhead, htail, hleading, htrailing⟩ :=
    reflow_covers hpin htotal hmain hreflow (Or.inr hestimate)
  simp only [hrange, Option.any_some, decide_eq_true_eq] at htest
  obtain ⟨hfirst, hlast⟩ := htest
  exact ⟨l, l', report, events, hl, hpin, htotal, hmain, hreflow, hestimate, r, head, tail, hrange,
    hfirst, hlast, hhead, htail, hleading.resolve_left hfirst, htrailing.resolve_left hlast⟩

end VirtualList.Layout
