import VirtualList.Proofs.Layout.Coverage

/-!
# Windows without speculative layout

Without speculative layout each direction of a window is to end right behind its first item that
has not been measured.  But both directions share one mark, which says whether everything was
measured so far, beginning with the anchor: once it has been cleared, the next item that is laid out
is the last one of its direction, measured or not.  So a direction ends behind its own first
unmeasured item if nothing has cleared the mark before, and after one item at most if something has.

## Key results

- `growBackward_halts`, `growForward_halts`: how far each direction grows
- `growWindow_halts`: the same for the window, by what was measured
- `Reachable.growth_halts`: where a published window ends on both sides, and why
- `Reachable.growth_cut_short`: a direction that an unmeasured item on the other side ends
-/

namespace VirtualList.Layout

variable {l l' o : Layout Rat} {c : Course Rat}

/-! ## Growth in one direction -/

/-- How far a window grows backward from item `first` if nothing is laid out speculatively. -/
structure HaltsBackward (l : Layout Rat) (lower : Rat) (first : Nat) (stable : Bool)
    (g : Growth Rat) : Prop where
  /-- All items but the outermost one were measured. -/
  between : ∀ i, g.reached < i → i < first → l.Measured i i
  /-- It ends at the start of the list, at the bound, or behind an item that it has just added. -/
  ends : g.reached = 0 ∨ g.edge ≤ lower ∨ (g.reached < first ∧ g.stable = false)
  /-- If something had not been measured to begin with, one item is the most that it adds. -/
  at_once : stable = false → first ≤ g.reached + 1

/-- Where something was not measured, the outermost item was not, or the first one. -/
theorem HaltsBackward.unmeasured_end {lower : Rat} {first i : Nat} {stable : Bool} {g : Growth Rat}
    (h : l.HaltsBackward lower first stable g) (hi : g.reached ≤ i) (hle : i ≤ first)
    (hunmeasured : l.book.isMeasured i = false) :
    l.book.isMeasured g.reached = false ∨ l.book.isMeasured first = false := by
  rcases Nat.lt_or_eq_of_le hle with hlt | rfl
  · rcases Nat.lt_or_eq_of_le hi with hinside | rfl
    · exact absurd (h.between i hinside hlt).1 (Bool.eq_false_iff.1 hunmeasured)
    · exact Or.inl hunmeasured
  · exact Or.inr hunmeasured

theorem growBackward_halts (hestimate : l.options.estimate = false) (lower : Rat) (first : Nat)
    (edge : Rat) (stable : Bool) (items : List (PlacedItem Rat)) :
    l.HaltsBackward lower first stable (l.growBackward lower first edge stable items) := by
  induction first generalizing edge stable items with
  | zero =>
    exact ⟨fun i _ hi => absurd hi (Nat.not_lt_zero i), Or.inl rfl, fun _ => Nat.zero_le _⟩
  | succ i ih =>
    unfold growBackward
    split
    · simp only [hestimate, Bool.or_false]
      split
      · -- The item was measured, and so was everything before it.
        rename_i hstable
        obtain ⟨hbefore, hitem⟩ := (l.and_isMeasured_iff stable i i).1 hstable
        obtain ⟨hbetween, hends, -⟩ := ih (edge - (l.book.sizeOf i).value - (l.spaceBefore i).value)
          (stable && ((l.book.sizeOf i).isMeasured && (l.spaceBefore i).isMeasured))
          (⟨i, edge - (l.book.sizeOf i).value, (l.book.sizeOf i).value⟩ :: items)
        refine ⟨fun k hk hlt => ?_, ?_, fun hunstable => ?_⟩
        · rcases Nat.lt_succ_iff_lt_or_eq.1 hlt with hlt | rfl
          · exact hbetween k hk hlt
          · exact hitem
        · exact hends.imp_right fun h => h.imp_right fun h => ⟨Nat.lt_succ_of_lt h.1, h.2⟩
        · rw [hunstable] at hbefore
          cases hbefore
      · -- It is the last one.
        rename_i hstops
        refine ⟨fun k hk hlt => ?_, Or.inr (Or.inr ⟨Nat.lt_succ_self i, ?_⟩), fun _ => ?_⟩
        · exact absurd hlt (Nat.not_lt.2 hk)
        · exact Bool.eq_false_iff.2 hstops
        · exact Nat.le_refl _
    · rename_i hreached
      exact ⟨fun k hk hlt => absurd hlt (Nat.lt_asymm hk), Or.inr (Or.inl (not_lt.1 hreached)),
        fun _ => Nat.le_succ _⟩

/-- How far a window grows forward from item `last` if nothing is laid out speculatively. -/
structure HaltsForward (l : Layout Rat) (upper : Rat) (remaining last : Nat) (stable : Bool)
    (g : Growth Rat) : Prop where
  /-- All items but the outermost one were measured. -/
  between : ∀ i, last < i → i < g.reached → l.Measured i (i + 1)
  /-- It ends at the end of the list, at the bound, or behind an item that it has just added. -/
  ends : g.reached = last + remaining ∨ upper ≤ g.edge ∨ (last < g.reached ∧ g.stable = false)
  /-- If something had not been measured to begin with, one item is the most that it adds. -/
  at_once : stable = false → g.reached ≤ last + 1

/-- Where something was not measured, the outermost item was not. -/
theorem HaltsForward.unmeasured_end {upper : Rat} {remaining last i : Nat} {stable : Bool}
    {g : Growth Rat} (h : l.HaltsForward upper remaining last stable g) (hi : last < i)
    (hle : i ≤ g.reached) (hunmeasured : l.book.isMeasured i = false) :
    l.book.isMeasured g.reached = false := by
  rcases Nat.lt_or_eq_of_le hle with hinside | rfl
  · exact absurd (h.between i hi hinside).1 (Bool.eq_false_iff.1 hunmeasured)
  · exact hunmeasured

theorem growForward_halts (hestimate : l.options.estimate = false) {upper edge : Rat}
    {remaining last : Nat} {stable : Bool} {g : Growth Rat}
    (h : l.growForward upper remaining last edge stable = .ok g) :
    l.HaltsForward upper remaining last stable g := by
  induction remaining generalizing last edge stable g with
  | zero =>
    cases h
    exact ⟨fun i hi hlt => absurd hlt (Nat.lt_asymm hi), Or.inl rfl, fun _ => Nat.le_succ _⟩
  | succ remaining ih =>
    unfold growForward at h
    split at h
    · simp only [bind_eq_ok, Index.succ_eq_ok_iff, hestimate, Bool.or_false] at h
      obtain ⟨i, ⟨-, rfl⟩, next, ⟨-, rfl⟩, h⟩ := h
      split at h
      · -- The item was measured, and so was everything before it.
        rename_i hstable
        obtain ⟨hbefore, hitem⟩ := (l.and_isMeasured_iff stable (last + 1) (last + 1 + 1)).1 hstable
        obtain ⟨rest, hrest, h⟩ := bind_eq_ok.1 h
        cases h
        obtain ⟨hbetween, hends, -⟩ := ih hrest
        refine ⟨fun k hk hlt => ?_, ?_, fun hunstable => ?_⟩
        · rcases Nat.lt_or_eq_of_le (Nat.succ_le_of_lt hk) with hlater | rfl
          · exact hbetween k hlater hlt
          · exact hitem
        · refine hends.imp (fun hlast => ?_) fun h => h.imp_right fun h => ⟨?_, h.2⟩
          · show rest.reached = last + (remaining + 1)
            omega
          · exact Nat.lt_of_succ_lt h.1
        · rw [hunstable] at hbefore
          cases hbefore
      · -- It is the last one.
        rename_i hstops
        cases h
        refine ⟨fun k hk hlt => ?_, Or.inr (Or.inr ⟨Nat.lt_succ_self last, ?_⟩), fun _ => ?_⟩
        · exact absurd hlt (Nat.not_lt.2 hk)
        · exact Bool.eq_false_iff.2 hstops
        · exact Nat.le_refl _
    · rename_i hreached
      cases h
      exact ⟨fun i hi hlt => absurd hlt (Nat.lt_asymm hi), Or.inr (Or.inl (not_lt.1 hreached)),
        fun _ => Nat.le_succ _⟩

/-! ## The whole window -/

/-- A footing is stable iff its item has been measured. -/
theorem footing_stable_iff {a : Anchor Rat} {f : Footing Rat} (hs : l.book.Sound)
    (hf : l.footing a = .ok f) : f.stable = true ↔ l.book.isMeasured a.index = true := by
  obtain ⟨hlt, rfl⟩ := footing_eq_ok hf
  rw [Bool.and_eq_true, Bool.and_eq_true]
  constructor
  · exact fun h => h.1.1
  · intro hm
    obtain ⟨hlead, htrail⟩ := measured_of_isMeasured hs hlt hm
    exact ⟨hlead, htrail.2⟩

/-- Growing backward clears the mark iff an item up to the anchor has not been measured. -/
theorem GrownBackward.cleared_iff {a : Anchor Rat} {f : Footing Rat} {new : List (PlacedItem Rat)}
    {g : Growth Rat} (hs : l.book.Sound) (hf : l.footing a = .ok f)
    (h : l.GrownBackward a.index f.stable [] g new) :
    g.stable = false ↔ ∃ i, g.reached ≤ i ∧ i ≤ a.index ∧ l.book.isMeasured i = false := by
  have hlimit := (footing_eq_ok hf).1
  have hreached := h.reached
  have hset : g.stable = true ↔ ∀ i, g.reached ≤ i → i ≤ a.index → l.book.isMeasured i = true := by
    rw [h.stable_iff, footing_stable_iff hs hf]
    constructor
    · intro hboth i hi hle
      rcases Nat.lt_or_eq_of_le hle with hlt | rfl
      · exact (hboth.2 i hi hlt).1
      · exact hboth.1
    · intro hall
      refine ⟨hall a.index (by omega) (Nat.le_refl _), fun i hi hlt => ?_⟩
      exact (measured_of_isMeasured hs (by omega) (hall i hi (Nat.le_of_lt hlt))).1
  rw [← Bool.not_eq_true, hset]
  push Not
  simp only [Bool.not_eq_true]

/-- Growing forward clears the mark at an item that has not been measured. -/
theorem GrownForward.exists_of_cleared {remaining last : Nat} {stable : Bool} {g : Growth Rat}
    (hs : l.book.Sound) (hlimit : last + remaining < Index.limit)
    (h : l.GrownForward remaining last stable g) (hcleared : g.stable = false) :
    stable = false ∨ ∃ i, last < i ∧ i ≤ g.reached ∧ l.book.isMeasured i = false := by
  have hreached := h.reached
  have hlength := h.length_le
  by_contra hnone
  push Not at hnone
  obtain ⟨hset, hall⟩ := hnone
  simp only [Bool.not_eq_false] at hset hall
  have hstays : g.stable = true := h.stable_iff.2 ⟨hset, fun i hi hle =>
    (measured_of_isMeasured hs (by omega) (hall i hi hle)).2⟩
  rw [hcleared] at hstays
  cases hstays

/-- How far a window around item `k` goes if nothing is laid out speculatively, where `front` and
`back` say that it has filled what it was to fill on that side. -/
structure HaltsAround (l : Layout Rat) (first k last : Nat) (front back : Prop) : Prop where
  /-- Whatever lies inside the window and is not its middle was measured. -/
  between : ∀ i, first < i → i < last → i ≠ k → l.book.isMeasured i = true
  /-- It begins with an unmeasured item, or with the one in front of an unmeasured middle. -/
  begins : front ∨ (first < k ∧ (l.book.isMeasured first = false ∨ l.book.isMeasured k = false))
  /-- It ends with an unmeasured item, or with a measured one, but then there is an unmeasured one
  in the middle or in front of it. -/
  ends : back ∨ (k < last ∧ (l.book.isMeasured last = false ∨
    ∃ i, first ≤ i ∧ i ≤ k ∧ l.book.isMeasured i = false))
  /-- With an unmeasured middle there is one item in front of it at most. -/
  begins_at_once : l.book.isMeasured k = false → k ≤ first + 1
  /-- With an unmeasured item in the middle or in front of it there is one item behind it at
  most. -/
  ends_at_once : (∃ i, first ≤ i ∧ i ≤ k ∧ l.book.isMeasured i = false) → last ≤ k + 1

/-- A window ends on both sides where it has filled what it was to fill, or where unmeasured items
end it. -/
theorem growWindow_halts {final : Nat} {a : Anchor Rat} {f : Footing Rat} {b : Bounds Rat}
    {s : Strip Rat} (hestimate : l.options.estimate = false) (hs : l.book.Sound)
    (hfinal : final < Index.limit) (hle : a.index ≤ final) (hf : l.footing a = .ok f)
    (h : l.growWindow final f b = .ok s) :
    l.HaltsAround s.first a.index s.last (s.first = 0 ∨ s.lower ≤ b.lower)
      (s.last = final ∨ b.upper ≤ s.upper) := by
  have hanchor : f.anchor.index = a.index := by rw [(footing_eq_ok hf).2]
  simp only [growWindow, bind_eq_ok] at h
  obtain ⟨ahead, hahead, h⟩ := h
  rw [hanchor] at hahead h
  obtain ⟨new, hgrown⟩ := l.growBackward_grows b.lower a.index f.lower f.stable []
  have hback := growBackward_halts hestimate b.lower a.index f.lower f.stable []
  generalize l.growBackward b.lower a.index f.lower f.stable [] = back at *
  have hforward := growForward_grows hahead
  have hfore := growForward_halts hestimate hahead
  cases h
  have hcleared := hgrown.cleared_iff hs hf
  refine ⟨fun i hi hlt hne => ?_, ?_, ?_, fun hk => ?_, fun hfront => ?_⟩
  · rcases Nat.lt_or_gt_of_ne hne with hbefore | hbehind
    · exact (hback.between i hi hbefore).1
    · exact (hfore.between i hbehind hlt).1
  · rcases hback.ends with hstart | hbound | ⟨hlt, hstops⟩
    · exact Or.inl (Or.inl hstart)
    · exact Or.inl (Or.inr hbound)
    · obtain ⟨i, hi, hik, hunmeasured⟩ := hcleared.1 hstops
      exact Or.inr ⟨hlt, hback.unmeasured_end hi hik hunmeasured⟩
  · rcases hfore.ends with hfinish | hbound | ⟨hlt, hstops⟩
    · exact Or.inl (Or.inl (by simp only; omega))
    · exact Or.inl (Or.inr hbound)
    · -- The mark was cleared by an item up to the anchor, or else by the outermost one.
      refine Or.inr ⟨hlt, ?_⟩
      rcases hforward.exists_of_cleared hs (by omega) hstops with hset | ⟨i, hi, hle, hunmeasured⟩
      · exact Or.inr (hcleared.1 hset)
      · exact Or.inl (hfore.unmeasured_end hi hle hunmeasured)
  · refine hback.at_once (Bool.eq_false_iff.2 fun hstable => ?_)
    exact absurd ((footing_stable_iff hs hf).1 hstable) (Bool.eq_false_iff.1 hk)
  · exact hfore.at_once (hcleared.2 hfront)

/-! ## Published windows -/

/-- Only what was measured matters, and how the two sides are filled. -/
theorem HaltsAround.imp {first k last : Nat} {front front' back back' : Prop}
    (h : l.HaltsAround first k last front back)
    (hsame : ∀ i, l'.book.isMeasured i = l.book.isMeasured i) (hfront : front → front')
    (hback : back → back') : l'.HaltsAround first k last front' back' := by
  constructor
  · simpa only [hsame] using h.between
  · simpa only [hsame] using h.begins.imp_left hfront
  · simpa only [hsame] using h.ends.imp_left hback
  · simpa only [hsame] using h.begins_at_once
  · simpa only [hsame] using h.ends_at_once

/-- The window of a pass halts around its anchor. -/
theorem Takes.strip_halts (hl : Reachable l) (hestimate : l.options.estimate = false)
    (hopen : l.opened = .ok o) (h : o.Takes c) :
    c.base.HaltsAround c.strip.first c.anchor.index c.strip.last
      (c.strip.first = 0 ∨ c.strip.lower + c.offset ≤
        c.chosenAt.position + c.drift + c.offset - l.options.overhang)
      (c.strip.last + 1 = l.total ∨ c.chosenAt.position + c.drift + c.offset + l.viewport.main +
        l.options.overhang ≤ c.strip.upper + c.offset) := by
  obtain ⟨hoptions, -, htotal, hbook⟩ := h.base_inputs hopen
  have hanchor := h.anchor_lt hopen
  rw [← h.base_total, htotal] at hanchor
  have hsound : c.base.book.Sound := by
    rw [hbook]
    exact hl.book_sound
  have hhalts := growWindow_halts (by rw [hoptions, hestimate]) hsound (h.final_lt hl hopen)
    (by rw [htotal]; omega) h.footing h.grow
  rw [h.stretch_eq hopen, htotal] at hhalts
  refine hhalts.imp (fun _ => rfl) (fun hfront => ?_) fun hback => ?_
  · refine hfront.imp_right fun hle => ?_
    linarith
  · refine hback.imp (fun hfinal => ?_) fun hle => ?_
    · omega
    · linarith

/-- Without speculative layout, after a pass without a pinned item that leaves a window:

* the items inside the window have all been measured, but for the anchor;
* the window begins at the start of the list or covers the viewport and the overhang, or it begins
  with an unmeasured item in front of the anchor, or right in front of an unmeasured anchor;
* the window ends at the end of the list or covers the viewport and the overhang, or it ends with an
  unmeasured item behind the anchor;
* or else it ends right behind the anchor, and the anchor or an item in front of it has not been
  measured.

So an unmeasured anchor leaves room for one item on either side, and an unmeasured item in front of
the anchor leaves room for one item behind it, whether that item has been measured or not. -/
theorem Reachable.growth_halts {report : PassReport Rat} {events : List (LayoutEvent Rat)}
    {r : WindowRange} (hl : Reachable l) (hestimate : l.options.estimate = false)
    (hpin : l.pin = none) (h : l.reflow = .ok (report, events, l')) (hrange : l'.range = some r) :
    ∃ a head tail, l'.anchor = some a ∧ r.first ≤ a.index ∧ a.index ≤ r.last ∧
      l'.item? r.first = some head ∧ l'.item? r.last = some tail ∧
      l'.HaltsAround r.first a.index r.last
        (r.first = 0 ∨ head.position - (l'.spaceBefore r.first).value ≤
          l'.scrollPosition - l'.options.overhang)
        (r.last + 1 = l'.total ∨ l'.scrollPosition + l'.viewport.main + l'.options.overhang ≤
          tail.finish + (l'.spaceBefore (r.last + 1)).value) := by
  have hkept := reflow_keepsInputs h
  obtain ⟨o, c, hopen, hcourse, rfl⟩ := reflow_takes_of_range (by simp [hrange]) h
  cases hrange
  obtain ⟨head, hhead, hleading⟩ := hcourse.exists_head hopen
  obtain ⟨tail, htail, htrailing⟩ := hcourse.exists_tail hopen
  have hspans := hcourse.spans hopen
  have hfirst := hspans.first_le
  have hlast := hspans.le_last
  have hscroll := hcourse.scroll_position_eq (hcourse.source_ne_pinned hopen hpin)
  have hhalts := hcourse.strip_halts hl hestimate hopen
  rw [← hscroll, ← hleading, ← htrailing, ← hkept.options, ← hkept.viewport, ← hkept.total,
    ← hcourse.footing_index] at hhalts
  exact ⟨c.placed, head, tail, rfl, hfirst, hlast, hhead, htail,
    hhalts.imp (KeepsInputs.outcome c).agrees.isMeasured_eq id id⟩

/-- Twenty items, of which those from the fourth to the eighth are measured.  In front of its anchor,
the seventh item, the window covers the viewport and the overhang with measured items; behind it the
window ends with the ninth item, the first one that is not measured, and does not cover them. -/
theorem Reachable.growth_halts_of_measuredBefore : ∃ (l l' : Layout Rat) (report : PassReport Rat)
    (events : List (LayoutEvent Rat)) (r : WindowRange) (a : Anchor Rat) (head : PlacedItem Rat),
    Reachable l ∧ l.options.estimate = false ∧ l.pin = none ∧
      l.reflow = .ok (report, events, l') ∧ l'.range = some r ∧ l'.anchor = some a ∧
      0 < r.first ∧ r.first + 1 < a.index ∧ a.index + 1 < r.last ∧ r.last + 1 < l'.total ∧
      l'.item? r.first = some head ∧
      head.position - (l'.spaceBefore r.first).value ≤ l'.scrollPosition - l'.options.overhang ∧
      (∀ i, r.first ≤ i → i < r.last → l'.book.isMeasured i = true) ∧
      l'.book.isMeasured r.last = false := by
  obtain ⟨l, l', report, events, hl, hreflow, htest⟩ := Reachable.exists_reflow_of_any
    ⟨10, 10, 0, .vertical, false, 1⟩
    [.setTotal 20, .setViewportMain 50,
      .recordAll ((List.range' 3 5).map fun i => (i, ⟨10, none, ⟨0, 0⟩⟩)), .moveTo 40]
    (fun l l' : Layout Rat => decide (l.options.estimate = false ∧ l.pin = none) &&
      l'.range.any fun r : WindowRange => l'.anchor.any fun a : Anchor Rat =>
        decide (0 < r.first ∧ r.first + 1 < a.index ∧ a.index + 1 < r.last ∧
          r.last + 1 < l'.total ∧ l'.book.isMeasured r.first = true ∧
          l'.book.isMeasured a.index = true) && (l'.item? r.last).any fun tail : PlacedItem Rat =>
            decide (tail.finish + (l'.spaceBefore (r.last + 1)).value <
              l'.scrollPosition + l'.viewport.main + l'.options.overhang))
    (by simp [Request.Representable, Index.limit]) (by decide +kernel)
  simp only [Bool.and_eq_true, Option.any_eq_true, decide_eq_true_eq] at htest
  obtain ⟨⟨hestimate, hpin⟩, r, hrange, a, hanchor, ⟨hstart, hbefore, hbehind, hinside, hfirst, hk⟩,
    tail, htail, hshort⟩ := htest
  obtain ⟨a', head, tail', hanchor', -, -, hhead, htail', hhalts⟩ :=
    hl.growth_halts hestimate hpin hreflow hrange
  obtain rfl : a = a' := Option.some.inj (hanchor.symm.trans hanchor')
  obtain rfl : tail = tail' := Option.some.inj (htail.symm.trans htail')
  have hmeasured (i : Nat) (hi : r.first ≤ i) (hlt : i < r.last) :
      l'.book.isMeasured i = true := by
    by_cases hik : i = a.index
    · rwa [hik]
    · rcases Nat.lt_or_eq_of_le hi with hlater | rfl
      · exact hhalts.between i hlater hlt hik
      · exact hfirst
  refine ⟨l, l', report, events, r, a, head, hl, hestimate, hpin, hreflow, hrange, hanchor, hstart,
    hbefore, hbehind, hinside, hhead, ?_, hmeasured, ?_⟩
  · rcases hhalts.begins with hfront | ⟨-, hunmeasured⟩
    · exact hfront.resolve_left (Nat.ne_of_gt hstart)
    · simp [hfirst, hk] at hunmeasured
  · rcases hhalts.ends with hback | ⟨-, hlast | ⟨i, hi, hik, hunmeasured⟩⟩
    · exact absurd hback (not_or.2 ⟨Nat.ne_of_lt hinside, not_le.2 hshort⟩)
    · exact hlast
    · rw [hmeasured i hi (by omega)] at hunmeasured
      cases hunmeasured

/-- Ten items, of which the seventh and the eighth are measured.  The window begins with the sixth
one, which is not measured and lies in front of the anchor.  So one item behind the anchor is the
last one, though it has been measured, the window does not fill the viewport, and there are more
items. -/
theorem Reachable.growth_cut_short : ∃ (l₀ l l' : Layout Rat) (report : PassReport Rat)
    (events : List (LayoutEvent Rat)) (r : WindowRange) (a : Anchor Rat) (tail : PlacedItem Rat),
    ofOptions { Options.ofEstimateSize (10 : Rat) with overhang := 0, estimate := false } = .ok l₀ ∧
      l₀.run [.setTotal 10, .setViewportMain 50, .record 6 ⟨10, none, ⟨0, 0⟩⟩,
        .record 7 ⟨10, none, ⟨0, 0⟩⟩, .moveTo 40] = .ok l ∧
      Reachable l ∧ l.pin = none ∧ l.reflow = .ok (report, events, l') ∧ l'.range = some r ∧
      l'.anchor = some a ∧ l'.item? r.last = some tail ∧ l'.book.isMeasured a.index = true ∧
      r.first < a.index ∧ l'.book.isMeasured r.first = false ∧ a.index < r.last ∧
      ¬(r.last + 1 = l'.total ∨ l'.scrollPosition + l'.viewport.main + l'.options.overhang ≤
          tail.finish + (l'.spaceBefore (r.last + 1)).value ∨
        (a.index < r.last ∧ l'.book.isMeasured r.last = false)) := by
  obtain ⟨l₀, l, l', report, events, hstart, hrun, hl, hreflow, htest⟩ :=
    Reachable.exists_run_of_any (α := Rat)
      { Options.ofEstimateSize (10 : Rat) with overhang := 0, estimate := false }
      [.setTotal 10, .setViewportMain 50, .record 6 ⟨10, none, ⟨0, 0⟩⟩,
        .record 7 ⟨10, none, ⟨0, 0⟩⟩, .moveTo 40]
      (fun l l' : Layout Rat => decide (l.pin = none) && l'.range.any fun r : WindowRange =>
        l'.anchor.any fun a : Anchor Rat => (l'.item? r.last).any fun tail : PlacedItem Rat =>
          decide (l'.book.isMeasured a.index = true ∧ r.first < a.index ∧
            l'.book.isMeasured r.first = false ∧ a.index < r.last ∧
            ¬(r.last + 1 = l'.total ∨ l'.scrollPosition + l'.viewport.main + l'.options.overhang ≤
                tail.finish + (l'.spaceBefore (r.last + 1)).value ∨
              (a.index < r.last ∧ l'.book.isMeasured r.last = false))))
      (by simp [Request.Representable, Index.limit]) (by decide +kernel)
  simp only [Bool.and_eq_true, Option.any_eq_true, decide_eq_true_eq] at htest
  obtain ⟨hpin, r, hrange, a, hanchor, tail, htail, hk, hbefore, hfirst, hbehind, hcut⟩ := htest
  exact ⟨l₀, l, l', report, events, r, a, tail, hstart, hrun, hl, hpin, hreflow, hrange, hanchor,
    htail, hk, hbefore, hfirst, hbehind, hcut⟩

end VirtualList.Layout
