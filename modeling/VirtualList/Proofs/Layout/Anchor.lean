import VirtualList.Proofs.Layout.Run

/-!
# The choice of an anchor

Where the anchor of a pass can come from, with what is known of it in each case.  Whatever its
source, the anchor is an item of the list.

## Key results

- `chooseAnchor_cases`, `freeAnchor_cases`, `pinnedAnchor_eq_ok`: the sources of an anchor
- `chooseAnchor_index_lt`: an anchor is an item of the list
-/

namespace VirtualList.Layout

variable {α : Type} [Scalar α]

/-- The stretch to fill begins the overhang in front of the scroll position. -/
theorem boundsAt_lower (l : Layout α) (position : α) :
    (l.boundsAt position).lower = position - l.options.overhang := rfl

/-- The stretch to fill ends the overhang behind the viewport. -/
theorem boundsAt_upper (l : Layout α) (position : α) :
    (l.boundsAt position).upper = position + l.viewport.main + l.options.overhang := rfl

/-- The anchor taken from the last stable window is an item of it, where it was placed. -/
theorem settledAnchor?_mem {l : Layout α} {position : α} {b : Bounds α} {a : Anchor α}
    (h : l.settledAnchor? position b = .ok (some a)) :
    ∃ item ∈ l.settled, a = ⟨item.index, item.position⟩ := by
  unfold settledAnchor? at h
  -- There is an anchor only if the stretch meets the window.
  split at h
  · split at h
    · obtain ⟨target, -, h⟩ := bind_eq_ok.1 h
      simp only at h
      split at h
      · rename_i item hitem
        cases h
        exact ⟨item, List.mem_of_getElem? hitem, rfl⟩
      · cases h
    · cases h
  · cases h

/-- The item that the averages suggest is in the list. -/
theorem estimatedIndex_le (l : Layout α) (final : Nat) (b : Bounds α) :
    l.estimatedIndex final b ≤ final := by
  unfold estimatedIndex
  split
  · exact Nat.zero_le _
  · split
    · exact Nat.le_refl _
    · simp only
      split
      · exact Nat.min_le_right _ _
      · exact Nat.zero_le _

/-- Where the anchor of a pass without a pinned item comes from. -/
theorem freeAnchor_cases {l : Layout α} {scroll : ScrollTrack α} {a : Anchor α}
    {source : AnchorSource} (h : l.freeAnchor scroll = .ok (a, source)) :
    (source = .retained ∧ l.retained = some a ∧ a.index < l.total ∧
        l.overlaps a (l.boundsAt scroll.position) = true) ∨
      (source = .settled ∧
        l.settledAnchor? scroll.position (l.boundsAt scroll.position) = .ok (some a)) ∨
      (source = .estimated ∧ 0 < l.total ∧
        a.index = l.estimatedIndex (l.total - 1) (l.boundsAt scroll.position) ∧
        l.positionOf a.index = .ok a.position) := by
  simp only [freeAnchor] at h
  split at h
  · -- A retained anchor is tried first.
    rename_i kept hkept
    cases h
    obtain ⟨hret, husable⟩ := Option.filter_eq_some_iff.1 hkept
    simp only [Bool.and_eq_true, decide_eq_true_eq] at husable
    exact Or.inl ⟨rfl, hret, husable⟩
  · obtain ⟨found, hfound, h⟩ := bind_eq_ok.1 h
    cases found with
    | some item =>
      cases h
      exact Or.inr (Or.inl ⟨rfl, hfound⟩)
    | none =>
      -- Without any item laid out before, the averages have to do.
      simp only [lastIndex, bind_eq_ok, Index.sub_eq_ok_iff] at h
      obtain ⟨final, ⟨hpos, rfl⟩, position, hposition, h⟩ := h
      cases h
      exact Or.inr (Or.inr ⟨rfl, hpos, rfl, hposition⟩)

/-- Where the anchor of a pass with a pinned item comes from. -/
theorem pinnedAnchor_eq_ok {l : Layout α} {t : ScrollTarget} {a : Anchor α} {scroll : ScrollTrack α}
    (h : l.pinnedAnchor t = .ok (a, scroll)) :
    0 < l.total ∧ a.index = min t.index (l.total - 1) ∧ l.positionOf a.index = .ok a.position := by
  simp only [pinnedAnchor, lastIndex, bind_eq_ok, Index.sub_eq_ok_iff] at h
  obtain ⟨final, ⟨hpos, rfl⟩, wanted, -, position, hposition, h⟩ := h
  cases h
  exact ⟨hpos, rfl, hposition⟩

/-- Where the anchor of a pass comes from. -/
theorem chooseAnchor_cases {l : Layout α} {a : Anchor α} {source : AnchorSource}
    {scroll : ScrollTrack α} (h : l.chooseAnchor = .ok (a, source, scroll)) :
    (∃ t, l.pin = some t ∧ source = .pinned t.align ∧ l.pinnedAnchor t = .ok (a, scroll)) ∨
      (l.pin = none ∧ l.clampedScroll = .ok scroll ∧ l.freeAnchor scroll = .ok (a, source)) := by
  unfold chooseAnchor at h
  split at h
  · rename_i t ht
    obtain ⟨⟨a', scroll'⟩, hpinned, h⟩ := bind_eq_ok.1 h
    cases h
    exact Or.inl ⟨t, ht, rfl, hpinned⟩
  · rename_i hnone
    obtain ⟨scroll', hclamped, h⟩ := bind_eq_ok.1 h
    obtain ⟨⟨a', source'⟩, hfree, h⟩ := bind_eq_ok.1 h
    cases h
    exact Or.inr ⟨hnone, hclamped, hfree⟩

/-- The anchor of a pass is an item of the list. -/
theorem chooseAnchor_index_lt {l : Layout α} {a : Anchor α} {source : AnchorSource}
    {scroll : ScrollTrack α} (hsettled : ∀ item ∈ l.settled, item.index < l.total)
    (h : l.chooseAnchor = .ok (a, source, scroll)) : a.index < l.total := by
  rcases chooseAnchor_cases h with ⟨t, -, -, hpinned⟩ | ⟨-, -, hfree⟩
  · obtain ⟨hpos, hindex, -⟩ := pinnedAnchor_eq_ok hpinned
    omega
  · rcases freeAnchor_cases hfree with ⟨-, -, hlt, -⟩ | ⟨-, hfound⟩ | ⟨-, hpos, hindex, -⟩
    · exact hlt
    · obtain ⟨item, hitem, rfl⟩ := settledAnchor?_mem hfound
      exact hsettled item hitem
    · have hle := l.estimatedIndex_le (l.total - 1) (l.boundsAt scroll.position)
      omega

end VirtualList.Layout
