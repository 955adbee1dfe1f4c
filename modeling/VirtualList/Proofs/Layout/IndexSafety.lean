import VirtualList.Proofs.Layout.Regrowth

/-!
# Index arithmetic

Every step on indices that a layout takes is checked, and none of the checks ever fails: not where
the number of items is the largest representable one, not between a change of that number and the
pass that notices it, and not where the arithmetic on positions returns what it likes.  What is left
to go wrong is a value that is to be clamped between bounds that are crossed.

## Key results

- `OkUnless`: a computation that faults over crossed bounds only, and when it may
- `Indexed`, `Reachable.indexed`: what is true of the indices that a layout holds
- `Indexed.positionOf_exists_ok`, `Indexed.chooseAnchor_okUnless`, `Indexed.layOut_okUnless`: one
  statement for each function that calculates with indices
- `Indexed.respond_okUnless`: when a request can fault
- `Reachable.indices_safe`: no query and no request of a run faults over an index
-/

namespace VirtualList

/-- The computation has an outcome, or it stops because bounds are crossed, and that only if
`crossed` holds. -/
inductive OkUnless (crossed : Prop) {β : Type} : Except Fault β → Prop
  | ok (b : β) : OkUnless crossed (.ok b)
  | crossedBounds : crossed → OkUnless crossed (.error .crossedBounds)

namespace OkUnless

variable {crossed crossed' : Prop} {β γ : Type} {x : Except Fault β}

theorem of_exists_ok (h : ∃ b, x = .ok b) : OkUnless crossed x := by
  obtain ⟨b, rfl⟩ := h
  exact .ok b

theorem exists_ok (h : OkUnless crossed x) (hnot : ¬crossed) : ∃ b, x = .ok b := by
  cases h with
  | ok b => exact ⟨b, rfl⟩
  | crossedBounds hcrossed => exact absurd hcrossed hnot

theorem eq_crossedBounds {fault : Fault} (h : OkUnless crossed x) (hx : x = .error fault) :
    fault = .crossedBounds := by
  cases h with
  | ok b => cases hx
  | crossedBounds => exact (Except.error.inj hx).symm

theorem mono (himp : crossed → crossed') (h : OkUnless crossed x) : OkUnless crossed' x := by
  cases h with
  | ok b => exact .ok b
  | crossedBounds hcrossed => exact .crossedBounds (himp hcrossed)

/-- The second part of a computation is carried out only if the first one has an outcome. -/
theorem bind {f : β → Except Fault γ} (h : OkUnless crossed x)
    (hf : ∀ b, x = .ok b → OkUnless crossed (f b)) : OkUnless crossed (x >>= f) := by
  cases h with
  | ok b => exact hf b rfl
  | crossedBounds hcrossed => exact .crossedBounds hcrossed

end OkUnless

/-- A value can be clamped unless the bounds are crossed. -/
theorem Scalar.clamp_okUnless {α : Type} [Scalar α] (x lo hi : α) :
    OkUnless (¬lo ≤ hi) (clamp x lo hi) := by
  by_cases h : lo ≤ hi
  · rw [clamp_of_le h]
    exact .ok _
  · rw [clamp_of_not_le h]
    exact .crossedBounds h

/-- An item that is neither in a window nor in front of it lies behind it. -/
theorem Consecutive.getLast_index_lt {α : Type} {items : List (PlacedItem α)} {first i : Nat}
    {head tail : PlacedItem α} (h : Consecutive items first) (hhead : items.head? = some head)
    (htail : items.getLast? = some tail)
    (hmissing : items.find? (fun item => item.index == i) = none) (hi : head.index ≤ i) :
    tail.index < i := by
  by_contra hle
  have hfirst := (h.index_bounds (List.mem_of_head? hhead)).1
  have hlast := (h.index_bounds (List.mem_of_getLast? htail)).2
  -- Otherwise the index is one of those of the window.
  have hmem : i ∈ items.map PlacedItem.index := by
    rw [h, List.mem_range'_1]
    omega
  obtain ⟨item, hitem, rfl⟩ := List.mem_map.1 hmem
  rw [h.find?_eq hitem] at hmissing
  cases hmissing

namespace Layout

variable {α : Type} [Scalar α]

/-- The indices that a layout holds are representable, and in order. -/
structure Indexed (l : Layout α) : Prop where
  total_le : l.total ≤ Index.limit
  range_ordered : ∀ r, l.range = some r → r.first ≤ r.last ∧ r.last < Index.limit
  published_consecutive : ∃ first, Consecutive l.published first
  published_lt : ∀ item ∈ l.published, item.index < Index.limit

/-- The last stable window ends in front of where it starts. -/
def SettledCrossed (l : Layout α) : Prop :=
  ∃ head tail, l.settled.head? = some head ∧ l.settled.getLast? = some tail ∧
    ¬head.position ≤ tail.finish

/-- Bounds that a pass clamps between may be crossed: zero and the largest scroll position, or the
ends of the last stable window. -/
def MayCross (l : Layout α) : Prop := (∃ x : α, ¬(0 : α) ≤ Scalar.max x 0) ∨ l.SettledCrossed

/-! ## The indices that a layout holds -/

/-- A pass publishes items of the list, and nothing else publishes any. -/
theorem Reachable.published_lt {l : Layout α} (h : Reachable l) :
    ∀ item ∈ l.published, item.index < Index.limit := by
  induction h with
  | start h =>
    obtain ⟨u, -, h⟩ := bind_eq_ok.1 h
    cases h
    exact fun item hitem => absurd hitem List.not_mem_nil
  | @step l l' r answer hl hr h ih =>
    have hafter : Reachable l' := hl.step hr h
    cases respond_effect h with
    | passed hreflow =>
      intro item hitem
      have hlt := (hafter.consistent.index_lt (reflow_freshlyLaidOut hreflow) hitem).1
      exact Nat.lt_of_lt_of_le hlt hafter.total_le
    | _ => exact ih

theorem Reachable.indexed {l : Layout α} (h : Reachable l) : l.Indexed where
  total_le := h.total_le
  range_ordered r hr := by
    obtain ⟨hcons, hlen⟩ := h.consistent.published_consecutive hr
    obtain ⟨h₁, h₂, h₃⟩ := h.consistent.ordered r hr
    have hle : r.first ≤ r.last := h₁.trans (h₂.trans h₃)
    -- The last item of the window is published.
    have hmem : r.last ∈ l.published.map PlacedItem.index := by
      rw [hcons, List.mem_range'_1]
      omega
    obtain ⟨item, hitem, heq⟩ := List.mem_map.1 hmem
    exact ⟨hle, heq ▸ h.published_lt item hitem⟩
  published_consecutive := by
    cases hr : l.range with
    | none =>
      rw [h.consistent.range_eq_none_iff.1 hr]
      exact ⟨0, .nil 0⟩
    | some r => exact ⟨r.first, (h.consistent.published_consecutive hr).1⟩
  published_lt := h.published_lt

/-- A pass begins with what is left of the indices in the list. -/
theorem Indexed.opened {l o : Layout α} (h : l.Indexed) (hopen : l.opened = .ok o) : o.Indexed := by
  obtain ⟨first, hcons⟩ := h.published_consecutive
  obtain ⟨scrollSize, -, rfl⟩ := opened_eq_ok hopen
  exact {
    total_le := h.total_le
    range_ordered := h.range_ordered
    published_consecutive := ⟨first, hcons.filter_lt l.total⟩
    published_lt := fun item hitem => h.published_lt item (List.mem_filter.1 hitem).1 }

/-! ## Queries -/

omit [Scalar α] in
/-- A list that has items has a last one. -/
theorem lastIndex_of_pos {l : Layout α} (h : 0 < l.total) : l.lastIndex = .ok (l.total - 1) :=
  Index.sub_of_le h

namespace Indexed

variable {l : Layout α}

omit [Scalar α] in
/-- The items of a window can be counted. -/
theorem length_exists_ok (h : l.Indexed) {r : WindowRange} (hr : l.range = some r) :
    ∃ n, r.length = .ok n := by
  obtain ⟨hle, hlt⟩ := h.range_ordered r hr
  have hdistance : r.last - r.first < Index.limit := Nat.lt_of_le_of_lt (Nat.sub_le _ _) hlt
  simp only [WindowRange.length, Index.sub_of_le hle, bind_eq_ok]
  exact ⟨_, _, rfl, Index.succ_of_lt hdistance⟩

theorem resolveAlign_exists_ok (h : l.Indexed) (i : Nat) (align : Align) :
    ∃ settled, l.resolveAlign i align = .ok settled := by
  unfold resolveAlign
  split
  · rename_i r hr
    obtain ⟨n, hn⟩ := h.length_exists_ok hr
    simp only [hn, bind_eq_ok]
    exact ⟨_, n, rfl, rfl⟩
  · exact ⟨_, rfl⟩
  · exact ⟨_, rfl⟩

omit [Scalar α] in
/-- The item behind a window has a representable index. -/
theorem succ_getLast (h : l.Indexed) {tail : PlacedItem α}
    (htail : l.published.getLast? = some tail) :
    Index.succ tail.index = .ok (tail.index + 1) :=
  Index.succ_of_lt (h.published_lt tail (List.mem_of_getLast? htail))

theorem positionOf_exists_ok (h : l.Indexed) (i : Nat) : ∃ x, l.positionOf i = .ok x := by
  obtain ⟨first, hcons⟩ := h.published_consecutive
  unfold positionOf
  split
  · exact ⟨_, rfl⟩
  · split
    · exact ⟨_, rfl⟩
    · rename_i hmissing
      simp only
      split
      · exact ⟨_, rfl⟩
      · split
        · rename_i head tail hhead htail
          split
          · rename_i hlt
            simp only [Index.sub_of_le (Nat.le_of_lt hlt), bind_eq_ok]
            exact ⟨_, _, rfl, rfl⟩
          · -- What is neither published nor in front of the window lies behind it.
            rename_i hle
            have hbehind := hcons.getLast_index_lt hhead htail hmissing (Nat.le_of_not_lt hle)
            simp only [Index.sub_of_le (Nat.le_of_lt hbehind), h.succ_getLast htail, bind_eq_ok]
            exact ⟨_, _, rfl, _, rfl, rfl⟩
        · exact ⟨_, rfl⟩

theorem needsPass_exists_ok (h : l.Indexed) : ∃ needed, l.needsPass = .ok needed := by
  unfold needsPass
  simp only
  split
  · rename_i head tail hhead htail
    split
    · exact ⟨_, rfl⟩
    · split
      · exact ⟨_, rfl⟩
      · simp only [h.succ_getLast htail, bind_eq_ok]
        exact ⟨_, _, rfl, rfl⟩
  · exact ⟨_, rfl⟩

/-- A position that is brought into view is held within the extent. -/
theorem revealPosition_okUnless (h : l.Indexed) (i : Nat) (align : Align) :
    OkUnless (¬(0 : α) ≤ l.maxScrollPosition) (l.revealPosition i align) := by
  unfold revealPosition
  split
  · exact .ok _
  · rename_i hpos
    simp only [lastIndex_of_pos (Nat.pos_of_ne_zero hpos)]
    refine .bind (.ok _) fun final _ => ?_
    refine .bind (.of_exists_ok (h.positionOf_exists_ok _)) fun start _ => ?_
    refine .bind (.of_exists_ok (h.resolveAlign_exists_ok _ align)) fun settled _ => ?_
    exact Scalar.clamp_okUnless _ _ _

end Indexed

/-! ## The start of a pass -/

section Pass

variable {l o : Layout α}

/-- What is left of the last stable window is counted from the end of the list. -/
theorem estimatedExtent_exists_ok (hlimit : l.total ≤ Index.limit)
    (hsettled : ∀ item ∈ l.settled, item.index < l.total) :
    ∃ scrollSize, l.estimatedExtent = .ok scrollSize := by
  unfold estimatedExtent
  simp only
  split
  · exact ⟨_, rfl⟩
  · rename_i hpos
    rw [lastIndex_of_pos (Nat.pos_of_ne_zero hpos)]
    cases htail : l.settled.getLast? with
    | none => exact ⟨_, rfl⟩
    | some tail =>
      have hlt := hsettled tail (List.mem_of_getLast? htail)
      have hnext := Index.succ_of_lt (Nat.lt_of_lt_of_le hlt hlimit)
      have hbeyond := Index.sub_of_le (Nat.le_pred_of_lt hlt)
      simp only [hnext, bind_eq_ok]
      exact ⟨_, _, rfl, _, rfl, _, hbeyond, _, rfl, rfl⟩

theorem opened_exists_ok (hlimit : l.total ≤ Index.limit) : ∃ o, l.opened = .ok o := by
  have hsettled : ∀ item ∈ l.truncate.settled, item.index < l.truncate.total :=
    fun item hitem => of_decide_eq_true (List.mem_filter.1 hitem).2
  obtain ⟨scrollSize, hsize⟩ := estimatedExtent_exists_ok (l := l.truncate) hlimit hsettled
  simp only [Layout.opened, hsize, bind_eq_ok]
  exact ⟨_, scrollSize, rfl, rfl⟩

/-- The search in the last stable window finds a place that the window has. -/
theorem settledAnchor?_okUnless (position : α) (b : Bounds α) :
    OkUnless l.SettledCrossed (l.settledAnchor? position b) := by
  unfold settledAnchor?
  split
  · rename_i head tail hhead htail
    split
    · have hclamp := (Scalar.clamp_okUnless position head.position tail.finish).mono
        fun hcrossed => (⟨head, tail, hhead, htail, hcrossed⟩ : l.SettledCrossed)
      refine .bind hclamp fun target _ => ?_
      have hlength : 0 < l.settled.length :=
        List.length_pos_of_mem (List.mem_of_head? hhead)
      have hplace := List.getElem?_eq_getElem (l := l.settled)
        (i := min (bisect (fun item => decide (item.finish ≤ target)) l.settled)
          (l.settled.length - 1)) (by omega)
      simp only [hplace]
      exact .ok _
    · exact .ok _
  · exact .ok _

theorem Indexed.freeAnchor_okUnless (h : l.Indexed) (hpos : 0 < l.total) (scroll : ScrollTrack α) :
    OkUnless l.SettledCrossed (l.freeAnchor scroll) := by
  unfold freeAnchor
  simp only [lastIndex_of_pos hpos]
  split
  · exact .ok _
  · refine .bind (l.settledAnchor?_okUnless _ _) fun found _ => ?_
    cases found with
    | some a => exact .ok _
    | none =>
      refine .bind (.ok _) fun final _ => ?_
      exact .bind (.of_exists_ok (h.positionOf_exists_ok _)) fun position _ => .ok _

theorem clampedScroll_okUnless (l : Layout α) :
    OkUnless (¬(0 : α) ≤ l.maxScrollPosition) l.clampedScroll :=
  .bind (Scalar.clamp_okUnless _ _ _) fun _ _ => .ok _

theorem Indexed.pinnedAnchor_okUnless (h : l.Indexed) (hpos : 0 < l.total) (t : ScrollTarget) :
    OkUnless (¬(0 : α) ≤ l.maxScrollPosition) (l.pinnedAnchor t) := by
  unfold pinnedAnchor
  simp only [lastIndex_of_pos hpos]
  refine .bind (.ok _) fun final _ => ?_
  refine .bind (h.revealPosition_okUnless _ _) fun wanted _ => ?_
  exact .bind (.of_exists_ok (h.positionOf_exists_ok _)) fun position _ => .ok _

/-- The largest scroll position is a maximum with zero. -/
theorem mayCross_of_maxScrollPosition {s : LayoutState α} (h : ¬(0 : α) ≤ s.maxScrollPosition) :
    l.MayCross :=
  Or.inl ⟨_, h⟩

theorem Indexed.chooseAnchor_okUnless (h : l.Indexed) (hpos : 0 < l.total) :
    OkUnless l.MayCross l.chooseAnchor := by
  unfold chooseAnchor
  split
  · rename_i t ht
    exact .bind ((h.pinnedAnchor_okUnless hpos t).mono mayCross_of_maxScrollPosition)
      fun _ _ => .ok _
  · refine .bind (l.clampedScroll_okUnless.mono mayCross_of_maxScrollPosition) fun scroll _ => ?_
    exact .bind ((h.freeAnchor_okUnless hpos scroll).mono Or.inr) fun _ _ => .ok _

/-! ## The rest of a pass -/

theorem realigned_okUnless (l : Layout α) (source : AnchorSource) (a : Anchor α) (size : α)
    (scroll : ScrollTrack α) :
    OkUnless (¬(0 : α) ≤ l.maxScrollPosition) (l.realigned source a size scroll) := by
  unfold realigned
  split
  · exact .bind (Scalar.clamp_okUnless _ _ _) fun aligned _ => .ok _
  · exact .ok _

/-- A window that has an item has a visible part. -/
theorem publish_exists_ok (l : Layout α) {s : Strip α} (hitems : s.items ≠ []) (a : Anchor α)
    (scroll : ScrollTrack α) : ∃ l', l.publish s a scroll = .ok l' := by
  obtain ⟨x, y, hends⟩ := visibleEnds_ne_none hitems scroll.position l.viewport.main
  exact ⟨_, publish_of_visible hends⟩

/-- A pass grows its window within the list. -/
theorem Indexed.layOut_okUnless (h : l.Indexed) (hpos : 0 < l.total)
    (hsettled : ∀ item ∈ l.settled, item.index < l.total) : OkUnless l.MayCross l.layOut := by
  have hlimit := h.total_le
  unfold layOut
  simp only [lastIndex_of_pos hpos]
  refine .bind (.ok _) fun final hfinal => ?_
  obtain rfl : l.total - 1 = final := Except.ok.inj hfinal
  refine .bind (h.chooseAnchor_okUnless hpos) fun ⟨a, source, scroll⟩ hchoose => ?_
  have hanchor := chooseAnchor_index_lt hsettled hchoose
  -- The layout that the pass goes on with may have lost its corrections; that does not matter.
  simp only
  generalize (if source.startsAfresh = true then { l with corrections := ∅ } else l) = base
  have hfooting := base.footing_exists_ok a (Nat.lt_of_lt_of_le hanchor hlimit)
  refine .bind (.of_exists_ok hfooting) fun f hf => ?_
  have hindex : f.anchor.index = a.index := by rw [(footing_eq_ok hf).2]
  have hle : f.anchor.index ≤ l.total - 1 := by omega
  refine .bind (.of_exists_ok (base.growWindow_exists_ok f _ hle (by omega))) fun s hs => ?_
  have hspans := growWindow_spans hs hle
  simp only [extentFrom, Index.sub_of_le hspans.last_le]
  refine .bind (.ok _) fun scrollSize _ => ?_
  refine .bind ((realigned_okUnless _ _ _ _ _).mono mayCross_of_maxScrollPosition) fun scroll _ => ?_
  -- At least the anchor is in the window.
  refine .bind (.of_exists_ok (publish_exists_ok _ ?_ _ _)) fun l' _ => .ok _
  exact List.ne_nil_of_mem (List.mem_map_of_mem hspans.mem)

/-- Whatever has changed since the last pass, a pass can fault over crossed bounds only. -/
theorem Indexed.reflow_okUnless (h : l.Indexed) : OkUnless l.truncate.MayCross l.reflow := by
  obtain ⟨o, hopen⟩ := opened_exists_ok h.total_le
  have hindexed := h.opened hopen
  have hsettled := opened_settled_lt hopen
  obtain ⟨scrollSize, hsize, rfl⟩ := opened_eq_ok hopen
  refine .bind ?_ fun _ _ => .ok _
  simp only [pass, hsize]
  refine .bind (.ok _) fun scrollSize' heq => ?_
  obtain rfl : scrollSize = scrollSize' := Except.ok.inj heq
  split
  · exact .ok _
  · rename_i hfull
    exact hindexed.layOut_okUnless (Nat.pos_of_ne_zero fun hzero => hfull (Or.inl hzero)) hsettled

/-- Every request is answered, unless it is a pass and bounds are crossed. -/
theorem Indexed.respond_okUnless (h : l.Indexed) (r : Request α) :
    OkUnless l.truncate.MayCross (l.respond r) := by
  cases r with
  | pinTo i align =>
    refine .of_exists_ok ?_
    obtain ⟨settled, hsettled⟩ := h.resolveAlign_exists_ok i align
    simp only [respond, pinTo, hsettled]
    exact ⟨_, rfl⟩
  | reflow => exact .bind h.reflow_okUnless fun _ _ => .ok _
  | _ => exact .ok _

end Pass

/-- However many items there are and whatever the arithmetic returns, nothing faults over an index
in any state of a run:

* no request does, and neither does bringing an item into view, though bounds may be crossed there;
* every other query is answered;
* where there is a window it can be counted, and the ends of its visible part are items of it. -/
theorem Reachable.indices_safe {l : Layout α} (h : Reachable l) :
    (∀ r fault, l.respond r = .error fault → fault = .crossedBounds) ∧
    (∀ i align fault, l.revealPosition i align = .error fault → fault = .crossedBounds) ∧
    (∀ i, ∃ x, l.positionOf i = .ok x) ∧
    (∀ i align, ∃ settled, l.resolveAlign i align = .ok settled) ∧
    (∃ needed, l.needsPass = .ok needed) ∧
    (∀ r, l.range = some r → (∃ n, r.length = .ok n) ∧
      ∃ x ∈ l.published, ∃ y ∈ l.published,
        visibleEnds l.published l.scrollPosition l.viewport.main = some (x, y)) := by
  have hindexed := h.indexed
  refine ⟨fun r fault => ?_, fun i align fault => ?_, hindexed.positionOf_exists_ok,
    hindexed.resolveAlign_exists_ok, hindexed.needsPass_exists_ok, fun r hr => ?_⟩
  · exact (hindexed.respond_okUnless r).eq_crossedBounds
  · exact (hindexed.revealPosition_okUnless i align).eq_crossedBounds
  · have hitems : l.published ≠ [] := by
      intro hempty
      rw [h.consistent.range_eq_none_iff.2 hempty] at hr
      cases hr
    obtain ⟨first, hcons⟩ := hindexed.published_consecutive
    obtain ⟨x, y, hends⟩ := visibleEnds_ne_none hitems l.scrollPosition l.viewport.main
    obtain ⟨hx, hy, -⟩ := visibleEnds_mem hcons hends
    exact ⟨hindexed.length_exists_ok hr, x, hx, y, hy, hends⟩

/-- The last item of the longest list there can be is brought into view.  It lies at infinity, and
the pass cannot tell how far it has moved. -/
theorem Reachable.indices_safe_of_longest : ∃ (l l' : Layout Float) (report : PassReport Float)
    (events : List (LayoutEvent Float)), Reachable l ∧ l.total = Index.limit ∧
      l.reflow = .ok (report, events, l') ∧ report.scrollError.isNaN = true ∧
      l'.range.any (fun r => decide (r.last + 1 = Index.limit)) = true ∧
      (∃ x, l'.positionOf (Index.limit - 2) = .ok x) ∧
      ∀ r fault, l'.respond r = .error fault → fault = .crossedBounds := by
  have htest : ((ofOptions (⟨1e308, 0, 0, .vertical, true, 1⟩ : Options Float)).toOption.any
      fun l => (l.run [.setTotal Index.limit, .setViewport ⟨30, 10⟩,
        .pinTo (Index.limit - 1) .finish]).toOption.any fun l => decide (l.total = Index.limit) &&
          l.reflow.toOption.any fun passed => passed.1.scrollError.isNaN &&
            passed.2.2.range.any fun r => decide (r.last + 1 = Index.limit)) = true := by
    decide +kernel
  obtain ⟨l₀, hstart, htest⟩ := exists_ok_of_any htest
  obtain ⟨l, hrun, htest⟩ := exists_ok_of_any htest
  obtain ⟨htotal, htest⟩ := Bool.and_eq_true_iff.1 htest
  obtain ⟨⟨report, events, l'⟩, hreflow, htest⟩ := exists_ok_of_any htest
  obtain ⟨hnan, hlast⟩ := Bool.and_eq_true_iff.1 htest
  have hl : Reachable l := (Reachable.start hstart).run (by simp [Request.Representable]) hrun
  obtain ⟨hrespond, -, hposition, -⟩ := (hl.reflow hreflow).indices_safe
  exact ⟨l, l', report, events, hl, of_decide_eq_true htotal, hreflow, hnan, hlast, hposition _,
    hrespond⟩

end Layout

end VirtualList
