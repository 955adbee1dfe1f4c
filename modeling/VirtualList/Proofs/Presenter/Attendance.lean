import VirtualList.Proofs.Presenter.Bindings
import VirtualList.Proofs.Presenter.Measuring

/-!
# The targets on the surface

A frame binds every key that it shows, and gives up those that it does not show any more.  So
where keys are bound until they are released, every target is bound on the surface throughout, and
no other key is ever asked for its measurement.

While the keys stay, no target moves to another item, and no mark is added.

## Key results

- `showPass_bound`: every target stays bound on the surface while a window is shown
- `showPass_deferred`: no target is left for the next frame by that
- `Tidy`, `showPass_tidy`: showing a window adds no mark
-/

namespace VirtualList

open Std (ExtTreeMap ExtTreeSet)

/-- Every target shows an item under the item's own key, no two items have the same key, and no
target is marked. -/
structure Presenter.Tidy {κ α : Type} [Ord κ] [Std.TransOrd κ] (p : Presenter κ α) : Prop where
  keys : DistinctKeys p.keyOf
  own : ∀ k i, p.targets[k]? = some i → k = p.keyOf i ∧ i ≤ Index.limit
  unmarked : p.resized = ∅

namespace Stage

variable {σ κ α : Type} [Ord κ] [Std.TransOrd κ] [Scalar α] {S : Surface σ κ α}
  {bound : κ → σ → Prop}

/-! ## Bound keys -/

theorem announceVisible_bound (hS : S.Tracks bound) {f : Stage σ κ α} (h : f.Bound bound) :
    (f.announceVisible S).Bound bound := by
  unfold announceVisible
  split
  · exact h
  · exact fun k hk => hS.windowChanged _ _ (h k hk)

variable [Std.LawfulEqOrd κ]

/-- An item that is shown has its key bound, and no other key is given up. -/
theorem showItem_bound (hS : S.Tracks bound) {next : ExtTreeMap κ Nat} {f : Stage σ κ α}
    (item : PlacedItem α) (h : f.Bound bound) (hnext : ∀ k ∈ next, bound k f.surface) :
    (showItem S next f item).2.Bound bound ∧
      ∀ k ∈ (showItem S next f item).1, bound k (showItem S next f item).2.surface := by
  have hleft (k : κ) (hk : k ∈ f.presenter.targets.erase (f.presenter.keyOf item.index)) :
      bound k f.surface := h k (ExtTreeMap.mem_of_mem_erase hk)
  have hcases (k : κ) (hk : k ∈ (showItem S next f item).1) :
      k = f.presenter.keyOf item.index ∨ k ∈ next := by
    rcases ExtTreeMap.mem_insert.1 hk with heq | hold
    · exact Or.inl (Std.compare_eq_eq_iff_eq.1 heq).symm
    · exact Or.inr hold
  -- The key is bound anew, or it was bound to this very item.
  have hbind (k : κ) (hk : bound k f.surface) :
      bound k (S.place (f.presenter.keyOf item.index) item
        (S.bind (f.presenter.keyOf item.index) item.index f.surface)) :=
    hS.place _ _ _ (hS.bind _ _ _ hk)
  have hself : bound (f.presenter.keyOf item.index)
      (S.place (f.presenter.keyOf item.index) item
        (S.bind (f.presenter.keyOf item.index) item.index f.surface)) :=
    hS.place _ _ _ (hS.bind_self _ _ _)
  simp only [showItem] at hcases ⊢
  split
  · refine ⟨fun k hk => hbind k (hleft k hk), fun k hk => ?_⟩
    rcases hcases k hk with rfl | hold
    · exact hself
    · exact hbind k (hnext k hold)
  · rename_i old hshown
    split
    · refine ⟨fun k hk => hS.place _ _ _ (hleft k hk), fun k hk => ?_⟩
      rcases hcases k hk with rfl | hold
      · have hmem : f.presenter.keyOf item.index ∈ f.presenter.targets := by
          rw [ExtTreeMap.mem_iff_isSome_getElem?, hshown]
          rfl
        exact hS.place _ _ _ (h _ hmem)
      · exact hS.place _ _ _ (hnext k hold)
    · refine ⟨fun k hk => hbind k (hleft k hk), fun k hk => ?_⟩
      rcases hcases k hk with rfl | hold
      · exact hself
      · exact hbind k (hnext k hold)

omit [Std.LawfulEqOrd κ] in
/-- Giving up keys that have no target leaves every target bound. -/
theorem foldl_releaseKey_bound (hS : S.Tracks bound) {f : Stage σ κ α} {keys : List κ}
    (h : f.Bound bound) (hkeys : ∀ k ∈ f.presenter.targets, k ∉ keys) :
    (keys.foldl (releaseKey S) f).Bound bound := by
  induction keys generalizing f with
  | nil => exact h
  | cons key rest ih =>
    apply ih (f := releaseKey S f key)
    · intro k hk
      apply hS.release _ _ _ (h k hk)
      intro heq
      rw [heq] at hk
      exact hkeys key hk List.mem_cons_self
    · exact fun k hk hmem => hkeys k hk (List.mem_cons_of_mem key hmem)

theorem reconcile_bound (hS : S.Tracks bound) {f : Stage σ κ α} (items : List (PlacedItem α))
    (h : f.Bound bound) : (f.reconcile S items).Bound bound := by
  obtain ⟨hshown, hnext⟩ := List.foldlRecOn (motive := fun x : ExtTreeMap κ Nat × Stage σ κ α =>
    x.2.Bound bound ∧ ∀ k ∈ x.1, bound k x.2.surface) items (showNext S) (b := (∅, f))
    ⟨h, by simp⟩ fun x hx item _ => showItem_bound hS item hx.1 hx.2
  obtain ⟨g, targets, resized, hfold, hg, htargets, -⟩ := foldl_showNext S f items
  rw [hfold] at hnext
  rw [reconcile_eq S f hfold]
  apply foldl_releaseKey_bound hS (by exact hnext)
  -- What is left of the old targets is not shown any more.
  intro k hk hstale
  rw [hg, ExtTreeMap.mem_keys] at hstale
  exact ((htargets k).1 hstale).2 hk

theorem deliver_bound (hS : S.Tracks bound) {f : Stage σ κ α} (event : LayoutEvent α)
    (h : f.Bound bound) : (f.deliver S event).Bound bound := by
  cases event with
  | itemsPlaced items => exact reconcile_bound hS items h
  | windowChanged change => exact fun k hk => hS.windowChanged _ _ (h k hk)
  | scrollSizeChanged size => exact fun k hk => hS.setScrollSize _ _ (h k hk)
  | scrollMoved distance => exact fun k hk => hS.scrollTo _ _ (h k hk)

/-- While a window is shown every target stays bound. -/
theorem showPass_bound (hS : S.Tracks bound) {f : Stage σ κ α} (reasons : Reasons)
    (events : List (LayoutEvent α)) (h : f.Bound bound) :
    (f.showPass S reasons events).Bound bound := by
  have hevents : (events.foldl (deliver S) f).Bound bound :=
    List.foldlRecOn (motive := fun g : Stage σ κ α => g.Bound bound) events _ h
      fun g hg event _ => deliver_bound hS event hg
  unfold showPass
  split
  · exact reconcile_bound hS _ hevents
  · exact hevents

/-! ## Targets left for the next frame -/

section Deferred

omit [Std.LawfulEqOrd κ]

omit [Scalar α] in
theorem reconcile_deferred (S : Surface σ κ α) (f : Stage σ κ α) (items : List (PlacedItem α)) :
    (f.reconcile S items).report.deferred = f.report.deferred := by
  have hshown : (items.foldl (showNext S) (∅, f)).2.report.deferred = f.report.deferred := by
    refine List.foldlRecOn (motive := fun x : ExtTreeMap κ Nat × Stage σ κ α =>
      x.2.report.deferred = f.report.deferred) items (showNext S) (b := (∅, f)) rfl
      fun x hx item _ => ?_
    rw [← hx]
    simp only [showNext, showItem]
    split
    · rfl
    · split <;> rfl
  rw [reconcile_eq S f rfl]
  exact List.foldlRecOn (motive := fun g : Stage σ κ α => g.report.deferred = f.report.deferred)
    _ _ hshown fun g hg key _ => hg

theorem deliver_deferred (S : Surface σ κ α) (f : Stage σ κ α) (event : LayoutEvent α) :
    (f.deliver S event).report.deferred = f.report.deferred := by
  cases event with
  | itemsPlaced items => exact reconcile_deferred S f items
  | _ => rfl

/-- To show a window leaves no target for the next frame. -/
theorem showPass_deferred (S : Surface σ κ α) (f : Stage σ κ α) (reasons : Reasons)
    (events : List (LayoutEvent α)) :
    (f.showPass S reasons events).report.deferred = f.report.deferred := by
  have hevents : (events.foldl (deliver S) f).report.deferred = f.report.deferred :=
    List.foldlRecOn (motive := fun g : Stage σ κ α => g.report.deferred = f.report.deferred)
      events _ rfl fun g hg event _ => (deliver_deferred S g event).trans hg
  unfold showPass
  split
  · exact (reconcile_deferred S _ _).trans hevents
  · exact hevents

end Deferred

/-! ## Marks -/

omit [Std.LawfulEqOrd κ] [Scalar α] in
/-- A target that shows its own item is not bound to another one. -/
theorem showItem_tidy (S : Surface σ κ α) (next : ExtTreeMap κ Nat) {f : Stage σ κ α}
    {item : PlacedItem α} (h : f.presenter.Tidy) (hitem : item.index ≤ Index.limit) :
    (showItem S next f item).2.presenter.Tidy := by
  have hleft (k : κ) (i : Nat)
      (hi : (f.presenter.targets.erase (f.presenter.keyOf item.index))[k]? = some i) :
      k = f.presenter.keyOf i ∧ i ≤ Index.limit := by
    rw [ExtTreeMap.getElem?_erase] at hi
    split at hi
    · cases hi
    · exact h.own k i hi
  simp only [showItem]
  split
  · exact ⟨h.keys, hleft, h.unmarked⟩
  · rename_i old hshown
    obtain ⟨hkey, hold⟩ := h.own _ old hshown
    rw [if_pos (h.keys hitem hold hkey).symm]
    exact ⟨h.keys, hleft, h.unmarked⟩

omit [Scalar α] in
theorem reconcile_tidy (S : Surface σ κ α) {f : Stage σ κ α} {items : List (PlacedItem α)}
    (h : f.presenter.Tidy) (hitems : ∀ item ∈ items, item.index ≤ Index.limit) :
    (f.reconcile S items).presenter.Tidy := by
  have hshown := List.foldlRecOn (motive := fun x : ExtTreeMap κ Nat × Stage σ κ α =>
    x.2.presenter.Tidy) items (showNext S) (b := (∅, f)) h
    fun x hx item hmem => showItem_tidy S x.1 hx (hitems item hmem)
  obtain ⟨g, targets, resized, hfold, hg, -, -⟩ := foldl_showNext S f items
  rw [hfold] at hshown
  obtain ⟨unmarked, heq, hmarks⟩ := foldl_releaseKey S
    { g with presenter := { g.presenter with targets := bindings f.presenter.keyOf items } }
    g.presenter.targets.keys
  have hkeyOf : g.presenter.keyOf = f.presenter.keyOf := by rw [hg]
  rw [reconcile_eq S f hfold, heq]
  constructor
  · exact hshown.keys
  · intro k i hi
    obtain ⟨hk, hmem⟩ := (shows_bindings h.keys hitems k i).1 hi
    obtain ⟨item, hitem, rfl⟩ := List.mem_map.1 hmem
    exact ⟨by rw [hkeyOf]; exact hk, hitems item hitem⟩
  · rw [ExtTreeSet.eq_empty_iff_forall_not_mem]
    intro k hk
    have hmark : k ∈ g.presenter.resized := ((hmarks k).1 hk).1
    have hnone : g.presenter.resized = ∅ := hshown.unmarked
    rw [hnone] at hmark
    exact ExtTreeSet.not_mem_empty hmark

/-- The events of a pass add no mark. -/
theorem showPass_tidy (S : Surface σ κ α) {f : Stage σ κ α} (reasons : Reasons)
    {events : List (LayoutEvent α)} (h : f.presenter.Tidy)
    (hitems : ∀ item ∈ f.presenter.layout.published, item.index ≤ Index.limit)
    (hplaced : ∀ items, .itemsPlaced items ∈ events → items = f.presenter.layout.published) :
    (f.showPass S reasons events).presenter.Tidy := by
  have hevents : (events.foldl (deliver S) f).presenter.Tidy := by
    refine List.foldlRecOn (motive := fun g : Stage σ κ α => g.presenter.Tidy) events _ h ?_
    intro g hg event hmem
    cases event with
    | itemsPlaced items =>
      obtain rfl := hplaced items hmem
      exact reconcile_tidy S hg hitems
    | windowChanged change => exact hg
    | scrollSizeChanged size => exact hg
    | scrollMoved distance => exact ⟨hg.keys, hg.own, hg.unmarked⟩
  unfold showPass
  split
  · refine reconcile_tidy S hevents ?_
    rw [(foldl_deliver_keepsPlan S f events).layout]
    exact hitems
  · exact hevents

end Stage

end VirtualList
