import Mathlib.Data.List.Induction
import Mathlib.Data.List.Nodup
import Mathlib.Data.Set.Function
import Mathlib.Order.Interval.Set.Defs
import VirtualList.Presenter.Frame
import VirtualList.Proofs.Layout.Run

/-!
# The bindings of a presenter

Showing a list of items binds their keys and gives up all others, whatever was bound before.  This
file says what comes of the targets and of the marks on them; the surface is left out.

## Key results

- `bindings`, `shows_bindings`: the targets that show a list of items
- `reconcile_presenter`: showing items changes the targets and the marks, and nothing else
- `KeepsPlan`, `foldl_deliver_keepsPlan`: what the events of a pass leave alone
- `foldl_deliver_targets`: the targets after the events of a pass
-/

namespace VirtualList

open Std (ExtTreeMap ExtTreeSet)

section Bindings

variable {κ α : Type} [Ord κ] [Std.TransOrd κ]

/-- No two items have the same key. -/
def DistinctKeys (keyOf : Nat → κ) : Prop := Set.InjOn keyOf (Set.Iic Index.limit)

omit [Ord κ] [Std.TransOrd κ] in
/-- Items with distinct indices then have distinct keys. -/
theorem DistinctKeys.nodup {keyOf : Nat → κ} (hkeys : DistinctKeys keyOf)
    {items : List (PlacedItem α)} (hindex : ∀ item ∈ items, item.index ≤ Index.limit)
    (hnodup : (items.map PlacedItem.index).Nodup) :
    (items.map fun item => keyOf item.index).Nodup := by
  have heq : (items.map fun item => keyOf item.index) = (items.map PlacedItem.index).map keyOf := by
    rw [List.map_map]
    rfl
  have hle : ∀ i ∈ items.map PlacedItem.index, i ≤ Index.limit := by
    intro i hi
    obtain ⟨item, hitem, rfl⟩ := List.mem_map.1 hi
    exact hindex item hitem
  rw [heq]
  exact List.Nodup.map_on (fun i hi j hj => hkeys (hle i hi) (hle j hj)) hnodup

/-- The targets that show a list of items.  Where keys collide, the last item has the target. -/
def bindings (keyOf : Nat → κ) (items : List (PlacedItem α)) : ExtTreeMap κ Nat :=
  items.foldl (fun next item => next.insert (keyOf item.index) item.index) ∅

theorem bindings_append_singleton (keyOf : Nat → κ) (items : List (PlacedItem α))
    (x : PlacedItem α) :
    bindings keyOf (items ++ [x]) = (bindings keyOf items).insert (keyOf x.index) x.index := by
  rw [bindings, List.foldl_append]
  rfl

variable [Std.LawfulEqOrd κ]

/-- The keys of the items are bound, and no others. -/
theorem mem_bindings {keyOf : Nat → κ} {items : List (PlacedItem α)} {k : κ} :
    k ∈ bindings keyOf items ↔ k ∈ items.map fun item => keyOf item.index := by
  induction items using List.reverseRecOn with
  | nil => simp [bindings]
  | append_singleton items x ih =>
    rw [bindings_append_singleton, ExtTreeMap.mem_insert, Std.compare_eq_eq_iff_eq, ih,
      List.map_append, List.mem_append, List.map_singleton, List.mem_singleton, or_comm,
      eq_comm (a := k)]

/-- A key that is bound shows one of the items whose key it is. -/
theorem of_bindings {keyOf : Nat → κ} {items : List (PlacedItem α)} {k : κ} {i : Nat}
    (h : (bindings keyOf items)[k]? = some i) :
    k = keyOf i ∧ i ∈ items.map PlacedItem.index := by
  induction items using List.reverseRecOn with
  | nil => simp [bindings] at h
  | append_singleton items x ih =>
    rw [bindings_append_singleton, ExtTreeMap.getElem?_insert] at h
    rw [List.map_append, List.mem_append, List.map_singleton, List.mem_singleton]
    split at h
    · rename_i hk
      cases h
      exact ⟨(Std.LawfulEqCmp.eq_of_compare hk).symm, Or.inr rfl⟩
    · exact (ih h).imp_right Or.inl

/-- The targets show exactly the given items, each under its own key. -/
def Shows (targets : ExtTreeMap κ Nat) (keyOf : Nat → κ) (items : List (PlacedItem α)) : Prop :=
  ∀ k i, targets[k]? = some i ↔ k = keyOf i ∧ i ∈ items.map PlacedItem.index

/-- Where keys do not collide every item has its target. -/
theorem shows_bindings {keyOf : Nat → κ} (hkeys : DistinctKeys keyOf)
    {items : List (PlacedItem α)} (hitems : ∀ item ∈ items, item.index ≤ Index.limit) :
    Shows (bindings keyOf items) keyOf items := by
  induction items using List.reverseRecOn with
  | nil =>
    intro k i
    simp [bindings]
  | append_singleton items x ih =>
    have hx : x.index ≤ Index.limit := hitems x (by simp)
    have hold : ∀ item ∈ items, item.index ≤ Index.limit := fun item h =>
      hitems item (List.mem_append_left _ h)
    intro k i
    rw [bindings_append_singleton, ExtTreeMap.getElem?_insert, List.map_append, List.mem_append,
      List.map_singleton, List.mem_singleton]
    by_cases hk : keyOf x.index = k
    · -- No other item has this key.
      subst hk
      rw [if_pos (Std.compare_eq_eq_iff_eq.2 rfl), Option.some.injEq]
      constructor
      · intro hi
        subst hi
        exact ⟨rfl, Or.inr rfl⟩
      · intro h
        obtain ⟨heq, hmem⟩ := h
        rcases hmem with hmem | hsame
        · obtain ⟨item, hitem, rfl⟩ := List.mem_map.1 hmem
          exact hkeys hx (hold item hitem) heq
        · exact hsame.symm
    · rw [if_neg (mt Std.compare_eq_eq_iff_eq.1 hk), ih hold k i]
      constructor
      · intro h
        exact ⟨h.1, Or.inl h.2⟩
      · intro h
        obtain ⟨rfl, hmem⟩ := h
        rcases hmem with hmem | rfl
        · exact ⟨rfl, hmem⟩
        · exact absurd rfl hk

end Bindings

/-! ## Showing items -/

namespace Stage

variable {σ κ α : Type} [Ord κ] [Std.TransOrd κ]

/-- One round of the loop that shows items, which collects their keys. -/
def showNext (S : Surface σ κ α) (x : ExtTreeMap κ Nat × Stage σ κ α) (item : PlacedItem α) :
    ExtTreeMap κ Nat × Stage σ κ α :=
  showItem S x.1 x.2 item

/-- The loop, and the targets that are given up after it. -/
theorem reconcile_eq (S : Surface σ κ α) (f : Stage σ κ α) {items : List (PlacedItem α)}
    {next : ExtTreeMap κ Nat} {g : Stage σ κ α}
    (h : items.foldl (showNext S) (∅, f) = (next, g)) :
    f.reconcile S items = g.presenter.targets.keys.foldl (releaseKey S)
      { g with presenter := { g.presenter with targets := next } } := by
  have hloop : f.reconcile S items =
      let x := items.foldl (showNext S) (∅, f)
      x.2.presenter.targets.keys.foldl (releaseKey S)
        { x.2 with presenter := { x.2.presenter with targets := x.1 } } := rfl
  rw [hloop, h]

variable [Std.LawfulEqOrd κ]

/-- Showing an item takes its key from the targets at hand, and may mark it. -/
theorem showItem_presenter (S : Surface σ κ α) (next : ExtTreeMap κ Nat) (f : Stage σ κ α)
    (item : PlacedItem α) :
    (showItem S next f item).1 = next.insert (f.presenter.keyOf item.index) item.index ∧
      ∃ resized, (showItem S next f item).2.presenter = { f.presenter with
          targets := f.presenter.targets.erase (f.presenter.keyOf item.index), resized } ∧
        ∀ k ∈ resized, k ∈ f.presenter.resized ∨ k = f.presenter.keyOf item.index := by
  refine ⟨rfl, ?_⟩
  simp only [showItem]
  split
  · exact ⟨f.presenter.resized, rfl, fun k hk => Or.inl hk⟩
  · split
    · exact ⟨f.presenter.resized, rfl, fun k hk => Or.inl hk⟩
    · refine ⟨_, rfl, fun k hk => ?_⟩
      rcases ExtTreeSet.mem_insert.1 hk with heq | hold
      · exact Or.inr (Std.compare_eq_eq_iff_eq.1 heq).symm
      · exact Or.inl hold

/-- Showing items binds their keys, and leaves the targets of all other keys over. -/
theorem foldl_showNext (S : Surface σ κ α) (f : Stage σ κ α) (items : List (PlacedItem α)) :
    ∃ g targets resized,
      items.foldl (showNext S) (∅, f) =
        (bindings f.presenter.keyOf items, g) ∧
      g.presenter = { f.presenter with targets, resized } ∧
      (∀ k, k ∈ targets ↔ k ∈ f.presenter.targets ∧ k ∉ bindings f.presenter.keyOf items) ∧
      ∀ k ∈ resized, k ∈ f.presenter.resized ∨ k ∈ bindings f.presenter.keyOf items := by
  -- Items are shown in order, so the last one is shown after all others.
  induction items using List.reverseRecOn with
  | nil =>
    refine ⟨f, f.presenter.targets, f.presenter.resized, rfl, rfl, fun k => ?_,
      fun k hk => Or.inl hk⟩
    simp [bindings]
  | append_singleton items x ih =>
    obtain ⟨g, targets, resized, hfold, hg, htargets, hresized⟩ := ih
    obtain ⟨hnext, marked, hpresenter, hmarked⟩ :=
      showItem_presenter S (bindings f.presenter.keyOf items) g x
    rw [List.foldl_append, hfold]
    have hkey : g.presenter.keyOf = f.presenter.keyOf := by rw [hg]
    rw [hkey] at hnext hpresenter hmarked
    rw [bindings_append_singleton]
    refine ⟨(showItem S (bindings f.presenter.keyOf items) g x).2,
      targets.erase (f.presenter.keyOf x.index), marked, ?_, ?_, fun k => ?_, fun k hk => ?_⟩
    · rw [List.foldl_cons, List.foldl_nil, showNext, ← hnext]
    · rw [hpresenter, hg]
    · rw [ExtTreeMap.mem_erase, htargets, ExtTreeMap.mem_insert, Std.compare_eq_eq_iff_eq]
      simp only [ne_eq, Std.compare_eq_eq_iff_eq, not_or]
      tauto
    · rw [ExtTreeMap.mem_insert, Std.compare_eq_eq_iff_eq]
      rcases hmarked k hk with hold | heq
      · rw [hg] at hold
        rcases hresized k hold with h | h
        · exact Or.inl h
        · exact Or.inr (Or.inr h)
      · exact Or.inr (Or.inl heq.symm)

/-- Giving up targets takes the marks off them. -/
theorem foldl_releaseKey (S : Surface σ κ α) (f : Stage σ κ α) (keys : List κ) :
    ∃ resized, (keys.foldl (releaseKey S) f).presenter = { f.presenter with resized } ∧
      ∀ k, k ∈ resized ↔ k ∈ f.presenter.resized ∧ k ∉ keys := by
  induction keys generalizing f with
  | nil => exact ⟨f.presenter.resized, rfl, fun k => by simp⟩
  | cons key rest ih =>
    obtain ⟨resized, heq, hresized⟩ := ih (releaseKey S f key)
    refine ⟨resized, heq, fun k => ?_⟩
    rw [hresized k]
    show k ∈ f.presenter.resized.erase key ∧ k ∉ rest ↔ _
    rw [ExtTreeSet.mem_erase, List.mem_cons]
    simp only [ne_eq, Std.compare_eq_eq_iff_eq, not_or, eq_comm (a := k)]
    tauto

/-- Showing items changes the targets and the marks, and nothing else.  If only bound keys were
marked, only bound keys are. -/
theorem reconcile_presenter (S : Surface σ κ α) (f : Stage σ κ α) (items : List (PlacedItem α)) :
    ∃ resized, (f.reconcile S items).presenter = { f.presenter with
        targets := bindings f.presenter.keyOf items, resized } ∧
      ((∀ k ∈ f.presenter.resized, k ∈ f.presenter.targets) →
        ∀ k ∈ resized, k ∈ bindings f.presenter.keyOf items) := by
  obtain ⟨g, targets, marked, hfold, hg, htargets, hmarked⟩ := foldl_showNext S f items
  obtain ⟨resized, heq, hresized⟩ := foldl_releaseKey S
    { g with presenter := { g.presenter with targets := bindings f.presenter.keyOf items } }
    g.presenter.targets.keys
  -- The targets that are left over are those of keys that are not shown.
  have hgt : g.presenter.targets = targets := by rw [hg]
  have hgr : g.presenter.resized = marked := by rw [hg]
  simp only [hgr, hgt, ExtTreeMap.mem_keys] at hresized
  refine ⟨resized, ?_, fun hbound k hk => ?_⟩
  · rw [reconcile_eq S f hfold, heq, hg]
  · -- A mark that is left was on a key that is shown.
    obtain ⟨hk, hfree⟩ := (hresized k).1 hk
    rcases hmarked k hk with hold | hshown
    · by_contra hnot
      exact hfree ((htargets k).2 ⟨hbound k hold, hnot⟩)
    · exact hshown

end Stage

/-! ## The events of a pass -/

section Events

variable {κ α : Type} [Ord κ]

/-- Everything but the targets and their marks is as it was, up to where an eased scroll leads. -/
structure KeepsPlan (p p' : Presenter κ α) : Prop where
  layout : p'.layout = p.layout
  scheduler : p'.scheduler = p.scheduler
  keyOf : p'.keyOf = p.keyOf
  visible : p'.visible = p.visible
  smooth : p'.smooth.isSome = p.smooth.isSome

theorem KeepsPlan.refl (p : Presenter κ α) : KeepsPlan p p := ⟨rfl, rfl, rfl, rfl, rfl⟩

theorem KeepsPlan.trans {p p' p'' : Presenter κ α} (h : KeepsPlan p p') (h' : KeepsPlan p' p'') :
    KeepsPlan p p'' :=
  ⟨h'.layout.trans h.layout, h'.scheduler.trans h.scheduler, h'.keyOf.trans h.keyOf,
    h'.visible.trans h.visible, h'.smooth.trans h.smooth⟩

/-- Only bound keys are marked. -/
def MarksBound (p : Presenter κ α) [Std.TransOrd κ] : Prop := ∀ k ∈ p.resized, k ∈ p.targets

variable [Scalar α]

/-- A pass places its own items, and if it places none the window is as before. -/
theorem events_itemsPlaced (before after : Layout α) (remeasure : Bool) (moved : α) :
    (∀ items, .itemsPlaced items ∈ Layout.events before after remeasure moved →
      items = after.published) ∧
    ((∀ items, .itemsPlaced items ∉ Layout.events before after remeasure moved) →
      (after.published != before.published) = false) := by
  -- Among the events of a pass there is at most one that places items.
  have hmem (items : List (PlacedItem α)) :
      .itemsPlaced items ∈ Layout.events before after remeasure moved ↔
        (after.published != before.published) = true ∧ items = after.published := by
    simp [Layout.mem_events]
  constructor
  · intro items hitems
    exact ((hmem items).1 hitems).2
  · intro hnone
    by_contra hne
    exact hnone after.published ((hmem _).2 ⟨by simpa using hne, rfl⟩)

end Events

namespace Stage

variable {σ κ α : Type} [Ord κ] [Std.TransOrd κ] [Std.LawfulEqOrd κ]

theorem reconcile_keepsPlan (S : Surface σ κ α) (f : Stage σ κ α) (items : List (PlacedItem α)) :
    KeepsPlan f.presenter (f.reconcile S items).presenter := by
  obtain ⟨resized, heq, -⟩ := reconcile_presenter S f items
  rw [heq]
  exact ⟨rfl, rfl, rfl, rfl, rfl⟩

theorem reconcile_targets (S : Surface σ κ α) (f : Stage σ κ α) (items : List (PlacedItem α)) :
    (f.reconcile S items).presenter.targets = bindings f.presenter.keyOf items := by
  obtain ⟨resized, heq, -⟩ := reconcile_presenter S f items
  rw [heq]

theorem reconcile_marksBound (S : Surface σ κ α) {f : Stage σ κ α} (items : List (PlacedItem α))
    (h : MarksBound f.presenter) : MarksBound (f.reconcile S items).presenter := by
  obtain ⟨resized, heq, hmarks⟩ := reconcile_presenter S f items
  intro k hk
  rw [reconcile_targets]
  rw [heq] at hk
  exact hmarks h k hk

variable [Scalar α]

/-- An event shows items if it places them, and otherwise leaves the targets alone. -/
theorem deliver_presenter (S : Surface σ κ α) (f : Stage σ κ α) (event : LayoutEvent α) :
    KeepsPlan f.presenter (f.deliver S event).presenter ∧
      (MarksBound f.presenter → MarksBound (f.deliver S event).presenter) ∧
      (f.deliver S event).presenter.targets =
        match event with
        | .itemsPlaced items => bindings f.presenter.keyOf items
        | _ => f.presenter.targets := by
  cases event with
  | itemsPlaced items =>
    exact ⟨reconcile_keepsPlan S f items, reconcile_marksBound S items,
      reconcile_targets S f items⟩
  | windowChanged change => exact ⟨.refl _, id, rfl⟩
  | scrollSizeChanged size => exact ⟨.refl _, id, rfl⟩
  | scrollMoved distance =>
    exact ⟨⟨rfl, rfl, rfl, rfl, Option.isSome_map⟩, id, rfl⟩

theorem foldl_deliver_keepsPlan (S : Surface σ κ α) (f : Stage σ κ α)
    (events : List (LayoutEvent α)) :
    KeepsPlan f.presenter (events.foldl (deliver S) f).presenter :=
  List.foldlRecOn (motive := fun g : Stage σ κ α => KeepsPlan f.presenter g.presenter) events _
    (.refl _) fun g hg event _ => hg.trans (deliver_presenter S g event).1

theorem foldl_deliver_marksBound (S : Surface σ κ α) {f : Stage σ κ α}
    (events : List (LayoutEvent α)) (h : MarksBound f.presenter) :
    MarksBound (events.foldl (deliver S) f).presenter :=
  List.foldlRecOn (motive := fun g : Stage σ κ α => MarksBound g.presenter) events _ h
    fun g hg event _ => (deliver_presenter S g event).2.1 hg

/-- The events of a pass that places `items` show these items, or place none and leave the targets
alone. -/
theorem foldl_deliver_targets (S : Surface σ κ α) (f : Stage σ κ α)
    (events : List (LayoutEvent α)) {items : List (PlacedItem α)}
    (hitems : ∀ items', .itemsPlaced items' ∈ events → items' = items) :
    (events.foldl (deliver S) f).presenter.targets = bindings f.presenter.keyOf items ∨
      ((events.foldl (deliver S) f).presenter.targets = f.presenter.targets ∧
        ∀ items', .itemsPlaced items' ∉ events) := by
  induction events using List.reverseRecOn with
  | nil => exact Or.inr ⟨rfl, by simp⟩
  | append_singleton events event ih =>
    have htargets := ih fun items' h => hitems items' (by simp [h])
    have hplan := foldl_deliver_keepsPlan S f events
    obtain ⟨-, -, htargets'⟩ := deliver_presenter S (events.foldl (deliver S) f) event
    rw [List.foldl_append, List.foldl_cons, List.foldl_nil, htargets']
    cases event with
    | itemsPlaced items' =>
      -- The last event decides, and it places the items of the pass.
      rw [hitems items' (by simp)]
      simp only
      rw [hplan.keyOf]
      exact Or.inl rfl
    | _ =>
      rcases htargets with hshown | ⟨hsame, hnone⟩
      · exact Or.inl hshown
      · exact Or.inr ⟨hsame, fun items' h => by simp [hnone items'] at h⟩

end Stage

end VirtualList
