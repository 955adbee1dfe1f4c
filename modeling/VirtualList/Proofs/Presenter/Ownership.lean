import VirtualList.Proofs.ExtTreeMap
import VirtualList.Proofs.Layout.Course
import VirtualList.Proofs.Presenter.Wakefulness

/-!
# Targets are neither leaked nor released twice

A surface binds targets and gives them up only as it is told.  Replaying these calls gives the
targets that the presenter has, and no key is released that is not bound.  This holds for any key
functions: where keys collide, the same key is bound several times while items are shown, and is
released at most once.

Where the keys of a window do not collide, the report of a frame accounts for the change in the
number of targets.

## Key results

- `boundBy`, `ReleasesBound`: what the calls say
- `Owns`, `reconcile_owns`: showing items keeps the targets and the calls in step
- `Balances`, `reconcile_balances`: what the report of a frame counts
- `Traced.owns_targets`: both for every run
-/

namespace VirtualList

open Std (ExtTreeMap ExtTreeSet)

/-! ## What the calls say -/

section Calls

variable {κ α : Type} [Ord κ] [Std.TransOrd κ]

/-- The targets that calls leave bound, the latest call first: a key shows the item that it was
bound to last, until it is released. -/
def boundBy : List (SurfaceCall κ α) → ExtTreeMap κ Nat
  | [] => ∅
  | .bind key i :: calls => (boundBy calls).insert key i
  | .release key :: calls => (boundBy calls).erase key
  | _ :: calls => boundBy calls

/-- Only keys that are bound are released. -/
def ReleasesBound : List (SurfaceCall κ α) → Prop
  | [] => True
  | .release key :: calls => key ∈ boundBy calls ∧ ReleasesBound calls
  | _ :: calls => ReleasesBound calls

end Calls

/-! ## Showing items -/

namespace Stage

variable {σ κ α : Type} [Ord κ] [Std.TransOrd κ]

/-- The calls leave just the targets bound. -/
structure Owns (f : Stage (Recorded σ κ α) κ α) : Prop where
  targets : boundBy f.surface.calls = f.presenter.targets
  releases : ReleasesBound f.surface.calls

/-- While items are shown, what is bound are the keys that are shown already and the targets that
are left over. -/
structure Shares (next : ExtTreeMap κ Nat) (f : Stage (Recorded σ κ α) κ α) : Prop where
  bound : ∀ k : κ, (boundBy f.surface.calls)[k]? = next[k]?.or f.presenter.targets[k]?
  apart : ∀ k ∈ next, k ∉ f.presenter.targets
  releases : ReleasesBound f.surface.calls

variable {S : Surface σ κ α} {f : Stage (Recorded σ κ α) κ α}

theorem Owns.shares (h : f.Owns) : Shares ∅ f where
  bound k := by simp [h.targets]
  apart k hk := absurd hk ExtTreeMap.not_mem_empty
  releases := h.releases

variable [Std.LawfulEqOrd κ]

/-- Showing an item moves its key from the targets that are left over to those that are shown. -/
theorem Shares.showItem {next : ExtTreeMap κ Nat} (h : Shares next f) (S : Surface σ κ α)
    (item : PlacedItem α) :
    Shares (showItem S.recorded next f item).1 (showItem S.recorded next f item).2 := by
  obtain ⟨hnext, resized, hpresenter, -⟩ := showItem_presenter S.recorded next f item
  generalize hkey : f.presenter.keyOf item.index = key at hnext hpresenter
  -- The key is bound to the item, by a call or from before.
  have hcalls : ReleasesBound (Stage.showItem S.recorded next f item).2.surface.calls ∧
      ∀ k : κ, (boundBy (Stage.showItem S.recorded next f item).2.surface.calls)[k]? =
        if compare key k = .eq then some item.index else (boundBy f.surface.calls)[k]? := by
    have hbind : ReleasesBound (.bind key item.index :: f.surface.calls) ∧
        ∀ k : κ, (boundBy (.bind key item.index :: f.surface.calls))[k]? =
          if compare key k = .eq then some item.index else (boundBy f.surface.calls)[k]? :=
      ⟨h.releases, fun k => ExtTreeMap.getElem?_insert⟩
    simp only [Stage.showItem, hkey]
    split
    · exact hbind
    · rename_i old hshown
      split
      · -- The target shows the item already.
        rename_i hsame
        refine ⟨h.releases, fun k => ?_⟩
        show (boundBy f.surface.calls)[k]? = _
        split
        · rename_i hk
          obtain rfl : key = k := Std.LawfulEqCmp.eq_of_compare hk
          have hfree : key ∉ next := fun hmem => h.apart key hmem (by
            rw [ExtTreeMap.mem_iff_isSome_getElem?, hshown]
            rfl)
          rw [h.bound key, ExtTreeMap.getElem?_eq_none hfree, Option.none_or, hshown, hsame]
        · rfl
      · exact hbind
  constructor
  case releases => exact hcalls.1
  case bound =>
    intro k
    rw [hcalls.2 k, hnext, hpresenter, ExtTreeMap.getElem?_insert, ExtTreeMap.getElem?_erase]
    split
    · rfl
    · exact h.bound k
  case apart =>
    intro k hk
    rw [hnext, ExtTreeMap.mem_insert] at hk
    rw [hpresenter, ExtTreeMap.mem_erase]
    rintro ⟨hne, hleft⟩
    rcases hk with heq | hold
    · exact hne heq
    · exact h.apart k hold hleft

/-- Giving up targets that are bound leaves the others as they are. -/
theorem foldl_releaseKey_calls (S : Surface σ κ α) (keys : List κ) (hnodup : keys.Nodup)
    (hbound : ∀ k ∈ keys, k ∈ boundBy f.surface.calls) (hreleases : ReleasesBound f.surface.calls) :
    let g := keys.foldl (releaseKey S.recorded) f
    ReleasesBound g.surface.calls ∧ (∀ k ∈ keys, (boundBy g.surface.calls)[k]? = none) ∧
      ∀ k ∉ keys, (boundBy g.surface.calls)[k]? = (boundBy f.surface.calls)[k]? := by
  induction keys generalizing f with
  | nil => exact ⟨hreleases, by simp, fun _ _ => rfl⟩
  | cons key rest ih =>
    obtain ⟨hnew, hnodup⟩ := List.nodup_cons.1 hnodup
    obtain ⟨hkey, hrest⟩ := List.forall_mem_cons.1 hbound
    -- What is bound after the first release.
    have hafter : boundBy (releaseKey S.recorded f key).surface.calls =
        (boundBy f.surface.calls).erase key := rfl
    have hleft : ∀ k ∈ rest, k ∈ boundBy (releaseKey S.recorded f key).surface.calls := by
      intro k hk
      rw [hafter, ExtTreeMap.mem_erase]
      refine ⟨fun heq => hnew ?_, hrest k hk⟩
      rw [Std.LawfulEqCmp.eq_of_compare heq]
      exact hk
    obtain ⟨hends, hgone, hkept⟩ := ih hnodup hleft ⟨hkey, hreleases⟩
    refine ⟨hends, List.forall_mem_cons.2 ⟨?_, hgone⟩, fun k hk => ?_⟩
    · rw [List.foldl_cons, hkept key hnew, hafter, ExtTreeMap.getElem?_erase_self]
    · rw [List.mem_cons, not_or] at hk
      rw [List.foldl_cons, hkept k hk.2, hafter, ExtTreeMap.getElem?_erase,
        if_neg fun heq => hk.1 (Std.LawfulEqCmp.eq_of_compare heq).symm]

/-- In the loop that shows items, each key is either shown already or left over. -/
theorem foldl_showNext_shares (S : Surface σ κ α) (h : f.Owns) (items : List (PlacedItem α)) :
    Shares (items.foldl (showNext S.recorded) (∅, f)).1
      (items.foldl (showNext S.recorded) (∅, f)).2 :=
  List.foldlRecOn
    (motive := fun x : ExtTreeMap κ Nat × Stage (Recorded σ κ α) κ α => Shares x.1 x.2)
    items _ h.shares fun x hx item _ => hx.showItem S item

/-- Showing items keeps the targets and the calls in step, whatever the keys are. -/
theorem reconcile_owns (S : Surface σ κ α) (h : f.Owns) (items : List (PlacedItem α)) :
    (f.reconcile S.recorded items).Owns := by
  have hshares := foldl_showNext_shares S h items
  rcases hfold : items.foldl (showNext S.recorded) (∅, f) with ⟨next, g⟩
  rw [hfold] at hshares
  obtain ⟨hends, hgone, hkept⟩ := foldl_releaseKey_calls S
    (f := { g with presenter := { g.presenter with targets := next } })
    g.presenter.targets.keys ExtTreeMap.nodup_keys
    (fun k hk => by
      have hmem := ExtTreeMap.mem_keys.1 hk
      rw [ExtTreeMap.mem_iff_isSome_getElem?] at hmem ⊢
      rw [hshares.bound k, Option.isSome_or, hmem, Bool.or_true])
    hshares.releases
  have htargets : (f.reconcile S.recorded items).presenter.targets = next := by
    obtain ⟨resized, heq, -⟩ := foldl_releaseKey S.recorded
      { g with presenter := { g.presenter with targets := next } } g.presenter.targets.keys
    rw [reconcile_eq S.recorded f hfold, heq]
  rw [reconcile_eq S.recorded f hfold] at htargets ⊢
  refine ⟨ExtTreeMap.ext_getElem? fun k => ?_, hends⟩
  rw [htargets]
  by_cases hk : k ∈ g.presenter.targets
  · -- A key that is left over is not shown.
    have hfree : k ∉ next := fun hmem => hshares.apart k hmem hk
    rw [hgone k (ExtTreeMap.mem_keys.2 hk), ExtTreeMap.getElem?_eq_none hfree]
  · rw [hkept k (mt ExtTreeMap.mem_keys.1 hk), hshares.bound k, ExtTreeMap.getElem?_eq_none hk,
      Option.or_none]

/-! ## A frame -/

variable [Scalar α]

omit [Std.LawfulEqOrd κ] [Scalar α] in
/-- Announcements bind nothing. -/
theorem announceVisible_owns (S : Surface σ κ α) (h : f.Owns) :
    (f.announceVisible S.recorded).Owns := by
  unfold announceVisible
  split
  · exact h
  · exact ⟨h.targets, h.releases⟩

theorem deliver_owns (S : Surface σ κ α) (h : f.Owns) (event : LayoutEvent α) :
    (f.deliver S.recorded event).Owns := by
  cases event with
  | itemsPlaced items => exact reconcile_owns S h items
  | windowChanged | scrollSizeChanged | scrollMoved => exact ⟨h.targets, h.releases⟩

theorem showPass_owns (S : Surface σ κ α) (h : f.Owns) (reasons : Reasons)
    (events : List (LayoutEvent α)) : (f.showPass S.recorded reasons events).Owns := by
  have hevents : (events.foldl (deliver S.recorded) f).Owns :=
    List.foldlRecOn (motive := fun g : Stage (Recorded σ κ α) κ α => g.Owns) events _ h
      fun g hg event _ => deliver_owns S hg event
  unfold showPass
  split
  · exact reconcile_owns S hevents _
  · exact hevents

omit [Std.LawfulEqOrd κ] in
/-- Measuring binds nothing either. -/
theorem measureTarget_owns (S : Surface σ κ α) (h : f.Owns) (key : κ) (i : Nat) :
    (measureTarget S.recorded f key i).2.Owns := by
  obtain ⟨book, corrections, resized, heq⟩ :=
    (measureTarget_touches S.recorded f key i).presenter_eq
  have hsurface := measureTarget_surface S.recorded f key i
  constructor <;> rw [hsurface]
  · rw [heq]
    exact h.targets
  · exact h.releases

omit [Std.LawfulEqOrd κ] in
theorem measureTargets_owns (S : Surface σ κ α) (h : f.Owns) : (f.measureTargets S.recorded).Owns := by
  have hloop : ((unmeasured f.presenter).foldl (measureNext S.recorded) (false, f)).2.Owns :=
    List.foldlRecOn (motive := fun x : Bool × Stage (Recorded σ κ α) κ α => x.2.Owns)
      (unmeasured f.presenter) (measureNext S.recorded) h
      fun x hx target _ => measureTarget_owns S hx target.1 target.2
  rw [measureTargets_eq S.recorded f rfl]
  split
  · exact ⟨hloop.targets, hloop.releases⟩
  · exact hloop

theorem runPass_owns {g : Stage (Recorded σ κ α) κ α} {reasons : Reasons} (h : f.Owns)
    (hpass : f.runPass S.recorded reasons = .ok g) : g.Owns := by
  obtain ⟨pass, events, layout, -, rfl⟩ := runPass_eq_ok hpass
  have hwith : (f.withPass pass layout).Owns := ⟨h.targets, h.releases⟩
  have hmeasured := measureTargets_owns S (showPass_owns S hwith reasons events)
  rw [keepEasing]
  split
  · exact ⟨hmeasured.targets, hmeasured.releases⟩
  · exact hmeasured

end Stage

/-! ## What the report counts -/

namespace Stage

variable {σ κ α : Type} [Ord κ] [Std.TransOrd κ]

/-- From one stage of a frame to a later one, the targets that came and those that went are
counted. -/
def Balances (f g : Stage σ κ α) : Prop :=
  g.presenter.boundLength + g.report.released + f.report.bound =
    f.presenter.boundLength + f.report.released + g.report.bound

variable {S : Surface σ κ α} {f g : Stage σ κ α}

omit [Std.TransOrd κ] in
theorem Balances.of_eq (htargets : g.presenter.targets = f.presenter.targets)
    (hbound : g.report.bound = f.report.bound) (hreleased : g.report.released = f.report.released) :
    Balances f g := by
  simp only [Balances, Presenter.boundLength, htargets, hbound, hreleased]

omit [Std.TransOrd κ] in
theorem Balances.trans {h : Stage σ κ α} (hg : Balances f g) (hh : Balances g h) :
    Balances f h := by
  simp only [Balances] at *
  omega

variable [Std.LawfulEqOrd κ]

/-- An item with a key that is not shown yet takes a target that is left over, or is bound. -/
theorem showItem_counts (S : Surface σ κ α) {next : ExtTreeMap κ Nat} (f : Stage σ κ α)
    {item : PlacedItem α} (hfresh : f.presenter.keyOf item.index ∉ next) :
    let x := showItem S next f item
    x.1.size + x.2.presenter.targets.size + f.report.bound =
        next.size + f.presenter.targets.size + x.2.report.bound ∧
      x.2.report.released = f.report.released := by
  have hnext : (next.insert (f.presenter.keyOf item.index) item.index).size = next.size + 1 := by
    rw [ExtTreeMap.size_insert, if_neg (mt ExtTreeMap.contains_iff_mem.1 hfresh)]
  simp only [showItem]
  rw [hnext]
  split
  · rename_i hshown
    have hleft := ExtTreeMap.erase_eq_self hshown
    refine ⟨?_, rfl⟩
    show next.size + 1 + (f.presenter.targets.erase _).size + f.report.bound =
      next.size + f.presenter.targets.size + (f.report.bound + 1)
    rw [hleft]
    omega
  · rename_i old hshown
    have hlength := (ExtTreeMap.toList_perm_cons_erase hshown).length_eq
    rw [List.length_cons, ExtTreeMap.length_toList, ExtTreeMap.length_toList] at hlength
    have hcount : next.size + 1 +
        (f.presenter.targets.erase (f.presenter.keyOf item.index)).size + f.report.bound =
        next.size + f.presenter.targets.size + f.report.bound := by
      omega
    split <;> exact ⟨hcount, rfl⟩

theorem foldl_showNext_counts (S : Surface σ κ α) (f : Stage σ κ α) {items : List (PlacedItem α)}
    (hkeys : (items.map fun item => f.presenter.keyOf item.index).Nodup) :
    let x := items.foldl (showNext S) (∅, f)
    x.1.size + x.2.presenter.targets.size + f.report.bound =
        f.presenter.targets.size + x.2.report.bound ∧
      x.2.report.released = f.report.released := by
  induction items using List.reverseRecOn with
  | nil => simp
  | append_singleton items x ih =>
    rw [List.map_append, List.nodup_append] at hkeys
    obtain ⟨hold, -, hnew⟩ := hkeys
    obtain ⟨hcount, hreleased⟩ := ih hold
    obtain ⟨g, targets, resized, hfold, hg, -, -⟩ := foldl_showNext S f items
    rw [List.foldl_append, hfold]
    rw [hfold] at hcount hreleased
    have hkey : g.presenter.keyOf = f.presenter.keyOf := by rw [hg]
    have hfresh : g.presenter.keyOf x.index ∉ bindings f.presenter.keyOf items := by
      rw [hkey, mem_bindings]
      exact fun hmem => hnew _ hmem _ (by simp) rfl
    obtain ⟨hcount', hreleased'⟩ := showItem_counts S g hfresh
    simp only [List.foldl_cons, List.foldl_nil, showNext] at hcount hreleased ⊢
    exact ⟨by omega, hreleased'.trans hreleased⟩

omit [Std.LawfulEqOrd κ] in
/-- Every target that is given up is counted. -/
theorem foldl_releaseKey_counts (S : Surface σ κ α) (f : Stage σ κ α) (keys : List κ) :
    (keys.foldl (releaseKey S) f).report.bound = f.report.bound ∧
      (keys.foldl (releaseKey S) f).report.released = f.report.released + keys.length := by
  induction keys generalizing f with
  | nil => exact ⟨rfl, rfl⟩
  | cons key rest ih =>
    obtain ⟨hbound, hreleased⟩ := ih (releaseKey S f key)
    refine ⟨hbound, ?_⟩
    rw [List.foldl_cons, hreleased, List.length_cons]
    show f.report.released + 1 + rest.length = _
    omega

/-- Showing items whose keys do not collide counts every target that comes or goes. -/
theorem reconcile_balances (S : Surface σ κ α) (f : Stage σ κ α) {items : List (PlacedItem α)}
    (hkeys : (items.map fun item => f.presenter.keyOf item.index).Nodup) :
    Balances f (f.reconcile S items) := by
  rcases hfold : items.foldl (showNext S) (∅, f) with ⟨next, g⟩
  obtain ⟨hcount, hreleased⟩ := foldl_showNext_counts S f hkeys
  rw [hfold] at hcount hreleased
  obtain ⟨resized, hpresenter, -⟩ := foldl_releaseKey S
    { g with presenter := { g.presenter with targets := next } } g.presenter.targets.keys
  obtain ⟨hbound, hstale⟩ := foldl_releaseKey_counts S
    { g with presenter := { g.presenter with targets := next } } g.presenter.targets.keys
  rw [ExtTreeMap.length_keys] at hstale
  simp only [Balances, Presenter.boundLength]
  rw [reconcile_eq S f hfold, hpresenter, hbound, hstale]
  simp only at hcount hreleased ⊢
  omega

variable [Scalar α]

theorem deliver_balances (S : Surface σ κ α) (f : Stage σ κ α) {event : LayoutEvent α}
    (hkeys : ∀ items, .itemsPlaced items = event →
      (items.map fun item => f.presenter.keyOf item.index).Nodup) :
    Balances f (f.deliver S event) := by
  cases event with
  | itemsPlaced items => exact reconcile_balances S f (hkeys items rfl)
  | windowChanged | scrollSizeChanged | scrollMoved => exact .of_eq rfl rfl rfl

theorem foldl_deliver_balances (S : Surface σ κ α) (f : Stage σ κ α)
    {events : List (LayoutEvent α)} (hkeys : ∀ items, .itemsPlaced items ∈ events →
      (items.map fun item => f.presenter.keyOf item.index).Nodup) :
    Balances f (events.foldl (deliver S) f) := by
  induction events generalizing f with
  | nil => exact .of_eq rfl rfl rfl
  | cons event rest ih =>
    have hfirst : Balances f (f.deliver S event) :=
      deliver_balances S f fun items heq => hkeys items (by simp [heq])
    have hkey := (deliver_presenter S f event).1.keyOf
    refine hfirst.trans (ih _ fun items hmem => ?_)
    rw [hkey]
    exact hkeys items (List.mem_cons_of_mem _ hmem)

/-- Showing a pass, with its items shown once more if the data changed in place. -/
theorem showPass_balances (S : Surface σ κ α) (f : Stage σ κ α) (reasons : Reasons)
    {events : List (LayoutEvent α)}
    (hplaced : ∀ items, .itemsPlaced items ∈ events → items = f.presenter.layout.published)
    (hkeys : (f.presenter.layout.published.map fun item => f.presenter.keyOf item.index).Nodup) :
    Balances f (f.showPass S reasons events) := by
  have hevents := foldl_deliver_balances S f fun items hmem => by
    rw [hplaced items hmem]
    exact hkeys
  have hplan := foldl_deliver_keepsPlan S f events
  unfold showPass
  split
  · refine hevents.trans (reconcile_balances S _ ?_)
    rw [hplan.layout, hplan.keyOf]
    exact hkeys
  · exact hevents

omit [Std.LawfulEqOrd κ] in
theorem measureTarget_balances (S : Surface σ κ α) (f : Stage σ κ α) (key : κ) (i : Nat) :
    Balances f (measureTarget S f key i).2 := by
  unfold measureTarget
  split
  · exact .of_eq rfl rfl rfl
  · simp only
    split <;> exact .of_eq rfl rfl rfl

omit [Std.LawfulEqOrd κ] in
/-- No target comes or goes while the targets are measured. -/
theorem measureTargets_balances (S : Surface σ κ α) (f : Stage σ κ α) :
    Balances f (f.measureTargets S) := by
  have hloop : Balances f ((unmeasured f.presenter).foldl (measureNext S) (false, f)).2 :=
    List.foldlRecOn (motive := fun x : Bool × Stage σ κ α => Balances f x.2)
      (unmeasured f.presenter) (measureNext S) (.of_eq rfl rfl rfl)
      fun x hx target _ => hx.trans (measureTarget_balances S x.2 target.1 target.2)
  rw [measureTargets_eq S f rfl]
  split
  · exact hloop.trans (.of_eq rfl rfl rfl)
  · exact hloop

/-- A pass shows the window that it leaves, under the keys of before. -/
theorem runPass_balances {reasons : Reasons} (hpass : f.runPass S reasons = .ok g)
    (hkeys : (g.presenter.layout.published.map fun item =>
      g.presenter.keyOf item.index).Nodup) : Balances f g := by
  obtain ⟨pass, events, layout, hreflow, rfl⟩ := runPass_eq_ok hpass
  have hplan := showPass_keepsPlan S (f.withPass pass layout) reasons events
  -- Measuring leaves the window and the keys as they are.
  have hkept : ∀ f : Stage σ κ α, (f.measureTargets S).keepEasing.presenter.layout.published =
      f.presenter.layout.published ∧
      (f.measureTargets S).keepEasing.presenter.keyOf = f.presenter.keyOf := by
    intro f
    obtain ⟨g, htouches, hg⟩ := measureTargets_touches S f
    obtain ⟨book, corrections, resized, heq⟩ := htouches.presenter_eq
    rw [keepEasing]
    split <;> rcases hg with hg | hg <;> simp only [hg, heq, Presenter.invalidate, and_self]
  rw [(hkept _).1, (hkept _).2, hplan.layout, hplan.keyOf] at hkeys
  have hshown := showPass_balances S (f.withPass pass layout) reasons
    (reflow_itemsPlaced hreflow).1 hkeys
  have hmeasured := hshown.trans (measureTargets_balances S _)
  have hwith : Balances f (f.withPass pass layout) := .of_eq rfl rfl rfl
  rw [keepEasing]
  split
  · exact (hwith.trans hmeasured).trans (.of_eq rfl rfl rfl)
  · exact hwith.trans hmeasured

end Stage

/-! ## Runs -/

namespace Presenter

variable {κ α : Type} [Ord κ] [Std.TransOrd κ] [Scalar α] {p p' : Presenter κ α}

/-- Only frames bind and release targets. -/
theorem respond_targets {r : Request κ α} (hp : p.respond r = .ok p') : p'.targets = p.targets := by
  cases respond_effect hp with
  | viewport main cross =>
    rcases p.setViewport_cases main cross with heq | ⟨_, _, _, _, -, rfl, -, heq | ⟨-, -, heq⟩⟩ <;>
      exact congrArg (·.targets) heq
  | followed hfollow =>
    rcases followScroll_cases hfollow with ⟨-, rfl⟩ | ⟨_, rfl, -, rfl | rfl | ⟨_, _, -, -, rfl⟩⟩ <;>
      rfl
  | unchanged | total | items | keys | marked | pinned | eased | cancelled | forgotten | listening =>
    rfl

theorem advance_owns {σ : Type} {S : Surface σ κ α} {s s' : Recorded σ κ α} {now : Nat}
    (hp : p.advance S.recorded s now = .ok (p', s')) (htargets : boundBy s.calls = p.targets)
    (hreleases : ReleasesBound s.calls) :
    boundBy s'.calls = p'.targets ∧ ReleasesBound s'.calls := by
  rw [(advance_leaves hp).1]
  rcases advance_calls hp with heq | ⟨position, heq⟩ <;> rw [heq] <;> exact ⟨htargets, hreleases⟩

variable [Std.LawfulEqOrd κ]

theorem frame_owns {σ : Type} {S : Surface σ κ α} {s s' : Recorded σ κ α} {now : Nat}
    {report : FrameReport α} (hp : p.frame S.recorded s now = .ok (report, p', s'))
    (htargets : boundBy s.calls = p.targets) (hreleases : ReleasesBound s.calls) :
    boundBy s'.calls = p'.targets ∧ ReleasesBound s'.calls := by
  obtain ⟨p₁, s₁, hadvance, hp⟩ := frame_cases hp
  obtain ⟨htargets₁, hreleases₁⟩ := advance_owns hadvance htargets hreleases
  have hopening : (p₁.opening s₁).Owns := ⟨htargets₁, hreleases₁⟩
  have hannounced := Stage.announceVisible_owns S hopening
  rcases hp with ⟨-, -, rfl, rfl⟩ | ⟨-, ⟨-, hpass⟩ | ⟨-, hend⟩⟩
  · exact ⟨htargets₁, hreleases₁⟩
  · have hend := Stage.runPass_owns hannounced hpass
    exact ⟨hend.targets, hend.releases⟩
  · rw [hend] at hannounced
    exact ⟨hannounced.targets, hannounced.releases⟩

/-- Where the keys of the window do not collide, the report of a frame accounts for the change in the
number of targets. -/
theorem frame_boundLength {σ : Type} {S : Surface σ κ α} {s s' : σ} {now : Nat}
    {report : FrameReport α} (hp : p.frame S s now = .ok (report, p', s'))
    (hkeys : (p'.layout.published.map fun item => p'.keyOf item.index).Nodup) :
    p'.boundLength + report.released = p.boundLength + report.bound := by
  obtain ⟨p₁, s₁, hadvance, hp⟩ := frame_cases hp
  have hlength : p₁.boundLength = p.boundLength := by
    rw [boundLength, (advance_leaves hadvance).1, boundLength]
  rcases hp with ⟨-, rfl, rfl, -⟩ | ⟨-, hp⟩
  · rw [hlength]
    rfl
  have hannounced : Stage.Balances (p₁.opening s₁) ((p₁.opening s₁).announceVisible S) := by
    unfold Stage.announceVisible
    split <;> exact .of_eq rfl rfl rfl
  have hbalances : Stage.Balances (p₁.opening s₁) ⟨p', s', report⟩ := by
    rcases hp with ⟨-, hpass⟩ | ⟨-, hend⟩
    · exact hannounced.trans (Stage.runPass_balances hpass hkeys)
    · rw [← hend]
      exact hannounced
  simp only [Stage.Balances, opening, FrameReport.idle] at hbalances
  rw [← hlength]
  exact hbalances

omit [Std.LawfulEqOrd κ] in
/-- The presenters that runs lead to, with the calls that the surfaces have received so far, the
latest first.  Nothing is known of the keys. -/
inductive Traced : Presenter κ α → List (SurfaceCall κ α) → Prop
  | start {options : Options α} {keyOf : Nat → κ} {listening : Bool} {p : Presenter κ α} :
      ofOptions options keyOf listening = .ok p → Traced p []
  | input {p p' : Presenter κ α} {calls : List (SurfaceCall κ α)} {r : Request κ α} :
      Traced p calls → r.Admissible (fun _ => True) → p.respond r = .ok p' → Traced p' calls
  | frame {σ : Type} {S : Surface σ κ α} {p p' : Presenter κ α} {s s' : Recorded σ κ α} {now : Nat}
      {report : FrameReport α} :
      Traced p s.calls → p.frame S.recorded s now = .ok (report, p', s') → Traced p' s'.calls

/-- In every state of a run, on whatever surfaces and with whatever keys, the calls leave just the
targets bound, and have released only what was bound.  A frame reports how many targets came and
went, unless keys of its window collide. -/
theorem Traced.owns_targets {calls : List (SurfaceCall κ α)} (h : Traced p calls) :
    boundBy calls = p.targets ∧ ReleasesBound calls ∧
      ∀ {σ : Type} {S : Surface σ κ α} {s s' : σ} {now : Nat} {report : FrameReport α}
        {p' : Presenter κ α}, p.frame S s now = .ok (report, p', s') →
        (p'.layout.published.map fun item => p'.keyOf item.index).Nodup →
        (p'.boundLength : Int) = p.boundLength + report.bound - report.released := by
  have howns : boundBy calls = p.targets ∧ ReleasesBound calls := by
    induction h with
    | start hp =>
      obtain ⟨layout, -, hp⟩ := bind_eq_ok.1 hp
      cases hp
      exact ⟨rfl, trivial⟩
    | input _ _ hp ih =>
      rw [respond_targets hp]
      exact ih
    | frame _ hp ih => exact frame_owns hp ih.1 ih.2
  refine ⟨howns.1, howns.2, fun hp hkeys => ?_⟩
  have hcount := frame_boundLength hp hkeys
  omega

/-- Nine items, of which those in the window have two keys, then two others, and at last one key
each. -/
theorem Traced.owns_targets_of_collidingKeys : ∃ (p p' : Presenter Nat Rat)
    (calls : List (SurfaceCall Nat Rat)) (s s' : Nat) (report : FrameReport Rat),
    Traced p calls ∧ p.boundLength = 2 ∧ (calls.any fun call => call matches .release _) = true ∧
      boundBy calls = p.targets ∧ ReleasesBound calls ∧
      p.frame lateSurface s 32 = .ok (report, p', s') ∧
      (p'.layout.published.map fun item => p'.keyOf item.index).Nodup ∧
      report.bound = 2 ∧ report.released = 1 ∧ p'.boundLength = 3 := by
  have htest : ((ofOptions (⟨10, 5, 0, .vertical, true, 1⟩ : Options Rat) (· % 2) true).toOption.any
      fun p => (((p.setTotal 9).setViewport 20 30).2.frame lateSurface.recorded
        ⟨0, []⟩ 0).toOption.any fun x => ((x.2.1.setKeyOf (· / 2 + 1)).frame lateSurface.recorded
          x.2.2 16).toOption.any fun y => y.2.1.boundLength == 2 &&
            ((y.2.2.calls.any fun call => call matches .release _) &&
              ((y.2.1.setKeyOf (· + 2)).frame lateSurface y.2.2.surface 32).toOption.any fun z =>
                decide ((z.2.1.layout.published.map fun item => z.2.1.keyOf item.index).Nodup) &&
                  (z.1.bound == 2 && z.1.released == 1))) = true := by
    decide +kernel
  obtain ⟨p₀, hstart, htest⟩ := exists_ok_of_any htest
  obtain ⟨⟨report₁, p₁, s₁⟩, hfirst, htest⟩ := exists_ok_of_any htest
  obtain ⟨⟨report₂, p₂, s₂⟩, hsecond, htest⟩ := exists_ok_of_any htest
  rw [Bool.and_eq_true, Bool.and_eq_true, beq_iff_eq] at htest
  obtain ⟨hlength, hreleased, htest⟩ := htest
  obtain ⟨⟨report, p', s'⟩, hthird, htest⟩ := exists_ok_of_any htest
  simp only [Bool.and_eq_true, decide_eq_true_eq, beq_iff_eq] at htest
  obtain ⟨hkeys, hbound, hgone⟩ := htest
  have hfits : 9 ≤ Index.limit := by decide
  have hinputs := ((Traced.start hstart).input (r := .setTotal 9) hfits rfl).input
    (r := .setViewport 20 30) trivial rfl
  have hrekeyed := (hinputs.frame (s := ⟨0, []⟩) hfirst).input (r := .setKeyOf (· / 2 + 1)) trivial rfl
  have htraced := (hrekeyed.frame hsecond).input (r := .setKeyOf (· + 2)) trivial rfl
  obtain ⟨htargets, hreleases, hcounts⟩ := htraced.owns_targets
  have hcount := hcounts hthird hkeys
  have hlength' : (p₂.setKeyOf (· + 2)).boundLength = 2 := hlength
  rw [hbound, hgone, hlength'] at hcount
  exact ⟨_, p', _, s₂.surface, s', report, htraced, hlength', hreleased, htargets, hreleases,
    hthird, hkeys, hbound, hgone, by omega⟩

end Presenter

end VirtualList
