import VirtualList.Proofs.Layout.Remeasuring
import VirtualList.Proofs.Presenter.Wakefulness
import VirtualList.Surface.Simulated

/-!
# The order of measuring does not matter

A frame measures its targets one after the other, in the order of their keys; a presenter that keeps
them in a hash table does so in no particular order.  Every item has one target at most, whatever the
keys are, so on a surface whose answers do not depend on the order any other order records the same
measurements.  In exact arithmetic the layout then conducts itself the same from there on.

This file is about one frame and its layout.  What any order of walking the targets means for the
whole presenter, frame after frame, is in `VirtualList.Proofs.Presenter.WalkOrder`.

## Key results

- `Stage.measureAlong`, `Presenter.frameAlong`: a frame that measures in another order
- `readings`, `foldl_measureNext_layout`: measuring targets records what can be read off them
- `Reachable.showsWindow`: with whatever keys, the targets show items of the window, each one once
- `Reachable.lastMeasurements_decide`: neither repeated measurements nor their order leave a trace
-/

namespace VirtualList

open Std (ExtTreeMap)

/-- Associations with distinct keys are looked up alike in any order. -/
theorem lookup_eq_of_perm {β : Type} {xs ys : List (Nat × β)} (h : xs.Perm ys)
    (hnodup : (xs.map Prod.fst).Nodup) (k : Nat) : ys.lookup k = xs.lookup k := by
  induction h with
  | nil => rfl
  | @cons x xs ys h ih =>
    obtain ⟨i, b⟩ := x
    rw [List.map_cons, List.nodup_cons] at hnodup
    rw [List.lookup_cons, List.lookup_cons, ih hnodup.2]
  | swap x y xs =>
    obtain ⟨i, b⟩ := x
    obtain ⟨j, c⟩ := y
    have hne : j ≠ i := by
      intro heq
      simp [heq] at hnodup
    simp only [List.lookup_cons]
    by_cases hk : k = i
    · subst hk
      simp [beq_false_of_ne hne.symm]
    · simp [beq_false_of_ne hk]
  | trans h h' ih ih' => exact (ih' ((h.map Prod.fst).nodup_iff.1 hnodup)).trans (ih hnodup)

/-- What a surface measures does not depend on what it measured before. -/
def Surface.MeasuresSteadily {σ κ α : Type} (S : Surface σ κ α) : Prop :=
  ∀ (s : σ) (before key : κ), (S.measure key (S.measure before s).2).1 = (S.measure key s).1

/-! ## Frames in another order -/

section Along

variable {σ κ α : Type} [Ord κ] [Std.TransOrd κ] [Scalar α]

namespace Stage

/-- Measures the targets of `walk`, in this order. -/
def measureAlong (S : Surface σ κ α) (f : Stage σ κ α) (walk : List (κ × Nat)) : Stage σ κ α :=
  let (touched, f) := walk.foldl (measureNext S) (false, f)
  if touched || decide (0 < f.report.deferred) then
    { f with presenter := f.presenter.invalidate .measurement }
  else
    f

/-- Runs a pass, shows its items and measures, the targets in the order that `order` puts them
in. -/
def runPassAlong (order : List (κ × Nat) → List (κ × Nat)) (S : Surface σ κ α) (f : Stage σ κ α)
    (reasons : Reasons) : Except Fault (Stage σ κ α) := do
  let (pass, events, layout) ← f.presenter.layout.reflow
  let f := (f.withPass pass layout).showPass S reasons events
  return (f.measureAlong S (order (unmeasured f.presenter))).keepEasing

end Stage

/-- Runs one frame, with the targets measured in the order that `order` puts them in. -/
def Presenter.frameAlong (order : List (κ × Nat) → List (κ × Nat)) (S : Surface σ κ α)
    (p : Presenter κ α) (s : σ) (now : Nat) :
    Except Fault (FrameReport α × Presenter κ α × σ) := do
  let (p, s) ← p.advance S s now
  match p.scheduler.begin with
  | (none, scheduler) => return (.idle, { p with scheduler }, s)
  | (some reasons, scheduler) =>
    let f : Stage σ κ α :=
      ⟨{ p with scheduler }, s, { FrameReport.idle with reasons := some reasons }⟩
    let f := f.announceVisible S
    let f ← if reasons.needsPass then f.runPassAlong order S reasons else pure f
    return (f.report, f.presenter, f.surface)

/-- A frame measures in the order of the keys. -/
theorem Presenter.frameAlong_id (S : Surface σ κ α) (p : Presenter κ α) (s : σ) (now : Nat) :
    p.frameAlong id S s now = p.frame S s now := rfl

end Along

/-! ## What is recorded -/

section Readings

variable {σ κ α : Type} [Scalar α]

/-- What measuring the targets `walk` records where their keys answer `answer`.  Measurements that
are not valid are refused. -/
def readings (answer : κ → Option (Measurement α)) (walk : List (κ × Nat)) :
    List (Nat × Measurement α) :=
  walk.filterMap fun x => ((answer x.1).filter (·.isValid)).map fun m => (x.2, m)

theorem mem_readings {answer : κ → Option (Measurement α)} {walk : List (κ × Nat)}
    {p : Nat × Measurement α} (h : p ∈ readings answer walk) :
    p.1 ∈ walk.map Prod.snd ∧ p.2.isValid = true := by
  obtain ⟨x, hx, hp⟩ := List.mem_filterMap.1 h
  obtain ⟨m, hm, rfl⟩ := Option.map_eq_some_iff.1 hp
  exact ⟨List.mem_map_of_mem hx, (Option.filter_eq_some_iff.1 hm).2⟩

/-- An item with one target is read once. -/
theorem nodup_readings (answer : κ → Option (Measurement α)) {walk : List (κ × Nat)}
    (h : (walk.map Prod.snd).Nodup) : ((readings answer walk).map Prod.fst).Nodup := by
  refine h.sublist ?_
  rw [readings, List.map_filterMap]
  induction walk with
  | nil => exact .slnil
  | cons x rest ih =>
    rw [List.map_cons, List.filterMap_cons]
    rw [List.map_cons, List.nodup_cons] at h
    cases (answer x.1).filter (·.isValid) with
    | none => exact (ih h.2).cons x.2
    | some m => exact (ih h.2).cons_cons x.2

variable [Ord κ] [Std.TransOrd κ]

/-- A target that can be read has its measurement recorded. -/
theorem Stage.measureTarget_layout (S : Surface σ κ α) (f : Stage σ κ α) (key : κ) (i : Nat) :
    (measureTarget S f key i).2.presenter.layout =
      match (S.measure key f.surface).1 with
      | none => f.presenter.layout
      | some m => (f.presenter.layout.record i m).2 := by
  unfold measureTarget
  rcases S.measure key f.surface with ⟨_ | m, s⟩
  · rfl
  · simp only
    rcases f.presenter.layout.record i m with ⟨_ | _, layout⟩ <;> rfl

/-- Measuring the targets of a steady surface records what can be read off them. -/
theorem Stage.foldl_measureNext_layout {S : Surface σ κ α} (hS : S.MeasuresSteadily)
    {answer : κ → Option (Measurement α)} {f : Stage σ κ α}
    (hanswer : ∀ key, (S.measure key f.surface).1 = answer key) {walk : List (κ × Nat)}
    (hwalk : ∀ x ∈ walk, x.2 < f.presenter.layout.total) (touched : Bool) :
    (walk.foldl (measureNext S) (touched, f)).2.presenter.layout =
      (f.presenter.layout.recordAll (readings answer walk)).2 := by
  induction walk generalizing touched f with
  | nil => rfl
  | cons x rest ih =>
    obtain ⟨key, i⟩ := x
    obtain ⟨hi, hrest⟩ := List.forall_mem_cons.1 hwalk
    have hsurface := measureTarget_surface S f key i
    have hlayout := measureTarget_layout S f key i
    rcases hmeasure : measureTarget S f key i with ⟨called, g⟩
    rw [hmeasure, hanswer] at hlayout
    rw [hmeasure] at hsurface
    have hnext (k : κ) : (S.measure k g.surface).1 = answer k := by
      rw [hsurface, hS, hanswer]
    rw [List.foldl_cons, measureNext_eq hmeasure]
    simp only [readings, List.filterMap_cons] at ih ⊢
    cases hm : answer key with
    | none =>
      rw [hm] at hlayout
      simp only at hlayout
      rw [← hlayout] at hrest ⊢
      exact ih hnext hrest _
    | some m =>
      rw [hm] at hlayout
      simp only at hlayout
      cases hvalid : m.isValid with
      | false =>
        -- What is refused leaves the layout as it is.
        obtain ⟨e, hrecord⟩ := Layout.record_refused (l := f.presenter.layout) (i := i) (m := m)
          (by simp [hvalid])
        rw [hrecord] at hlayout
        simp only at hlayout
        rw [← hlayout] at hrest ⊢
        simp only [Option.filter_some, hvalid, Bool.false_eq_true, if_false, Option.map_none]
        exact ih hnext hrest _
      | true =>
        obtain ⟨called', corrections, hrecord, -⟩ := Layout.record_eq_ok hi hvalid
        rw [hrecord] at hlayout
        simp only at hlayout
        have htotal : g.presenter.layout.total = f.presenter.layout.total := by rw [hlayout]
        rw [← htotal] at hrest
        simp only [Option.filter_some, hvalid, if_true, Option.map_some, Layout.recordAll, hrecord]
        rw [← hlayout]
        exact ih hnext hrest _

end Readings

/-! ## The targets of a run -/

namespace Presenter

variable {κ : Type} [Ord κ] [Std.TransOrd κ] {p p' : Presenter κ Rat}

/-- The targets show items of the window, under the keys that these had when they were shown. -/
structure ShowsWindow (p : Presenter κ Rat) : Prop where
  layout : p.layout.Reachable
  targets : ∃ keyOf, p.targets = bindings keyOf p.layout.published

/-- Inputs leave what is shown as it is, new keys included. -/
theorem ShowsWindow.respond {r : Request κ Rat} (h : p.ShowsWindow)
    (hr : r.Admissible fun _ => True) (hp : p.respond r = .ok p') : p'.ShowsWindow := by
  obtain ⟨hlayout, keyOf, htargets⟩ := h
  have hkept (hr : r.Admissible DistinctKeys) : p'.ShowsWindow := by
    have hkeeps := respond_keepsAwake hr hp
    exact ⟨hkeeps.reachable hlayout, keyOf, by rw [hkeeps.targets, hkeeps.published, htargets]⟩
  cases r with
  | setKeyOf =>
    cases hp
    exact ⟨hlayout, keyOf, htargets⟩
  | setTotal => exact hkept hr
  | itemsChanged | setViewport | followScroll | itemResized | scrollToIndex | smoothScrollToIndex
  | cancelAnimation | reset | listen => exact hkept trivial

end Presenter

namespace Stage

open Presenter (ShowsWindow)

variable {σ κ : Type} [Ord κ] [Std.TransOrd κ] [Std.LawfulEqOrd κ]

/-- The pass of a frame has its items shown. -/
theorem showPass_showsWindow (S : Surface σ κ Rat) {f : Stage σ κ Rat} (h : f.presenter.ShowsWindow)
    {pass : PassReport Rat} {events : List (LayoutEvent Rat)} {layout : Layout Rat}
    (hreflow : f.presenter.layout.reflow = .ok (pass, events, layout)) (reasons : Reasons) :
    ((f.withPass pass layout).showPass S reasons events).presenter.ShowsWindow ∧
      ((f.withPass pass layout).showPass S reasons events).presenter.layout = layout := by
  obtain ⟨hlayout, keyOf, htargets⟩ := h
  have hplan := showPass_keepsPlan S (f.withPass pass layout) reasons events
  have hsame : ((f.withPass pass layout).showPass S reasons events).presenter.layout = layout :=
    hplan.layout
  refine ⟨⟨by rw [hsame]; exact hlayout.reflow hreflow, ?_⟩, hsame⟩
  rw [hsame]
  -- The events place the items of the pass, or none, and then none lies elsewhere.
  obtain ⟨hplaced, hnone⟩ := reflow_itemsPlaced hreflow
  have hdelivered := foldl_deliver_keepsPlan S (f.withPass pass layout) events
  unfold showPass
  split
  · rw [reconcile_targets, hdelivered.layout]
    exact ⟨_, rfl⟩
  · rcases foldl_deliver_targets S (f.withPass pass layout) events hplaced with hshown | ⟨hold, hfree⟩
    · exact ⟨_, hshown⟩
    · rw [hold]
      refine ⟨keyOf, htargets.trans ?_⟩
      have hequal := hnone hfree
      rw [bne_eq_false_iff_eq] at hequal
      rw [hequal]

omit [Std.LawfulEqOrd κ] in
theorem Touches.showsWindow {f g : Stage σ κ Rat} (h : Touches f g)
    (hf : f.presenter.ShowsWindow) : g.presenter.ShowsWindow := by
  obtain ⟨hlayout, keyOf, htargets⟩ := hf
  refine ⟨h.reachable hlayout, keyOf, ?_⟩
  obtain ⟨book, corrections, resized, heq⟩ := h.presenter_eq
  rw [heq]
  exact htargets

theorem runPass_showsWindow {S : Surface σ κ Rat} {f g : Stage σ κ Rat} {reasons : Reasons}
    (h : f.presenter.ShowsWindow) (hpass : f.runPass S reasons = .ok g) :
    g.presenter.ShowsWindow := by
  obtain ⟨pass, events, layout, hreflow, rfl⟩ := runPass_eq_ok hpass
  obtain ⟨hshown, -⟩ := showPass_showsWindow S h hreflow reasons
  obtain ⟨g, htouches, hg⟩ :=
    measureTargets_touches S ((f.withPass pass layout).showPass S reasons events)
  have hend := htouches.showsWindow hshown
  -- Asking for another frame changes nothing that is shown.
  have hmeasured : (((f.withPass pass layout).showPass S reasons events).measureTargets
      S).presenter.ShowsWindow := by
    rcases hg with hg | hg <;> rw [hg] <;> exact ⟨hend.layout, hend.targets⟩
  rw [keepEasing]
  split
  · exact ⟨hmeasured.layout, hmeasured.targets⟩
  · exact hmeasured

end Stage

namespace Presenter

variable {κ : Type} [Ord κ] [Std.TransOrd κ] [Std.LawfulEqOrd κ] {p p' : Presenter κ Rat}

omit [Std.LawfulEqOrd κ] in
theorem ShowsWindow.advance {σ : Type} {S : Surface σ κ Rat} {s s' : σ} {now : Nat}
    (h : p.ShowsWindow) (hp : p.advance S s now = .ok (p', s')) : p'.ShowsWindow := by
  obtain ⟨hlayout, keyOf, htargets⟩ := h
  have hkeeps := advance_keepsAwake hp
  exact ⟨hkeeps.reachable hlayout, keyOf, by rw [hkeeps.targets, hkeeps.published, htargets]⟩

omit [Std.LawfulEqOrd κ] in
theorem ShowsWindow.announced {σ : Type} (h : p.ShowsWindow) (S : Surface σ κ Rat) (s : σ) :
    ((p.opening s).announceVisible S).presenter.ShowsWindow := by
  rw [Stage.announceVisible_presenter S (p.opening s)]
  exact ⟨h.layout, h.targets⟩

theorem ShowsWindow.frame {σ : Type} {S : Surface σ κ Rat} {s s' : σ} {now : Nat}
    {report : FrameReport Rat} (h : p.ShowsWindow) (hp : p.frame S s now = .ok (report, p', s')) :
    p'.ShowsWindow := by
  obtain ⟨p₁, s₁, hadvance, hp⟩ := frame_cases hp
  have hp₁ := h.advance hadvance
  have hopen := hp₁.announced S s₁
  rcases hp with ⟨-, -, rfl, -⟩ | ⟨-, ⟨-, hpass⟩ | ⟨-, hend⟩⟩
  · exact hp₁
  · exact Stage.runPass_showsWindow hopen hpass
  · rw [hend] at hopen
    exact hopen

/-- In every state of a run the targets show items of the window. -/
theorem Reachable.showsWindow (h : Reachable (fun _ => True) (fun _ => True) p) :
    p.ShowsWindow := by
  induction h with
  | @start options keyOf listening p _ hp =>
    obtain ⟨layout, hlayout, hp⟩ := bind_eq_ok.1 hp
    cases hp
    have hinitial : layout.Reachable := .start hlayout
    obtain ⟨u, -, hlayout⟩ := bind_eq_ok.1 hlayout
    cases hlayout
    exact ⟨hinitial, keyOf, rfl⟩
  | input _ hr hp ih => exact ih.respond hr hp
  | frame _ _ hp ih => exact ih.frame hp

end Presenter

/-! ## Another order -/

namespace Stage

open Presenter (ShowsWindow)

variable {σ κ : Type} [Ord κ] [Std.TransOrd κ] [Std.LawfulEqOrd κ]

omit [Std.LawfulEqOrd κ] in
/-- No key has two targets. -/
theorem nodup_keys_unmeasured (p : Presenter κ Rat) : ((unmeasured p).map Prod.fst).Nodup := by
  refine List.Nodup.sublist (List.filter_sublist.map Prod.fst) ?_
  rw [ExtTreeMap.map_fst_toList_eq_keys]
  exact ExtTreeMap.nodup_keys

/-- The targets to be measured show items of the window, each item once. -/
theorem unmeasured_items {p : Presenter κ Rat} (h : p.ShowsWindow) :
    ((unmeasured p).map Prod.snd).Nodup ∧
      ∀ x ∈ unmeasured p, x.2 ∈ p.layout.published.map PlacedItem.index := by
  obtain ⟨-, keyOf, htargets⟩ := h
  have hmem : ∀ x ∈ unmeasured p, x.1 = keyOf x.2 ∧ x.2 ∈ p.layout.published.map PlacedItem.index := by
    intro x hx
    have hx := (mem_unmeasured.1 hx).1
    rw [htargets] at hx
    exact of_bindings hx
  refine ⟨?_, fun x hx => (hmem x hx).2⟩
  -- An item determines its key, and no key has two targets.
  have hkeys := nodup_keys_unmeasured p
  have heq : (unmeasured p).map Prod.fst = ((unmeasured p).map Prod.snd).map keyOf := by
    rw [List.map_map]
    exact List.map_congr_left fun x hx => (hmem x hx).1
  rw [heq] at hkeys
  exact hkeys.of_map

/-- Right after a pass, every item that a target shows is noted in the book. -/
theorem noted_of_mem_unmeasured {p : Presenter κ Rat} (h : p.ShowsWindow) {l : Layout Rat}
    {report : PassReport Rat} {events : List (LayoutEvent Rat)}
    (hreflow : l.reflow = .ok (report, events, p.layout)) {x : κ × Nat} (hx : x ∈ unmeasured p) :
    p.layout.Noted x.2 := by
  have hmem := (unmeasured_items h).2 x hx
  obtain ⟨item, hitem, heq⟩ := List.mem_map.1 hmem
  have hlt := (h.layout.consistent.index_lt (Layout.reflow_freshlyLaidOut hreflow) hitem).1
  rw [heq] at hlt
  exact ⟨hlt, Layout.reflow_noted hreflow hmem⟩

/-- Right after a pass, the targets may be measured in any order. -/
theorem foldl_measureNext_sameConduct {S : Surface σ κ Rat} (hS : S.MeasuresSteadily)
    {f : Stage σ κ Rat} (h : f.presenter.ShowsWindow) {l : Layout Rat} {report : PassReport Rat}
    {events : List (LayoutEvent Rat)}
    (hreflow : l.reflow = .ok (report, events, f.presenter.layout)) {walk : List (κ × Nat)}
    (hwalk : walk.Perm (unmeasured f.presenter)) :
    Layout.SameConduct ((unmeasured f.presenter).foldl (measureNext S) (false, f)).2.presenter.layout
      (walk.foldl (measureNext S) (false, f)).2.presenter.layout := by
  obtain ⟨hnodup, -⟩ := unmeasured_items h
  -- What is read off the targets, in any order, is a measurement of an item of the window.
  have hreadings {walk : List (κ × Nat)} (hwalk : walk.Perm (unmeasured f.presenter)) :
      ∀ p ∈ readings (fun key => (S.measure key f.surface).1) walk,
        p.1 < f.presenter.layout.total ∧ p.2.isValid = true ∧
          (f.presenter.layout.book.entry? p.1).isSome = true := by
    intro p hp
    obtain ⟨hmem, hvalid⟩ := mem_readings hp
    obtain ⟨x, hx, heq⟩ := List.mem_map.1 hmem
    obtain ⟨hlt, hentry⟩ := noted_of_mem_unmeasured h hreflow (hwalk.mem_iff.1 hx)
    rw [heq] at hlt hentry
    exact ⟨hlt, hvalid, hentry⟩
  have hlayout {walk : List (κ × Nat)} (hwalk : walk.Perm (unmeasured f.presenter)) :
      (walk.foldl (measureNext S) (false, f)).2.presenter.layout =
        (f.presenter.layout.recordAll
          (readings (fun key => (S.measure key f.surface).1) walk)).2 :=
    foldl_measureNext_layout hS (fun _ => rfl)
      (fun x hx => (noted_of_mem_unmeasured h hreflow (hwalk.mem_iff.1 hx)).lt) false
  rw [hlayout (.refl _), hlayout hwalk]
  refine (h.layout.recordAll_alike (fun p hp => ?_) (fun p hp => ?_) (fun p hp => ?_)
    fun i => ?_).sameConduct
  · obtain ⟨hlt, hvalid, -⟩ := hreadings (.refl _) p hp
    exact ⟨hlt, hvalid⟩
  · obtain ⟨hlt, hvalid, -⟩ := hreadings hwalk p hp
    exact ⟨hlt, hvalid⟩
  · rcases List.mem_append.1 hp with hp | hp
    · exact (hreadings (.refl _) p hp).2.2
    · exact (hreadings hwalk p hp).2.2
  · -- No item is read twice, so the order does not matter.
    refine lookup_eq_of_perm ?_ ?_ i
    · exact ((List.reverse_perm _).trans ((hwalk.symm.filterMap _).trans (List.reverse_perm _).symm))
    · rw [List.map_reverse, List.nodup_reverse]
      exact nodup_readings _ hnodup

omit [Std.LawfulEqOrd κ] in
theorem measureAlong_layout (S : Surface σ κ Rat) (f : Stage σ κ Rat) (walk : List (κ × Nat)) :
    (f.measureAlong S walk).keepEasing.presenter.layout =
      (walk.foldl (measureNext S) (false, f)).2.presenter.layout := by
  unfold measureAlong keepEasing
  rcases walk.foldl (measureNext S) (false, f) with ⟨touched, g⟩
  simp only
  split <;> split <;> rfl

/-- A pass with its targets measured in another order. -/
theorem runPassAlong_sameConduct {S : Surface σ κ Rat} (hS : S.MeasuresSteadily)
    {order : List (κ × Nat) → List (κ × Nat)} (horder : ∀ xs, (order xs).Perm xs)
    {f g : Stage σ κ Rat} (h : f.presenter.ShowsWindow) {reasons : Reasons}
    (hpass : f.runPass S reasons = .ok g) : ∃ g', f.runPassAlong order S reasons = .ok g' ∧
      Layout.SameConduct g.presenter.layout g'.presenter.layout := by
  obtain ⟨pass, events, layout, hreflow, rfl⟩ := runPass_eq_ok hpass
  obtain ⟨hshown, hlayout⟩ := showPass_showsWindow S h hreflow reasons
  refine ⟨_, bind_eq_ok.2 ⟨_, hreflow, rfl⟩, ?_⟩
  have hmeasure : ((f.withPass pass layout).showPass S reasons events).measureTargets S =
      ((f.withPass pass layout).showPass S reasons events).measureAlong S
        (unmeasured ((f.withPass pass layout).showPass S reasons events).presenter) := rfl
  rw [hmeasure, measureAlong_layout, measureAlong_layout]
  rw [← hlayout] at hreflow
  exact foldl_measureNext_sameConduct hS hshown hreflow (horder _)

end Stage

namespace Presenter

variable {κ : Type} [Ord κ] [Std.TransOrd κ] [Std.LawfulEqOrd κ] {p p' : Presenter κ Rat}

/-- A frame with its targets measured in another order. -/
theorem ShowsWindow.frameAlong {σ : Type} {S : Surface σ κ Rat} (hS : S.MeasuresSteadily)
    {order : List (κ × Nat) → List (κ × Nat)} (horder : ∀ xs, (order xs).Perm xs) {s s' : σ}
    {now : Nat} {report : FrameReport Rat} (h : p.ShowsWindow)
    (hp : p.frame S s now = .ok (report, p', s')) :
    ∃ report' q t, p.frameAlong order S s now = .ok (report', q, t) ∧
      Layout.SameConduct p'.layout q.layout := by
  obtain ⟨p₁, s₁, hadvance, hp⟩ := frame_cases hp
  have hopen := (h.advance hadvance).announced S s₁
  simp only [Presenter.frameAlong, hadvance]
  rcases hp with ⟨hidle, -, rfl, -⟩ | ⟨hpending, hp⟩
  · have hbegin : p'.scheduler.begin = (none, p'.scheduler) := by
      simp only [Scheduler.begin, hidle]
    exact ⟨_, _, _, bind_eq_ok.2 ⟨_, rfl, by simp only [hbegin]; rfl⟩, .refl _⟩
  · have hbegin : p₁.scheduler.begin = (some p₁.scheduler.pending,
        { p₁.scheduler with state := .idle, pending := .none }) := by
      simp only [Scheduler.begin, hpending]
    rcases hp with ⟨hneeds, hpass⟩ | ⟨hnone, hend⟩
    · obtain ⟨g, hpass', hsame⟩ := Stage.runPassAlong_sameConduct hS horder hopen hpass
      refine ⟨g.report, g.presenter, g.surface, bind_eq_ok.2 ⟨_, rfl, ?_⟩, hsame⟩
      simp only [hbegin, hneeds, if_true]
      exact bind_eq_ok.2 ⟨g, hpass', rfl⟩
    · -- Without a pass nothing is measured.
      refine ⟨report, p', s', bind_eq_ok.2 ⟨_, rfl, ?_⟩, .refl _⟩
      simp only [hbegin, hnone, Bool.false_eq_true, if_false]
      refine bind_eq_ok.2 ⟨_, rfl, ?_⟩
      exact congrArg (fun f : Stage σ κ Rat => Except.ok (f.report, f.presenter, f.surface)) hend

/-- In exact arithmetic the last measurements of the items decide.  After a pass with a window, lists
of valid measurements of items of the window that agree on the last one of each are accepted, and
lead to layouts that cannot be told apart.  So it does not matter in what order a frame of a run
measures its targets, as long as this does not change what they measure. -/
theorem Reachable.lastMeasurements_decide {l₀ l : Layout Rat} {pass : PassReport Rat}
    {events : List (LayoutEvent Rat)} {r : WindowRange} {ms ms' : List (Nat × Measurement Rat)}
    (hl : l₀.Reachable) (hpass : l₀.reflow = .ok (pass, events, l)) (hr : l.range = some r)
    (hms : ∀ m ∈ ms, r.contains m.1 = true ∧ m.2.isValid = true)
    (hms' : ∀ m ∈ ms', r.contains m.1 = true ∧ m.2.isValid = true)
    (hlast : ∀ i, ms'.reverse.lookup i = ms.reverse.lookup i)
    {σ : Type} {S : Surface σ κ Rat} {order : List (κ × Nat) → List (κ × Nat)} {s s' : σ}
    {now : Nat} {report : FrameReport Rat} (hp : Reachable (fun _ => True) (fun _ => True) p)
    (hS : S.MeasuresSteadily) (horder : ∀ targets, (order targets).Perm targets)
    (hframe : p.frame S s now = .ok (report, p', s')) :
    ((∃ called, (l.recordAll ms).1 = .ok called) ∧ (∃ called, (l.recordAll ms').1 = .ok called) ∧
      Layout.SameConduct (l.recordAll ms).2 (l.recordAll ms').2) ∧
    ∃ report' q t, p.frameAlong order S s now = .ok (report', q, t) ∧
      Layout.SameConduct p'.layout q.layout := by
  refine ⟨?_, hp.showsWindow.frameAlong hS horder hframe⟩
  have hnext := hl.reflow hpass
  -- The items of the window are those that were placed.
  have hitem {i : Nat} (hi : r.contains i = true) : i < l.total ∧
      (l.book.entry? i).isSome = true := by
    have hlt := (Layout.reflow_freshlyLaidOut hpass).last_lt r hr
    have hmem : i ∈ l.published.map PlacedItem.index := by
      rw [hnext.consistent.published_eq r hr, WindowRange.indices, List.mem_range'_1]
      simp only [WindowRange.contains, decide_eq_true_eq] at hi
      omega
    simp only [WindowRange.contains, decide_eq_true_eq] at hi
    exact ⟨by omega, Layout.reflow_noted hpass hmem⟩
  have hwithin {ms : List (Nat × Measurement Rat)}
      (hms : ∀ m ∈ ms, r.contains m.1 = true ∧ m.2.isValid = true) :
      ∀ m ∈ ms, m.1 < l.total ∧ m.2.isValid = true :=
    fun m hm => ⟨(hitem (hms m hm).1).1, (hms m hm).2⟩
  obtain ⟨called, corrections, hrecord⟩ := Layout.recordAll_eq_ok (hwithin hms)
  obtain ⟨called', corrections', hrecord'⟩ := Layout.recordAll_eq_ok (hwithin hms')
  refine ⟨⟨called, by rw [hrecord]⟩, ⟨called', by rw [hrecord']⟩, ?_⟩
  refine (hnext.recordAll_alike (hwithin hms) (hwithin hms') (fun m hm => ?_) hlast).sameConduct
  rcases List.mem_append.1 hm with hm | hm
  · exact (hitem (hms m hm).1).2
  · exact (hitem (hms' m hm).1).2

/-- Two items of a window are measured, one of them twice, in two ways.  Where keys collide, two targets
are measured in the order of their keys, and in the reverse order. -/
theorem Reachable.lastMeasurements_decide_of_repetition : ∃ (l₀ l : Layout Rat)
    (ms ms' : List (Nat × Measurement Rat)) (p p' q : Presenter Nat Rat)
    (s s' t : Simulated Nat Rat) (report report' : FrameReport Rat),
    l₀.Reachable ∧ (∃ pass events, l₀.reflow = .ok (pass, events, l)) ∧ l.range.isSome = true ∧
      ms.length < ms'.length ∧ Layout.SameConduct (l.recordAll ms).2 (l.recordAll ms').2 ∧
      Reachable (fun _ => True) (fun _ => True) p ∧
      p.frame Simulated.surface s 0 = .ok (report, p', s') ∧ report.measured = 2 ∧
      p.frameAlong List.reverse Simulated.surface s 0 = .ok (report', q, t) ∧
      Layout.SameConduct p'.layout q.layout := by
  let options : Options Rat := ⟨10, 5, 0, .vertical, true, 1⟩
  let ms : List (Nat × Measurement Rat) := [(0, ⟨20, none, ⟨1, 2⟩⟩), (1, ⟨7, none, ⟨4, 0⟩⟩)]
  let ms' : List (Nat × Measurement Rat) :=
    [(1, ⟨7, none, ⟨4, 0⟩⟩), (0, ⟨12, some 3, ⟨0, 0⟩⟩), (0, ⟨20, none, ⟨1, 2⟩⟩)]
  let surface : Simulated Nat Rat := .blank ⟨⟨8, none, ⟨0, 0⟩⟩, some (4, 5), []⟩
  obtain ⟨l₀, l, pass, events, hl, hpass, hwindow⟩ := Layout.Reachable.exists_reflow_of_any options
    [.setTotal 9, .setViewport ⟨20, 30⟩]
    (fun _ l => l.range.any fun r =>
      (ms ++ ms').all fun m => r.contains m.1 && m.2.isValid) (by
      intro r hr
      simp only [List.mem_cons, List.not_mem_nil, or_false] at hr
      rcases hr with rfl | rfl
      · exact (by decide : 9 ≤ Index.limit)
      · trivial) (by decide +kernel)
  obtain ⟨r, hr, hwindow⟩ := (Option.any_eq_true _ _).1 hwindow
  simp only [List.all_eq_true, Bool.and_eq_true, List.forall_mem_append] at hwindow
  have hlast (i : Nat) : ms'.reverse.lookup i = ms.reverse.lookup i := by
    match i with
    | 0 => rfl
    | 1 => rfl
    | i + 2 => rfl
  -- The run of a presenter.
  have htest : ((ofOptions options (· % 2) true).toOption.any fun p =>
      (((p.setTotal 9).setViewport 20 30).2.frame Simulated.surface surface 0).toOption.any
        fun x => decide (x.1.measured = 2)) = true := by
    decide +kernel
  obtain ⟨p, hstart, htest⟩ := exists_ok_of_any htest
  obtain ⟨⟨report, p', s'⟩, hframe, hmeasured⟩ := exists_ok_of_any htest
  have hfits : 9 ≤ Index.limit := by decide
  have hinitial : Reachable (fun _ => True) (fun _ => True) p := .start trivial hstart
  have hp := (hinitial.input (r := .setTotal 9) hfits rfl).input
    (r := .setViewport 20 30) trivial rfl
  have hsteady : (Simulated.surface : Surface (Simulated Nat Rat) Nat Rat).MeasuresSteadily :=
    fun _ _ _ => rfl
  obtain ⟨⟨-, -, hsame⟩, report', q, t, hframe', hsame'⟩ :=
    hp.lastMeasurements_decide hl hpass hr hwindow.1 hwindow.2 hlast hsteady
      List.reverse_perm hframe
  exact ⟨l₀, l, ms, ms', _, p', q, surface, s', t, report, report', hl, ⟨pass, events, hpass⟩,
    by rw [hr]; rfl, by decide, hsame, hp, hframe, of_decide_eq_true hmeasured, hframe', hsame'⟩

end Presenter

end VirtualList
