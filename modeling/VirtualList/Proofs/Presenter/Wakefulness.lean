import VirtualList.Proofs.Layout.Stability
import VirtualList.Proofs.Presenter.Attendance
import VirtualList.Proofs.Presenter.Inputs
import VirtualList.Proofs.Same
import VirtualList.Proofs.Scalar

/-!
# A presenter does not fall asleep over its work

Frames keep a presenter awake: an unstable pass leaves an unmeasured item in the window, whose
target is then measured for the first time or left for the next frame, and both of these ask for
another frame.  So a presenter that asks for no frame has nothing left to do, but for an item that
it cannot bring into view because the viewport is empty.

Equality of scalars is taken to be symmetric and transitive, as it is for doubles.

## Key results

- `Due`, `due_opening`: a frame that begins, with all reasons handed out to it
- `JustShown`, `Measures.awake`: measuring the targets of a window asks for a frame, or
  nothing is left to do
- `Awake.frame`: every frame keeps a presenter awake
- `Reachable.awake`, `Reachable.no_lost_wakeup`: a presenter is awake in every state of a run
-/

namespace VirtualList.Presenter

variable {κ α : Type} [Ord κ] [Std.TransOrd κ] [Scalar α]

/-! ## Frames -/

/-- The targets show the window that a pass has just laid out.  The pass was stable if all items of
the window have been measured, and then it is done with a pinned item as far as there is room. -/
structure JustShown (p : Presenter κ α) : Prop extends p.InStep where
  shown : Shows p.targets p.keyOf p.layout.published
  within : ∀ item ∈ p.layout.published, item.index < p.layout.total ∧
    p.layout.range.any (·.contains item.index) = true
  stable_of : (∀ item ∈ p.layout.published, p.layout.book.isMeasured item.index = true) →
    p.layout.stable = true
  pin_of : p.layout.stable = true → p.layout.pin = none ∨
    ((p.layout.viewport.main == 0) = true ∧ 0 < p.layout.total)

/-- A target shows an item of the window. -/
theorem JustShown.exists_published {p : Presenter κ α} (h : p.JustShown) {k : κ} {i : Nat}
    (hi : p.targets[k]? = some i) : ∃ item ∈ p.layout.published, item.index = i :=
  List.mem_map.1 ((h.shown k i).1 hi).2

/-- The keys of the window do not collide. -/
theorem JustShown.nodup_keys {p : Presenter κ α} (h : p.JustShown) :
    (p.layout.published.map fun item => p.keyOf item.index).Nodup := by
  refine h.keys.nodup (fun item hitem => ?_) h.layout.consistent.nodup_index
  have hlt := (h.within item hitem).1
  have hle := h.layout.total_le
  omega

end VirtualList.Presenter

namespace VirtualList.Stage

open Presenter (JustShown)

variable {σ κ α : Type} [Ord κ] [Std.TransOrd κ] [Scalar α]

/-! ## Showing and measuring -/

omit [Std.TransOrd κ] [Scalar α] in
/-- Once the surface knows of the visible part, nothing is left to be announced. -/
theorem announceVisible_presenter (S : Surface σ κ α) (f : Stage σ κ α) :
    (f.announceVisible S).presenter = { f.presenter with visible := none } := by
  unfold announceVisible
  split
  · rename_i hnone
    rw [← hnone]
  · rfl

/-- All reasons have been handed out to a frame under way.  Unless they say that the data changed in
place, the targets show the window of the pass before. -/
structure Due (f : Stage σ κ α) (reasons : Reasons) : Prop where
  layout : f.presenter.layout.Reachable
  keys : DistinctKeys f.presenter.keyOf
  marks : MarksBound f.presenter
  handedOut : f.presenter.scheduler.pending = .none
  shows : reasons.contains .items = false →
    Shows f.presenter.targets f.presenter.keyOf f.presenter.layout.published

theorem due_opening (S : Surface σ κ α) {p : Presenter κ α} (h : p.InStep) (s : σ) :
    Due ((p.opening s).announceVisible S) p.scheduler.pending := by
  have hpresenter := announceVisible_presenter S (p.opening s)
  constructor <;> rw [hpresenter]
  · exact h.layout
  · exact h.keys
  · exact h.marks
  · rfl
  · exact h.shows

/-- Where no pass is called for, the frame leaves a presenter in step. -/
theorem Due.inStep {f : Stage σ κ α} {reasons : Reasons} (h : f.Due reasons)
    (hnone : reasons.needsPass = false) : f.presenter.InStep :=
  ⟨h.layout, h.keys, h.marks, fun _ => h.handedOut,
    fun _ => h.shows (Reasons.contains_items_eq_false hnone)⟩

/-- Whatever the surface measures, what is shown stays. -/
theorem Touches.keepsShown {f g : Stage σ κ α} (h : Touches f g) :
    Presenter.KeepsShown f.presenter g.presenter := by
  obtain ⟨book, corrections, resized, heq⟩ := h.presenter_eq
  have hmarks : MarksBound f.presenter → MarksBound g.presenter := fun hmarks k hk => by
    rw [heq]
    exact hmarks k (h.resized_sub k hk)
  have hreachable := h.reachable
  rw [heq] at hmarks hreachable ⊢
  have hkeeps : Presenter.KeepsShown f.presenter { f.presenter with
      layout := { f.presenter.layout with book, corrections } } :=
    .of_layout hreachable rfl rfl rfl rfl rfl
  exact { hkeeps with marks := hmarks }

variable [Std.LawfulEqOrd κ]

/-- A target is to be measured iff its item is unmeasured or its key is marked. -/
theorem mem_unmeasured {p : Presenter κ α} {k : κ} {i : Nat} : (k, i) ∈ unmeasured p ↔
    p.targets[k]? = some i ∧ (k ∈ p.resized ∨ p.layout.book.isMeasured i = false) := by
  rw [unmeasured, List.mem_filter, Std.ExtTreeMap.mem_toList_iff_getElem?_eq_some]
  simp only [Bool.or_eq_true, Std.ExtTreeSet.contains_iff_mem, Bool.not_eq_true']

/-- After the events of a pass the targets show its window, if they showed the window before or the
data changed in place. -/
theorem showPass_shows (S : Surface σ κ α) {f : Stage σ κ α} {reasons : Reasons}
    {events : List (LayoutEvent α)} {before : List (PlacedItem α)}
    (hkeys : DistinctKeys f.presenter.keyOf)
    (hshows : reasons.contains .items = false →
      Shows f.presenter.targets f.presenter.keyOf before)
    (hitems : ∀ item ∈ f.presenter.layout.published, item.index ≤ Index.limit)
    (hplaced : ∀ items, .itemsPlaced items ∈ events → items = f.presenter.layout.published)
    (hnone : (∀ items, .itemsPlaced items ∉ events) →
      (f.presenter.layout.published != before) = false) :
    Shows (f.showPass S reasons events).presenter.targets f.presenter.keyOf
      f.presenter.layout.published := by
  have hplan := foldl_deliver_keepsPlan S f events
  have htargets := foldl_deliver_targets S f events hplaced
  simp only [showPass]
  split
  · -- The items are shown once more.
    rw [reconcile_targets, hplan.layout, hplan.keyOf]
    exact shows_bindings hkeys hitems
  · -- The events are all there is.
    rename_i hskip
    rcases htargets with hshown | ⟨hsame, hfree⟩
    · rw [hshown]
      exact shows_bindings hkeys hitems
    · -- No item lies elsewhere, and the data did not change.
      have hany := placesItems_eq_false_iff.2 hfree
      rw [hany, Bool.not_false, Bool.true_and, Bool.not_eq_true] at hskip
      have hold := hshows hskip
      have hbeq := hnone hfree
      rw [bne, Bool.not_eq_false'] at hbeq
      rw [hsame]
      intro k i
      rw [map_index_eq_of_beq hbeq]
      exact hold k i

variable {f g : Stage σ κ α} {called : Bool}

/-- Only targets are measured, and only items of the list. -/
theorem unmeasured_within {p : Presenter κ α} (h : JustShown p) :
    ∀ x ∈ unmeasured p, x.1 ∈ p.targets ∧ x.2 < p.layout.total := by
  intro x hx
  have hi := (mem_unmeasured.1 hx).1
  obtain ⟨item, hitem, heq⟩ := h.exists_published hi
  rw [← heq, Std.ExtTreeMap.mem_iff_isSome_getElem?, hi]
  exact ⟨rfl, (h.within item hitem).1⟩

/-- If no target had to be left and no measurement called for a pass, the whole window had been
measured before: a first measurement of one of its items would have called. -/
theorem Measures.isMeasured (hg : Measures (unmeasured f.presenter) f g called)
    (h : JustShown f.presenter) (hcalled : called = false)
    (hnone : g.report.deferred = f.report.deferred) :
    ∀ item ∈ f.presenter.layout.published,
      f.presenter.layout.book.isMeasured item.index = true := by
  intro item hitem
  cases hm : f.presenter.layout.book.isMeasured item.index with
  | true => rfl
  | false =>
    have hbound := (h.shown (f.presenter.keyOf item.index) item.index).2
      ⟨rfl, List.mem_map_of_mem hitem⟩
    have hcall := hg.calls hnone hcalled _ (mem_unmeasured.2 ⟨hbound, Or.inr hm⟩)
      (h.within item hitem).2
    rw [hm] at hcall
    cases hcall

/-- If no target had to be left and no measurement called for a pass, nothing is left to do, unless
a scroll is eased. -/
theorem Measures.quiet (hg : Measures (unmeasured f.presenter) f g called)
    (h : JustShown f.presenter) (hcalled : called = false)
    (hnone : g.report.deferred = f.report.deferred) (hsmooth : g.presenter.smooth = none) :
    g.presenter.Quiet := by
  obtain ⟨book, corrections, resized, heq⟩ := hg.presenter_eq
  have htargets : g.presenter.targets = f.presenter.targets := by rw [heq]
  have hflag : g.presenter.layout.stable = f.presenter.layout.stable := by rw [heq]
  have hmeasured := hg.isMeasured h hcalled hnone
  have hstable := h.stable_of hmeasured
  refine ⟨?_, hsmooth, ?_, ?_, ?_⟩
  · rw [hflag]
    exact hstable
  · -- A marked key has a target, which was measured, and that took the mark off.
    rw [Std.ExtTreeSet.eq_empty_iff_forall_not_mem]
    intro k hk
    have hold := hg.resized_sub k hk
    have hbound := h.marks k hold
    rw [Std.ExtTreeMap.mem_iff_isSome_getElem?, Option.isSome_iff_exists] at hbound
    obtain ⟨i, hi⟩ := hbound
    exact hg.unmarked hnone _ (mem_unmeasured.2 ⟨hi, Or.inl hold⟩) hk
  · intro k i hi
    rw [htargets] at hi
    obtain ⟨item, hitem, rfl⟩ := h.exists_published hi
    exact hg.isMeasured_of _ (hmeasured item hitem)
  · have hwait := h.pin_of hstable
    rw [heq]
    exact hwait

/-- A presenter stays in step with its window while the targets are measured, and awake unless a
scroll is eased: if the measurements ask for no further frame, nothing is left to do. -/
theorem Measures.awake (hg : Measures (unmeasured f.presenter) f g called)
    (h : JustShown f.presenter) {S : Surface σ κ α}
    (hfold : (unmeasured f.presenter).foldl (measureNext S) (false, f) = (called, g)) :
    (f.measureTargets S).presenter.InStep ∧
      ((f.measureTargets S).presenter.smooth = none → (f.measureTargets S).presenter.Awake) := by
  have hstep := hg.keepsShown.inStep h.toInStep
  rw [measureTargets_eq S f hfold]
  split
  · -- A measurement called for a pass, or a target was left.
    have hawake := hstep.invalidate (r := .measurement) rfl
    exact ⟨hawake.toInStep, fun _ => hawake⟩
  · rename_i hquiet
    rw [Bool.or_eq_true, decide_eq_true_eq, not_or, Bool.not_eq_true] at hquiet
    obtain ⟨hcalled, hdeferred⟩ := hquiet
    have hle := hg.deferred_le
    have hnone : g.report.deferred = f.report.deferred := by omega
    exact ⟨hstep, fun hsmooth => ⟨hstep, fun _ => hg.quiet h hcalled hnone hsmooth⟩⟩

omit [Ord κ] [Std.TransOrd κ] [Std.LawfulEqOrd κ] in
/-- A pass of a layout places the items of its window, and if it places none the window is as
before. -/
theorem reflow_itemsPlaced {l l' : Layout α} {report : PassReport α}
    {events : List (LayoutEvent α)} (h : l.reflow = .ok (report, events, l')) :
    (∀ items, .itemsPlaced items ∈ events → items = l'.published) ∧
      ((∀ items, .itemsPlaced items ∉ events) → (l'.published != l.published) = false) := by
  obtain ⟨moved, after, -, -, rfl, rfl⟩ := Layout.reflow_cases h
  exact events_itemsPlaced l after after.remeasure moved

/-- After a pass and its events the targets show the window. -/
theorem justShown_of_reflow {S : Surface σ κ α} {f : Stage σ κ α} {reasons : Reasons}
    (h : f.Due reasons) {report : PassReport α} {events : List (LayoutEvent α)} {layout : Layout α}
    (hreflow : f.presenter.layout.reflow = .ok (report, events, layout)) :
    JustShown ((f.withPass report layout).showPass S reasons events).presenter := by
  have hnext := h.layout.reflow hreflow
  -- What the pass leaves behind.
  have hfresh := Layout.reflow_freshlyLaidOut hreflow
  have hwithin : ∀ item ∈ layout.published, item.index < layout.total ∧
      layout.range.any (·.contains item.index) = true :=
    fun item hitem => hnext.consistent.index_lt hfresh hitem
  have hrepresentable : ∀ item ∈ layout.published, item.index ≤ Index.limit := by
    intro item hitem
    have hlt := (hwithin item hitem).1
    have hle := hnext.total_le
    omega
  -- What its events show.
  obtain ⟨hplaced, hnone⟩ := reflow_itemsPlaced hreflow
  have hplan := showPass_keepsPlan S (f.withPass report layout) reasons events
  have hmarked := showPass_marksBound S (f := f.withPass report layout) reasons events h.marks
  have hshown := showPass_shows S (f := f.withPass report layout)
    h.keys h.shows hrepresentable hplaced hnone
  generalize showPass S _ reasons events = g at hplan hmarked hshown ⊢
  constructor
  case toInStep =>
    refine ⟨?_, ?_, hmarked, ?_, fun _ => ?_⟩
    · rw [hplan.layout]
      exact hnext
    · rw [hplan.keyOf]
      exact h.keys
    · rw [hplan.scheduler]
      exact fun _ => h.handedOut
    · rw [hplan.keyOf, hplan.layout]
      exact hshown
  case shown =>
    rw [hplan.keyOf, hplan.layout]
    exact hshown
  case within =>
    rw [hplan.layout]
    exact hwithin
  case stable_of =>
    rw [hplan.layout]
    exact (Layout.reflow_stable_iff h.layout hreflow).2
  case pin_of =>
    rw [hplan.layout]
    intro hstable
    show layout.pin = none ∨ ((layout.viewport.main == 0) = true ∧ 0 < layout.total)
    rcases Nat.eq_zero_or_pos layout.total with hzero | hpos
    · exact Or.inl (hfresh.pin_eq_of_empty hzero)
    · exact (hfresh.pin_eq hstable).imp_right fun hempty => ⟨hempty, hpos⟩

/-- A pass wakes a presenter. -/
theorem runPass_awake {S : Surface σ κ α} {bound : κ → σ → Prop} (hS : S.Tracks bound)
    {f g : Stage σ κ α} {reasons : Reasons} (hdue : f.Due reasons) (hbound : f.Bound bound)
    (h : f.runPass S reasons = .ok g) : g.presenter.Awake ∧ g.Bound bound := by
  obtain ⟨pass, events, layout, hreflow, rfl⟩ := runPass_eq_ok h
  have hshown := justShown_of_reflow (S := S) hdue hreflow
  have hbound' := showPass_bound hS (f := f.withPass pass layout) reasons events hbound
  obtain ⟨called, g, hfold, hg, hend, -⟩ :=
    foldl_measureNext hS _ false hbound' (unmeasured_within hshown)
  rw [Bool.false_or] at hfold
  have hmeasured := hg.awake hshown hfold
  have hend' : Bound bound (((f.withPass pass layout).showPass S reasons events).measureTargets S) := by
    rw [measureTargets_eq S _ hfold]
    split <;> exact hend
  rw [keepEasing]
  -- An eased scroll under way asks for another frame by itself.
  split
  · exact ⟨hmeasured.1.invalidate (r := .scroll) rfl, hend'⟩
  · rename_i hsmooth
    rw [Bool.not_eq_true, Option.isSome_eq_false_iff, Option.isNone_iff_eq_none] at hsmooth
    exact ⟨hmeasured.2 hsmooth, hend'⟩

end VirtualList.Stage

namespace VirtualList.Presenter

variable {κ α : Type} [Ord κ] [Std.TransOrd κ] [Std.LawfulEqOrd κ] [Scalar α]

omit [Std.LawfulEqOrd κ] in
/-- Without a pass nothing is lost: there was nothing to be done before, and the announcement adds
nothing. -/
theorem Awake.announced {σ : Type} {p : Presenter κ α} (h : p.Awake)
    (hnone : p.scheduler.pending.needsPass = false) (S : Surface σ κ α) (s : σ) :
    ((p.opening s).announceVisible S).presenter.Awake := by
  have hstep := (Stage.due_opening S h.toInStep s).inStep hnone
  rw [Stage.announceVisible_presenter S (p.opening s)] at hstep ⊢
  obtain ⟨hstable, hsmooth, hresized, hmeasured, hpin⟩ := h.quiet hnone
  exact ⟨hstep, fun _ => ⟨hstable, hsmooth, hresized, hmeasured, hpin⟩⟩

omit [Std.LawfulEqOrd κ] in
/-- An eased scroll leaves the targets bound. -/
theorem advance_bound {σ : Type} {S : Surface σ κ α} {bound : κ → σ → Prop} (hS : S.Tracks bound)
    {p p' : Presenter κ α} {s s' : σ} {now : Nat} (hbound : ∀ k ∈ p.targets, bound k s)
    (hp : p.advance S s now = .ok (p', s')) : ∀ k ∈ p'.targets, bound k s' := by
  rw [(advance_keepsAwake hp).targets]
  rcases advance_cases hp with ⟨-, -, rfl⟩ | ⟨smooth, -, hcases⟩
  · exact hbound
  rcases hcases with ⟨layout, -, -, rfl⟩ | ⟨tween, ⟨-, rfl⟩ | ⟨position, layout, -, -, -, rfl⟩⟩
  · exact hbound
  · exact hbound
  · exact fun k hk => hS.scrollTo _ _ (hbound k hk)

/-- Every frame keeps a presenter awake, and its targets bound. -/
theorem Awake.frame {σ : Type} {S : Surface σ κ α} {bound : κ → σ → Prop} (hS : S.Tracks bound)
    {p p' : Presenter κ α} {s s' : σ} {now : Nat} {report : FrameReport α} (h : p.Awake)
    (hbound : ∀ k ∈ p.targets, bound k s) (hp : p.frame S s now = .ok (report, p', s')) :
    p'.Awake ∧ ∀ k ∈ p'.targets, bound k s' := by
  obtain ⟨p₁, s₁, hadvance, hp⟩ := frame_cases hp
  have hp₁ := (advance_keepsAwake hadvance).awake h
  have hbound₁ := advance_bound hS hbound hadvance
  have hopen : ((p₁.opening s₁).announceVisible S).Bound bound :=
    Stage.announceVisible_bound hS hbound₁
  rcases hp with ⟨-, -, rfl, rfl⟩ | ⟨-, ⟨-, hpass⟩ | ⟨hnone, hend⟩⟩
  · -- No frame is due.
    exact ⟨hp₁, hbound₁⟩
  · exact Stage.runPass_awake hS (Stage.due_opening S hp₁.toInStep s₁) hopen hpass
  · have hawake := hp₁.announced hnone S s₁
    rw [hend] at hawake hopen
    exact ⟨hawake, hopen⟩

omit [Std.LawfulEqOrd κ] in
/-- At first there is nothing to do. -/
theorem awake_of_ofOptions {options : Options α} {keyOf : Nat → κ} {listening : Bool}
    {p : Presenter κ α} (hkeys : DistinctKeys keyOf)
    (hp : ofOptions options keyOf listening = .ok p) : p.Awake := by
  refine ⟨inStep_of_ofOptions hkeys hp, fun _ => ?_⟩
  obtain ⟨layout, hlayout, hp⟩ := bind_eq_ok.1 hp
  cases hp
  obtain ⟨u, -, hlayout⟩ := bind_eq_ok.1 hlayout
  cases hlayout
  exact ⟨rfl, rfl, rfl, fun k i h => by simp at h, Or.inl rfl⟩

/-- In every state of a run, a presenter has a reason for whatever is left to do. -/
theorem Reachable.awake [PartialEquivBEq α] {p : Presenter κ α}
    (h : Reachable DistinctKeys (fun m => m.isValid = true) p) : p.Awake := by
  induction h with
  | start hkeys hp => exact awake_of_ofOptions hkeys hp
  | input _ hr hp ih => exact (respond_keepsAwake hr hp).awake ih
  | frame _ hS hp ih => exact (ih.frame hS.tracks (fun _ _ => trivial) hp).1

/-- A quiet presenter is complete, but for an item that waits to be brought into view. -/
theorem Quiet.isComplete_unpin {p : Presenter κ α} (h : p.Quiet)
    (hidle : p.scheduler.isPending = false) :
    { p with layout := p.layout.unpin }.isComplete = true := by
  have hall : p.targets.values.all p.layout.book.isMeasured = true := by
    rw [List.all_eq_true]
    intro i hi
    rw [Std.ExtTreeMap.values_eq_map_snd_toList, List.mem_map] at hi
    obtain ⟨⟨k, j⟩, hmem, rfl⟩ := hi
    exact h.measured k j (Std.ExtTreeMap.mem_toList_iff_getElem?_eq_some.1 hmem)
  have hmarks : p.resized.isEmpty = true := by
    rw [h.resized]
    rfl
  simp only [isComplete, Layout.unpin, hidle, h.stable, h.smooth, hmarks]
  exact hall

/-- A presenter never falls asleep over its work: a frame has been asked for, or nothing is left to
do, or all that is left is an item to be brought into view for which there is no room, since the
viewport is empty. -/
theorem Reachable.no_lost_wakeup [PartialEquivBEq α] {p : Presenter κ α}
    (h : Reachable DistinctKeys (fun m => m.isValid = true) p) :
    p.scheduler.isPending = true ∨ p.isComplete = true ∨
      ((p.layout.viewport.main == 0) = true ∧ p.layout.pin.isSome = true ∧ 0 < p.layout.total ∧
        { p with layout := p.layout.unpin }.isComplete = true) := by
  have hawake := h.awake
  cases hidle : p.scheduler.isPending with
  | true => exact Or.inl rfl
  | false =>
    have hquiet := hawake.quiet (hawake.coherent.needsPass_eq_false hidle)
    have hrest := hquiet.isComplete_unpin hidle
    cases hpin : p.layout.pin with
    | none =>
      have hsame : p.layout.unpin = p.layout := by
        rw [Layout.unpin, ← hpin]
      rw [hsame] at hrest
      exact Or.inr (Or.inl hrest)
    | some pin =>
      rcases hquiet.pin with hunpinned | ⟨hempty, hitems⟩
      · rw [hpin] at hunpinned
        cases hunpinned
      · exact Or.inr (Or.inr ⟨hempty, rfl, hitems, hrest⟩)

/-- A surface whose targets all have one size, and are laid out after two of them were asked
for theirs. -/
def lateSurface : Surface Nat Nat Rat where
  bind _ _ s := s
  release _ s := s
  place _ _ s := s
  measure _ s := (if s < 2 then none else some ⟨10, none, ⟨0, 0⟩⟩, s + 1)
  setScrollSize _ s := s
  scrollTo _ s := s

/-- Three items on a surface that lays out its targets late. -/
theorem Reachable.no_lost_wakeup_of_lateSurface : ∃ p : Presenter Nat Rat,
    Reachable DistinctKeys (fun m => m.isValid = true) p ∧ p.boundLength = 3 ∧
      p.scheduler.isPending = false ∧ p.isComplete = true := by
  have hS : lateSurface.Answers fun m => m.isValid = true := by
    intro key s m hm
    simp only [lateSurface] at hm
    split at hm
    · cases hm
    · cases hm
      decide +kernel
  have htest : ((ofOptions (⟨10, 5, 0, .vertical, true, 1⟩ : Options Rat) id true).toOption.any
      fun p => (((p.setTotal 3).setViewport 20 30).2.run lateSurface 0 0 16 9).toOption.any
        fun x => x.2.1.boundLength == 3 && (!x.2.1.scheduler.isPending &&
          x.2.1.layout.pin.isNone)) = true := by
    decide +kernel
  obtain ⟨p₀, hstart, htest⟩ := exists_ok_of_any htest
  obtain ⟨⟨reports, p, s⟩, hrun, htest⟩ := exists_ok_of_any htest
  simp only [Bool.and_eq_true, beq_iff_eq, Bool.not_eq_true', Option.isNone_iff_eq_none] at htest
  obtain ⟨hbound, hidle, hpin⟩ := htest
  have hinitial : Reachable DistinctKeys (fun m => m.isValid = true) p₀ :=
    .start (Set.injOn_id _) hstart
  have hfits : 3 ≤ Index.limit := by decide
  have hinputs := (hinitial.input (r := .setTotal 3) hfits rfl).input
    (r := .setViewport 20 30) trivial rfl
  have hreachable := hinputs.run hS hrun
  refine ⟨p, hreachable, hbound, hidle, ?_⟩
  rcases hreachable.no_lost_wakeup with hpending | hcomplete | ⟨-, hpinned, -⟩
  · rw [hidle] at hpending
    cases hpending
  · exact hcomplete
  · rw [hpin] at hpinned
    cases hpinned

end VirtualList.Presenter
