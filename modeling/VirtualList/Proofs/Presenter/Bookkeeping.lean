import VirtualList.Proofs.Layout.ScrollTarget
import VirtualList.Proofs.Presenter.Convergence

/-!
# The bookkeeping of a presenter

Whatever a presenter has under way it has given as a reason for a frame: an eased scroll, a change
of the visible part that the surface has not been told about, and marks on targets.  Nothing has to
be known of the keys or of the surface for that: keys may collide and be replaced, and a surface may
answer anything.  So nothing is under way while no frame is asked for, and a frame that comes
nevertheless does nothing.

## Key results

- `Accounted`: what holds between two calls
- `respond_accounted`, `advance_accounted`, `frame_accounted`: inputs, eased scrolls and frames keep
  it
- `HandedOut`: what holds within a frame, whose reasons have been handed out
- `Reachable.accounted_and_idle_atRest`: the presenter of any run is accounted for, and at rest while
  it asks for no frame
-/

namespace VirtualList

namespace Presenter

variable {κ α : Type} [Ord κ]

/-- Whatever is under way has been given as a reason for a frame. -/
structure Accounted [Std.TransOrd κ] (p : Presenter κ α) : Prop where
  coherent : p.scheduler.Coherent
  /-- An eased scroll takes the place of a pinned item. -/
  eased : p.smooth.isSome = true →
    p.layout.pin = none ∧ p.scheduler.pending.contains .scroll = true
  untold : ∀ change, p.visible = some change →
    p.scheduler.pending.contains .visibleRange = true ∧ change.range = p.layout.range
  marks : MarksBound p
  marked : p.resized ≠ ∅ → p.scheduler.pending.contains .measurement = true

/-- Reasons that have been given are not lost. -/
theorem contains_invalidate {p : Presenter κ α} {r : Reasons}
    (h : p.scheduler.pending.contains r = true) (r' : Reasons) :
    (p.invalidate r').scheduler.pending.contains r = true := by
  rw [invalidate, Scheduler.pending_invalidate]
  exact Reasons.contains_union_left h r'

/-- A reason is given. -/
theorem contains_invalidate_self (p : Presenter κ α) (r : Reasons) :
    (p.invalidate r).scheduler.pending.contains r = true := by
  rw [invalidate, Scheduler.pending_invalidate]
  exact Reasons.contains_union_right _ r

variable [Std.TransOrd κ] {p p' : Presenter κ α}

namespace Accounted

theorem invalidate (h : p.Accounted) (r : Reasons) : (p.invalidate r).Accounted where
  coherent := h.coherent.invalidate r
  eased hsmooth := (h.eased hsmooth).imp_right fun hscroll => contains_invalidate hscroll r
  untold change hchange :=
    (h.untold change hchange).imp_left fun hvisible => contains_invalidate hvisible r
  marks := h.marks
  marked hresized := contains_invalidate (h.marked hresized) r

/-- Another layout with the same window. -/
theorem withLayout (h : p.Accounted) {layout : Layout α} {smooth : Option (SmoothScroll α)}
    (hrange : layout.range = p.layout.range)
    (heased : smooth.isSome = true →
      layout.pin = none ∧ p.scheduler.pending.contains .scroll = true) :
    { p with layout, smooth }.Accounted where
  coherent := h.coherent
  eased := heased
  untold change hchange := by
    rw [hrange]
    exact h.untold change hchange
  marks := h.marks
  marked := h.marked

/-- An eased scroll ends. -/
theorem unsmoothed (h : p.Accounted) {layout : Layout α} (hrange : layout.range = p.layout.range) :
    { p with layout, smooth := none }.Accounted :=
  h.withLayout hrange (by simp)

/-- An eased scroll goes on, and no item is pinned beside it. -/
theorem relaid (h : p.Accounted) {layout : Layout α} (hrange : layout.range = p.layout.range)
    (hpin : layout.pin = p.layout.pin) : { p with layout }.Accounted :=
  h.withLayout hrange fun hsmooth => by
    rw [hpin]
    exact h.eased hsmooth

/-- Only a key with a target is marked. -/
theorem mark (h : p.Accounted) {key : κ} (hkey : key ∈ p.targets) :
    ({ p with resized := p.resized.insert key }.invalidate .measurement).Accounted where
  coherent := h.coherent.invalidate _
  eased hsmooth := (h.eased hsmooth).imp_right fun hscroll => contains_invalidate hscroll _
  untold change hchange :=
    (h.untold change hchange).imp_left fun hvisible => contains_invalidate hvisible _
  marks k hk := by
    rcases Std.ExtTreeSet.mem_insert.1 hk with heq | hold
    · exact (Std.ExtTreeMap.mem_congr heq).1 hkey
    · exact h.marks k hold
  marked _ := contains_invalidate_self _ _

/-- A visible part that has moved is announced by the next frame. -/
theorem announce (h : p.Accounted) {change : WindowChange}
    (hrange : change.range = p.layout.range) :
    ({ p with visible := some change }.invalidate .visibleRange).Accounted where
  coherent := h.coherent.invalidate _
  eased hsmooth := (h.eased hsmooth).imp_right fun hscroll => contains_invalidate hscroll _
  untold change' hchange := by
    cases hchange
    exact ⟨contains_invalidate_self _ _, hrange⟩
  marks := h.marks
  marked hresized := contains_invalidate (h.marked hresized) _

/-- Without a reason for a pass nothing is eased and nothing is marked. -/
theorem smooth_eq_none (h : p.Accounted) (hnone : p.scheduler.pending.needsPass = false) :
    p.smooth = none := by
  cases hsmooth : p.smooth with
  | none => rfl
  | some smooth =>
    have hscroll := (h.eased (by rw [hsmooth]; rfl)).2
    rw [Reasons.needsPass_of_contains hscroll rfl] at hnone
    cases hnone

theorem resized_eq_empty (h : p.Accounted) (hnone : p.scheduler.pending.needsPass = false) :
    p.resized = ∅ := by
  by_contra hresized
  rw [Reasons.needsPass_of_contains (h.marked hresized) rfl] at hnone
  cases hnone

end Accounted

/-- Within a frame all reasons have been handed out, and the surface knows the visible part. -/
structure HandedOut (p : Presenter κ α) : Prop where
  coherent : p.scheduler.Coherent
  eased : p.smooth.isSome = true → p.layout.pin = none
  told : p.visible = none
  marks : MarksBound p

namespace HandedOut

theorem invalidate (h : p.HandedOut) (r : Reasons) : (p.invalidate r).HandedOut :=
  ⟨h.coherent.invalidate r, h.eased, h.told, h.marks⟩

/-- An eased scroll and marks are all that needs a reason. -/
theorem accounted (h : p.HandedOut)
    (hscroll : p.smooth.isSome = true → p.scheduler.pending.contains .scroll = true)
    (hmarked : p.resized ≠ ∅ → p.scheduler.pending.contains .measurement = true) :
    p.Accounted where
  coherent := h.coherent
  eased hsmooth := ⟨h.eased hsmooth, hscroll hsmooth⟩
  untold change hchange := by
    rw [h.told] at hchange
    cases hchange
  marks := h.marks
  marked := hmarked

end HandedOut

/-- A frame begins. -/
theorem Accounted.announced {σ : Type} (h : p.Accounted) (S : Surface σ κ α) (s : σ) :
    ((p.opening s).announceVisible S).presenter.HandedOut := by
  rw [Stage.announceVisible_presenter S (p.opening s)]
  exact ⟨fun _ => rfl, fun hsmooth => (h.eased hsmooth).1, rfl, h.marks⟩

/-! ## Inputs and eased scrolls -/

variable [Scalar α]

theorem followScroll_accounted {position : α} {answer : Except (InputError α) Unit}
    (h : p.Accounted) (hp : p.followScroll position = .ok (answer, p')) : p'.Accounted := by
  rcases followScroll_cases hp with ⟨-, rfl⟩ | ⟨layout, rfl, -, rfl | rfl | ⟨change, range, -, rfl, rfl⟩⟩
  · exact h.unsmoothed rfl
  · refine Accounted.invalidate ?_ .scroll
    exact h.unsmoothed rfl
  · exact h.unsmoothed rfl
  · -- What was untold before gives way to what is untold now.
    have htold : Accounted { p with
        layout := { p.layout with scrollPosition := position, pin := none, range }
        visible := none
        smooth := none } :=
      { h with eased := by simp, untold := by simp }
    exact htold.announce rfl

theorem respond_accounted {r : Request κ α} (h : p.Accounted) (hp : p.respond r = .ok p') :
    p'.Accounted := by
  cases respond_effect hp with
  | unchanged => exact h
  | total =>
    refine Accounted.invalidate ?_ .totalItems
    exact h.relaid rfl rfl
  | items => exact h.invalidate .items
  | keys keyOf =>
    have hkeyed : Accounted { p with keyOf } := { h with }
    exact hkeyed.invalidate .items
  | viewport main cross =>
    rcases p.setViewport_cases main cross with
      heq | ⟨book, corrections, remeasure, layout, -, rfl, -, heq | ⟨-, -, heq⟩⟩ <;> rw [heq]
    · exact h
    · refine Accounted.invalidate ?_ .viewport
      exact h.relaid rfl rfl
    · exact h.relaid rfl rfl
  | followed hfollow => exact followScroll_accounted h hfollow
  | marked hbound => exact h.mark hbound
  | pinned hpin =>
    obtain ⟨settled, -, rfl⟩ := Layout.pinTo_eq hpin
    refine Accounted.invalidate ?_ .scrollToIndex
    exact h.unsmoothed rfl
  | eased smooth =>
    -- The scroll is given as a reason as soon as it begins.
    exact (h.invalidate .scroll).withLayout rfl fun _ => ⟨rfl, contains_invalidate_self p .scroll⟩
  | cancelled => exact h.unsmoothed rfl
  | forgotten =>
    refine Accounted.invalidate ?_ .reset
    exact h.unsmoothed rfl
  | listening => exact { h with coherent := h.coherent }

/-- At its end an eased scroll gives way to a pinned item; until then it goes on. -/
theorem advance_accounted {σ : Type} {S : Surface σ κ α} {s s' : σ} {now : Nat} (h : p.Accounted)
    (hp : p.advance S s now = .ok (p', s')) : p'.Accounted := by
  rcases advance_cases hp with ⟨-, rfl, -⟩ | ⟨smooth, hsmooth, hcases⟩
  · exact h
  have hscroll := h.eased (by rw [hsmooth]; rfl)
  rcases hcases with ⟨layout, hpin, rfl, -⟩ | ⟨tween, ⟨rfl, -⟩ | ⟨position, layout, -, rfl, rfl, -⟩⟩
  · obtain ⟨settled, -, rfl⟩ := Layout.pinTo_eq hpin
    refine Accounted.invalidate ?_ .scrollToIndex
    exact h.unsmoothed rfl
  · exact h.withLayout rfl fun _ => hscroll
  · refine Accounted.invalidate ?_ .scroll
    exact h.withLayout rfl fun _ => ⟨rfl, hscroll.2⟩

end Presenter

/-! ## Frames -/

namespace Stage

open Presenter (HandedOut Accounted)

variable {σ κ α : Type} [Ord κ] [Std.TransOrd κ] [Std.LawfulEqOrd κ] [Scalar α]
  {S : Surface σ κ α} {f : Stage σ κ α}

/-- A pass pins no item, and neither do its events. -/
theorem showPass_handedOut (h : f.presenter.HandedOut) (reasons : Reasons) {pass : PassReport α}
    {events : List (LayoutEvent α)} {layout : Layout α}
    (hreflow : f.presenter.layout.reflow = .ok (pass, events, layout)) :
    ((f.withPass pass layout).showPass S reasons events).presenter.HandedOut := by
  have hplan := showPass_keepsPlan S (f.withPass pass layout) reasons events
  constructor
  case coherent =>
    rw [hplan.scheduler]
    exact h.coherent
  case eased =>
    rw [hplan.smooth, hplan.layout]
    intro hsmooth
    show layout.pin = none
    rw [Layout.reflow_pin hreflow]
    split
    · rfl
    · exact h.eased hsmooth
  case told =>
    rw [hplan.visible]
    exact h.told
  case marks =>
    exact showPass_marksBound S (f := f.withPass pass layout) reasons events h.marks

/-- Marks are taken off when the targets are measured.  Where one is left because its target is not
laid out yet, another frame is asked for. -/
theorem measureTargets_handedOut (S : Surface σ κ α) (h : f.presenter.HandedOut) :
    (f.measureTargets S).presenter.HandedOut ∧
      ((f.measureTargets S).presenter.resized ≠ ∅ →
        (f.measureTargets S).presenter.scheduler.pending.contains .measurement = true) := by
  rcases hfold : (unmeasured f.presenter).foldl (measureNext S) (false, f) with ⟨called, g⟩
  have hunmarks := foldl_measureNext_unmarks S (unmeasured f.presenter) (false, f)
  rw [hfold] at hunmarks
  obtain ⟨book, corrections, resized, heq⟩ := hunmarks.presenter_eq
  have hg : g.presenter.HandedOut := by
    have hmarks : MarksBound g.presenter := fun k hk => by
      rw [heq]
      exact h.marks k (hunmarks.resized_sub k hk)
    refine ⟨?_, ?_, ?_, hmarks⟩ <;> rw [heq]
    · exact h.coherent
    · exact h.eased
    · exact h.told
  rw [measureTargets_eq S f hfold]
  split
  · exact ⟨hg.invalidate .measurement, fun _ => Presenter.contains_invalidate_self _ _⟩
  · -- No target was left, so every mark is off.
    rename_i hquiet
    rw [Bool.or_eq_true, decide_eq_true_eq, not_or] at hquiet
    have hle := hunmarks.deferred_le
    have hnone : g.report.deferred = f.report.deferred := by
      simp only at hle
      omega
    refine ⟨hg, fun hmarked => absurd ?_ hmarked⟩
    rw [Std.ExtTreeSet.eq_empty_iff_forall_not_mem]
    intro k hk
    have hold := hunmarks.resized_sub k hk
    obtain ⟨i, hi⟩ := Option.isSome_iff_exists.1
      (Std.ExtTreeMap.mem_iff_isSome_getElem?.1 (h.marks k hold))
    exact hunmarks.unmarked hnone _ (mem_unmeasured.2 ⟨hi, Or.inl hold⟩) hk

theorem runPass_accounted {g : Stage σ κ α} {reasons : Reasons} (h : f.presenter.HandedOut)
    (hpass : f.runPass S reasons = .ok g) : g.presenter.Accounted := by
  obtain ⟨pass, events, layout, hreflow, rfl⟩ := runPass_eq_ok hpass
  obtain ⟨hmeasured, hmarked⟩ :=
    measureTargets_handedOut S (showPass_handedOut (S := S) h reasons hreflow)
  rw [keepEasing]
  -- An eased scroll under way asks for another frame by itself.
  split
  · exact (hmeasured.invalidate .scroll).accounted
      (fun _ => Presenter.contains_invalidate_self _ _)
      (fun hresized => Presenter.contains_invalidate (hmarked hresized) _)
  · rename_i hsmooth
    exact hmeasured.accounted (fun hsome => absurd hsome hsmooth) hmarked

end Stage

namespace Presenter

variable {κ α : Type} [Ord κ] [Std.TransOrd κ] [Std.LawfulEqOrd κ] [Scalar α]
  {p p' : Presenter κ α}

theorem frame_accounted {σ : Type} {S : Surface σ κ α} {s s' : σ} {now : Nat}
    {report : FrameReport α} (h : p.Accounted) (hp : p.frame S s now = .ok (report, p', s')) :
    p'.Accounted := by
  obtain ⟨p₁, s₁, hadvance, hp⟩ := frame_cases hp
  have hp₁ := advance_accounted h hadvance
  have hopen := hp₁.announced S s₁
  rcases hp with ⟨-, -, rfl, -⟩ | ⟨-, ⟨-, hpass⟩ | ⟨hnone, hend⟩⟩
  · exact hp₁
  · exact Stage.runPass_accounted hopen hpass
  · -- Without a pass there was nothing to be kept.
    have hsame : p'.smooth = p₁.smooth ∧ p'.resized = p₁.resized := by
      have hpresenter := congrArg Stage.presenter hend
      rw [Stage.announceVisible_presenter S (p₁.opening s₁)] at hpresenter
      cases hpresenter
      exact ⟨rfl, rfl⟩
    rw [hend] at hopen
    refine HandedOut.accounted hopen (fun hsome => ?_) (fun hmarked => ?_)
    · rw [hsame.1, hp₁.smooth_eq_none hnone] at hsome
      cases hsome
    · exact absurd (hsame.2.trans (hp₁.resized_eq_empty hnone)) hmarked

omit [Std.LawfulEqOrd κ] in
/-- At first nothing is under way. -/
theorem accounted_of_ofOptions {options : Options α} {keyOf : Nat → κ} {listening : Bool}
    (hp : ofOptions options keyOf listening = .ok p) : p.Accounted := by
  obtain ⟨layout, -, hp⟩ := bind_eq_ok.1 hp
  cases hp
  exact ⟨fun _ => rfl, by simp, by simp, fun k hk => absurd hk Std.ExtTreeSet.not_mem_empty,
    fun h => absurd rfl h⟩

/-- In every state of a run, whatever is under way has been given as a reason for a frame.  So while
none is asked for, a frame leaves the presenter and every surface as they are, be it one that only
takes down the calls it receives. -/
theorem Reachable.accounted_and_idle_atRest
    (h : Reachable (fun _ => True) (fun _ => True) p) :
    p.Accounted ∧ (p.scheduler.isPending = false → p.AtRest) := by
  have haccounted : p.Accounted := by
    induction h with
    | start _ hp => exact accounted_of_ofOptions hp
    | input _ _ hp ih => exact respond_accounted ih hp
    | frame _ _ hp ih => exact frame_accounted ih hp
  refine ⟨haccounted, fun hidle => ?_⟩
  have hnone := haccounted.coherent.needsPass_eq_false hidle
  intro σ S s now
  exact atRest_of_idle (haccounted.smooth_eq_none hnone) hidle S s now

/-- Nine items whose keys collide, and collide otherwise after they are replaced.  The presenter comes
to rest; then the user scrolls a little, a target changes its size, and a scroll is eased. -/
theorem Reachable.accounted_of_collidingKeys : ∃ p q : Presenter Nat Rat,
    (Reachable (fun _ => True) (fun _ => True) p ∧ p.boundLength < p.layout.published.length ∧
      p.scheduler.isPending = false ∧ p.AtRest) ∧
    (Reachable (fun _ => True) (fun _ => True) q ∧ q.isAnimating = true ∧ q.visible.isSome = true ∧
      q.resized.isEmpty = false ∧ q.Accounted) := by
  have htest : ((ofOptions (⟨10, 5, 0, .vertical, true, 1⟩ : Options Rat) (· % 2) true).toOption.any
      fun p => (((p.setTotal 9).setViewport 20 30).2.run lateSurface 0 0 16 4).toOption.any
        fun x => ((x.2.1.setKeyOf (· / 2)).run lateSurface x.2.2 64 16 2).toOption.any
          fun y => decide (y.2.1.boundLength < y.2.1.layout.published.length) &&
            (!y.2.1.scheduler.isPending && (y.2.1.followScroll 1).toOption.any
              fun z => ((z.2.itemResized 1).smoothScrollToIndex 6 .start 96 100 .linear).toOption.any
                fun q => q.isAnimating && (q.visible.isSome && !q.resized.isEmpty))) = true := by
    decide +kernel
  obtain ⟨p₀, hstart, htest⟩ := exists_ok_of_any htest
  obtain ⟨⟨reports, p₁, s₁⟩, hrun₁, htest⟩ := exists_ok_of_any htest
  obtain ⟨⟨reports, p₂, s₂⟩, hrun₂, htest⟩ := exists_ok_of_any htest
  simp only [Bool.and_eq_true, decide_eq_true_eq, Bool.not_eq_true'] at htest
  obtain ⟨hcollide, hidle, htest⟩ := htest
  obtain ⟨⟨answer, p₃⟩, hfollow, htest⟩ := exists_ok_of_any htest
  obtain ⟨q, hease, htest⟩ := exists_ok_of_any htest
  simp only [Bool.and_eq_true, Bool.not_eq_true'] at htest
  obtain ⟨hanimated, hvisible, hmarked⟩ := htest
  have hS : lateSurface.Answers fun _ => True := fun _ _ _ _ => trivial
  have hfits : 9 ≤ Index.limit := by decide
  have hinitial : Reachable (fun _ => True) (fun _ => True) p₀ := .start trivial hstart
  have hinputs := (hinitial.input (r := .setTotal 9) hfits rfl).input
    (r := .setViewport 20 30) trivial rfl
  have hrest := ((hinputs.run hS hrun₁).input (r := .setKeyOf (· / 2)) trivial rfl).run hS hrun₂
  have hfollowed : Reachable (fun _ => True) (fun _ => True) p₃ :=
    hrest.input (r := .followScroll 1) trivial (bind_eq_ok.2 ⟨_, hfollow, rfl⟩)
  have hend : Reachable (fun _ => True) (fun _ => True) q :=
    (hfollowed.input (r := .itemResized 1) trivial rfl).input
      (r := .smoothScrollToIndex 6 .start 96 100 .linear) trivial hease
  exact ⟨p₂, q, ⟨hrest, hcollide, hidle, hrest.accounted_and_idle_atRest.2 hidle⟩,
    hend, hanimated, hvisible, hmarked, hend.accounted_and_idle_atRest.1⟩

end Presenter

end VirtualList
