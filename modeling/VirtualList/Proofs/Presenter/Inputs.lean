import VirtualList.Proofs.Presenter.Bindings
import VirtualList.Proofs.Presenter.Run
import VirtualList.Proofs.Scheduler

/-!
# The inputs of a presenter

Only frames act on the surface.  Inputs leave the targets and the items they show as they are, and
whatever they disturb they give as a reason for a frame: new keys count as data that changed in
place, and a visible part that has moved is kept for the surface to be told about.

So a presenter stays awake between two frames: it has a reason for whatever is left to do.  One to
which no reason for a pass was given is `Quiet`, that is, its last pass was stable, and nothing is
animated, marked or unmeasured.

## Key results

- `Quiet`, `InStep`, `Awake`: what holds between two frames
- `KeepsShown`, `KeepsAwake`: what an input leaves as it is
- `respond_keepsAwake`, `advance_keepsAwake`: inputs and eased scrolls do
- `KeepsShown.inStep`, `KeepsAwake.awake`: what follows for the presenter
-/

namespace VirtualList.Presenter

variable {κ α : Type} [Ord κ] [Std.TransOrd κ] [Scalar α]

/-! ## Between two frames -/

/-- Nothing is left to do for a pass, except for an item that cannot be brought into view because
the viewport is empty. -/
structure Quiet (p : Presenter κ α) : Prop where
  stable : p.layout.stable = true
  smooth : p.smooth = none
  resized : p.resized = ∅
  measured : ∀ (k : κ) (i : Nat), p.targets[k]? = some i → p.layout.book.isMeasured i = true
  pin : p.layout.pin = none ∨ ((p.layout.viewport.main == 0) = true ∧ 0 < p.layout.total)

/-- The targets are those of the window, unless the data changed in place. -/
structure InStep (p : Presenter κ α) : Prop where
  layout : p.layout.Reachable
  keys : DistinctKeys p.keyOf
  marks : MarksBound p
  coherent : p.scheduler.Coherent
  shows : p.scheduler.pending.contains .items = false →
    Shows p.targets p.keyOf p.layout.published

/-- Whatever is left to do, there is a reason for it. -/
structure Awake (p : Presenter κ α) : Prop extends InStep p where
  quiet : p.scheduler.pending.needsPass = false → p.Quiet

/-- At first there are no items and no targets. -/
theorem inStep_of_ofOptions {options : Options α} {keyOf : Nat → κ} {listening : Bool}
    {p : Presenter κ α} (hkeys : DistinctKeys keyOf)
    (hp : ofOptions options keyOf listening = .ok p) : p.InStep := by
  obtain ⟨layout, hlayout, hp⟩ := bind_eq_ok.1 hp
  cases hp
  have hinitial : layout.Reachable := .start hlayout
  obtain ⟨u, -, hlayout⟩ := bind_eq_ok.1 hlayout
  cases hlayout
  refine ⟨hinitial, hkeys, fun k hk => ?_, fun _ => rfl, fun _ k i => ?_⟩
  · exact absurd hk Std.ExtTreeSet.not_mem_empty
  · simp

/-! ## What inputs leave as it is -/

/-- What is shown stays, and what has to be told to the surface is kept for the next frame. -/
structure KeepsShown (p p' : Presenter κ α) : Prop where
  reachable : p.layout.Reachable → p'.layout.Reachable
  published : p'.layout.published = p.layout.published
  stable : p'.layout.stable = p.layout.stable
  scrollSize : p'.layout.scrollSize = p.layout.scrollSize
  options : p'.layout.options = p.layout.options
  targets : p'.targets = p.targets
  marks : MarksBound p → MarksBound p'
  keys : DistinctKeys p.keyOf → DistinctKeys p'.keyOf
  coherent : p.scheduler.Coherent → p'.scheduler.Coherent
  pending : p.scheduler.isPending = true → p'.scheduler.isPending = true
  /-- New keys count as changed data. -/
  items : p'.scheduler.pending.contains .items = false →
    p.scheduler.pending.contains .items = false ∧ p'.keyOf = p.keyOf
  /-- A visible part that has moved is announced by the next frame. -/
  visible : (p'.layout.range = p.layout.range ∧ p'.visible = p.visible) ∨
    (p'.scheduler.isPending = true ∧ ∃ change, p'.visible = some change ∧
      change.range = p'.layout.range ∧ change.stable = p'.layout.stable)

namespace KeepsShown

variable {p p' : Presenter κ α}

/-- Another layout with the same window shows the same. -/
theorem of_layout {layout : Layout α} {smooth : Option (SmoothScroll α)}
    (hreachable : p.layout.Reachable → layout.Reachable)
    (hpublished : layout.published = p.layout.published)
    (hstable : layout.stable = p.layout.stable)
    (hscrollSize : layout.scrollSize = p.layout.scrollSize)
    (hoptions : layout.options = p.layout.options)
    (hrange : layout.range = p.layout.range) : KeepsShown p { p with layout, smooth } where
  reachable := hreachable
  published := hpublished
  stable := hstable
  scrollSize := hscrollSize
  options := hoptions
  targets := rfl
  marks := id
  keys := id
  coherent := id
  pending := id
  items h := ⟨h, rfl⟩
  visible := Or.inl ⟨hrange, rfl⟩

theorem refl (p : Presenter κ α) : KeepsShown p p := of_layout id rfl rfl rfl rfl rfl

/-- To ask for a frame changes nothing that is shown. -/
theorem invalidate (h : KeepsShown p p') (r : Reasons) : KeepsShown p (p'.invalidate r) where
  reachable := h.reachable
  published := h.published
  stable := h.stable
  scrollSize := h.scrollSize
  options := h.options
  targets := h.targets
  marks := h.marks
  keys := h.keys
  coherent hp := (h.coherent hp).invalidate r
  pending hp := Scheduler.isPending_invalidate_of_isPending (h.pending hp) r
  items hnone := by
    simp only [Presenter.invalidate, Scheduler.pending_invalidate, Reasons.contains_items_union,
      Bool.or_eq_false_iff] at hnone
    exact h.items hnone.1
  visible := h.visible.imp_right fun hvisible =>
    ⟨Scheduler.isPending_invalidate_of_isPending hvisible.1 r, hvisible.2⟩

/-- The targets stay in step with the window. -/
theorem inStep (h : KeepsShown p p') (hp : p.InStep) : p'.InStep where
  layout := h.reachable hp.layout
  keys := h.keys hp.keys
  marks := h.marks hp.marks
  coherent := h.coherent hp.coherent
  shows hitems := by
    obtain ⟨hold, hkeys⟩ := h.items hitems
    rw [h.targets, hkeys, h.published]
    exact hp.shows hold

end KeepsShown

/-- A presenter in step that is given a reason for a pass is awake. -/
theorem InStep.invalidate {p : Presenter κ α} (h : p.InStep) {r : Reasons}
    (hr : r.needsPass = true) : (p.invalidate r).Awake where
  toInStep := ((KeepsShown.refl p).invalidate r).inStep h
  quiet hnone := by
    rw [Presenter.invalidate, Scheduler.pending_invalidate, Reasons.needsPass_union, hr,
      Bool.or_true] at hnone
    cases hnone

/-- What is shown stays, and so does quiet unless a reason for a pass is given. -/
structure KeepsAwake (p p' : Presenter κ α) : Prop extends KeepsShown p p' where
  quiet : p'.scheduler.pending.needsPass = false →
    p.scheduler.pending.needsPass = false ∧ (p.Quiet → p'.Quiet)

namespace KeepsAwake

variable {p p' : Presenter κ α}

theorem refl (p : Presenter κ α) : KeepsAwake p p := ⟨.refl p, fun h => ⟨h, id⟩⟩

/-- Nothing more is to be known of an input that gives a reason for a pass. -/
theorem of_keepsShown (h : KeepsShown p p') {r : Reasons} (hr : r.needsPass = true) :
    KeepsAwake p (p'.invalidate r) where
  toKeepsShown := h.invalidate r
  quiet hnone := by
    rw [Presenter.invalidate, Scheduler.pending_invalidate, Reasons.needsPass_union, hr,
      Bool.or_true] at hnone
    cases hnone

/-- Whatever is left to do, there is a reason for it. -/
theorem awake (h : KeepsAwake p p') (hp : p.Awake) : p'.Awake where
  toInStep := h.inStep hp.toInStep
  quiet hnone := (h.quiet hnone).2 (hp.quiet (h.quiet hnone).1)

end KeepsAwake

/-! ## Inputs -/

variable {p p' : Presenter κ α}

theorem setKeyOf_keepsAwake {keyOf : Nat → κ} (hkeys : DistinctKeys keyOf) :
    KeepsAwake p (p.setKeyOf keyOf) where
  reachable := id
  published := rfl
  stable := rfl
  scrollSize := rfl
  options := rfl
  targets := rfl
  marks := id
  keys _ := hkeys
  coherent hp := hp.invalidate _
  pending hp := Scheduler.isPending_invalidate_of_isPending hp _
  items hnone := by
    simp only [setKeyOf, itemsChanged, Presenter.invalidate, Scheduler.pending_invalidate,
      Reasons.contains_items_union, Bool.or_eq_false_iff] at hnone
    exact absurd hnone.2 (by decide)
  visible := Or.inl ⟨rfl, rfl⟩
  quiet hnone := by
    simp only [setKeyOf, itemsChanged, Presenter.invalidate, Scheduler.pending_invalidate,
      Reasons.needsPass_union, Bool.or_eq_false_iff] at hnone
    exact absurd hnone.2 (by decide)

/-- A viewport that compares as equal to the one before is taken over without a reason.  It is
empty iff the one before was. -/
theorem setViewport_keepsAwake [PartialEquivBEq α] (main cross : α) :
    KeepsAwake p (p.setViewport main cross).2 := by
  have hreachable (h : p.layout.Reachable) :
      (p.layout.setViewport ⟨main, cross⟩).2.Reachable :=
    h.step (r := .setViewport ⟨main, cross⟩) trivial rfl
  rcases p.setViewport_cases main cross with
    heq | ⟨book, corrections, remeasure, layout, hbook, hlayout, hset, hcases⟩
  · rw [heq]
    exact .refl p
  rw [hset] at hreachable
  subst hlayout
  have hkeeps : KeepsShown p { p with layout := { p.layout with
      book, corrections, remeasure, viewport := ⟨main, cross⟩ } } :=
    .of_layout hreachable rfl rfl rfl rfl rfl
  rcases hcases with heq | ⟨hmain, hcross, heq⟩ <;> rw [heq]
  · exact .of_keepsShown hkeeps rfl
  · -- Without a change across the scroll axis nothing that was measured is dropped.
    have hkept : book = p.layout.book := by
      rcases hbook with hkept | ⟨hchanged, -⟩
      · exact hkept
      · rw [hcross] at hchanged
        cases hchanged
    refine ⟨hkeeps, fun hnone => ⟨hnone, fun hquiet => ?_⟩⟩
    obtain ⟨hstable, hsmooth, hresized, hmeasured, hpin⟩ := hquiet
    refine ⟨hstable, hsmooth, hresized, ?_, hpin.imp_right fun hempty => ?_⟩
    · rw [hkept]
      exact hmeasured
    · have heqv : (main == p.layout.viewport.main) = true := by
        rwa [bne, Bool.not_eq_false'] at hmain
      exact ⟨PartialEquivBEq.trans heqv hempty.1, hempty.2⟩

theorem cancelAnimation_keepsAwake : KeepsAwake p p.cancelAnimation where
  toKeepsShown := .of_layout id rfl rfl rfl rfl rfl
  quiet hnone := ⟨hnone, fun hquiet =>
    ⟨hquiet.stable, rfl, hquiet.resized, hquiet.measured, hquiet.pin⟩⟩

/-- Following the user to another position drops a pinned item, and calls for a pass only where the
window does not reach. -/
theorem followScroll_keepsAwake {position : α} {answer : Except (InputError α) Unit}
    (hp : p.followScroll position = .ok (answer, p')) : KeepsAwake p p' := by
  have hmoved (h : p.layout.Reachable) : (p.layout.moveTo position).2.Reachable :=
    h.step (r := .moveTo position) trivial rfl
  rcases followScroll_cases hp with ⟨-, rfl⟩ | ⟨layout, hlayout, hmove, hcases⟩
  · exact cancelAnimation_keepsAwake
  rw [hmove] at hmoved
  subst hlayout
  have hquiet (range : Option WindowRange) (visible : Option WindowChange)
      (scheduler : Scheduler) (h : p.Quiet) : Quiet { p with
        layout := { p.layout with scrollPosition := position, pin := none, range }
        visible, scheduler, smooth := none } :=
    ⟨h.stable, rfl, h.resized, h.measured, Or.inl rfl⟩
  rcases hcases with rfl | rfl | ⟨change, range, hrefresh, rfl, rfl⟩
  · exact .of_keepsShown (.of_layout hmoved rfl rfl rfl rfl rfl) rfl
  · exact ⟨.of_layout hmoved rfl rfl rfl rfl rfl, fun hnone => ⟨hnone, hquiet _ _ _⟩⟩
  · have hseen (h : p.layout.Reachable) : ({ p.layout with
        scrollPosition := position, pin := none, range } : Layout α).Reachable := by
      rw [← hrefresh]
      exact (hmoved h).step (r := .refreshVisible) trivial rfl
    -- The announcement is kept for the next frame, which is asked for.
    exact {
      reachable := hseen
      published := rfl
      stable := rfl
      scrollSize := rfl
      options := rfl
      targets := rfl
      marks := id
      keys := id
      coherent := fun hp => hp.invalidate _
      pending := fun hp => Scheduler.isPending_invalidate_of_isPending hp _
      items := fun hnone => by
        simp only [Presenter.invalidate, Scheduler.pending_invalidate,
          Reasons.contains_items_union, Bool.or_eq_false_iff] at hnone
        exact ⟨hnone.1, rfl⟩
      visible := Or.inr ⟨Scheduler.isPending_invalidate _ rfl, _, rfl, rfl, rfl⟩
      quiet := fun hnone => by
        simp only [Presenter.invalidate, Scheduler.pending_invalidate,
          Reasons.needsPass_union, Bool.or_eq_false_iff] at hnone
        exact ⟨hnone.1, hquiet _ _ _⟩ }

/-- Only a key with a target is marked. -/
theorem mark_keepsAwake {key : κ} (hkey : key ∈ p.targets) :
    KeepsAwake p ({ p with resized := p.resized.insert key }.invalidate .measurement) := by
  have hmarks (h : MarksBound p) : MarksBound { p with resized := p.resized.insert key } := by
    intro k hk
    rcases Std.ExtTreeSet.mem_insert.1 hk with heq | hold
    · exact (Std.ExtTreeMap.mem_congr heq).1 hkey
    · exact h k hold
  have hkeeps : KeepsShown p { p with resized := p.resized.insert key } :=
    { KeepsShown.refl p with marks := hmarks }
  exact .of_keepsShown hkeeps rfl

/-- No input changes what is shown, or leaves something to do without a reason. -/
theorem respond_keepsAwake [PartialEquivBEq α] {r : Request κ α}
    (hr : r.Admissible DistinctKeys) (hp : p.respond r = .ok p') : KeepsAwake p p' := by
  cases respond_effect hp with
  | unchanged => exact .refl p
  | @total total hne =>
    have hset : (p.layout.setTotal total).2 = { p.layout with total } := by
      unfold Layout.setTotal
      rw [if_neg hne]
    have hreachable (h : p.layout.Reachable) : ({ p.layout with total } : Layout α).Reachable := by
      rw [← hset]
      exact h.step (r := .setTotal total) hr rfl
    exact .of_keepsShown (.of_layout hreachable rfl rfl rfl rfl rfl) rfl
  | items => exact .of_keepsShown (.refl p) rfl
  | keys keyOf => exact setKeyOf_keepsAwake hr
  | viewport main cross => exact setViewport_keepsAwake main cross
  | followed hfollow => exact followScroll_keepsAwake hfollow
  | marked hbound => exact mark_keepsAwake hbound
  | @pinned i align layout hpin =>
    have hreachable (h : p.layout.Reachable) : layout.Reachable :=
      h.step (r := .pinTo i align) trivial (by simp only [Layout.respond, hpin]; rfl)
    obtain ⟨settled, -, rfl⟩ := Layout.pinTo_eq hpin
    exact .of_keepsShown (.of_layout hreachable rfl rfl rfl rfl rfl) rfl
  | eased smooth =>
    -- An eased scroll takes the place of a pinned item.
    have hreachable (h : p.layout.Reachable) : p.layout.unpin.Reachable :=
      h.step (r := .unpin) trivial rfl
    exact .of_keepsShown (.of_layout hreachable rfl rfl rfl rfl rfl) rfl
  | cancelled => exact cancelAnimation_keepsAwake
  | forgotten =>
    have hreachable (h : p.layout.Reachable) : p.layout.forget.Reachable :=
      h.step (r := .forget) trivial rfl
    exact .of_keepsShown (.of_layout hreachable rfl rfl rfl rfl rfl) rfl
  | listening =>
    -- Who is called for a frame does not matter.
    exact ⟨{ KeepsShown.refl p with }, fun hnone => ⟨hnone, fun hquiet =>
      ⟨hquiet.stable, hquiet.smooth, hquiet.resized, hquiet.measured, hquiet.pin⟩⟩⟩

/-- Moving an eased scroll on changes nothing that is shown.  A presenter that is animated has a
reason for a pass. -/
theorem advance_keepsAwake {σ : Type} {S : Surface σ κ α} {s s' : σ} {now : Nat}
    (hp : p.advance S s now = .ok (p', s')) : KeepsAwake p p' := by
  rcases advance_cases hp with ⟨-, rfl, -⟩ | ⟨smooth, hsmooth, hcases⟩
  · exact .refl _
  rcases hcases with ⟨layout, hpin, rfl, -⟩ | ⟨tween, ⟨rfl, -⟩ | ⟨position, layout, hmove, rfl, rfl, -⟩⟩
  · -- At its end the scroll hands over to a pinned item.
    have hreachable (h : p.layout.Reachable) : layout.Reachable :=
      h.step (r := .pinTo smooth.index smooth.align) trivial
        (by simp only [Layout.respond, hpin]; rfl)
    obtain ⟨settled, -, rfl⟩ := Layout.pinTo_eq hpin
    exact .of_keepsShown (.of_layout hreachable rfl rfl rfl rfl rfl) rfl
  · -- Under way, it has a reason for a pass even if the position stays.
    refine ⟨.of_layout id rfl rfl rfl rfl rfl, fun hnone => ⟨hnone, fun hquiet => ?_⟩⟩
    have hidle := hquiet.smooth
    rw [hsmooth] at hidle
    cases hidle
  · have hmoved (h : p.layout.Reachable) : (p.layout.moveTo position).2.Reachable :=
      h.step (r := .moveTo position) trivial rfl
    rw [hmove] at hmoved
    exact .of_keepsShown (.of_layout hmoved rfl rfl rfl rfl rfl) rfl

end VirtualList.Presenter
