import VirtualList.Presenter.Frame
import VirtualList.Proofs.Layout.Run
import VirtualList.Proofs.Scheduler

/-!
# Runs of a presenter

A run is any sequence of inputs and frames, on whatever surfaces.  Key functions and what a
surface measures come from outside; a run is described together with what is known of both.

## Key results

- `respond`, `Reachable`: inputs and runs
- `setViewport_cases`, `followScroll_cases`, `Effect`, `respond_effect`: what an input does
- `advance_cases`, `advance_leaves`, `advance_calls`: what moves an eased scroll on
- `frame_cases`: what one frame does
- `Reachable.run`: frames that follow one another are part of a run
-/

namespace VirtualList

/-- What a surface measures always has the property `P`.  A surface that sees to this
only in some of its states is described as one that has just these states. -/
def Surface.Answers {σ κ α : Type} (S : Surface σ κ α) (P : Measurement α → Prop) : Prop :=
  ∀ key s m, (S.measure key s).1 = some m → P m

namespace Presenter

variable {κ α : Type}

/-- An input of a presenter. -/
inductive Request (κ α : Type) where
  | setTotal (total : Nat)
  | itemsChanged
  | setKeyOf (keyOf : Nat → κ)
  | setViewport (main cross : α)
  | followScroll (position : α)
  | itemResized (i : Nat)
  | scrollToIndex (i : Nat) (align : Align)
  | smoothScrollToIndex (i : Nat) (align : Align) (now duration : Nat) (easing : Easing)
  | cancelAnimation
  | reset
  /-- The host installs its callback for frames. -/
  | listen

/-- The number of items that an input sets is representable, and the keys it sets fit. -/
def Request.Admissible (fits : (Nat → κ) → Prop) : Request κ α → Prop
  | .setTotal total => total ≤ Index.limit
  | .setKeyOf keyOf => fits keyOf
  | _ => True

variable [Ord κ] [Std.TransOrd κ] [Scalar α]

/-- Takes an input.  What is answered to it is left out. -/
def respond (p : Presenter κ α) : Request κ α → Except Fault (Presenter κ α)
  | .setTotal total => .ok (p.setTotal total)
  | .itemsChanged => .ok p.itemsChanged
  | .setKeyOf keyOf => .ok (p.setKeyOf keyOf)
  | .setViewport main cross => .ok (p.setViewport main cross).2
  | .followScroll position => do
    let (_, p) ← p.followScroll position
    return p
  | .itemResized i => .ok (p.itemResized i)
  | .scrollToIndex i align => p.scrollToIndex i align
  | .smoothScrollToIndex i align now duration easing =>
    p.smoothScrollToIndex i align now duration easing
  | .cancelAnimation => .ok p.cancelAnimation
  | .reset => .ok p.reset
  | .listen => .ok { p with scheduler := p.scheduler.setListening true }

/-! ## What single steps do -/

omit [Std.TransOrd κ] in
/-- A viewport outside its domain is refused.  Otherwise it is taken over, and unless it compares as
equal to the one before, it is given as a reason for a frame. -/
theorem setViewport_cases (p : Presenter κ α) (main cross : α) :
    (p.setViewport main cross).2 = p ∨ ∃ book corrections remeasure layout,
      (book = p.layout.book ∨
        ((cross != p.layout.viewport.cross) = true ∧ book = p.layout.book.clear)) ∧
      layout = { p.layout with book, corrections, remeasure, viewport := ⟨main, cross⟩ } ∧
      (p.layout.setViewport ⟨main, cross⟩).2 = layout ∧
      ((p.setViewport main cross).2 = { p with layout }.invalidate .viewport ∨
        ((main != p.layout.viewport.main) = false ∧ (cross != p.layout.viewport.cross) = false ∧
          (p.setViewport main cross).2 = { p with layout })) := by
  unfold setViewport
  cases hcheck : Viewport.check (⟨main, cross⟩ : Viewport α) with
  | error e =>
    rw [Layout.setViewport_refused hcheck]
    exact Or.inl rfl
  | ok u =>
    obtain ⟨book, corrections, remeasure, hbook, heq⟩ :=
      Layout.setViewport_eq (l := p.layout) hcheck
    rw [heq]
    refine Or.inr ⟨book, corrections, remeasure, _, hbook, rfl, rfl, ?_⟩
    simp only
    split
    · exact Or.inl rfl
    · rename_i hsame
      simp only [ViewportChange.any, Bool.or_eq_true, not_or, Bool.not_eq_true] at hsame
      exact Or.inr ⟨hsame.1, hsame.2, rfl⟩

omit [Std.TransOrd κ] in
/-- An eased scroll ends when the user scrolls.  Unless the position is refused or was there before,
it is taken over, and then either a pass is asked for or the visible part of the window is looked
for, and announced if it has moved. -/
theorem followScroll_cases {p p' : Presenter κ α} {position : α}
    {answer : Except (InputError α) Unit} (hp : p.followScroll position = .ok (answer, p')) :
    (((∃ e, p.layout.moveTo position = (.error e, p.layout)) ∨
        p.layout.moveTo position = (.ok false, p.layout)) ∧ p' = p.cancelAnimation) ∨
      ∃ layout, layout = { p.layout with scrollPosition := position, pin := none } ∧
        p.layout.moveTo position = (.ok true, layout) ∧
        (p' = { p with layout, smooth := none }.invalidate .scroll ∨
          p' = { p with layout, smooth := none } ∨
          ∃ change range, layout.refreshVisible.2 = { layout with range } ∧
            change = Layout.windowChange { layout with range } false ∧
            p' = { p with
              layout := { layout with range }
              visible := some change
              smooth := none }.invalidate .visibleRange) := by
  simp only [followScroll] at hp
  have hsame : p.cancelAnimation.layout = p.layout := rfl
  rw [hsame] at hp
  rcases p.layout.moveTo_cases position with ⟨e, heq⟩ | heq | ⟨-, heq⟩
  · rw [heq] at hp
    cases hp
    exact Or.inl ⟨Or.inl ⟨e, heq⟩, rfl⟩
  · rw [heq] at hp
    cases hp
    exact Or.inl ⟨Or.inr heq, rfl⟩
  · refine Or.inr ⟨_, rfl, heq, ?_⟩
    rw [heq] at hp
    obtain ⟨due, -, hp⟩ := bind_eq_ok.1 hp
    split at hp
    · cases hp
      exact Or.inl rfl
    · -- No pass is due: the position moved within the window.
      rcases Layout.refreshVisible_cases { p.layout with scrollPosition := position, pin := none }
        with hrefresh | ⟨range, hrefresh⟩
      · rw [hrefresh] at hp
        cases hp
        exact Or.inr (Or.inl rfl)
      · rw [hrefresh] at hp
        cases hp
        exact Or.inr (Or.inr ⟨_, range, congrArg Prod.snd hrefresh, rfl, rfl⟩)

/-- An input leads from a presenter to another in one of these ways. -/
inductive Effect (p : Presenter κ α) : Request κ α → Presenter κ α → Prop
  /-- The input asks for what is there already, or for something that is not shown. -/
  | unchanged (r : Request κ α) : Effect p r p
  | total {total : Nat} : p.layout.total ≠ total → Effect p (.setTotal total)
      ({ p with layout := { p.layout with total } }.invalidate .totalItems)
  | items : Effect p .itemsChanged (p.invalidate .items)
  | keys (keyOf : Nat → κ) : Effect p (.setKeyOf keyOf) ({ p with keyOf }.invalidate .items)
  | viewport (main cross : α) : Effect p (.setViewport main cross) (p.setViewport main cross).2
  | followed {position : α} {answer : Except (InputError α) Unit} {p' : Presenter κ α} :
      p.followScroll position = .ok (answer, p') → Effect p (.followScroll position) p'
  | marked {i : Nat} : p.keyOf i ∈ p.targets → Effect p (.itemResized i)
      ({ p with resized := p.resized.insert (p.keyOf i) }.invalidate .measurement)
  | pinned {i : Nat} {align : Align} {layout : Layout α} : p.layout.pinTo i align = .ok layout →
      Effect p (.scrollToIndex i align)
        ({ p with layout, smooth := none }.invalidate .scrollToIndex)
  | eased {i : Nat} {align : Align} {now duration : Nat} {easing : Easing}
      (smooth : SmoothScroll α) : Effect p (.smoothScrollToIndex i align now duration easing)
        ({ p with layout := p.layout.unpin, smooth := some smooth }.invalidate .scroll)
  | cancelled : Effect p .cancelAnimation p.cancelAnimation
  | forgotten : Effect p .reset
      ({ p with layout := p.layout.forget, smooth := none }.invalidate .reset)
  | listening : Effect p .listen { p with scheduler := p.scheduler.setListening true }

/-- What an input can do. -/
theorem respond_effect {p p' : Presenter κ α} {r : Request κ α} (hp : p.respond r = .ok p') :
    Effect p r p' := by
  cases r with
  | setTotal total =>
    cases hp
    unfold setTotal Layout.setTotal
    by_cases hsame : p.layout.total = total
    · rw [if_pos hsame]
      exact .unchanged _
    · rw [if_neg hsame]
      exact .total hsame
  | itemsChanged =>
    cases hp
    exact .items
  | setKeyOf keyOf =>
    cases hp
    exact .keys keyOf
  | setViewport main cross =>
    cases hp
    exact .viewport main cross
  | followScroll position =>
    obtain ⟨⟨answer, p₁⟩, hfollow, hp⟩ := bind_eq_ok.1 hp
    cases hp
    exact .followed hfollow
  | itemResized i =>
    cases hp
    simp only [itemResized]
    split
    · rename_i hbound
      exact .marked (Std.ExtTreeMap.contains_iff_mem.1 hbound)
    · exact .unchanged _
  | scrollToIndex i align =>
    obtain ⟨layout, hpin, hp⟩ := bind_eq_ok.1 hp
    cases hp
    exact .pinned hpin
  | smoothScrollToIndex i align now duration easing =>
    obtain ⟨settled, -, hp⟩ := bind_eq_ok.1 hp
    obtain ⟨destination, -, hp⟩ := bind_eq_ok.1 hp
    cases hp
    exact .eased _
  | cancelAnimation =>
    cases hp
    exact .cancelled
  | reset =>
    cases hp
    exact .forgotten
  | listen =>
    cases hp
    exact .listening

omit [Std.TransOrd κ] in
/-- At its end an eased scroll gives way to a pinned item.  Until then it goes on, and the surface is
scrolled wherever the layout is. -/
theorem advance_cases {σ : Type} {S : Surface σ κ α} {p p' : Presenter κ α} {s s' : σ} {now : Nat}
    (hp : p.advance S s now = .ok (p', s')) :
    (p.smooth = none ∧ p' = p ∧ s' = s) ∨
      ∃ smooth, p.smooth = some smooth ∧
        ((∃ layout, p.layout.pinTo smooth.index smooth.align = .ok layout ∧
            p' = { p with layout, smooth := none }.invalidate .scrollToIndex ∧ s' = s) ∨
          ∃ tween, (p' = { p with smooth := some { smooth with tween } } ∧ s' = s) ∨
            ∃ position layout, p.layout.moveTo position = (.ok true, layout) ∧
              layout = { p.layout with scrollPosition := position, pin := none } ∧
              p' = { p with layout, smooth := some { smooth with tween } }.invalidate .scroll ∧
              s' = S.scrollTo position s) := by
  unfold advance at hp
  cases hsmooth : p.smooth with
  | none =>
    rw [hsmooth] at hp
    cases hp
    exact Or.inl ⟨rfl, rfl, rfl⟩
  | some smooth =>
    rw [hsmooth] at hp
    obtain ⟨destination, -, hp⟩ := bind_eq_ok.1 hp
    refine Or.inr ⟨smooth, rfl, ?_⟩
    simp only at hp
    split at hp
    · obtain ⟨layout, hpin, hp⟩ := bind_eq_ok.1 hp
      cases hp
      exact Or.inl ⟨layout, hpin, rfl, rfl⟩
    · generalize ({ smooth.tween with destination } : Tween α).sample now = position at hp
      refine Or.inr ⟨{ smooth.tween with destination }, ?_⟩
      rcases p.layout.moveTo_cases position with ⟨e, heq⟩ | heq | ⟨-, heq⟩
      · rw [heq] at hp
        cases hp
        exact Or.inl ⟨rfl, rfl⟩
      · rw [heq] at hp
        cases hp
        exact Or.inl ⟨rfl, rfl⟩
      · rw [heq] at hp
        cases hp
        exact Or.inr ⟨position, _, heq, rfl, rfl, rfl⟩

omit [Std.TransOrd κ] in
/-- Moving an eased scroll on leaves the targets and their marks alone, and all that is known of
sizes. -/
theorem advance_leaves {σ : Type} {S : Surface σ κ α} {p p' : Presenter κ α} {s s' : σ} {now : Nat}
    (hp : p.advance S s now = .ok (p', s')) : p'.targets = p.targets ∧ p'.resized = p.resized ∧
      p'.keyOf = p.keyOf ∧ p'.layout.book = p.layout.book := by
  rcases advance_cases hp with ⟨-, rfl, -⟩ | ⟨smooth, -, hcases⟩
  · exact ⟨rfl, rfl, rfl, rfl⟩
  rcases hcases with ⟨layout, hpin, rfl, -⟩ | ⟨tween, ⟨rfl, -⟩ | ⟨position, layout, -, rfl, rfl, -⟩⟩
  · obtain ⟨settled, -, rfl⟩ := Layout.pinTo_eq hpin
    exact ⟨rfl, rfl, rfl, rfl⟩
  · exact ⟨rfl, rfl, rfl, rfl⟩
  · exact ⟨rfl, rfl, rfl, rfl⟩

omit [Std.TransOrd κ] in
/-- All that a surface is told is where to scroll. -/
theorem advance_calls {σ : Type} {S : Surface σ κ α} {p p' : Presenter κ α} {s s' : Recorded σ κ α}
    {now : Nat} (hp : p.advance S.recorded s now = .ok (p', s')) :
    s'.calls = s.calls ∨ ∃ position, s'.calls = .scrollTo position :: s.calls := by
  rcases advance_cases hp with ⟨-, -, rfl⟩ | ⟨smooth, -, hcases⟩
  · exact Or.inl rfl
  rcases hcases with ⟨layout, -, -, rfl⟩ | ⟨tween, ⟨-, rfl⟩ | ⟨position, layout, -, -, -, rfl⟩⟩
  · exact Or.inl rfl
  · exact Or.inl rfl
  · exact Or.inr ⟨position, rfl⟩

/-! ## Runs -/

/-- The presenters that runs lead to, with key functions that fit and on surfaces whose
measurements have a property `P`. -/
inductive Reachable (fits : (Nat → κ) → Prop) (P : Measurement α → Prop) : Presenter κ α → Prop
  | start {options : Options α} {keyOf : Nat → κ} {listening : Bool} {p : Presenter κ α} :
      fits keyOf → ofOptions options keyOf listening = .ok p → Reachable fits P p
  | input {p p' : Presenter κ α} {r : Request κ α} :
      Reachable fits P p → r.Admissible fits → p.respond r = .ok p' → Reachable fits P p'
  | frame {σ : Type} {S : Surface σ κ α} {p p' : Presenter κ α} {s s' : σ} {now : Nat}
      {report : FrameReport α} :
      Reachable fits P p → S.Answers P → p.frame S s now = .ok (report, p', s') →
      Reachable fits P p'

/-- The frame that begins, to which all reasons are handed out. -/
def opening {σ : Type} (p : Presenter κ α) (s : σ) : Stage σ κ α :=
  ⟨{ p with scheduler := { p.scheduler with state := .idle, pending := .none } }, s,
    { FrameReport.idle with reasons := some p.scheduler.pending }⟩

/-- A frame moves an eased scroll on.  If it was asked for, it announces the visible part, and runs
a pass as far as there is a reason for one. -/
theorem frame_cases {σ : Type} {S : Surface σ κ α} {p p' : Presenter κ α} {s s' : σ} {now : Nat}
    {report : FrameReport α} (h : p.frame S s now = .ok (report, p', s')) :
    ∃ p₁ s₁, p.advance S s now = .ok (p₁, s₁) ∧
      ((p₁.scheduler.state = .idle ∧ report = .idle ∧ p' = p₁ ∧ s' = s₁) ∨
        (p₁.scheduler.state = .pending ∧
          ((p₁.scheduler.pending.needsPass = true ∧
              ((p₁.opening s₁).announceVisible S).runPass S p₁.scheduler.pending =
                .ok ⟨p', s', report⟩) ∨
            (p₁.scheduler.pending.needsPass = false ∧
              (p₁.opening s₁).announceVisible S = ⟨p', s', report⟩)))) := by
  obtain ⟨⟨p₁, s₁⟩, hadvance, h⟩ := bind_eq_ok.1 h
  refine ⟨p₁, s₁, hadvance, ?_⟩
  simp only at h
  rcases p₁.scheduler.begin_cases with ⟨hidle, hbegin⟩ | ⟨hpending, hbegin⟩
  · rw [hbegin] at h
    cases h
    exact Or.inl ⟨hidle, rfl, rfl, rfl⟩
  · rw [hbegin] at h
    refine Or.inr ⟨hpending, ?_⟩
    simp only at h
    split at h
    · rename_i hneeds
      obtain ⟨g, hpass, h⟩ := bind_eq_ok.1 h
      cases h
      exact Or.inl ⟨hneeds, hpass⟩
    · rename_i hnone
      cases h
      exact Or.inr ⟨Bool.eq_false_iff.2 hnone, rfl⟩

/-- Frames that follow one another on a surface continue a run. -/
theorem Reachable.run {fits : (Nat → κ) → Prop} {P : Measurement α → Prop} {σ : Type}
    {S : Surface σ κ α} (hS : S.Answers P) {step frames : Nat} :
    ∀ {p p' : Presenter κ α} {s s' : σ} {now : Nat} {reports : List (FrameReport α)},
      Reachable fits P p → p.run S s now step frames = .ok (reports, p', s') →
      Reachable fits P p' := by
  induction frames with
  | zero =>
    intro p p' s s' now reports h hp
    cases hp
    exact h
  | succ frames ih =>
    intro p p' s s' now reports h hp
    obtain ⟨⟨report, p₁, s₁⟩, hframe, hp⟩ := bind_eq_ok.1 hp
    have hnext : Reachable fits P p₁ := h.frame hS hframe
    simp only at hp
    split at hp
    · cases hp
      exact hnext
    · obtain ⟨⟨rest, p₂, s₂⟩, hrun, hp⟩ := bind_eq_ok.1 hp
      cases hp
      exact ih hnext hrun

end Presenter

end VirtualList
