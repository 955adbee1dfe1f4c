import VirtualList.Proofs.Layout.Refusal
import VirtualList.Proofs.Presenter.Run

/-!
# Inputs that are refused

Of the inputs of a presenter two can be refused: a viewport and a scroll position.  A viewport is
refused before anything is done about it.  A scroll position is refused after the eased scroll under
way has been given up, so that one such effect outlives the refusal; all else stays as it was.

## Key results

- `setViewport_eq_error_iff`, `followScroll_eq_error_iff`: when an input is refused, and what it
  leaves behind
- `refusals_leave`: a refused input is an input that was not made, or the end of an eased scroll
- `Reachable.refusal_ends_animation`: an eased scroll does not outlive a position that is not finite
-/

namespace VirtualList

namespace Presenter

variable {κ α : Type} [Ord κ] [Scalar α]

/-- A viewport is refused iff it is outside its domain, and then nothing changes. -/
theorem setViewport_eq_error_iff {p p' : Presenter κ α} {main cross : α} {e : InputError α} :
    p.setViewport main cross = (.error e, p') ↔
      Viewport.check (⟨main, cross⟩ : Viewport α) = .error e ∧ p' = p := by
  unfold setViewport
  cases hcheck : Viewport.check (⟨main, cross⟩ : Viewport α) with
  | error d =>
    rw [Layout.setViewport_refused hcheck]
    show (Except.error d, p) = (Except.error e, p') ↔ _
    rw [Prod.mk.injEq, Except.error.injEq, eq_comm (a := p)]
  | ok u =>
    obtain ⟨book, corrections, remeasure, -, heq⟩ :=
      Layout.setViewport_eq (l := p.layout) hcheck
    rw [heq]
    simp

/-- A scroll position is refused iff it is not finite, and then nothing changes but that an eased
scroll ends. -/
theorem followScroll_eq_error_iff {p p' : Presenter κ α} {position : α} {e : InputError α} :
    p.followScroll position = .ok (.error e, p') ↔
      Scalar.isFinite position = false ∧ e = .scrollPosition position ∧ p' = p.cancelAnimation := by
  constructor
  · intro h
    have hcancelled : p.cancelAnimation.layout = p.layout := rfl
    simp only [followScroll, hcancelled] at h
    rcases p.layout.moveTo_cases position with ⟨d, heq⟩ | heq | ⟨-, heq⟩
    · obtain ⟨hfinite, hd, -⟩ := Layout.moveTo_eq_error_iff.1 heq
      rw [heq] at h
      cases h
      exact ⟨hfinite, hd, rfl⟩
    · rw [heq] at h
      cases h
    · -- Once the position is taken over nothing is refused.
      rw [heq] at h
      obtain ⟨due, -, h⟩ := bind_eq_ok.1 h
      split at h
      · cases h
      · split at h <;> cases h
  · intro h
    obtain ⟨hfinite, rfl, rfl⟩ := h
    have hmove := Layout.moveTo_eq_error_iff (l := p.layout).2 ⟨hfinite, rfl, rfl⟩
    have hcancelled : p.cancelAnimation.layout = p.layout := rfl
    simp only [followScroll, hcancelled, hmove]
    rfl

omit [Scalar α] in
/-- The end of the eased scroll changes nothing iff there is none under way. -/
theorem cancelAnimation_eq_self_iff {p : Presenter κ α} :
    p.cancelAnimation = p ↔ p.isAnimating = false := by
  constructor
  · intro h
    rw [← h]
    rfl
  · intro h
    obtain ⟨layout, scheduler, keyOf, targets, resized, visible, smooth⟩ := p
    obtain rfl : smooth = none := by simpa [isAnimating] using h
    rfl

/-- What a refused input leaves behind, whatever the presenter is doing:

* a viewport is refused iff it is outside its domain, and leaves everything as it was;
* a scroll position is refused iff it is not finite, and leaves what the end of the eased scroll
  alone would leave;
* that is everything as it was, unless there is an eased scroll under way. -/
theorem refusals_leave (p p' : Presenter κ α) (main cross position : α) (e : InputError α) :
    (p.setViewport main cross = (.error e, p') ↔
      Viewport.check (⟨main, cross⟩ : Viewport α) = .error e ∧ p' = p) ∧
    (p.followScroll position = .ok (.error e, p') ↔
      Scalar.isFinite position = false ∧ e = .scrollPosition position ∧ p' = p.cancelAnimation) ∧
    (p.cancelAnimation = p ↔ p.isAnimating = false) := by
  refine ⟨setViewport_eq_error_iff, followScroll_eq_error_iff, ?_⟩
  exact cancelAnimation_eq_self_iff

/-- The host reports an infinite scroll position while a scroll is eased.  The position is refused,
but the eased scroll has ended. -/
theorem Reachable.refusal_ends_animation : ∃ (p p' : Presenter Nat Float) (position : Float)
    (e : InputError Float), Reachable Function.Injective (fun _ => True) p ∧
      p.followScroll position = .ok (.error e, p') ∧ p.isAnimating = true ∧
      p'.isAnimating = false := by
  have htest : ((ofOptions (Options.ofEstimateSize 10 : Options Float) id true).toOption.any
      fun p => (((p.setTotal 20).setViewport 30 10).2.smoothScrollToIndex 15 .start 0 100
        .linear).toOption.any fun p => p.isAnimating) = true := by
    decide +kernel
  obtain ⟨p₀, hstart, htest⟩ := exists_ok_of_any htest
  obtain ⟨p, hease, hanimated⟩ := exists_ok_of_any htest
  have hinfinite : Scalar.isFinite (1 / 0 : Float) = false := by decide +kernel
  have hrefused := (followScroll_eq_error_iff (p := p)).2 ⟨hinfinite, rfl, rfl⟩
  have hinitial : Reachable Function.Injective (fun _ => True) p₀ :=
    .start Function.injective_id hstart
  have hp : Reachable Function.Injective (fun _ => True) p :=
    ((hinitial.input (r := .setTotal 20) (show 20 ≤ Index.limit by decide) rfl).input
      (r := .setViewport 30 10) trivial rfl).input
      (r := .smoothScrollToIndex 15 .start 0 100 .linear) trivial hease
  exact ⟨p, p.cancelAnimation, 1 / 0, _, hp, hrefused, hanimated, rfl⟩

end Presenter

end VirtualList
