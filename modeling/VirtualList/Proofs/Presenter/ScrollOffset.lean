import VirtualList.Proofs.Layout.Host
import VirtualList.Proofs.Presenter.CallLog
import VirtualList.Surface.Simulated

/-!
# The surface is scrolled to where the layout is

The scroll offset of a surface is set by the host when the user scrolls, by an eased scroll on its
way, and by a pass that moved the scroll position.  In exact arithmetic it is the scroll position of
the layout between any two calls, also where a frame moves an eased scroll on and its pass moves
the position once more.

## Key results

- `Surface.Scrolls`: a surface whose offset is where it was scrolled to last
- `foldl_deliver_offset`: where the events of a pass leave the offset
- `runPass_atPosition`, `advance_offset`: a pass and an eased scroll leave it at the scroll position
- `Scrolled.offset_eq_scrollPosition`: so does every call of a run
-/

namespace VirtualList

open Std (ExtTreeMap)

/-- Of all operations only a scroll sets the offset of the surface. -/
structure Surface.Scrolls {σ κ α : Type} (S : Surface σ κ α) (offset : σ → α) : Prop where
  scrollTo : ∀ position s, offset (S.scrollTo position s) = position
  bind : ∀ key i s, offset (S.bind key i s) = offset s
  release : ∀ key s, offset (S.release key s) = offset s
  place : ∀ key item s, offset (S.place key item s) = offset s
  measure : ∀ key s, offset (S.measure key s).2 = offset s
  setScrollSize : ∀ size s, offset (S.setScrollSize size s) = offset s
  windowChanged : ∀ change s, offset (S.windowChanged change s) = offset s

namespace Stage

variable {σ κ α : Type} [Ord κ] {S : Surface σ κ α} {offset : σ → α}

/-- Neither the surface nor the layout was scrolled. -/
structure Rests (offset : σ → α) (f g : Stage σ κ α) : Prop where
  offset : offset g.surface = offset f.surface
  position : g.presenter.layout.scrollPosition = f.presenter.layout.scrollPosition

namespace Rests

theorem refl (f : Stage σ κ α) : Rests offset f f := ⟨rfl, rfl⟩

theorem trans {f g h : Stage σ κ α} (hg : Rests offset f g) (hh : Rests offset g h) :
    Rests offset f h :=
  ⟨hh.offset.trans hg.offset, hh.position.trans hg.position⟩

end Rests

/-- The surface is scrolled to where the layout is. -/
def AtPosition (offset : σ → α) (f : Stage σ κ α) : Prop :=
  offset f.surface = f.presenter.layout.scrollPosition

theorem AtPosition.rests {f g : Stage σ κ α} (h : f.AtPosition offset) (hg : Rests offset f g) :
    g.AtPosition offset :=
  hg.offset.trans (h.trans hg.position.symm)

/-! ## Showing and measuring -/

theorem announceVisible_rests (hS : S.Scrolls offset) (f : Stage σ κ α) :
    Rests offset f (f.announceVisible S) := by
  unfold announceVisible
  split
  · exact .refl f
  · exact ⟨hS.windowChanged _ _, rfl⟩

theorem keepEasing_rests (f : Stage σ κ α) : Rests offset f f.keepEasing := by
  unfold keepEasing
  split
  · exact ⟨rfl, rfl⟩
  · exact .refl f

variable [Std.TransOrd κ]

theorem showItem_rests (hS : S.Scrolls offset) (next : ExtTreeMap κ Nat) (f : Stage σ κ α)
    (item : PlacedItem α) : Rests offset f (showItem S next f item).2 := by
  simp only [showItem]
  split
  · exact ⟨(hS.place _ _ _).trans (hS.bind _ _ _), rfl⟩
  · split
    · exact ⟨hS.place _ _ _, rfl⟩
    · exact ⟨(hS.place _ _ _).trans (hS.bind _ _ _), rfl⟩

theorem releaseKey_rests (hS : S.Scrolls offset) (f : Stage σ κ α) (key : κ) :
    Rests offset f (releaseKey S f key) :=
  ⟨hS.release _ _, rfl⟩

theorem reconcile_rests (hS : S.Scrolls offset) (f : Stage σ κ α) (items : List (PlacedItem α)) :
    Rests offset f (f.reconcile S items) := by
  have hshown : Rests offset f (items.foldl (showNext S) (∅, f)).2 :=
    List.foldlRecOn (motive := fun x : ExtTreeMap κ Nat × Stage σ κ α => Rests offset f x.2) items _
      (.refl f) fun x hx item _ => hx.trans (showItem_rests hS x.1 x.2 item)
  rw [reconcile_eq S f rfl]
  refine List.foldlRecOn (motive := Rests offset f) _ _ ?_ fun g hg key _ =>
    hg.trans (releaseKey_rests hS g key)
  exact ⟨hshown.offset, hshown.position⟩

variable [Scalar α]

theorem measureTarget_rests (hS : S.Scrolls offset) (f : Stage σ κ α) (key : κ) (i : Nat) :
    Rests offset f (measureTarget S f key i).2 := by
  constructor
  · rw [measureTarget_surface]
    exact hS.measure key f.surface
  · obtain ⟨_, _, _, heq⟩ := (measureTarget_touches S f key i).presenter_eq
    rw [heq]

theorem measureTargets_rests (hS : S.Scrolls offset) (f : Stage σ κ α) :
    Rests offset f (f.measureTargets S) := by
  have hloop : Rests offset f ((unmeasured f.presenter).foldl (measureNext S) (false, f)).2 :=
    List.foldlRecOn (motive := fun x : Bool × Stage σ κ α => Rests offset f x.2) _ _ (.refl f)
      fun x hx target _ => hx.trans (measureTarget_rests hS x.2 target.1 target.2)
  rw [measureTargets_eq S f rfl]
  split
  · exact ⟨hloop.offset, hloop.position⟩
  · exact hloop

/-! ## A pass -/

/-- An event that moves the scroll position has the surface scrolled there; others do not scroll
it. -/
theorem deliver_offset (hS : S.Scrolls offset) (f : Stage σ κ α) (event : LayoutEvent α) :
    (f.deliver S event).presenter.layout.scrollPosition =
        f.presenter.layout.scrollPosition ∧
      offset (f.deliver S event).surface =
        if event.distance?.isSome then f.presenter.layout.scrollPosition
        else offset f.surface := by
  cases event with
  | windowChanged change => exact ⟨rfl, hS.windowChanged _ _⟩
  | itemsPlaced items =>
    have hrests := reconcile_rests hS f items
    exact ⟨hrests.position, hrests.offset⟩
  | scrollSizeChanged size => exact ⟨rfl, hS.setScrollSize _ _⟩
  | scrollMoved distance => exact ⟨rfl, hS.scrollTo _ _⟩

/-- If one of the events moves the scroll position, the surface is scrolled there. -/
theorem foldl_deliver_offset (hS : S.Scrolls offset) (f : Stage σ κ α)
    (events : List (LayoutEvent α)) :
    (events.foldl (deliver S) f).presenter.layout.scrollPosition =
        f.presenter.layout.scrollPosition ∧
      offset (events.foldl (deliver S) f).surface =
        if events.filterMap LayoutEvent.distance? = [] then offset f.surface
        else f.presenter.layout.scrollPosition := by
  induction events generalizing f with
  | nil => exact ⟨rfl, rfl⟩
  | cons event rest ih =>
    obtain ⟨hposition, hoffset⟩ := deliver_offset hS f event
    obtain ⟨hposition', hoffset'⟩ := ih (f.deliver S event)
    rw [List.foldl_cons]
    refine ⟨hposition'.trans hposition, ?_⟩
    rw [hoffset', hposition, hoffset]
    cases hdistance : event.distance? with
    | none => simp [hdistance]
    | some distance => simp [hdistance]

theorem showPass_rests (hS : S.Scrolls offset) (f : Stage σ κ α) (reasons : Reasons)
    (events : List (LayoutEvent α)) :
    Rests offset (events.foldl (deliver S) f) (f.showPass S reasons events) := by
  unfold showPass
  simp only
  split
  · exact reconcile_rests hS _ _
  · exact .refl _

/-- A pass that starts at the position of the surface leaves the surface at its own. -/
theorem runPass_atPosition {S : Surface σ κ Rat} {offset : σ → Rat} (hS : S.Scrolls offset)
    {f g : Stage σ κ Rat} {reasons : Reasons} (hf : f.AtPosition offset)
    (h : f.runPass S reasons = .ok g) : g.AtPosition offset := by
  obtain ⟨pass, events, layout, hreflow, rfl⟩ := runPass_eq_ok h
  obtain ⟨herror, htold⟩ := Layout.reflow_scrollError hreflow
  obtain ⟨hposition, hoffset⟩ := foldl_deliver_offset hS (f.withPass pass layout) events
  have hdelivered : (events.foldl (deliver S) (f.withPass pass layout)).AtPosition offset := by
    unfold AtPosition
    by_cases hzero : pass.scrollError = 0
    · -- Without an event the pass has not moved the position.
      rw [if_pos hzero] at htold
      rw [hoffset, hposition, htold, if_pos rfl]
      show offset f.surface = layout.scrollPosition
      rw [hf]
      linarith
    · rw [if_neg hzero] at htold
      rw [hoffset, hposition, htold, if_neg (List.cons_ne_nil _ _)]
  have hshown := hdelivered.rests (showPass_rests hS (f.withPass pass layout) reasons events)
  exact (hshown.rests (measureTargets_rests hS _)).rests (keepEasing_rests _)

end Stage

namespace Presenter

variable {σ κ α : Type} [Ord κ] [Std.TransOrd κ]

/-! ## Inputs and eased scrolls -/

section Inputs

variable [Scalar α] {p p' : Presenter κ α}

/-- Inputs other than to follow the host do not scroll the layout. -/
theorem respond_scrollPosition {r : Request κ α} (hr : ∀ position, r ≠ .followScroll position)
    (h : p.respond r = .ok p') : p'.layout.scrollPosition = p.layout.scrollPosition := by
  cases respond_effect h with
  | viewport main cross =>
    rcases p.setViewport_cases main cross with heq | ⟨_, _, _, _, -, rfl, -, heq | ⟨-, -, heq⟩⟩ <;>
      exact congrArg (·.layout.scrollPosition) heq
  | followed => exact absurd rfl (hr _)
  | pinned hpin =>
    obtain ⟨settled, -, rfl⟩ := Layout.pinTo_eq hpin
    rfl
  | unchanged | total | items | keys | marked | eased | cancelled | forgotten | listening =>
    -- The layout keeps its position, whatever else it is told.
    rfl

omit [Std.TransOrd κ] in
/-- Moving an eased scroll on scrolls the surface and the layout to the same place, or neither. -/
theorem advance_offset {S : Surface σ κ α} {offset : σ → α} (hS : S.Scrolls offset) {s s' : σ}
    {now : Nat} (h : p.advance S s now = .ok (p', s'))
    (hp : offset s = p.layout.scrollPosition) : offset s' = p'.layout.scrollPosition := by
  rcases advance_cases h with ⟨-, rfl, rfl⟩ | ⟨smooth, -, hcases⟩
  · exact hp
  rcases hcases with ⟨layout, hpin, rfl, rfl⟩ | ⟨tween, ⟨rfl, rfl⟩ | ⟨position, layout, -, rfl, rfl, rfl⟩⟩
  · obtain ⟨settled, -, rfl⟩ := Layout.pinTo_eq hpin
    exact hp
  · exact hp
  · exact hS.scrollTo position s

end Inputs

variable {p p' : Presenter κ Rat}

omit [Std.TransOrd κ] in
/-- Following the host leads the layout to where the host is. -/
theorem followScroll_scrollPosition {position : Rat} {answer : Except (InputError Rat) Unit}
    (hfinite : Scalar.isFinite position = true)
    (h : p.followScroll position = .ok (answer, p')) : p'.layout.scrollPosition = position := by
  obtain ⟨changed, layout, hmove⟩ := p.layout.moveTo_of_isFinite hfinite
  have hlayout : layout.scrollPosition = position := Layout.scrollPosition_moveTo hmove
  rcases followScroll_cases h with ⟨hkept, rfl⟩ | ⟨moved, rfl, -, hcases⟩
  · -- The position was there before.
    rcases hkept with ⟨e, heq⟩ | heq
    · rw [heq] at hmove
      cases hmove
    · rw [heq] at hmove
      cases hmove
      exact hlayout
  · rcases hcases with rfl | rfl | ⟨change, range, -, -, rfl⟩ <;> rfl

/-- A frame leaves the surface at the position of the layout. -/
theorem frame_offset {S : Surface σ κ Rat} {offset : σ → Rat} (hS : S.Scrolls offset) {s s' : σ}
    {now : Nat} {report : FrameReport Rat} (h : p.frame S s now = .ok (report, p', s'))
    (hp : offset s = p.layout.scrollPosition) : offset s' = p'.layout.scrollPosition := by
  obtain ⟨p₁, s₁, hadvance, hcases⟩ := frame_cases h
  have hp₁ := advance_offset hS hadvance hp
  have hopening : (p₁.opening s₁).AtPosition offset := hp₁
  have hannounced := hopening.rests (Stage.announceVisible_rests hS (p₁.opening s₁))
  rcases hcases with ⟨-, -, rfl, rfl⟩ | ⟨-, ⟨-, hpass⟩ | ⟨-, hend⟩⟩
  · exact hp₁
  · exact Stage.runPass_atPosition hS hannounced hpass
  · rw [hend] at hannounced
    exact hannounced

/-! ## Runs -/

/-- The presenters that runs lead to, with the offset of the surface.  The offset starts at zero;
it is set by the surface's own operation, or by the host to a finite position that it has the
presenter follow at once. -/
inductive Scrolled : Presenter κ Rat → Rat → Prop
  | start {options : Options Rat} {keyOf : Nat → κ} {listening : Bool} {p : Presenter κ Rat} :
      ofOptions options keyOf listening = .ok p → Scrolled p 0
  | input {p p' : Presenter κ Rat} {x : Rat} {r : Request κ Rat} :
      Scrolled p x → (∀ position, r ≠ .followScroll position) → p.respond r = .ok p' →
      Scrolled p' x
  | moved {p p' : Presenter κ Rat} {x position : Rat} {answer : Except (InputError Rat) Unit} :
      Scrolled p x → Scalar.isFinite position = true →
      p.followScroll position = .ok (answer, p') → Scrolled p' position
  | frame {σ : Type} {S : Surface σ κ Rat} {offset : σ → Rat} {p p' : Presenter κ Rat} {s s' : σ}
      {now : Nat} {report : FrameReport Rat} :
      Scrolled p (offset s) → S.Scrolls offset → p.frame S s now = .ok (report, p', s') →
      Scrolled p' (offset s')

/-- After every call of a run the surface is scrolled to where the layout is. -/
theorem Scrolled.offset_eq_scrollPosition {x : Rat} (h : Scrolled p x) :
    x = p.layout.scrollPosition := by
  induction h with
  | start hp =>
    obtain ⟨layout, hlayout, hp⟩ := bind_eq_ok.1 hp
    cases hp
    obtain ⟨u, -, hlayout⟩ := bind_eq_ok.1 hlayout
    cases hlayout
    rfl
  | input _ hr hp ih => exact ih.trans (respond_scrollPosition hr hp).symm
  | moved _ hfinite hp _ => exact (followScroll_scrollPosition hfinite hp).symm
  | frame _ hS hp ih => exact frame_offset hS hp ih

end Presenter

/-- A simulated surface is where it was scrolled to last. -/
theorem Simulated.scrolls {κ α : Type} [Scalar α] [Ord κ] [Std.TransOrd κ] [BEq κ] :
    (Simulated.surface : Surface (Simulated κ α) κ α).Scrolls Simulated.offset :=
  ⟨fun _ _ => rfl, fun _ _ _ => rfl, fun _ _ => rfl, fun _ _ _ => rfl, fun _ _ => rfl,
    fun _ _ => rfl, fun _ _ => rfl⟩

/-- On the way back to the first item a frame moves the eased scroll on, and its pass moves the
position once more, since the items are not as long as estimated. -/
theorem Presenter.Scrolled.offset_eq_scrollPosition_of_correcting :
    ∃ (p p₁ p' : Presenter Nat Rat) (s s₁ s' : Simulated Nat Rat) (report : FrameReport Rat)
      (pass : PassReport Rat),
      Scrolled p s.offset ∧ p.advance Simulated.surface s 32 = .ok (p₁, s₁) ∧
        s₁.offset ≠ s.offset ∧ p.frame Simulated.surface s 32 = .ok (report, p', s') ∧
        report.pass = some pass ∧ pass.scrollError ≠ 0 ∧
        s'.offset = p'.layout.scrollPosition := by
  -- The host has moved the surface to 60.
  let surface : Simulated Nat Rat :=
    { Simulated.blank ⟨⟨8, none, ⟨0, 0⟩⟩, some (4, 5), []⟩ with offset := 60 }
  have htest : ((ofOptions (⟨10, 5, 0, .vertical, true, 1⟩ : Options Rat) id true).toOption.any
      fun p => (((p.setTotal 30).setViewport 20 30).2.followScroll 60).toOption.any
        fun (_, p) => (p.frame Simulated.surface surface 16).toOption.any
          fun (_, p, s) => (p.smoothScrollToIndex 0 .start 16 200 .linear).toOption.any
            fun p => ((p.advance Simulated.surface s 32).toOption.any
                fun (_, s₁) => decide (s₁.offset ≠ s.offset)) &&
              (p.frame Simulated.surface s 32).toOption.any
                fun (report, _) => report.pass.any fun pass => decide (pass.scrollError ≠ 0)) =
      true := by
    decide +kernel
  obtain ⟨p₀, hstart, htest⟩ := exists_ok_of_any htest
  obtain ⟨⟨answer, p₁⟩, hmoved, htest⟩ := exists_ok_of_any htest
  obtain ⟨⟨report₁, p₂, s⟩, hfirst, htest⟩ := exists_ok_of_any htest
  obtain ⟨p, hsmooth, htest⟩ := exists_ok_of_any htest
  obtain ⟨hadvance, hframe⟩ := Bool.and_eq_true_iff.1 htest
  obtain ⟨⟨p₃, s₃⟩, hadvance, hoffset⟩ := exists_ok_of_any hadvance
  obtain ⟨⟨report, p', s'⟩, hframe, hpass⟩ := exists_ok_of_any hframe
  obtain ⟨pass, hreport, herror⟩ := (Option.any_eq_true _ _).1 hpass
  have hinputs := ((Scrolled.start hstart).input (r := .setTotal 30) nofun rfl).input
    (r := .setViewport 20 30) nofun rfl
  have hscrolled : Scrolled p s.offset :=
    ((hinputs.moved rfl hmoved).frame (s := surface) Simulated.scrolls hfirst).input
      (r := .smoothScrollToIndex 0 .start 16 200 .linear) nofun hsmooth
  exact ⟨p, p₃, p', s, s₃, s', report, pass, hscrolled, hadvance, of_decide_eq_true hoffset, hframe,
    hreport, of_decide_eq_true herror,
    (hscrolled.frame Simulated.scrolls hframe).offset_eq_scrollPosition⟩

end VirtualList
