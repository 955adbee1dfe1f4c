import VirtualList.Proofs.Presenter.Bindings
import VirtualList.Proofs.Presenter.Measuring

/-!
# Frames on surfaces that act alike

A frame sees of a surface what it measures, and nothing else.  So where a map between the states
of two surfaces goes along with their operations, a frame does the same on both.  The log of a
surface goes along with the surface itself: to keep one does not change what a frame does.

## Key results

- `Surface.Follows`, `recorded_follows`: surfaces that act alike, and a surface with its log
- `frame_map`: a frame does the same on surfaces that act alike
- `frame_recorded`: a frame does the same whether its calls are recorded or not
-/

namespace VirtualList

open Std (ExtTreeMap)

variable {σ τ κ α : Type}

/-- The surface `T` follows `S`: on the images of its states under `φ` it acts and answers as `S`
does. -/
structure Surface.Follows (T : Surface τ κ α) (S : Surface σ κ α) (φ : σ → τ) : Prop where
  bind : ∀ key i s, T.bind key i (φ s) = φ (S.bind key i s)
  release : ∀ key s, T.release key (φ s) = φ (S.release key s)
  place : ∀ key item s, T.place key item (φ s) = φ (S.place key item s)
  measure : ∀ key s, T.measure key (φ s) = ((S.measure key s).1, φ (S.measure key s).2)
  setScrollSize : ∀ size s, T.setScrollSize size (φ s) = φ (S.setScrollSize size s)
  scrollTo : ∀ position s, T.scrollTo position (φ s) = φ (S.scrollTo position s)
  windowChanged : ∀ change s, T.windowChanged change (φ s) = φ (S.windowChanged change s)

/-- A surface acts as it does when its calls are recorded. -/
theorem Surface.follows_recorded (S : Surface σ κ α) : S.Follows S.recorded Recorded.surface :=
  ⟨fun _ _ _ => rfl, fun _ _ => rfl, fun _ _ _ => rfl, fun _ _ => rfl, fun _ _ => rfl,
    fun _ _ => rfl, fun _ _ => rfl⟩

variable [Ord κ]

/-- The frame under way on another surface. -/
def Stage.map (φ : σ → τ) (f : Stage σ κ α) : Stage τ κ α := ⟨f.presenter, φ f.surface, f.report⟩

variable {T : Surface τ κ α} {S : Surface σ κ α} {φ : σ → τ}

namespace Stage

theorem announceVisible_map (h : T.Follows S φ) (f : Stage σ κ α) :
    (f.map φ).announceVisible T = (f.announceVisible S).map φ := by
  unfold announceVisible
  simp only [map]
  split <;> simp only [onSurface, h.windowChanged]

variable [Std.TransOrd κ]

theorem showItem_map (h : T.Follows S φ) (next : ExtTreeMap κ Nat) (f : Stage σ κ α)
    (item : PlacedItem α) : showItem T next (f.map φ) item =
      ((showItem S next f item).1, (showItem S next f item).2.map φ) := by
  simp only [showItem, map, onSurface]
  split
  · simp only [h.bind, h.place]
  · split <;> simp only [h.bind, h.place]

theorem releaseKey_map (h : T.Follows S φ) (f : Stage σ κ α) (key : κ) :
    releaseKey T (f.map φ) key = (releaseKey S f key).map φ := by
  simp only [releaseKey, map, onSurface, h.release]

theorem foldl_showNext_map (h : T.Follows S φ) (items : List (PlacedItem α))
    (x : ExtTreeMap κ Nat × Stage σ κ α) : items.foldl (showNext T) (x.1, x.2.map φ) =
      ((items.foldl (showNext S) x).1, (items.foldl (showNext S) x).2.map φ) := by
  induction items generalizing x with
  | nil => rfl
  | cons item rest ih =>
    have hnext : showNext T (x.1, x.2.map φ) item =
        ((showNext S x item).1, (showNext S x item).2.map φ) := showItem_map h x.1 x.2 item
    rw [List.foldl_cons, List.foldl_cons, hnext, ih]

theorem foldl_releaseKey_map (h : T.Follows S φ) (keys : List κ) (f : Stage σ κ α) :
    keys.foldl (releaseKey T) (f.map φ) = (keys.foldl (releaseKey S) f).map φ :=
  List.foldl_hom (map φ) (releaseKey_map h)

theorem reconcile_map (h : T.Follows S φ) (f : Stage σ κ α) (items : List (PlacedItem α)) :
    (f.map φ).reconcile T items = (f.reconcile S items).map φ := by
  rw [reconcile_eq S f rfl, reconcile_eq T (f.map φ) (foldl_showNext_map h items (∅, f)),
    ← foldl_releaseKey_map h]
  rfl

variable [Scalar α]

theorem deliver_map (h : T.Follows S φ) (f : Stage σ κ α) (event : LayoutEvent α) :
    (f.map φ).deliver T event = (f.deliver S event).map φ := by
  cases event with
  | itemsPlaced items => exact reconcile_map h f items
  | windowChanged change => simp only [deliver, onSurface, map, h.windowChanged]
  | scrollSizeChanged size => simp only [deliver, onSurface, map, h.setScrollSize]
  | scrollMoved distance => simp only [deliver, onSurface, map, h.scrollTo]

theorem measureTarget_map (h : T.Follows S φ) (f : Stage σ κ α) (key : κ) (i : Nat) :
    measureTarget T (f.map φ) key i =
      ((measureTarget S f key i).1, (measureTarget S f key i).2.map φ) := by
  simp only [measureTarget, map, h.measure]
  rcases S.measure key f.surface with ⟨answer, s⟩
  cases answer with
  | none => rfl
  | some m =>
    simp only
    rcases f.presenter.layout.record i m with ⟨answer, layout⟩
    cases answer <;> rfl

theorem foldl_measureNext_map (h : T.Follows S φ) (walk : List (κ × Nat))
    (x : Bool × Stage σ κ α) : walk.foldl (measureNext T) (x.1, x.2.map φ) =
      ((walk.foldl (measureNext S) x).1, (walk.foldl (measureNext S) x).2.map φ) := by
  induction walk generalizing x with
  | nil => rfl
  | cons target rest ih =>
    have hnext : measureNext T (x.1, x.2.map φ) target =
        ((measureNext S x target).1, (measureNext S x target).2.map φ) := by
      simp only [measureNext]
      rw [measureTarget_map h]
    rw [List.foldl_cons, List.foldl_cons, hnext, ih]

theorem measureTargets_map (h : T.Follows S φ) (f : Stage σ κ α) :
    (f.map φ).measureTargets T = (f.measureTargets S).map φ := by
  rw [measureTargets_eq S f rfl, measureTargets_eq T (f.map φ)
    (foldl_measureNext_map h _ (false, f)), apply_ite (map φ)]
  rfl

theorem showPass_map (h : T.Follows S φ) (f : Stage σ κ α) (reasons : Reasons)
    (events : List (LayoutEvent α)) :
    (f.map φ).showPass T reasons events = (f.showPass S reasons events).map φ := by
  have hdeliver : events.foldl (deliver T) (f.map φ) = (events.foldl (deliver S) f).map φ :=
    List.foldl_hom (map φ) (deliver_map h)
  simp only [showPass, hdeliver]
  rw [apply_ite (map φ), ← reconcile_map h]
  rfl

omit [Std.TransOrd κ] [Scalar α] in
theorem keepEasing_map (φ : σ → τ) (f : Stage σ κ α) :
    (f.map φ).keepEasing = f.keepEasing.map φ := by
  rw [keepEasing, keepEasing, apply_ite (map φ)]
  rfl

theorem runPass_map (h : T.Follows S φ) (f : Stage σ κ α) (reasons : Reasons) :
    (f.map φ).runPass T reasons = (f.runPass S reasons).map (map φ) := by
  cases hreflow : f.presenter.layout.reflow with
  | error e =>
    simp only [runPass, map, hreflow]
    rfl
  | ok passed =>
    obtain ⟨pass, events, layout⟩ := passed
    have hreflow' : (f.map φ).presenter.layout.reflow = .ok (pass, events, layout) := hreflow
    have hpassed : (f.map φ).withPass pass layout = (f.withPass pass layout).map φ := rfl
    rw [runPass_of_reflow S reasons hreflow, runPass_of_reflow T reasons hreflow', hpassed,
      showPass_map h, measureTargets_map h, keepEasing_map]
    rfl

end Stage

namespace Presenter

variable [Scalar α]

theorem advance_map (h : T.Follows S φ) (p : Presenter κ α) (s : σ) (now : Nat) :
    p.advance T (φ s) now = (p.advance S s now).map (Prod.map id φ) := by
  unfold advance
  cases p.smooth with
  | none => rfl
  | some smooth =>
    simp only
    cases p.layout.revealPosition smooth.index smooth.align with
    | error e => rfl
    | ok destination =>
      simp only [bind, Except.bind]
      split
      · cases p.layout.pinTo smooth.index smooth.align <;> rfl
      · rw [h.scrollTo]
        split <;> rfl

variable [Std.TransOrd κ]

/-- A frame does the same on surfaces that act alike. -/
theorem frame_map (h : T.Follows S φ) (p : Presenter κ α) (s : σ) (now : Nat) :
    p.frame T (φ s) now = (p.frame S s now).map (Prod.map id (Prod.map id φ)) := by
  unfold frame
  rw [advance_map h]
  cases p.advance S s now with
  | error e => rfl
  | ok advanced =>
    obtain ⟨p, s⟩ := advanced
    simp only [Except.map, bind, Except.bind, Prod.map, id]
    rcases p.scheduler.begin with ⟨reasons, scheduler⟩
    cases reasons with
    | none => rfl
    | some reasons =>
      simp only
      have hstart : (⟨{ p with scheduler }, φ s, { FrameReport.idle with reasons := some reasons }⟩ :
          Stage τ κ α) = Stage.map φ
            ⟨{ p with scheduler }, s, { FrameReport.idle with reasons := some reasons }⟩ := rfl
      rw [hstart, Stage.announceVisible_map h, Stage.runPass_map h]
      generalize Stage.announceVisible S _ = f
      split
      · cases f.runPass S reasons <;> rfl
      · rfl

/-- A frame does the same whether its calls are recorded or not. -/
theorem frame_recorded (S : Surface σ κ α) (p : Presenter κ α) (r : Recorded σ κ α) (now : Nat) :
    p.frame S r.surface now =
      (p.frame S.recorded r now).map (Prod.map id (Prod.map id Recorded.surface)) :=
  frame_map S.follows_recorded p r now

end Presenter

end VirtualList
