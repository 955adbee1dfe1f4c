import VirtualList.Proofs.Layout.Remeasuring
import VirtualList.Proofs.Presenter.Echo
import VirtualList.Proofs.Presenter.MeasuringOrder
import VirtualList.Proofs.Presenter.Recording

/-!
# The order in which targets are walked does not matter

A frame walks the targets twice: it gives up those whose keys left the window, and it measures those
that are to be measured.  Both walks go in the order of the keys.  A presenter that keeps its
targets in a hash table walks them in no particular order, and in another one in every frame.

On a surface that does not show in what order its targets were given up or measured, it makes no
difference how they are walked: every frame of a run comes out the same, whatever the walks of the
frames before it were.  A surface that keeps track of the order, as a log of its calls does, makes
no difference either where it acts as one that does not.

## Key results

- `Walk`, `Presenter.frameBy`, `playBy`: frames and runs by other walks
- `Surface.Indifferent`: surfaces that do not show the order
- `releaseKey_comm`, `measureNext_comm`: two targets can be given up or measured in either order
- `frameBy_map`, `Reachable.playBy_map`: by any walks, a frame and a run are seen as if the walks
  went in the order of the keys
- `Reachable.walks_do_not_matter`: so it does not matter by which walks a run goes
-/

namespace VirtualList

open Std (ExtTreeMap ExtTreeSet)

/-- A list may be folded in any order if steps with elements that are apart can be swapped in every
state that the steps may lead to. -/
theorem foldl_eq_of_perm {β γ : Type} {step : β → γ → β} (good : β → Prop)
    (apart : γ → γ → Prop) {xs ys : List γ} (h : xs.Perm ys)
    (hsymm : ∀ {x y}, apart x y → apart y x) (hkeep : ∀ b, good b → ∀ x ∈ xs, good (step b x))
    (hswap : ∀ b, good b → ∀ x ∈ xs, ∀ y ∈ xs, apart x y →
      step (step b x) y = step (step b y) x)
    (hapart : xs.Pairwise apart) {b : β} (hb : good b) : ys.foldl step b = xs.foldl step b := by
  induction h generalizing b with
  | nil => rfl
  | @cons x xs ys _ ih =>
    rw [List.foldl_cons, List.foldl_cons]
    apply ih
    · exact fun b hb y hy => hkeep b hb y (List.mem_cons_of_mem x hy)
    · exact fun b hb y hy z hz =>
        hswap b hb y (List.mem_cons_of_mem x hy) z (List.mem_cons_of_mem x hz)
    · exact (List.pairwise_cons.1 hapart).2
    · exact hkeep b hb x List.mem_cons_self
  | swap x y xs =>
    have hxy : apart y x := (List.pairwise_cons.1 hapart).1 x List.mem_cons_self
    simp only [List.foldl_cons]
    rw [hswap b hb y List.mem_cons_self x (List.mem_cons_of_mem y List.mem_cons_self) hxy]
  | @trans xs ys zs h h' ih ih' =>
    have hmem {x : γ} : x ∈ ys → x ∈ xs := h.mem_iff.2
    rw [← ih hkeep hswap hapart hb]
    apply ih'
    · exact fun b hb x hx => hkeep b hb x (hmem hx)
    · exact fun b hb x hx y hy => hswap b hb x (hmem hx) y (hmem hy)
    · exact (h.pairwise_iff hsymm).1 hapart
    · exact hb

/-! ## Surfaces that do not show the order -/

namespace Surface

variable {σ κ α : Type}

/-- It does not show on the surface in what order two targets were given up or measured, and the
one measurement does not depend on the other. -/
structure Indifferent (S : Surface σ κ α) : Prop where
  answer : ∀ {k k'} s, k ≠ k' → (S.measure k' (S.measure k s).2).1 = (S.measure k' s).1
  measure : ∀ {k k'} s, k ≠ k' →
    (S.measure k' (S.measure k s).2).2 = (S.measure k (S.measure k' s).2).2
  release : ∀ {k k'} s, k ≠ k' → S.release k' (S.release k s) = S.release k (S.release k' s)

end Surface

/-- Simulated surfaces do not show the order. -/
theorem Simulated.indifferent {κ α : Type} [Scalar α] [Ord κ] [Std.TransOrd κ] [Std.LawfulEqOrd κ]
    [BEq κ] : (Simulated.surface : Surface (Simulated κ α) κ α).Indifferent where
  answer _ _ := rfl
  measure _ _ := rfl
  release {k k'} s _ := by
    have hcomm : (s.bound.erase k).erase k' = (s.bound.erase k').erase k := by
      refine ExtTreeMap.ext_getElem? fun a => ?_
      simp only [ExtTreeMap.getElem?_erase]
      split <;> split <;> rfl
    simp only [Simulated.surface, hcomm]

/-! ## Frames by other walks -/

/-- How a frame walks the targets that it gives up, and those that it measures. -/
structure Walk (κ : Type) where
  release : List κ → List κ
  measure : List (κ × Nat) → List (κ × Nat)
  release_perm : ∀ keys, (release keys).Perm keys
  measure_perm : ∀ targets, (measure targets).Perm targets

/-- The walk in the order of the keys. -/
def Walk.inOrder {κ : Type} : Walk κ := ⟨id, id, .refl, .refl⟩

section Frames

variable {σ κ α : Type} [Ord κ] [Std.TransOrd κ] [Scalar α]

namespace Stage

/-- Shows the items of a window, and gives up the targets of all other keys along a walk. -/
def reconcileBy (w : Walk κ) (S : Surface σ κ α) (f : Stage σ κ α) (items : List (PlacedItem α)) :
    Stage σ κ α :=
  let (next, f) := items.foldl (showNext S) (∅, f)
  let stale := w.release f.presenter.targets.keys
  stale.foldl (releaseKey S) { f with presenter := { f.presenter with targets := next } }

/-- Applies an event of the pass to the surface. -/
def deliverBy (w : Walk κ) (S : Surface σ κ α) (f : Stage σ κ α) : LayoutEvent α → Stage σ κ α
  | .itemsPlaced items => f.reconcileBy w S items
  | event => f.deliver S event

/-- Applies the events of a pass, and binds the targets anew if the data changed in place. -/
def showPassBy (w : Walk κ) (S : Surface σ κ α) (f : Stage σ κ α) (reasons : Reasons)
    (events : List (LayoutEvent α)) : Stage σ κ α :=
  let g := events.foldl (deliverBy w S) f
  if !placesItems events && reasons.contains .items then
    g.reconcileBy w S g.presenter.layout.published
  else
    g

/-- Runs a pass, shows its items and measures. -/
def runPassBy (w : Walk κ) (S : Surface σ κ α) (f : Stage σ κ α) (reasons : Reasons) :
    Except Fault (Stage σ κ α) := do
  let (pass, events, layout) ← f.presenter.layout.reflow
  let f := (f.withPass pass layout).showPassBy w S reasons events
  return (f.measureAlong S (w.measure (unmeasured f.presenter))).keepEasing

end Stage

namespace Presenter

/-- Runs one frame by a walk. -/
def frameBy (w : Walk κ) (S : Surface σ κ α) (p : Presenter κ α) (s : σ) (now : Nat) :
    Except Fault (FrameReport α × Presenter κ α × σ) := do
  let (p, s) ← p.advance S s now
  match p.scheduler.begin with
  | (none, scheduler) => return (.idle, { p with scheduler }, s)
  | (some reasons, scheduler) =>
    let f : Stage σ κ α :=
      ⟨{ p with scheduler }, s, { FrameReport.idle with reasons := some reasons }⟩
    let f := f.announceVisible S
    let f ← if reasons.needsPass then f.runPassBy w S reasons else pure f
    return (f.report, f.presenter, f.surface)

/-- Makes a move.  A frame goes by the walk. -/
def moveBy (w : Walk κ) (S : Surface σ κ α) (p : Presenter κ α) (s : σ) :
    Move κ α → Except Fault (Option (FrameReport α) × Presenter κ α × σ)
  | .frame now => do
    let (report, p, s) ← p.frameBy w S s now
    return (some report, p, s)
  | m => p.move S s m

/-- Makes moves one after the other, each frame by a walk of its own, and answers with the reports
of the frames. -/
def playBy (S : Surface σ κ α) (p : Presenter κ α) (s : σ) :
    List (Walk κ × Move κ α) → Except Fault (List (FrameReport α) × Presenter κ α × σ)
  | [] => .ok ([], p, s)
  | (w, m) :: rest => do
    let (report, p, s) ← p.moveBy w S s m
    let (reports, p, s) ← playBy S p s rest
    return (report.toList ++ reports, p, s)

end Presenter

theorem Stage.deliverBy_inOrder (S : Surface σ κ α) : deliverBy .inOrder S = deliver S := by
  funext f event
  cases event <;> rfl

theorem Stage.runPassBy_inOrder (S : Surface σ κ α) (f : Stage σ κ α) (reasons : Reasons) :
    f.runPassBy .inOrder S reasons = f.runPass S reasons := by
  have hshow (f : Stage σ κ α) (events : List (LayoutEvent α)) :
      f.showPassBy .inOrder S reasons events = f.showPass S reasons events := by
    unfold showPassBy
    rw [deliverBy_inOrder]
    rfl
  unfold runPassBy
  simp only [hshow]
  rfl

/-- A frame by the order of the keys is a frame. -/
theorem Presenter.frameBy_inOrder (S : Surface σ κ α) (p : Presenter κ α) (s : σ) (now : Nat) :
    p.frameBy .inOrder S s now = p.frame S s now := by
  unfold frameBy
  simp only [Stage.runPassBy_inOrder]
  rfl

theorem Presenter.moveBy_inOrder (S : Surface σ κ α) (p : Presenter κ α) (s : σ) (m : Move κ α) :
    p.moveBy .inOrder S s m = p.move S s m := by
  cases m with
  | frame now => simp only [moveBy, move, frameBy_inOrder]
  | _ => rfl

theorem Presenter.playBy_inOrder (S : Surface σ κ α) (p : Presenter κ α) (s : σ)
    (moves : List (Move κ α)) : p.playBy S s (moves.map (.inOrder, ·)) = p.play S s moves := by
  induction moves generalizing p s with
  | nil => rfl
  | cons m rest ih => simp only [List.map_cons, playBy, play, moveBy_inOrder, ih]

end Frames

/-! ## Giving up targets -/

section Releasing

variable {σ τ κ α : Type} [Ord κ] [Std.TransOrd κ] [Std.LawfulEqOrd κ] {S : Surface σ κ α}
  {T : Surface τ κ α} {φ : σ → τ}

/-- Marks are taken off in any order. -/
theorem erase_erase_comm (t : ExtTreeSet κ) (k k' : κ) :
    (t.erase k).erase k' = (t.erase k').erase k := by
  apply ExtTreeSet.ext_mem
  intro a
  simp only [ExtTreeSet.mem_erase]
  tauto

namespace Stage

/-- Two targets are given up in either order. -/
theorem releaseKey_comm (hS : S.Indifferent) (f : Stage σ κ α) {k k' : κ} (h : k ≠ k') :
    releaseKey S (releaseKey S f k) k' = releaseKey S (releaseKey S f k') k := by
  simp only [releaseKey, onSurface, hS.release _ h, erase_erase_comm _ k k']

/-- By any walk the same targets are seen to be given up. -/
theorem reconcileBy_map (h : T.Follows S φ) (hT : T.Indifferent) (w : Walk κ) (f : Stage σ κ α)
    (items : List (PlacedItem α)) :
    (f.reconcileBy w S items).map φ = (f.map φ).reconcile T items := by
  rw [reconcile_eq T (f.map φ) (foldl_showNext_map h items (∅, f))]
  unfold reconcileBy
  rcases items.foldl (showNext S) (∅, f) with ⟨next, g⟩
  simp only
  rw [← foldl_releaseKey_map h]
  apply (w.release_perm _).foldl_eq'
  intro k _ k' _ f
  by_cases hk : k = k'
  · rw [hk]
  · exact releaseKey_comm hT f hk

variable [Scalar α]

theorem deliverBy_map (h : T.Follows S φ) (hT : T.Indifferent) (w : Walk κ) (f : Stage σ κ α)
    (event : LayoutEvent α) : (f.deliverBy w S event).map φ = (f.map φ).deliver T event := by
  cases event with
  | itemsPlaced items => exact reconcileBy_map h hT w f items
  | _ => exact (deliver_map h f _).symm

theorem showPassBy_map (h : T.Follows S φ) (hT : T.Indifferent) (w : Walk κ) (f : Stage σ κ α)
    (reasons : Reasons) (events : List (LayoutEvent α)) :
    (f.showPassBy w S reasons events).map φ = (f.map φ).showPass T reasons events := by
  have hdeliver : events.foldl (deliver T) (f.map φ) = (events.foldl (deliverBy w S) f).map φ :=
    List.foldl_hom (map φ) fun f event => (deliverBy_map h hT w f event).symm
  simp only [showPass, showPassBy, hdeliver]
  rw [apply_ite (map φ), reconcileBy_map h hT]
  rfl

end Stage

end Releasing

/-! ## Measuring targets -/

section Measuring

variable {σ τ κ : Type} [Ord κ] [Std.TransOrd κ] [Std.LawfulEqOrd κ] {S : Surface σ κ Rat}
  {T : Surface τ κ Rat} {φ : σ → τ}

namespace Stage

/-- Two targets are measured in either order. -/
theorem measureNext_comm (hS : S.Indifferent) {x : Bool × Stage σ κ Rat}
    (hl : x.2.presenter.layout.Reachable) {a b : κ × Nat} (hkeys : a.1 ≠ b.1) (hitems : a.2 ≠ b.2)
    (ha : x.2.presenter.layout.Noted a.2) (hb : x.2.presenter.layout.Noted b.2) :
    measureNext S (measureNext S x a) b = measureNext S (measureNext S x b) a := by
  obtain ⟨touched, f⟩ := x
  obtain ⟨k, i⟩ := a
  obtain ⟨k', j⟩ := b
  simp only at hl hkeys hitems ha hb
  -- Both targets answer as they do when they are measured first.
  have hanswer := hS.answer f.surface hkeys
  have hanswer' := hS.answer f.surface hkeys.symm
  have hsurface := hS.measure f.surface hkeys
  rcases hm : S.measure k f.surface with ⟨answer, s⟩
  rcases hm' : S.measure k' f.surface with ⟨answer', s'⟩
  rw [hm, hm'] at hanswer hanswer' hsurface
  rcases hsecond : S.measure k' s with ⟨answer₁, t⟩
  rcases hsecond' : S.measure k s' with ⟨answer₁', t'⟩
  simp only [hsecond, hsecond'] at hanswer hanswer' hsurface
  subst hanswer hanswer' hsurface
  have hmarks := erase_erase_comm f.presenter.resized k k'
  cases answer₁' with
  | none =>
    cases answer₁ with
    | none => simp only [measureNext, measureTarget, hm, hm', hsecond, hsecond']
    | some m' =>
      simp only [measureNext, measureTarget, hm, hm', hsecond]
      rcases f.presenter.layout.record j m' with ⟨_ | called, layout⟩ <;>
        simp only [hsecond', Bool.or_false]
  | some m =>
    cases answer₁ with
    | none =>
      simp only [measureNext, measureTarget, hm, hm', hsecond']
      rcases f.presenter.layout.record i m with ⟨_ | called, layout⟩ <;>
        simp only [hsecond, Bool.or_false]
    | some m' =>
      obtain ⟨hrecord, hlayout⟩ := hl.record_comm hitems ha hb m m'
      obtain ⟨hrecord', -⟩ := hl.record_comm hitems.symm hb ha m' m
      simp only [measureNext, measureTarget, hm, hm']
      rcases hr : f.presenter.layout.record i m with ⟨called, layout⟩
      rcases hr' : f.presenter.layout.record j m' with ⟨called', layout'⟩
      rw [hr, hr'] at hrecord hrecord' hlayout
      rcases hrr : layout.record j m' with ⟨called₁, layout₁⟩
      rcases hrr' : layout'.record i m with ⟨called₁', layout₁'⟩
      simp only [hrr, hrr'] at hrecord hrecord' hlayout
      subst hrecord hrecord' hlayout
      cases called₁ <;> cases called₁' <;>
        simp only [hsecond, hsecond', hrr, hrr', hmarks, Bool.or_false, Bool.or_right_comm]

omit [Std.LawfulEqOrd κ] in
/-- Measuring a target takes no entry away. -/
theorem measureTarget_noted (S : Surface σ κ Rat) {f : Stage σ κ Rat} {k : Nat}
    (h : f.presenter.layout.Noted k) (key : κ) (i : Nat) :
    (measureTarget S f key i).2.presenter.layout.Noted k := by
  rw [measureTarget_layout]
  split
  · exact h
  · exact h.record i _

/-- Targets with keys and items of their own are measured in any order. -/
theorem foldl_measureNext_perm (hS : S.Indifferent) {f : Stage σ κ Rat}
    (hl : f.presenter.layout.Reachable) {targets walk : List (κ × Nat)}
    (hkeys : (targets.map Prod.fst).Nodup) (hitems : (targets.map Prod.snd).Nodup)
    (hnoted : ∀ x ∈ targets, f.presenter.layout.Noted x.2) (hwalk : walk.Perm targets)
    (touched : Bool) : walk.foldl (measureNext S) (touched, f) =
      targets.foldl (measureNext S) (touched, f) := by
  apply foldl_eq_of_perm (fun x : Bool × Stage σ κ Rat => x.2.presenter.layout.Reachable ∧
    ∀ target ∈ targets, x.2.presenter.layout.Noted target.2)
    (fun x y => x.1 ≠ y.1 ∧ x.2 ≠ y.2) hwalk.symm
  · exact fun h => ⟨h.1.symm, h.2.symm⟩
  · intro x hx target _
    exact ⟨(measureTarget_touches S x.2 target.1 target.2).reachable hx.1,
      fun other hother => measureTarget_noted S (hx.2 other hother) target.1 target.2⟩
  · exact fun x hx a ha b hb hapart =>
      measureNext_comm hS hx.1 hapart.1 hapart.2 (hx.2 a ha) (hx.2 b hb)
  · exact (List.pairwise_map.1 hkeys).and (List.pairwise_map.1 hitems)
  · exact ⟨hl, hnoted⟩

open Presenter (ShowsWindow)

/-- Right after a pass, measuring along a walk is measuring. -/
theorem measureAlong_eq_measureTargets (hS : S.Indifferent) (w : Walk κ) {f : Stage σ κ Rat}
    (hf : f.presenter.ShowsWindow) {l : Layout Rat} {report : PassReport Rat}
    {events : List (LayoutEvent Rat)}
    (hreflow : l.reflow = .ok (report, events, f.presenter.layout)) :
    f.measureAlong S (w.measure (unmeasured f.presenter)) = f.measureTargets S := by
  have hmeasured := foldl_measureNext_perm hS hf.layout (nodup_keys_unmeasured f.presenter)
    (unmeasured_items hf).1 (fun x hx => noted_of_mem_unmeasured hf hreflow hx)
    (w.measure_perm _) false
  unfold measureAlong
  rw [hmeasured]
  rfl

omit [Std.LawfulEqOrd κ] in
theorem measureAlong_map (h : T.Follows S φ) (f : Stage σ κ Rat) (walk : List (κ × Nat)) :
    (f.measureAlong S walk).map φ = (f.map φ).measureAlong T walk := by
  unfold measureAlong
  rw [foldl_measureNext_map h walk (false, f)]
  exact apply_ite (map φ) _ _ _

/-- By any walk a pass is seen as if the walk went in the order of the keys. -/
theorem runPassBy_map (h : T.Follows S φ) (hT : T.Indifferent) (w : Walk κ) {f : Stage σ κ Rat}
    (hf : f.presenter.ShowsWindow) (reasons : Reasons) :
    (f.runPassBy w S reasons).map (map φ) = (f.map φ).runPass T reasons := by
  cases hreflow : f.presenter.layout.reflow with
  | error fault =>
    simp only [runPassBy, runPass, map, hreflow]
    rfl
  | ok passed =>
    obtain ⟨pass, events, layout⟩ := passed
    have hreflow' : (f.map φ).presenter.layout.reflow = .ok (pass, events, layout) := hreflow
    have hrun : f.runPassBy w S reasons =
        let g := (f.withPass pass layout).showPassBy w S reasons events
        .ok (g.measureAlong S (w.measure (unmeasured g.presenter))).keepEasing := by
      simp only [runPassBy, hreflow]
      rfl
    have hshow : ((f.withPass pass layout).showPassBy w S reasons events).map φ =
        ((f.map φ).withPass pass layout).showPass T reasons events := showPassBy_map h hT w _ _ _
    obtain ⟨hshown, hlayout⟩ := showPass_showsWindow T (f := f.map φ) hf hreflow' reasons
    rw [hrun, runPass_of_reflow T reasons hreflow']
    rw [← hshow] at hshown hlayout ⊢
    generalize (f.withPass pass layout).showPassBy w S reasons events = g at hshown hlayout ⊢
    rw [← hlayout] at hreflow
    have hmeasured := measureAlong_eq_measureTargets hT w hshown hreflow
    show Except.ok ((g.measureAlong S (w.measure (unmeasured g.presenter))).keepEasing.map φ) = _
    rw [← keepEasing_map, measureAlong_map h]
    exact congrArg (fun g : Stage τ κ Rat => Except.ok g.keepEasing) hmeasured

end Stage

namespace Presenter

variable {p : Presenter κ Rat}

/-- By any walk a frame is seen as if the walk went in the order of the keys. -/
theorem frameBy_map (h : T.Follows S φ) (hT : T.Indifferent) (w : Walk κ) (hp : p.ShowsWindow)
    (s : σ) (now : Nat) : (p.frameBy w S s now).map (Prod.map id (Prod.map id φ)) =
      p.frame T (φ s) now := by
  unfold frameBy frame
  rw [advance_map h]
  cases hadvance : p.advance S s now with
  | error fault => rfl
  | ok advanced =>
    obtain ⟨p₁, s₁⟩ := advanced
    have hp₁ := hp.advance hadvance
    simp only [Except.map, bind, Except.bind, Prod.map, id]
    rcases p₁.scheduler.begin with ⟨_ | reasons, scheduler⟩
    · rfl
    · simp only
      have hstart : (⟨{ p₁ with scheduler }, φ s₁,
          { FrameReport.idle with reasons := some reasons }⟩ : Stage τ κ Rat) = Stage.map φ
            ⟨{ p₁ with scheduler }, s₁, { FrameReport.idle with reasons := some reasons }⟩ := rfl
      have hopen : (Stage.announceVisible S ⟨{ p₁ with scheduler }, s₁,
          { FrameReport.idle with reasons := some reasons }⟩).presenter.ShowsWindow := by
        rw [Stage.announceVisible_presenter]
        exact ⟨hp₁.layout, hp₁.targets⟩
      rw [hstart, Stage.announceVisible_map h]
      generalize Stage.announceVisible S _ = f at hopen ⊢
      rw [← Stage.runPassBy_map h hT w hopen]
      by_cases hneeds : reasons.needsPass = true
      · simp only [hneeds, if_true]
        cases f.runPassBy w S reasons <;> rfl
      · simp only [hneeds]
        rfl

/-- A move is seen as it is made on the other surface. -/
theorem moveBy_map (h : T.Follows S φ) (hT : T.Indifferent) (w : Walk κ) (hp : p.ShowsWindow)
    (s : σ) (m : Move κ Rat) : (p.moveBy w S s m).map (Prod.map id (Prod.map id φ)) =
      p.move T (φ s) m := by
  cases m with
  | frame now =>
    simp only [moveBy, move, ← frameBy_map h hT w hp]
    cases p.frameBy w S s now <;> rfl
  | input r =>
    simp only [moveBy, move]
    cases p.respond r <;> rfl
  | echo =>
    simp only [moveBy, move]
    cases p.followScroll p.layout.scrollPosition <;> rfl

/-- By any walks a run is seen as if the walks went in the order of the keys. -/
theorem Reachable.playBy_map (h : T.Follows S φ) (hT : T.Indifferent)
    (hp : Reachable (fun _ => True) (fun _ => True) p) (s : σ) {moves : List (Walk κ × Move κ Rat)}
    (hmoves : ∀ x ∈ moves, x.2.Admissible fun _ => True) :
    (p.playBy S s moves).map (Prod.map id (Prod.map id φ)) =
      p.play T (φ s) (moves.map Prod.snd) := by
  induction moves generalizing p s with
  | nil => rfl
  | cons x rest ih =>
    obtain ⟨w, m⟩ := x
    obtain ⟨hm, hrest⟩ := List.forall_mem_cons.1 hmoves
    have hmove := moveBy_map h hT w hp.showsWindow s m
    rw [List.map_cons, play_cons, ← hmove]
    simp only [playBy]
    cases hfirst : p.moveBy w S s m with
    | error fault => rfl
    | ok x =>
      obtain ⟨report, p₁, s₁⟩ := x
      rw [hfirst] at hmove
      have hmove' : p.move T (φ s) m = .ok (report, p₁, φ s₁) := hmove.symm
      have hnext := ih (hp.move (fun _ _ _ _ => trivial) hm hmove') s₁ hrest
      simp only [Except.map, bind, Except.bind, Prod.map, id, ← hnext]
      cases p₁.playBy S s₁ rest <;> rfl

/-- In exact arithmetic it does not matter how the frames of a run walk the targets that they give
up and those that they measure, with whatever keys, and on a surface that acts as one that does not
show the order.  By any walks the run ends in the same fault, or with the same reports and the same
presenter, which is to say the same layout, requests for frames, targets and marks; and nothing else
is seen of the surface. -/
theorem Reachable.walks_do_not_matter (h : T.Follows S φ) (hT : T.Indifferent)
    (hp : Reachable (fun _ => True) (fun _ => True) p) (s : σ) {moves : List (Walk κ × Move κ Rat)}
    (hmoves : ∀ x ∈ moves, x.2.Admissible fun _ => True) :
    (p.playBy S s moves).map (Prod.map id (Prod.map id φ)) =
      (p.play S s (moves.map Prod.snd)).map (Prod.map id (Prod.map id φ)) := by
  have hplain : ∀ x ∈ (moves.map Prod.snd).map ((.inOrder : Walk κ), ·),
      x.2.Admissible fun _ => True := by
    simp only [List.forall_mem_map]
    exact hmoves
  have hinOrder := hp.playBy_map h hT s hplain
  rw [playBy_inOrder, List.map_map] at hinOrder
  calc (p.playBy S s moves).map (Prod.map id (Prod.map id φ))
    _ = p.play T (φ s) (moves.map Prod.snd) := hp.playBy_map h hT s hmoves
    _ = p.play T (φ s) ((moves.map Prod.snd).map (Prod.snd ∘ ((.inOrder : Walk κ), ·))) :=
        congrArg (p.play T (φ s)) (List.map_id _).symm
    _ = (p.play S s (moves.map Prod.snd)).map (Prod.map id (Prod.map id φ)) := hinOrder.symm

end Presenter

end Measuring

/-- The targets are given up and measured against the order of their keys.  The log of the calls
tells the difference, and nothing else does. -/
theorem Presenter.Reachable.walks_do_not_matter_of_reversal :
    ∃ (p : Presenter Nat Rat) (s : Recorded (Simulated Nat Rat) Nat Rat)
      (moves : List (Walk Nat × Move Nat Rat)),
      Reachable (fun _ => True) (fun _ => True) p ∧
      ((p.playBy Simulated.surface.recorded s moves).toOption.any fun x =>
        (p.play Simulated.surface.recorded s (moves.map Prod.snd)).toOption.any fun y =>
          decide (x.2.2.calls ≠ y.2.2.calls)) = true ∧
      (p.playBy Simulated.surface.recorded s moves).map
        (Prod.map id (Prod.map id Recorded.surface)) =
        (p.play Simulated.surface.recorded s (moves.map Prod.snd)).map
        (Prod.map id (Prod.map id Recorded.surface)) := by
  let reversed : Walk Nat := ⟨List.reverse, List.reverse, List.reverse_perm, List.reverse_perm⟩
  have htest : ((ofOptions (⟨10, 5, 0, .vertical, true, 1⟩ : Options Rat) id true).toOption.any
      fun p => (p.playBy Simulated.surface.recorded uniformSurface
          (echoedCorrections.map (reversed, ·))).toOption.any fun x =>
        (p.play Simulated.surface.recorded uniformSurface
            ((echoedCorrections.map (reversed, ·)).map Prod.snd)).toOption.any fun y =>
          decide (x.2.2.calls ≠ y.2.2.calls)) = true := by
    decide +kernel
  obtain ⟨p, hstart, htest⟩ := exists_ok_of_any htest
  have hmoves : ∀ x ∈ echoedCorrections.map (reversed, ·), x.2.Admissible fun _ => True := by
    simp [echoedCorrections, Move.Admissible, Request.Admissible, Index.limit]
  have hp : Reachable (fun _ => True) (fun _ => True) p := .start trivial hstart
  exact ⟨p, uniformSurface, _, hp, htest, hp.walks_do_not_matter
    Simulated.surface.follows_recorded Simulated.indifferent uniformSurface hmoves⟩

end VirtualList
