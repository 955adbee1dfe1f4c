import VirtualList.Proofs.Layout.Convergence
import VirtualList.Proofs.Presenter.Wakefulness

/-!
# Frames come to rest

On a surface that measures what it shows, frames that follow one another come to an end of their
work.  The first of them may show new keys, and may find targets marked; from then on the targets
are tidy, and a frame that asks for another one has measured an item for the first time.  So at
most two frames more are needed than there were items never measured, and all frames after that
leave everything alone, the surface included.

## Key results

- `Tends`, `runPass_tends`: what a frame with a pass leaves to be measured
- `frames`, `Settles`: a frame at each of the given times, and how they end
- `AtRest`, `atRest_of_idle`: a presenter whose frames do nothing
- `OnSurface`, `OnSurface.awake`: runs on a surface, on which every target is bound
- `Awake.frame_tends`: a frame that asks for another one has measured an item for the first time
- `OnSurface.frames_come_to_rest`: the frames come to rest, unless a pass faults
-/

namespace VirtualList

open Std (ExtTreeMap ExtTreeSet)
open Presenter (JustShown)

namespace Stage

variable {σ κ α : Type} [Ord κ] [Std.TransOrd κ] [Scalar α]

/-! ## What is left to be measured -/

section Measures

variable {xs : List (κ × Nat)} {f g : Stage σ κ α} {called : Bool}

/-- Measuring leaves no more items to be measured. -/
theorem Measures.unmeasured_subset (hg : Measures xs f g called) :
    g.presenter.layout.unmeasured ⊆ f.presenter.layout.unmeasured := by
  intro i hi
  obtain ⟨hlt, hnot⟩ := Layout.mem_unmeasured.1 hi
  have htotal : g.presenter.layout.total = f.presenter.layout.total := by
    obtain ⟨book, corrections, resized, heq⟩ := hg.presenter_eq
    rw [heq]
  rw [htotal] at hlt
  exact Layout.mem_unmeasured.2 ⟨hlt, fun hold => hnot (hg.isMeasured_of i hold)⟩

/-- And fewer if one of the targets shows an item that was never measured. -/
theorem Measures.unmeasured_ssubset (hg : Measures xs f g called)
    (hnone : g.report.deferred = f.report.deferred) {x : κ × Nat} (hx : x ∈ xs)
    (hnew : x.2 ∈ f.presenter.layout.unmeasured) :
    g.presenter.layout.unmeasured ⊂ f.presenter.layout.unmeasured := by
  apply Finset.ssubset_iff_subset_ne.2
  refine ⟨hg.unmeasured_subset, fun heq => ?_⟩
  rw [← heq] at hnew
  exact (Layout.mem_unmeasured.1 hnew).2 (hg.measured hnone x hx)

variable [Std.LawfulEqOrd κ]

/-- Once all targets of a window are measured, they are tidy. -/
theorem Measures.tidy (hg : Measures (unmeasured f.presenter) f g called)
    (hnone : g.report.deferred = f.report.deferred) (h : JustShown f.presenter) :
    g.presenter.Tidy := by
  obtain ⟨book, corrections, resized, heq⟩ := hg.presenter_eq
  have htargets : g.presenter.targets = f.presenter.targets := by rw [heq]
  have hkeyOf : g.presenter.keyOf = f.presenter.keyOf := by rw [heq]
  constructor
  · rw [hkeyOf]
    exact h.keys
  · intro k i hi
    rw [htargets] at hi
    obtain ⟨item, hitem, rfl⟩ := h.exists_published hi
    have hlt := (h.within item hitem).1
    have hle := h.layout.total_le
    rw [hkeyOf]
    exact ⟨((h.shown k item.index).1 hi).1, by omega⟩
  · -- A mark that is left was on a target, and measuring has taken it off.
    rw [ExtTreeSet.eq_empty_iff_forall_not_mem]
    intro k hk
    have hold := hg.resized_sub k hk
    obtain ⟨i, hi⟩ := Option.isSome_iff_exists.1
      (ExtTreeMap.mem_iff_isSome_getElem?.1 (h.marks k hold))
    exact hg.unmarked hnone _ (mem_unmeasured.2 ⟨hi, Or.inl hold⟩) hk

end Measures

/-! ## A frame -/

variable [Std.LawfulEqOrd κ] {S : Surface σ κ α} {bound : κ → σ → Prop}

/-- What a frame with a pass leaves behind on a surface that attends to its targets. -/
structure Tends (f g : Stage σ κ α) : Prop where
  smooth : g.presenter.smooth = none
  tidy : g.presenter.Tidy
  unmeasured_subset : g.presenter.layout.unmeasured ⊆ f.presenter.layout.unmeasured
  /-- Where nothing was marked, another frame is asked for only after a first measurement. -/
  unmeasured_ssubset : f.presenter.Tidy → g.presenter.scheduler.isPending = true →
    g.presenter.layout.unmeasured ⊂ f.presenter.layout.unmeasured

/-- Measuring the targets of the window, which a pass has just laid out. -/
theorem measureTargets_tends (hS : S.Attends bound) {f : Stage σ κ α}
    (hshown : JustShown f.presenter) (hbound : f.Bound bound) (hfresh : f.report.deferred = 0)
    (hsmooth : f.presenter.smooth = none) (hidle : f.presenter.scheduler.isPending = false) :
    Tends f (f.measureTargets S) := by
  have hwithin := unmeasured_within hshown
  obtain ⟨called, g, hfold, hg, -, hnone⟩ :=
    foldl_measureNext hS.toTracks (unmeasured f.presenter) false hbound hwithin
  have hnone := hnone hS
  rw [Bool.false_or] at hfold
  obtain ⟨book, corrections, resized, heq⟩ := hg.presenter_eq
  have hsmooth' : g.presenter.smooth = none := by
    rw [heq]
    exact hsmooth
  have htidy := hg.tidy hnone hshown
  have hdeferred : ¬0 < g.report.deferred := by omega
  rw [measureTargets_eq S f hfold, decide_eq_false hdeferred, Bool.or_false]
  cases called with
  | false =>
    refine ⟨hsmooth', htidy, hg.unmeasured_subset, fun _ hpending => ?_⟩
    rw [if_neg Bool.false_ne_true, heq, hidle] at hpending
    cases hpending
  | true =>
    refine ⟨hsmooth', ⟨htidy.keys, htidy.own, htidy.unmarked⟩, hg.unmeasured_subset, fun h _ => ?_⟩
    -- Some target was measured, and since none was marked it was measured for the first time.
    obtain ⟨x, hx⟩ : ∃ x, x ∈ unmeasured f.presenter := by
      apply List.exists_mem_of_ne_nil
      intro hnil
      rw [hnil] at hfold
      cases hfold
    have hnew : x.2 ∈ f.presenter.layout.unmeasured := by
      rcases (mem_unmeasured.1 hx).2 with hmark | hnew
      · rw [h.unmarked] at hmark
        exact absurd hmark ExtTreeSet.not_mem_empty
      · exact Layout.mem_unmeasured.2 ⟨(hwithin x hx).2, by simp [hnew]⟩
    exact hg.unmeasured_ssubset hnone hx hnew

/-- While the window of a pass is shown, tidy targets stay so. -/
theorem showPass_tidy_of_reflow (S : Surface σ κ α) {f : Stage σ κ α} (reasons : Reasons)
    {pass : PassReport α} {events : List (LayoutEvent α)} {layout : Layout α}
    (hreflow : f.presenter.layout.reflow = .ok (pass, events, layout))
    (hitems : ∀ item ∈ layout.published, item.index ≤ Index.limit) (h : f.presenter.Tidy) :
    ((f.withPass pass layout).showPass S reasons events).presenter.Tidy := by
  exact showPass_tidy S (f := f.withPass pass layout) reasons ⟨h.keys, h.own, h.unmarked⟩ hitems
    (reflow_itemsPlaced hreflow).1

/-- A frame that runs a pass. -/
theorem runPass_tends (hS : S.Attends bound) {f g : Stage σ κ α} {reasons : Reasons}
    (hdue : f.Due reasons) (hbound : f.Bound bound) (hfresh : f.report.deferred = 0)
    (hsmooth : f.presenter.smooth = none) (hidle : f.presenter.scheduler.isPending = false)
    (hrun : f.runPass S reasons = .ok g) : Tends f g := by
  obtain ⟨pass, events, layout, hreflow, hg⟩ := runPass_eq_ok hrun
  have hshown := justShown_of_reflow (S := S) hdue hreflow
  have hbound₁ := showPass_bound hS.toTracks (f := f.withPass pass layout) reasons events hbound
  have hfresh₁ := (showPass_deferred S (f.withPass pass layout) reasons events).trans hfresh
  have hplan := showPass_keepsPlan S (f.withPass pass layout) reasons events
  have hlayout : ((f.withPass pass layout).showPass S reasons events).presenter.layout = layout :=
    hplan.layout
  have hitems : ∀ item ∈ layout.published, item.index ≤ Index.limit := by
    intro item hitem
    rw [← hlayout] at hitem
    have hlt := (hshown.within item hitem).1
    have hle := hshown.layout.total_le
    omega
  have htidy := showPass_tidy_of_reflow S reasons hreflow hitems
  generalize (f.withPass pass layout).showPass S reasons events = f₁ at *
  have hsmooth₁ : f₁.presenter.smooth = none := by
    have hsome := hplan.smooth
    change f₁.presenter.smooth.isSome = f.presenter.smooth.isSome at hsome
    rwa [hsmooth, Option.isSome_none, Option.isSome_eq_false_iff, Option.isNone_iff_eq_none] at hsome
  have hidle₁ : f₁.presenter.scheduler.isPending = false := by
    rw [hplan.scheduler]
    exact hidle
  have hend := measureTargets_tends hS hshown hbound₁ hfresh₁ hsmooth₁ hidle₁
  have hsame : f₁.presenter.layout.unmeasured = f.presenter.layout.unmeasured := by
    -- The pass leaves what is measured as it was.
    have hkept := Layout.reflow_keepsInputs hreflow
    ext i
    rw [hlayout, Layout.mem_unmeasured, Layout.mem_unmeasured, hkept.total,
      hkept.agrees.isMeasured_eq]
  rw [hg, keepEasing, hend.smooth]
  refine ⟨hend.smooth, hend.tidy, ?_, fun h => ?_⟩
  · rw [← hsame]
    exact hend.unmeasured_subset
  · rw [← hsame]
    exact hend.unmeasured_ssubset (htidy h)

end Stage

namespace Presenter

variable {σ κ α : Type} [Ord κ] [Std.TransOrd κ] [Scalar α]

/-! ## Frames that do nothing -/

/-- A frame does nothing, at whatever time and on whatever surface. -/
def AtRest (p : Presenter κ α) : Prop :=
  ∀ {σ : Type} (S : Surface σ κ α) (s : σ) (now : Nat), p.frame S s now = .ok (.idle, p, s)

omit [Std.TransOrd κ] in
theorem advance_of_smooth_eq_none {p : Presenter κ α} (h : p.smooth = none) (S : Surface σ κ α)
    (s : σ) (now : Nat) : p.advance S s now = .ok (p, s) := by
  unfold advance
  rw [h]
  rfl

/-- Without an eased scroll, a frame that was not asked for does nothing. -/
theorem atRest_of_idle {p : Presenter κ α} (hsmooth : p.smooth = none)
    (hidle : p.scheduler.isPending = false) : p.AtRest := by
  intro σ S s now
  have hbegin : p.scheduler.begin = (none, p.scheduler) := by
    rcases p.scheduler.begin_cases with ⟨-, hbegin⟩ | ⟨hpending, -⟩
    · exact hbegin
    · rw [Scheduler.isPending, hpending] at hidle
      cases hidle
  refine bind_eq_ok.2 ⟨(p, s), advance_of_smooth_eq_none hsmooth S s now, ?_⟩
  simp only [hbegin]
  rfl

/-- Without an eased scroll only its pass can keep a frame from ending. -/
theorem reflow_eq_error {p : Presenter κ α} (hsmooth : p.smooth = none) {S : Surface σ κ α} {s : σ}
    {now : Nat} {fault : Fault} (h : p.frame S s now = .error fault) :
    p.layout.reflow = .error fault := by
  have hlayout : ((p.opening s).announceVisible S).presenter.layout = p.layout := by
    rw [Stage.announceVisible_presenter]
    rfl
  rw [← hlayout]
  rcases bind_eq_error.1 h with hadvance | ⟨advanced, hadvance, h⟩
  · rw [advance_of_smooth_eq_none hsmooth] at hadvance
    cases hadvance
  rw [advance_of_smooth_eq_none hsmooth] at hadvance
  cases hadvance
  simp only at h
  rcases p.scheduler.begin_cases with ⟨-, hbegin⟩ | ⟨-, hbegin⟩ <;> rw [hbegin] at h
  · cases h
  · simp only at h
    split at h
    · -- Whatever follows the pass comes to an end.
      change ((p.opening s).announceVisible S).runPass S p.scheduler.pending >>= _ = _ at h
      cases hreflow : ((p.opening s).announceVisible S).presenter.layout.reflow with
      | error e =>
        rw [Stage.runPass, hreflow] at h
        cases h
        rfl
      | ok outcome =>
        obtain ⟨pass, events, layout⟩ := outcome
        rw [Stage.runPass_of_reflow S _ hreflow] at h
        cases h
    · cases h

/-! ## Frames that follow one another -/

/-- Runs a frame at each of the given times, and nothing in between. -/
def frames (S : Surface σ κ α) (p : Presenter κ α) (s : σ) :
    List Nat → Except Fault (Presenter κ α × σ)
  | [] => .ok (p, s)
  | now :: times => do
    let (_, p, s) ← p.frame S s now
    frames S p s times

theorem frames_cons {S : Surface σ κ α} {p p' : Presenter κ α} {s s' : σ} {now : Nat}
    {report : FrameReport α} (h : p.frame S s now = .ok (report, p', s')) (times : List Nat) :
    p.frames S s (now :: times) = p'.frames S s' times := by
  rw [frames, h]
  rfl

/-- Frames at the given times, at most `n` of them, come to rest with nothing left to do, or one of
the next `n` passes faults. -/
def Settles (S : Surface σ κ α) (p : Presenter κ α) (s : σ) (times : List Nat) (n : Nat) : Prop :=
  (∃ k < n, ∃ p' s' fault, p.frames S s (times.take k) = .ok (p', s') ∧
    p'.layout.reflow = .error fault ∧ p.frames S s (times.take (k + 1)) = .error fault) ∨
  ∃ k ≤ n, ∃ p' s', p.frames S s (times.take k) = .ok (p', s') ∧
    (p'.isComplete = true ∨ ((p'.layout.viewport.main == 0) = true ∧
      p'.layout.pin.isSome = true ∧ 0 < p'.layout.total)) ∧ p'.AtRest

namespace Settles

variable {S : Surface σ κ α} {p p' : Presenter κ α} {s s' : σ} {times : List Nat} {n : Nat}

/-- One frame more. -/
theorem cons {now : Nat} {report : FrameReport α} (hframe : p.frame S s now = .ok (report, p', s'))
    (h : p'.Settles S s' times n) : p.Settles S s (now :: times) (n + 1) := by
  rcases h with ⟨k, hk, p₁, s₁, fault, hframes, hfault, hend⟩ | ⟨k, hk, p₁, s₁, hframes, hrest⟩
  · refine Or.inl ⟨k + 1, by omega, p₁, s₁, fault, ?_, hfault, ?_⟩
    · rw [List.take_succ_cons, frames_cons hframe, hframes]
    · rw [List.take_succ_cons, frames_cons hframe, hend]
  · refine Or.inr ⟨k + 1, by omega, p₁, s₁, ?_, hrest⟩
    rw [List.take_succ_cons, frames_cons hframe, hframes]

theorem mono {m : Nat} (h : p.Settles S s times n) (hle : n ≤ m) : p.Settles S s times m := by
  rcases h with ⟨k, hk, hfault⟩ | ⟨k, hk, hrest⟩
  · exact Or.inl ⟨k, by omega, hfault⟩
  · exact Or.inr ⟨k, by omega, hrest⟩

/-- A pass that faults is the end. -/
theorem of_fault {now : Nat} {fault : Fault} (hsmooth : p.smooth = none)
    (hframe : p.frame S s now = .error fault) (hn : 0 < n) :
    p.Settles S s (now :: times) n := by
  refine Or.inl ⟨0, hn, p, s, fault, rfl, reflow_eq_error hsmooth hframe, ?_⟩
  rw [List.take_succ_cons, frames, hframe]
  rfl

end Settles

variable [Std.LawfulEqOrd κ]

/-- A quiet presenter is complete, unless an item waits to be brought into an empty viewport. -/
theorem Quiet.isComplete {p : Presenter κ α} (h : p.Quiet)
    (hidle : p.scheduler.isPending = false) : p.isComplete = true ∨
      ((p.layout.viewport.main == 0) = true ∧ p.layout.pin.isSome = true ∧ 0 < p.layout.total) := by
  cases hpin : p.layout.pin with
  | none =>
    have hsame : p.layout.unpin = p.layout := by rw [Layout.unpin, ← hpin]
    have hrest := h.isComplete_unpin hidle
    rw [hsame] at hrest
    exact Or.inl hrest
  | some pin =>
    rcases h.pin with hunpinned | ⟨hempty, hitems⟩
    · rw [hpin] at hunpinned
      cases hunpinned
    · exact Or.inr ⟨hempty, rfl, hitems⟩

/-- A presenter that asks for no frame has come to rest. -/
theorem Settles.of_idle {S : Surface σ κ α} {p : Presenter κ α} {s : σ} {times : List Nat} {n : Nat}
    (h : p.Awake) (hsmooth : p.smooth = none)
    (hidle : p.scheduler.isPending = false) : p.Settles S s times n :=
  Or.inr ⟨0, Nat.zero_le n, p, s, rfl,
    (h.quiet (h.coherent.needsPass_eq_false hidle)).isComplete hidle, atRest_of_idle hsmooth hidle⟩

/-! ## Runs on a surface -/

/-- The runs of a presenter on a surface: the presenters that they lead to, with the states of the
surface.  Between two calls the surface may change by itself, but for what is bound on it.

The conditions on the keys and on the surface are part of the setting of a run, and hold throughout
its history.  The keys may be replaced, but no two items ever have the same one: they would share a
target, so that one of them would never be measured.  And in every frame the surface keeps track of
what is bound on it, so that each measurement of a bound key that it answered with was valid; it may
also have answered with none.  A measurement that was refused would not be made up for: it takes the
mark off its target all the same and calls for no pass, so the item stays unmeasured and no frame
gets to it again before some input asks for one. -/
inductive OnSurface {σ : Type} (bound : κ → σ → Prop) : Presenter κ α → σ → Prop
  | start {options : Options α} {keyOf : Nat → κ} {listening : Bool} {p : Presenter κ α} {s : σ} :
      DistinctKeys keyOf → ofOptions options keyOf listening = .ok p → OnSurface bound p s
  | input {p p' : Presenter κ α} {s : σ} {r : Request κ α} :
      OnSurface bound p s → r.Admissible DistinctKeys → p.respond r = .ok p' →
      OnSurface bound p' s
  | frame {S : Surface σ κ α} {p p' : Presenter κ α} {s s' : σ} {now : Nat}
      {report : FrameReport α} :
      OnSurface bound p s → S.Tracks bound → p.frame S s now = .ok (report, p', s') →
      OnSurface bound p' s'
  | host {p : Presenter κ α} {s s' : σ} :
      OnSurface bound p s → (∀ k, bound k s → bound k s') → OnSurface bound p s'

section Runs

variable {S : Surface σ κ α} {bound : κ → σ → Prop} {p p' : Presenter κ α} {s s' : σ}

/-- In every state of a run the presenter is awake, and its targets are bound on the surface. -/
theorem OnSurface.awake [PartialEquivBEq α] (h : OnSurface bound p s) :
    p.Awake ∧ ∀ k ∈ p.targets, bound k s := by
  induction h with
  | start hkeys hp =>
    refine ⟨awake_of_ofOptions hkeys hp, fun k hk => ?_⟩
    obtain ⟨layout, -, hp⟩ := bind_eq_ok.1 hp
    cases hp
    exact absurd hk ExtTreeMap.not_mem_empty
  | input _ hr hp ih =>
    have hkept := respond_keepsAwake hr hp
    rw [hkept.targets]
    exact ⟨hkept.awake ih.1, ih.2⟩
  | frame _ hS hp ih => exact ih.1.frame hS ih.2 hp
  | host _ hkept ih => exact ⟨ih.1, fun k hk => hkept k (ih.2 k hk)⟩

/-- A frame that asks for another one leaves the targets tidy.  If they were so before, it has
measured an item for the first time. -/
theorem Awake.frame_tends (h : p.Awake) (hS : S.Attends bound) (hbound : ∀ k ∈ p.targets, bound k s)
    (hsmooth : p.smooth = none) {now : Nat} {report : FrameReport α}
    (hframe : p.frame S s now = .ok (report, p', s')) : p'.smooth = none ∧
      (p'.scheduler.isPending = true → p'.Tidy ∧ p'.layout.unmeasured ⊆ p.layout.unmeasured ∧
        (p.Tidy → p'.layout.unmeasured ⊂ p.layout.unmeasured)) := by
  obtain ⟨p₁, s₁, hadvance, hframe⟩ := frame_cases hframe
  rw [advance_of_smooth_eq_none hsmooth] at hadvance
  cases hadvance
  have hpresenter := Stage.announceVisible_presenter S (p.opening s)
  have hfresh : ((p.opening s).announceVisible S).report.deferred = 0 := by
    unfold Stage.announceVisible
    split <;> rfl
  have hopen : ((p.opening s).announceVisible S).Bound bound :=
    Stage.announceVisible_bound hS.toTracks hbound
  have hdue := Stage.due_opening S h.toInStep s
  rcases hframe with ⟨hidle, -, rfl, rfl⟩ | ⟨-, ⟨-, hpass⟩ | ⟨-, hend⟩⟩
  · -- No frame is due.
    refine ⟨hsmooth, fun hpending => ?_⟩
    rw [Scheduler.isPending, hidle] at hpending
    cases hpending
  · generalize (p.opening s).announceVisible S = f at *
    have hsmooth' : f.presenter.smooth = none := by
      rw [hpresenter]
      exact hsmooth
    have hidle : f.presenter.scheduler.isPending = false := by
      rw [hpresenter]
      rfl
    have htends := Stage.runPass_tends hS hdue hopen hfresh hsmooth' hidle hpass
    have hlayout : f.presenter.layout = p.layout := by
      rw [hpresenter]
      rfl
    have htidy (hp : p.Tidy) : f.presenter.Tidy := by
      rw [hpresenter]
      exact ⟨hp.keys, hp.own, hp.unmarked⟩
    rw [← hlayout]
    exact ⟨htends.smooth, fun hpending => ⟨htends.tidy, htends.unmeasured_subset,
      fun hp => htends.unmeasured_ssubset (htidy hp) hpending⟩⟩
  · -- The announcement is all that there was to be done.
    rw [hend] at hpresenter
    simp only at hpresenter
    rw [hpresenter]
    refine ⟨hsmooth, fun hpending => ?_⟩
    cases hpending

/-- With tidy targets every frame but the last measures an item for the first time. -/
theorem Awake.settles_of_tidy (hS : S.Attends bound) {times : List Nat} (h : p.Awake)
    (hbound : ∀ k ∈ p.targets, bound k s) (hsmooth : p.smooth = none) (htidy : p.Tidy)
    (htimes : p.layout.unmeasured.card < times.length) :
    p.Settles S s times (p.layout.unmeasured.card + 1) := by
  induction times generalizing p s with
  | nil => simp at htimes
  | cons now times ih =>
    cases hframe : p.frame S s now with
    | error fault => exact .of_fault hsmooth hframe (Nat.succ_pos _)
    | ok outcome =>
      obtain ⟨report, p', s'⟩ := outcome
      obtain ⟨hawake', hbound'⟩ := h.frame hS.toTracks hbound hframe
      obtain ⟨hsmooth', hmore⟩ := h.frame_tends hS hbound hsmooth hframe
      apply Settles.cons hframe
      cases hpending : p'.scheduler.isPending with
      | false => exact .of_idle hawake' hsmooth' hpending
      | true =>
        obtain ⟨htidy', -, hless⟩ := hmore hpending
        have hcard := Finset.card_lt_card (hless htidy)
        rw [List.length_cons] at htimes
        exact (ih hawake' hbound' hsmooth' htidy' (by omega)).mono (by omega)

/-- The first frame may find marks, and may show new keys. -/
theorem Awake.settles (hS : S.Attends bound) {times : List Nat} (h : p.Awake)
    (hbound : ∀ k ∈ p.targets, bound k s) (hsmooth : p.smooth = none)
    (htimes : p.layout.unmeasured.card + 2 ≤ times.length) :
    p.Settles S s times (p.layout.unmeasured.card + 2) := by
  cases times with
  | nil => simp at htimes
  | cons now times =>
    cases hframe : p.frame S s now with
    | error fault => exact .of_fault hsmooth hframe (Nat.succ_pos _)
    | ok outcome =>
      obtain ⟨report, p', s'⟩ := outcome
      obtain ⟨hawake', hbound'⟩ := h.frame hS.toTracks hbound hframe
      obtain ⟨hsmooth', hmore⟩ := h.frame_tends hS hbound hsmooth hframe
      apply Settles.cons hframe
      cases hpending : p'.scheduler.isPending with
      | false => exact .of_idle hawake' hsmooth' hpending
      | true =>
        obtain ⟨htidy', hsubset, -⟩ := hmore hpending
        have hcard := Finset.card_le_card hsubset
        rw [List.length_cons] at htimes
        exact (hawake'.settles_of_tidy hS hbound' hsmooth' htidy' (by omega)).mono (by omega)

/-- On a surface that attends to its targets, frames that follow one another come to rest with
nothing left to do, after at most two frames more than there are items never measured.  The
exceptions are a pass that faults, and an item that waits to be brought into an empty viewport.
From then on a frame leaves everything as it is, the surface included. -/
theorem OnSurface.frames_come_to_rest [PartialEquivBEq α] {times : List Nat} (hS : S.Attends bound)
    (h : OnSurface bound p s) (hsmooth : p.smooth = none)
    (htimes : p.layout.unmeasured.card + 2 ≤ times.length) :
    (∃ k < p.layout.unmeasured.card + 2, ∃ p' s' fault,
      p.frames S s (times.take k) = .ok (p', s') ∧ p'.layout.reflow = .error fault ∧
        p.frames S s (times.take (k + 1)) = .error fault) ∨
    ∃ k ≤ p.layout.unmeasured.card + 2, ∃ p' s',
      p.frames S s (times.take k) = .ok (p', s') ∧
        (p'.isComplete = true ∨ ((p'.layout.viewport.main == 0) = true ∧
          p'.layout.pin.isSome = true ∧ 0 < p'.layout.total)) ∧
        ∀ {τ : Type} (T : Surface τ κ α) (t : τ) (now : Nat),
          p'.frame T t now = .ok (.idle, p', t) := by
  obtain ⟨hawake, hbound⟩ := h.awake
  exact hawake.settles hS hbound hsmooth htimes

end Runs

/-- A surface that remembers which item each key shows.  Items are of two sizes, and what is
measured of a key that is not bound is broken. -/
def attentiveSurface : Surface (ExtTreeMap Nat Nat) Nat Rat where
  bind key i s := s.insert key i
  release key s := s.erase key
  place _ _ s := s
  measure key s :=
    (match s[key]? with
      | none => some ⟨-1, none, ⟨0, 0⟩⟩
      | some i => if i % 2 = 0 then some ⟨4, none, ⟨1, 2⟩⟩ else some ⟨9, none, ⟨0, 0⟩⟩, s)
  setScrollSize _ s := s
  scrollTo _ s := s

theorem attentiveSurface_attends : attentiveSurface.Attends fun key s => key ∈ s := by
  have hmeasured {key : Nat} {s : ExtTreeMap Nat Nat} (h : key ∈ s) :
      ∃ m, (attentiveSurface.measure key s).1 = some m ∧ m.isValid = true := by
    obtain ⟨i, hi⟩ := Option.isSome_iff_exists.1 (ExtTreeMap.mem_iff_isSome_getElem?.1 h)
    simp only [attentiveSurface, hi]
    split
    · exact ⟨_, rfl, by decide +kernel⟩
    · exact ⟨_, rfl, by decide +kernel⟩
  constructor
  case toTracks =>
    refine ⟨fun _ _ _ => ExtTreeMap.mem_insert_self, fun _ _ _ h => ?_, fun key s hne h => ?_,
      fun _ _ _ h => h, fun _ _ h => h, fun _ _ h => h, fun _ _ h => h, fun _ _ h => h,
      fun s m h hm => ?_⟩
    · exact ExtTreeMap.mem_insert.2 (Or.inr h)
    · exact ExtTreeMap.mem_erase.2 ⟨fun heq => hne (Std.compare_eq_eq_iff_eq.1 heq).symm, h⟩
    · obtain ⟨m', hm', hvalid⟩ := hmeasured h
      rw [hm] at hm'
      cases hm'
      exact hvalid
  case measured =>
    intro key s h
    obtain ⟨m, hm, -⟩ := hmeasured h
    rw [hm]
    rfl

/-- Nine items, of which three have been measured, get new keys, and a target has changed its
size. -/
theorem OnSurface.frames_come_to_rest_of_newKeys : ∃ (p : Presenter Nat Rat)
    (s : ExtTreeMap Nat Nat), OnSurface (fun key s => key ∈ s) p s ∧ p.smooth = none ∧
      p.layout.unmeasured.card = 6 ∧ p.resized.isEmpty = false ∧ p.isComplete = false ∧
      ∃ k ≤ 8, ∃ p' s', p.frames attentiveSurface s ((List.range 8).take k) = .ok (p', s') ∧
        p'.isComplete = true ∧ p'.AtRest := by
  -- The first frame measures three items.  After it every frame ends, and the viewport has a size.
  have htest : ((ofOptions (⟨10, 5, 0, .vertical, true, 1⟩ : Options Rat) id true).toOption.any
      fun p => (((p.setTotal 9).setViewport 20 30).2.frame attentiveSurface ∅ 0).toOption.any
        fun x => x.2.1.smooth.isNone && (x.2.1.layout.unmeasured.card == 6 &&
          (let p := (x.2.1.setKeyOf (· + 2)).itemResized 0
          !p.resized.isEmpty && (!p.isComplete && (List.range 9).all fun k =>
            (p.frames attentiveSurface x.2.2 ((List.range 8).take k)).toOption.any
              fun y => y.1.layout.viewport.main != 0)))) = true := by
    decide +kernel
  obtain ⟨p₀, hstart, htest⟩ := exists_ok_of_any htest
  obtain ⟨⟨report, p₁, s⟩, hframe, htest⟩ := exists_ok_of_any htest
  simp only [Bool.and_eq_true, Option.isNone_iff_eq_none, beq_iff_eq, Bool.not_eq_true',
    List.all_eq_true, List.mem_range] at htest
  obtain ⟨hsmooth, hcard, hmarked, hopen, hends⟩ := htest
  have hfits : 9 ≤ Index.limit := by decide
  have hkeys : DistinctKeys (· + 2) := fun i _ j _ h => by simpa using h
  have hinputs : OnSurface (fun key (s : ExtTreeMap Nat Nat) => key ∈ s)
      ((p₀.setTotal 9).setViewport 20 30).2 ∅ :=
    ((OnSurface.start (Set.injOn_id _) hstart).input (r := .setTotal 9) hfits rfl).input
      (r := .setViewport 20 30) trivial rfl
  have hrun := ((hinputs.frame attentiveSurface_attends.toTracks hframe).input
    (r := .setKeyOf (· + 2)) hkeys rfl).input (r := .itemResized 0) trivial rfl
  have hkept : ((p₁.setKeyOf (· + 2)).itemResized 0).layout = p₁.layout ∧
      ((p₁.setKeyOf (· + 2)).itemResized 0).smooth = none := by
    simp only [itemResized]
    split <;> exact ⟨rfl, hsmooth⟩
  rw [← hkept.1] at hcard
  have htimes : ((p₁.setKeyOf (· + 2)).itemResized 0).layout.unmeasured.card + 2 ≤
      (List.range 8).length := by
    rw [hcard, List.length_range]
  refine ⟨_, s, hrun, hkept.2, hcard, hmarked, hopen, ?_⟩
  rcases hrun.frames_come_to_rest attentiveSurface_attends hkept.2 htimes with
    ⟨k, hk, p', s', fault, -, -, hend⟩ | ⟨k, hk, p', s', hframes, hdone, hrest⟩
  · have hsome := hends (k + 1) (by omega)
    rw [hend] at hsome
    cases hsome
  · rw [hcard] at hk
    have hsome := hends k (by omega)
    rw [hframes] at hsome
    refine ⟨k, hk, p', s', hframes, hdone.resolve_right fun hempty => ?_, hrest⟩
    simp only [Except.toOption, Option.any_some, bne, hempty.1] at hsome
    cases hsome
end Presenter

end VirtualList
