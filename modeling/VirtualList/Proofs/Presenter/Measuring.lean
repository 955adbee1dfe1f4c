import VirtualList.Proofs.Presenter.Bindings
import VirtualList.Proofs.Presenter.Run
import VirtualList.Proofs.SizeBook.Record

/-!
# Measuring the targets

A frame measures the targets one after the other.  What comes of it is known by two facts about
the whole loop: whether a target had to be left for the next frame, and whether a measurement
called for a pass.

## Key results

- `Surface.Tracks`, `Surface.Attends`: surfaces that measure what is bound on them
- `measureTarget_cases`: a target is left for the next frame, or a measurement is entered
- `Touches`, `Unmarks`, `foldl_measureNext_unmarks`: what the loop does whatever the surface answers
- `Measures`, `foldl_measureNext`: what it does on a surface that keeps track of its targets
- `runPass_of_reflow`: a frame that runs a pass shows its items and then measures
-/

namespace VirtualList

open Std (ExtTreeMap ExtTreeSet)

namespace Surface

variable {σ κ α : Type} [Scalar α]

/-- Keys are bound on a surface until they are released, and what is measured of a bound key is
valid.  Of other keys it may measure anything. -/
structure Tracks (S : Surface σ κ α) (bound : κ → σ → Prop) : Prop where
  bind_self : ∀ key i s, bound key (S.bind key i s)
  bind : ∀ {k} key i s, bound k s → bound k (S.bind key i s)
  release : ∀ {k} key s, k ≠ key → bound k s → bound k (S.release key s)
  place : ∀ {k} key item s, bound k s → bound k (S.place key item s)
  measure : ∀ {k} key s, bound k s → bound k (S.measure key s).2
  setScrollSize : ∀ {k} size s, bound k s → bound k (S.setScrollSize size s)
  scrollTo : ∀ {k} position s, bound k s → bound k (S.scrollTo position s)
  windowChanged : ∀ {k} change s, bound k s → bound k (S.windowChanged change s)
  valid : ∀ {key} s m, bound key s → (S.measure key s).1 = some m → m.isValid = true

/-- The target of every bound key is laid out and can be measured. -/
structure Attends (S : Surface σ κ α) (bound : κ → σ → Prop) : Prop extends Tracks S bound where
  measured : ∀ {key} s, bound key s → (S.measure key s).1.isSome = true

/-- Where all measurements are valid, it does not matter what is bound. -/
theorem Answers.tracks {S : Surface σ κ α} (hS : S.Answers fun m => m.isValid = true) :
    S.Tracks fun _ _ => True where
  bind_self _ _ _ := trivial
  bind _ _ _ _ := trivial
  release _ _ _ _ := trivial
  place _ _ _ _ := trivial
  measure _ _ _ := trivial
  setScrollSize _ _ _ := trivial
  scrollTo _ _ _ := trivial
  windowChanged _ _ _ := trivial
  valid s m _ hm := hS _ s m hm

end Surface

namespace Stage

variable {σ κ α : Type} [Ord κ] [Std.TransOrd κ] [Scalar α]

/-- Every target is bound on the surface. -/
def Bound (bound : κ → σ → Prop) (f : Stage σ κ α) : Prop :=
  ∀ k ∈ f.presenter.targets, bound k f.surface

/-- One round of the loop, which collects whether a measurement called for a pass. -/
def measureNext (S : Surface σ κ α) (x : Bool × Stage σ κ α) (target : κ × Nat) :
    Bool × Stage σ κ α :=
  let (called, f) := measureTarget S x.2 target.1 target.2
  (x.1 || called, f)

theorem measureNext_eq {S : Surface σ κ α} {f g : Stage σ κ α} {key : κ} {i : Nat} {called : Bool}
    (h : measureTarget S f key i = (called, g)) (touched : Bool) :
    measureNext S (touched, f) (key, i) = (touched || called, g) := by
  simp only [measureNext]
  rw [h]

/-- The loop, and what it asks for in the end. -/
theorem measureTargets_eq (S : Surface σ κ α) (f : Stage σ κ α) {touched : Bool}
    {g : Stage σ κ α}
    (h : (unmeasured f.presenter).foldl (measureNext S) (false, f) = (touched, g)) :
    f.measureTargets S = if touched || decide (0 < g.report.deferred) then
      { g with presenter := g.presenter.invalidate .measurement } else g := by
  have hloop : f.measureTargets S =
      let x := (unmeasured f.presenter).foldl (measureNext S) (false, f)
      if x.1 || decide (0 < x.2.report.deferred) then
        { x.2 with presenter := x.2.presenter.invalidate .measurement } else x.2 := rfl
  rw [hloop, h]

/-- Measuring is all that happens to the surface. -/
theorem measureTarget_surface (S : Surface σ κ α) (f : Stage σ κ α) (key : κ) (i : Nat) :
    (measureTarget S f key i).2.surface = (S.measure key f.surface).2 := by
  unfold measureTarget
  split
  · rename_i s h
    rw [h]
  · rename_i m s h
    simp only
    split <;> rw [h]

/-- A target that is not laid out yet is left for the next frame; otherwise its measurement is
entered, and its mark is taken off. -/
theorem measureTarget_cases {S : Surface σ κ α} {f : Stage σ κ α} {key : κ} {i : Nat}
    (hS : ∀ m, (S.measure key f.surface).1 = some m → m.isValid = true)
    (hi : i < f.presenter.layout.total) :
    ∃ called g, measureTarget S f key i = (called, g) ∧
      (((S.measure key f.surface).1 = none ∧ g.presenter = f.presenter ∧ called = false ∧
          g.report.deferred = f.report.deferred + 1) ∨
        ∃ m corrections, g.report.deferred = f.report.deferred ∧
          g.presenter = { f.presenter with
            layout := { f.presenter.layout with
              book := f.presenter.layout.book.enter i m, corrections }
            resized := f.presenter.resized.erase key } ∧
          (f.presenter.layout.book.isMeasured i = false →
            called = f.presenter.layout.range.any (·.contains i))) := by
  unfold measureTarget
  split
  · rename_i s heq
    exact ⟨_, _, rfl, Or.inl ⟨by rw [heq], rfl, rfl, rfl⟩⟩
  · -- A valid measurement of an item of the list is never refused.
    rename_i m s heq
    have hvalid : m.isValid = true := hS m (by rw [heq])
    obtain ⟨called, corrections, hrecord, hfirst⟩ := Layout.record_eq_ok hi hvalid
    rw [hrecord]
    exact ⟨_, _, rfl, Or.inr ⟨m, corrections, rfl, rfl, hfirst⟩⟩

/-- Whatever the surface answers, measuring changes nothing but what is known of the sizes, and takes
marks off. -/
structure Touches (f g : Stage σ κ α) : Prop where
  presenter_eq : ∃ book corrections resized, g.presenter = { f.presenter with
    layout := { f.presenter.layout with book, corrections }, resized }
  reachable : f.presenter.layout.Reachable → g.presenter.layout.Reachable
  resized_sub : ∀ k ∈ g.presenter.resized, k ∈ f.presenter.resized

namespace Touches

theorem refl (f : Stage σ κ α) : Touches f f := ⟨⟨_, _, _, rfl⟩, id, fun _ h => h⟩

theorem trans {f g h : Stage σ κ α} (hg : Touches f g) (hh : Touches g h) : Touches f h where
  presenter_eq := by
    obtain ⟨_, _, _, heq⟩ := hg.presenter_eq
    obtain ⟨book, corrections, resized, heq'⟩ := hh.presenter_eq
    rw [heq] at heq'
    exact ⟨book, corrections, resized, heq'⟩
  reachable := hh.reachable ∘ hg.reachable
  resized_sub k hk := hg.resized_sub k (hh.resized_sub k hk)

end Touches

theorem measureTarget_touches (S : Surface σ κ α) (f : Stage σ κ α) (key : κ) (i : Nat) :
    Touches f (measureTarget S f key i).2 := by
  unfold measureTarget
  split
  · exact ⟨⟨_, _, _, rfl⟩, id, fun _ h => h⟩
  · rename_i m s hmeasure
    have hrecorded : Touches f ⟨{ f.presenter with
        layout := (f.presenter.layout.record i m).2
        resized := f.presenter.resized.erase key }, s, f.report⟩ := by
      refine ⟨?_, fun h => h.step (r := .record i m) trivial rfl, fun k hk => ?_⟩
      · obtain ⟨entered, corrections, heq, -⟩ := f.presenter.layout.recordAll_eq [(i, m)]
        rw [← Layout.recordAll_singleton, heq]
        exact ⟨_, _, _, rfl⟩
      · exact ExtTreeSet.mem_of_mem_erase hk
    -- The report is all that depends on the answer.
    simp only
    split <;> exact ⟨hrecorded.presenter_eq, hrecorded.reachable, hrecorded.resized_sub⟩

theorem foldl_measureNext_touches (S : Surface σ κ α) (xs : List (κ × Nat))
    (x : Bool × Stage σ κ α) : Touches x.2 (xs.foldl (measureNext S) x).2 :=
  List.foldlRecOn (motive := fun y : Bool × Stage σ κ α => Touches x.2 y.2) xs _ (.refl x.2)
    fun y hy target _ => hy.trans (measureTarget_touches S y.2 target.1 target.2)

/-- In the end another frame may be asked for. -/
theorem measureTargets_touches (S : Surface σ κ α) (f : Stage σ κ α) : ∃ g, Touches f g ∧
    ((f.measureTargets S).presenter = g.presenter ∨
      (f.measureTargets S).presenter = g.presenter.invalidate .measurement) := by
  refine ⟨_, foldl_measureNext_touches S (unmeasured f.presenter) (false, f), ?_⟩
  rw [measureTargets_eq S f rfl]
  split
  · exact Or.inr rfl
  · exact Or.inl rfl

/-- What comes of the marks on the targets `xs` when they are measured, whatever the surface
answers. -/
structure Unmarks (xs : List (κ × Nat)) (f g : Stage σ κ α) : Prop extends Touches f g where
  deferred_le : f.report.deferred ≤ g.report.deferred
  /-- Unless a target had to be left, none of them is marked. -/
  unmarked : g.report.deferred = f.report.deferred → ∀ x ∈ xs, x.1 ∉ g.presenter.resized

namespace Unmarks

theorem nil (f : Stage σ κ α) : Unmarks [] f f where
  toTouches := .refl f
  deferred_le := Nat.le_refl _
  unmarked _ := by simp

/-- A target that is left stays so to the end of the loop, and a mark that is off stays off. -/
theorem cons {x : κ × Nat} {rest : List (κ × Nat)} {f f₁ g : Stage σ κ α}
    (hf : Unmarks [x] f f₁) (hg : Unmarks rest f₁ g) : Unmarks (x :: rest) f g where
  toTouches := hf.toTouches.trans hg.toTouches
  deferred_le := Nat.le_trans hf.deferred_le hg.deferred_le
  unmarked hnone := by
    have hle := hf.deferred_le
    have hle' := hg.deferred_le
    have hfirst := hf.unmarked (by omega) x (List.mem_singleton_self x)
    refine List.forall_mem_cons.2 ⟨fun hk => hfirst (hg.resized_sub x.1 hk), ?_⟩
    exact hg.unmarked (by omega)

end Unmarks

/-- A target has to be left for the next frame, or its mark is taken off. -/
theorem measureTarget_unmarks [Std.LawfulEqOrd κ] (S : Surface σ κ α) (f : Stage σ κ α) (key : κ)
    (i : Nat) : Unmarks [(key, i)] f (measureTarget S f key i).2 := by
  refine ⟨measureTarget_touches S f key i, ?_, fun hnone x hx => ?_⟩
  · unfold measureTarget
    split
    · exact Nat.le_succ _
    · simp only
      split <;> exact Nat.le_refl _
  · cases List.mem_singleton.1 hx
    unfold measureTarget at hnone ⊢
    split at hnone
    · exact absurd hnone (Nat.succ_ne_self _)
    · have herased : key ∉ f.presenter.resized.erase key := by simp
      simp only
      split <;> exact herased

theorem foldl_measureNext_unmarks [Std.LawfulEqOrd κ] (S : Surface σ κ α) (xs : List (κ × Nat))
    (x : Bool × Stage σ κ α) : Unmarks xs x.2 (xs.foldl (measureNext S) x).2 := by
  induction xs generalizing x with
  | nil => exact .nil x.2
  | cons target rest ih =>
    exact (measureTarget_unmarks S x.2 target.1 target.2).cons (ih (measureNext S x target))

/-- What measuring the targets `xs` of a surface that keeps track of them does: from `f` it leads to `g`,
and `touched` says whether a measurement called for a pass. -/
structure Measures (xs : List (κ × Nat)) (f g : Stage σ κ α) (touched : Bool) : Prop
    extends Unmarks xs f g where
  /-- No measurement is lost. -/
  isMeasured_of : ∀ i, f.presenter.layout.book.isMeasured i = true →
    g.presenter.layout.book.isMeasured i = true
  /-- Unless a target had to be left, all of them are measured. -/
  measured : g.report.deferred = f.report.deferred → ∀ x ∈ xs,
    g.presenter.layout.book.isMeasured x.2 = true
  /-- Unless a measurement called for a pass, those in the window had been measured before. -/
  calls : g.report.deferred = f.report.deferred → touched = false → ∀ x ∈ xs,
    f.presenter.layout.range.any (·.contains x.2) = true →
    f.presenter.layout.book.isMeasured x.2 = true

namespace Measures

theorem nil (f : Stage σ κ α) : Measures [] f f false where
  toUnmarks := .nil f
  isMeasured_of _ h := h
  measured _ := by simp
  calls _ _ := by simp

/-- A target that is left stays so to the end of the loop. -/
theorem cons_of_deferred {x : κ × Nat} {rest : List (κ × Nat)} {f f₁ g : Stage σ κ α}
    {touched : Bool} (hf : Unmarks [x] f f₁) (hsame : f₁.presenter = f.presenter)
    (hlate : f₁.report.deferred = f.report.deferred + 1) (hg : Measures rest f₁ g touched) :
    Measures (x :: rest) f g touched where
  toUnmarks := hf.cons hg.toUnmarks
  isMeasured_of := by
    rw [← hsame]
    exact hg.isMeasured_of
  measured hnone := by
    have hle := hg.deferred_le
    omega
  calls hnone := by
    have hle := hg.deferred_le
    omega

/-- A target that is measured stays so to the end of the loop. -/
theorem cons_of_entered {key : κ} {i : Nat} {rest : List (κ × Nat)} {f f₁ g : Stage σ κ α}
    {called later : Bool} {m : Measurement α} {corrections : ExtTreeMap Nat α}
    (hf : Unmarks [(key, i)] f f₁) (hdeferred : f₁.report.deferred = f.report.deferred)
    (heq : f₁.presenter = { f.presenter with
      layout := { f.presenter.layout with
        book := f.presenter.layout.book.enter i m, corrections }
      resized := f.presenter.resized.erase key })
    (hfirst : f.presenter.layout.book.isMeasured i = false →
      called = f.presenter.layout.range.any (·.contains i))
    (hg : Measures rest f₁ g later) : Measures ((key, i) :: rest) f g (called || later) := by
  have hbook : f₁.presenter.layout.book = f.presenter.layout.book.enter i m := by rw [heq]
  have hrange : f₁.presenter.layout.range = f.presenter.layout.range := by rw [heq]
  -- What is measured after the first target.
  have hentered (k : Nat) : f₁.presenter.layout.book.isMeasured k = true ↔
      k = i ∨ f.presenter.layout.book.isMeasured k = true := by
    rw [hbook, SizeBook.isMeasured_enter]
  constructor
  case toUnmarks => exact hf.cons hg.toUnmarks
  case isMeasured_of => exact fun k hk => hg.isMeasured_of k ((hentered k).2 (Or.inr hk))
  case measured =>
    intro hnone
    rw [← hdeferred] at hnone
    exact List.forall_mem_cons.2 ⟨hg.isMeasured_of i ((hentered i).2 (Or.inl rfl)),
      hg.measured hnone⟩
  case calls =>
    intro hnone huncalled
    rw [← hdeferred] at hnone
    obtain ⟨rfl, rfl⟩ := Bool.or_eq_false_iff.1 huncalled
    -- A first measurement in the window would have called for a pass.
    have hself (hin : f.presenter.layout.range.any (·.contains i) = true) :
        f.presenter.layout.book.isMeasured i = true := by
      cases hm : f.presenter.layout.book.isMeasured i with
      | true => rfl
      | false =>
        have hcalled := hfirst hm
        rw [hin] at hcalled
        cases hcalled
    refine List.forall_mem_cons.2 ⟨hself, fun x hx hin => ?_⟩
    rw [← hrange] at hin
    rcases (hentered x.2).1 (hg.calls hnone rfl x hx hin) with heq' | hold
    · rw [hrange, heq'] at hin
      rw [heq']
      exact hself hin
    · exact hold

end Measures

/-- The loop over the targets.  On a surface that attends to them none is left. -/
theorem foldl_measureNext [Std.LawfulEqOrd κ] {S : Surface σ κ α} {bound : κ → σ → Prop}
    (hS : S.Tracks bound) (xs : List (κ × Nat)) (touched : Bool) {f : Stage σ κ α}
    (hbound : f.Bound bound)
    (hxs : ∀ x ∈ xs, x.1 ∈ f.presenter.targets ∧ x.2 < f.presenter.layout.total) :
    ∃ called g, xs.foldl (measureNext S) (touched, f) = (touched || called, g) ∧
      Measures xs f g called ∧ g.Bound bound ∧
      (S.Attends bound → g.report.deferred = f.report.deferred) := by
  induction xs generalizing touched f with
  | nil => exact ⟨false, f, by simp, .nil f, hbound, fun _ => rfl⟩
  | cons x rest ih =>
    obtain ⟨key, i⟩ := x
    obtain ⟨⟨hkey, hi⟩, hrest⟩ := List.forall_mem_cons.1 hxs
    rw [List.foldl_cons]
    obtain ⟨called, f₁, hmeasure, hcases⟩ :=
      measureTarget_cases (fun m => hS.valid f.surface m (hbound key hkey)) hi
    rw [measureNext_eq hmeasure]
    have hunmarks := measureTarget_unmarks S f key i
    have hsurface := measureTarget_surface S f key i
    rw [hmeasure] at hunmarks hsurface
    -- The targets are as before, and still bound.
    have htargets : f₁.presenter.targets = f.presenter.targets := by
      obtain ⟨_, _, _, heq⟩ := hunmarks.presenter_eq
      rw [heq]
    have hbound₁ : f₁.Bound bound := by
      intro k hk
      rw [htargets] at hk
      rw [hsurface]
      exact hS.measure key f.surface (hbound k hk)
    rcases hcases with ⟨hlate, hsame, rfl, hdeferred⟩ | ⟨m, corrections, hdeferred, heq, hfirst⟩
    · rw [← hsame] at hrest
      obtain ⟨later, g, hfold, hg, hend, -⟩ := ih (touched || false) hbound₁ hrest
      rw [Bool.or_false] at hfold ⊢
      refine ⟨later, g, hfold, .cons_of_deferred hunmarks hsame hdeferred hg, hend, fun hall => ?_⟩
      have hsome := hall.measured f.surface (hbound key hkey)
      rw [hlate] at hsome
      cases hsome
    · -- A measurement changes neither the list nor its window.
      have htotal : f₁.presenter.layout.total = f.presenter.layout.total := by rw [heq]
      rw [← htargets, ← htotal] at hrest
      obtain ⟨later, g, hfold, hg, hend, hnone⟩ := ih (touched || called) hbound₁ hrest
      rw [Bool.or_assoc] at hfold
      exact ⟨called || later, g, hfold, .cons_of_entered hunmarks hdeferred heq hfirst hg, hend,
        fun hall => (hnone hall).trans hdeferred⟩

/-! ## A pass -/

/-- Some event of a list places items. -/
def placesItems (events : List (LayoutEvent α)) : Bool :=
  events.any fun event => event matches .itemsPlaced _

omit [Scalar α] in
theorem placesItems_eq_false_iff {events : List (LayoutEvent α)} :
    placesItems events = false ↔ ∀ items, .itemsPlaced items ∉ events := by
  rw [placesItems, List.any_eq_false]
  constructor
  · intro h items hmem
    exact h _ hmem rfl
  · intro h event hmem
    cases event with
    | itemsPlaced items => exact absurd hmem (h items)
    | _ => exact Bool.false_ne_true

/-- A pass places items iff some of them lie elsewhere. -/
theorem placesItems_events (before after : Layout α) (remeasure : Bool) (moved : α) :
    placesItems (Layout.events before after remeasure moved) =
      (after.published != before.published) := by
  have hone (c : Prop) [Decidable c] (event : LayoutEvent α) :
      placesItems (if c then [event] else []) = (decide c && placesItems [event]) := by
    split <;> simp_all [placesItems]
  have happend (xs ys : List (LayoutEvent α)) :
      placesItems (xs ++ ys) = (placesItems xs || placesItems ys) := List.any_append
  simp only [Layout.events, happend, hone]
  simp [placesItems]

/-- The targets after the events of a pass, bound anew if the data changed in place. -/
def showPass (S : Surface σ κ α) (f : Stage σ κ α) (reasons : Reasons)
    (events : List (LayoutEvent α)) : Stage σ κ α :=
  let g := events.foldl (deliver S) f
  if !placesItems events && reasons.contains .items then
    g.reconcile S g.presenter.layout.published
  else
    g

theorem showPass_keepsPlan [Std.LawfulEqOrd κ] (S : Surface σ κ α) (f : Stage σ κ α) (reasons : Reasons)
    (events : List (LayoutEvent α)) :
    KeepsPlan f.presenter (f.showPass S reasons events).presenter := by
  have hplan := foldl_deliver_keepsPlan S f events
  unfold showPass
  split
  · exact hplan.trans (reconcile_keepsPlan S _ _)
  · exact hplan

theorem showPass_marksBound [Std.LawfulEqOrd κ] (S : Surface σ κ α) {f : Stage σ κ α} (reasons : Reasons)
    (events : List (LayoutEvent α)) (h : MarksBound f.presenter) :
    MarksBound (f.showPass S reasons events).presenter := by
  have hmarks := foldl_deliver_marksBound S events h
  unfold showPass
  split
  · exact reconcile_marksBound S _ hmarks
  · exact hmarks

/-- The frame with the outcome of a pass. -/
def withPass (f : Stage σ κ α) (pass : PassReport α) (layout : Layout α) : Stage σ κ α :=
  { f with
    presenter := { f.presenter with layout }
    report := { f.report with pass := some pass } }

/-- Another frame is asked for while a scroll is eased. -/
def keepEasing (f : Stage σ κ α) : Stage σ κ α :=
  if f.presenter.smooth.isSome then
    { f with presenter := f.presenter.invalidate .scroll }
  else
    f

/-- A pass shows its items and then measures. -/
theorem runPass_of_reflow (S : Surface σ κ α) {f : Stage σ κ α} (reasons : Reasons)
    {pass : PassReport α} {events : List (LayoutEvent α)} {layout : Layout α}
    (h : f.presenter.layout.reflow = .ok (pass, events, layout)) : f.runPass S reasons =
      .ok (((f.withPass pass layout).showPass S reasons events).measureTargets S).keepEasing := by
  simp only [runPass, h]
  rfl

theorem runPass_eq_ok {S : Surface σ κ α} {f g : Stage σ κ α} {reasons : Reasons}
    (h : f.runPass S reasons = .ok g) : ∃ pass events layout,
      f.presenter.layout.reflow = .ok (pass, events, layout) ∧
      g = (((f.withPass pass layout).showPass S reasons events).measureTargets S).keepEasing := by
  obtain ⟨⟨pass, events, layout⟩, hreflow, -⟩ := bind_eq_ok.1 h
  rw [runPass_of_reflow S reasons hreflow] at h
  exact ⟨pass, events, layout, hreflow, (Except.ok.inj h).symm⟩

end Stage

end VirtualList
