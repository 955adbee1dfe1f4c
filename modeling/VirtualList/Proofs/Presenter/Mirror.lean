import VirtualList.Proofs.Presenter.CallLog
import VirtualList.Proofs.Presenter.Recording
import VirtualList.Proofs.Presenter.Wakefulness
import VirtualList.Proofs.Same

/-!
# The surface mirrors the layout

After every frame the targets are those of the published items, and what the surface was told last
is what the layout says.  Inputs between two frames may leave the surface behind, but then the next
frame has a reason to bring it up to date.

Scalars are compared as identical or as equal, since a target is not put in its place again where
the new position is another zero.

## Key results

- `Mirrors`: what the targets and the log say is what the layout says
- `Mirrors.told_exactly`: and says it exactly, if only identical scalars compare as equal
- `UpToDate`, `UpToDate.keepsShown`: what inputs leave of it
- `showPass_told`, `UpToDate.frame`: a frame tells the surface what it does not know yet
- `Logged.frame_mirrors`: after every frame of a run the surface mirrors the layout
-/

namespace VirtualList

open SurfaceCall
open Presenter (JustShown)

/-! ## What the surface knows -/

variable {κ α : Type} [Ord κ]

/-- Every item was put in its place last by the calls. -/
def ShownAt [BEq α] (calls : List (SurfaceCall κ α)) (keyOf : Nat → κ)
    (items : List (PlacedItem α)) : Prop :=
  ∀ item ∈ items, ∃ placed, lastPlaced calls (keyOf item.index) = some placed ∧ Same placed item

/-- What was announced last is the window of the layout; without an announcement it is still the
first one. -/
def KnowsWindow (told : Option WindowChange) (l : Layout α) : Prop :=
  match told with
  | some change => change.range = l.range ∧ change.stable = l.stable
  | none => l.range = none ∧ l.stable = true

/-- What was set last is the extent of the layout; if none was set it is still the least one. -/
def KnowsExtent [BEq α] (told : Option α) (l : Layout α) : Prop :=
  match told with
  | some size => Same size l.scrollSize
  | none => Same l.options.minScrollSize l.scrollSize

/-- Where keys do not collide, the item that is shown last under the key of an item is this one. -/
theorem readItems_placed? [Std.LawfulEqOrd κ] {keyOf : Nat → κ} (hkeys : DistinctKeys keyOf)
    {items : List (PlacedItem α)} (hindex : ∀ item ∈ items, item.index ≤ Index.limit)
    (hnodup : (items.map PlacedItem.index).Nodup) {item : PlacedItem α} (hitem : item ∈ items) :
    readItems (placed? (keyOf item.index)) keyOf items = some item := by
  have hself : placed? (keyOf item.index) (.place (keyOf item.index) item) = some item :=
    if_pos Std.ReflCmp.compare_self
  cases h : readItems (placed? (keyOf item.index)) keyOf items with
  | none =>
    have hnone := List.findSome?_eq_none_iff.1 h item (List.mem_reverse.2 hitem)
    rw [hself] at hnone
    cases hnone
  | some placed =>
    obtain ⟨x, hx, hplaced⟩ := List.exists_of_findSome?_eq_some h
    rw [List.mem_reverse] at hx
    simp only [placed?, Option.ite_none_right_eq_some, Option.some.injEq] at hplaced
    obtain ⟨hkey, rfl⟩ := hplaced
    have heq : x.index = item.index :=
      hkeys (hindex x hx) (hindex item hitem) (Std.LawfulEqCmp.eq_of_compare hkey)
    rw [List.inj_on_of_nodup_map hnodup hx hitem heq]

variable [Std.TransOrd κ] [Scalar α]

namespace Presenter

/-- The targets are those of the published items, and what the surface was told last is what the
layout says. -/
structure Mirrors (p : Presenter κ α) (calls : List (SurfaceCall κ α)) : Prop where
  targets : Shows p.targets p.keyOf p.layout.published
  placed : ∀ k i, p.targets[k]? = some i → ∃ item placed, p.layout.item? i = some item ∧
    lastPlaced calls k = some placed ∧ Same placed item
  window : KnowsWindow (lastWindow calls) p.layout
  extent : KnowsExtent (lastScrollSize calls) p.layout

/-- Where only identical scalars compare as equal, the surface was told just what the layout
says. -/
theorem Mirrors.told_exactly [LawfulBEq α] {p : Presenter κ α} {calls : List (SurfaceCall κ α)}
    (h : p.Mirrors calls) :
    (∀ k i, p.targets[k]? = some i →
      ∃ item, p.layout.item? i = some item ∧ lastPlaced calls k = some item) ∧
    (lastScrollSize calls).getD p.layout.options.minScrollSize = p.layout.scrollSize := by
  constructor
  · intro k i hi
    obtain ⟨item, placed, hitem, hplaced, hsame⟩ := h.placed k i hi
    rw [hsame.eq] at hplaced
    exact ⟨item, hitem, hplaced⟩
  · have hextent := h.extent
    cases hlast : lastScrollSize calls with
    | none =>
      rw [hlast] at hextent
      exact Same.eq hextent
    | some size =>
      rw [hlast] at hextent
      exact Same.eq hextent

/-- The surface is up to date, as far as no reason is given to bring it so. -/
structure UpToDate (p : Presenter κ α) (calls : List (SurfaceCall κ α)) : Prop
    extends InStep p where
  placed : p.scheduler.pending.contains .items = false →
    ShownAt calls p.keyOf p.layout.published
  /-- A window that the surface has not been told about counts as announced. -/
  window : KnowsWindow (p.visible.or (lastWindow calls)) p.layout
  waiting : p.visible.isSome = true → p.scheduler.isPending = true
  extent : KnowsExtent (lastScrollSize calls) p.layout

namespace UpToDate

variable {p p' : Presenter κ α} {calls : List (SurfaceCall κ α)}

/-- Inputs leave the surface up to date, as far as no reason is given. -/
theorem keepsShown (h : p.UpToDate calls) (hk : KeepsShown p p') : p'.UpToDate calls where
  toInStep := hk.inStep h.toInStep
  placed hitems := by
    obtain ⟨hold, hkeys⟩ := hk.items hitems
    rw [hkeys, hk.published]
    exact h.placed hold
  window := by
    rcases hk.visible with ⟨hrange, hvisible⟩ | ⟨-, change, hvisible, hrange, hstable⟩
    · have hwindow := h.window
      rw [hvisible]
      simpa only [KnowsWindow, hrange, hk.stable] using hwindow
    · rw [hvisible]
      exact ⟨hrange, hstable⟩
  waiting hsome := by
    rcases hk.visible with ⟨-, hvisible⟩ | ⟨hpending, -⟩
    · rw [hvisible] at hsome
      exact hk.pending (h.waiting hsome)
    · exact hpending
  extent := by
    have hextent := h.extent
    simpa only [KnowsExtent, hk.options, hk.scrollSize] using hextent

/-- Calls that none of the readings takes note of do not matter. -/
theorem congr (h : p.UpToDate calls) {calls' : List (SurfaceCall κ α)}
    (hread : ∀ {β : Type} {read : SurfaceCall κ α → Option β}, Overlooks read →
      calls'.findSome? read = calls.findSome? read) : p.UpToDate calls' where
  toInStep := h.toInStep
  placed hitems item hitem := by
    rw [lastPlaced, hread (overlooks_placed? _)]
    exact h.placed hitems item hitem
  window := by
    rw [lastWindow, hread overlooks_window?]
    exact h.window
  waiting := h.waiting
  extent := by
    rw [lastScrollSize, hread overlooks_scrollSize?]
    exact h.extent

end UpToDate

/-- The surface is up to date, and nothing is left to be told to it. -/
structure Told (p : Presenter κ α) (calls : List (SurfaceCall κ α)) : Prop
    extends UpToDate p calls where
  items : p.scheduler.pending.contains .items = false
  untold : p.visible = none

namespace Told

variable {p : Presenter κ α} {calls : List (SurfaceCall κ α)}

/-- With everything told, the surface mirrors the layout. -/
theorem mirrors (h : p.Told calls) : p.Mirrors calls where
  targets := h.shows h.items
  placed k i hi := by
    obtain ⟨rfl, hmem⟩ := (h.shows h.items k i).1 hi
    -- The item that is found under the index is one that was shown.
    obtain ⟨x, hx, hindex⟩ := List.mem_map.1 hmem
    have hfound : (p.layout.item? i).isSome = true :=
      List.find?_isSome.2 ⟨x, hx, by simp [hindex]⟩
    obtain ⟨item, hitem⟩ := Option.isSome_iff_exists.1 hfound
    obtain rfl : item.index = i := by simpa using List.find?_some hitem
    obtain ⟨placed, hplaced, hsame⟩ := h.placed h.items item (List.mem_of_find?_eq_some hitem)
    exact ⟨item, placed, hitem, hplaced, hsame⟩
  window := by
    have hwindow := h.window
    rwa [h.untold, Option.none_or] at hwindow
  extent := h.extent

/-- To ask for another frame leaves nothing to be told, unless the data changed in place. -/
theorem invalidate (h : p.Told calls) {r : Reasons} (hr : r.contains .items = false) :
    (p.invalidate r).Told calls where
  toUpToDate := h.toUpToDate.keepsShown ((KeepsShown.refl p).invalidate r)
  items := by
    rw [Presenter.invalidate, Scheduler.pending_invalidate, Reasons.contains_items_union, h.items,
      hr]
    rfl
  untold := h.untold

end Told

end Presenter

/-! ## Frames -/

namespace Stage

variable {σ : Type} {S : Surface σ κ α} {f g : Stage (Recorded σ κ α) κ α}

/-- A frame under way of which the surface knows the window of the pass before, unless the data
changed in place.  No visible part is left to be announced. -/
structure Ready (f : Stage (Recorded σ κ α) κ α) (reasons : Reasons) : Prop
    extends Due f reasons where
  placed : reasons.contains .items = false →
    ShownAt f.surface.calls f.presenter.keyOf f.presenter.layout.published
  window : KnowsWindow (lastWindow f.surface.calls) f.presenter.layout
  extent : KnowsExtent (lastScrollSize f.surface.calls) f.presenter.layout
  untold : f.presenter.visible = none

/-- Once the visible part is announced, the surface knows of it. -/
theorem ready_opening {p : Presenter κ α} {s : Recorded σ κ α} (h : p.UpToDate s.calls) :
    Ready ((p.opening s).announceVisible S.recorded) p.scheduler.pending := by
  have hpresenter := announceVisible_presenter S.recorded (p.opening s)
  -- The announcement is all that the surface is told.
  have hread {β : Type} {read : SurfaceCall κ α → Option β}
      (hnone : ∀ change, read (.windowChanged change) = none) :
      ((p.opening s).announceVisible S.recorded).surface.calls.findSome? read =
        s.calls.findSome? read := announceVisible_reading_of_none S (p.opening s) hnone
  refine ⟨due_opening S.recorded h.toInStep s, ?_, ?_, ?_, ?_⟩ <;> rw [hpresenter]
  · intro hitems item hitem
    rw [lastPlaced, hread fun _ => rfl]
    exact h.placed hitems item hitem
  · have hwindow : lastWindow ((p.opening s).announceVisible S.recorded).surface.calls =
        p.visible.or (lastWindow s.calls) := by
      refine (announceVisible_reading S (p.opening s)).trans ?_
      show (p.visible.bind _).or (lastWindow s.calls) = _
      cases p.visible <;> rfl
    rw [hwindow]
    exact h.window
  · rw [lastScrollSize, hread fun _ => rfl]
    exact h.extent

/-! ## After a pass -/

variable {before after : Layout α} {remeasure : Bool} {moved : α} {reasons : Reasons}

/-- The events of a pass bring the surface's window up to date. -/
theorem showPass_knowsWindow [Std.LawfulEqOrd κ]
    (hwindow : KnowsWindow (lastWindow f.surface.calls) before) :
    KnowsWindow (lastWindow (f.showPass S.recorded reasons
      (Layout.events before after remeasure moved)).surface.calls) after := by
  have hitems (items : List (PlacedItem α)) :
      readItems window? f.presenter.keyOf items = none :=
    List.findSome?_eq_none_iff.2 fun _ _ => rfl
  have hread := showPass_reading S f overlooks_window? reasons
    (Layout.events before after remeasure moved)
  rw [events_findSome?] at hread
  simp only [hitems, window?, ite_self, Option.none_or, Option.or_none] at hread
  show KnowsWindow (reading window? _) after
  rw [hread]
  split
  · exact ⟨rfl, rfl⟩
  · rename_i hsame
    simp only [ne_eq, not_or, not_not] at hsame
    obtain ⟨hrange, hstable, -⟩ := hsame
    rw [Option.none_or]
    show KnowsWindow (lastWindow f.surface.calls) after
    simpa only [KnowsWindow, hrange, hstable] using hwindow

/-- So they do the extent. -/
theorem showPass_knowsExtent [Std.LawfulEqOrd κ] [PartialEquivBEq α]
    (hoptions : after.options = before.options)
    (hextent : KnowsExtent (lastScrollSize f.surface.calls) before) :
    KnowsExtent (lastScrollSize (f.showPass S.recorded reasons
      (Layout.events before after remeasure moved)).surface.calls) after := by
  have hitems (items : List (PlacedItem α)) :
      readItems scrollSize? f.presenter.keyOf items = none :=
    List.findSome?_eq_none_iff.2 fun _ _ => rfl
  have hread := showPass_reading S f overlooks_scrollSize? reasons
    (Layout.events before after remeasure moved)
  rw [events_findSome?] at hread
  simp only [hitems, scrollSize?, ite_self, Option.none_or, Option.or_none] at hread
  show KnowsExtent (reading scrollSize? _) after
  rw [hread]
  split
  · exact Or.inl rfl
  · rename_i hsame
    rw [Bool.not_eq_true, bne, Bool.not_eq_false'] at hsame
    rw [Option.none_or]
    show KnowsExtent (lastScrollSize f.surface.calls) after
    unfold KnowsExtent at *
    rw [hoptions]
    split at hextent <;> exact hextent.trans_beq hsame

/-- And the places of the items. -/
theorem showPass_shownAt [Std.LawfulEqOrd κ] [PartialEquivBEq α]
    (hkeys : DistinctKeys f.presenter.keyOf) (hpublished : f.presenter.layout.published = after.published)
    (hindex : ∀ item ∈ after.published, item.index ≤ Index.limit)
    (hnodup : (after.published.map PlacedItem.index).Nodup)
    (hplaced : reasons.contains .items = false →
      ShownAt f.surface.calls f.presenter.keyOf before.published) :
    ShownAt (f.showPass S.recorded reasons
      (Layout.events before after remeasure moved)).surface.calls f.presenter.keyOf
      after.published := by
  intro item hitem
  have hread := showPass_reading S f (overlooks_placed? (f.presenter.keyOf item.index)) reasons
    (Layout.events before after remeasure moved)
  have hself := readItems_placed? hkeys hindex hnodup hitem
  rw [events_findSome?, placesItems_events, hpublished, hself] at hread
  simp only [placed?, ite_self, Option.none_or, Option.or_none] at hread
  show ∃ placed, reading (placed? _) _ = some placed ∧ Same placed item
  rw [hread]
  by_cases hmoved : (after.published != before.published) = true
  · -- The items lie elsewhere, so they were placed.
    simp only [hmoved, if_true, Option.some_or]
    split <;> exact ⟨item, rfl, .refl item⟩
  · simp only [hmoved, Bool.not_false, Bool.true_and]
    cases hitems : reasons.contains .items with
    | true => exact ⟨item, rfl, .refl item⟩
    | false =>
      -- Each lies where it was, and was placed there before.
      rw [Bool.not_eq_true, bne, Bool.not_eq_false'] at hmoved
      obtain ⟨old, hold, heq⟩ := exists_beq_of_mem hmoved hitem
      obtain ⟨placed, hplaced, hsame⟩ := hplaced hitems old hold
      rw [(placedItem_beq_iff.1 heq).1]
      exact ⟨placed, hplaced, hsame.trans_beq heq⟩

/-- Everything that a pass changed has been told once its events are applied. -/
theorem showPass_told [Std.LawfulEqOrd κ] [PartialEquivBEq α] (h : f.Ready reasons)
    {pass : PassReport α} {events : List (LayoutEvent α)} {layout : Layout α}
    (hreflow : f.presenter.layout.reflow = .ok (pass, events, layout))
    (hshown : (f.withPass pass layout).showPass S.recorded reasons events = g) :
    g.presenter.Told g.surface.calls := by
  -- What is shown is the window that the pass has laid out.
  have hjust : JustShown g.presenter := hshown ▸ justShown_of_reflow h.toDue hreflow
  have hplan : KeepsPlan (f.withPass pass layout).presenter g.presenter :=
    hshown ▸ showPass_keepsPlan S.recorded _ _ events
  have hlayout : g.presenter.layout = layout := hplan.layout
  have huntold : g.presenter.visible = none := hplan.visible.trans h.untold
  have hoptions := (Layout.reflow_keepsInputs hreflow).options
  obtain ⟨moved, after, -, -, rfl, rfl⟩ := Layout.reflow_cases hreflow
  have hindex : ∀ item ∈ after.published, item.index ≤ Index.limit := by
    intro item hitem
    have hwithin := hjust.within item (by rw [hlayout]; exact hitem)
    have hle := hjust.layout.total_le
    omega
  have hnodup : (after.published.map PlacedItem.index).Nodup := by
    have hnodup := hjust.layout.consistent.nodup_index
    rwa [hlayout] at hnodup
  refine ⟨⟨hjust.toInStep, fun _ => ?_, ?_, fun hsome => ?_, ?_⟩, ?_, huntold⟩
  · rw [hlayout, hplan.keyOf, ← hshown]
    exact showPass_shownAt (f := f.withPass pass { after with remeasure := false })
      h.keys rfl hindex hnodup h.placed
  · rw [hlayout, huntold, Option.none_or, ← hshown]
    exact showPass_knowsWindow (f := f.withPass pass { after with remeasure := false }) h.window
  · rw [huntold] at hsome
    cases hsome
  · rw [hlayout, ← hshown]
    exact showPass_knowsExtent (f := f.withPass pass { after with remeasure := false }) hoptions
      h.extent
  · have hpending : g.presenter.scheduler.pending = .none :=
      (congrArg Scheduler.pending hplan.scheduler).trans h.handedOut
    rw [hpending]
    rfl

/-- Measurements tell the surface nothing, whatever they are. -/
theorem measureTargets_told (h : f.presenter.Told f.surface.calls) :
    (f.measureTargets S.recorded).presenter.Told (f.measureTargets S.recorded).surface.calls := by
  obtain ⟨g, hg, hpresenter⟩ := measureTargets_touches S.recorded f
  obtain ⟨book, corrections, resized, heq⟩ := hg.presenter_eq
  have htold : g.presenter.Told (f.measureTargets S.recorded).surface.calls := by
    refine ⟨(h.toUpToDate.keepsShown hg.keepsShown).congr fun hread =>
      measureTargets_reading S f hread, ?_, ?_⟩
    · rw [heq]
      exact h.items
    · rw [heq]
      exact h.untold
  rcases hpresenter with heq | heq
  · rwa [heq]
  · rw [heq]
    exact htold.invalidate (by decide)

/-- At the end of a frame that runs a pass everything has been told. -/
theorem runPass_told [Std.LawfulEqOrd κ] [PartialEquivBEq α] (h : f.Ready reasons)
    (hrun : f.runPass S.recorded reasons = .ok g) : g.presenter.Told g.surface.calls := by
  obtain ⟨pass, events, layout, hreflow, rfl⟩ := runPass_eq_ok hrun
  have htold := measureTargets_told (S := S) (showPass_told (S := S) h hreflow rfl)
  unfold keepEasing
  split
  · exact htold.invalidate (by decide)
  · exact htold

/-- Where no pass is called for, the announcement is all there was to tell. -/
theorem Ready.told (h : f.Ready reasons) (hnone : reasons.needsPass = false) :
    f.presenter.Told f.surface.calls := by
  have hitems := Reasons.contains_items_eq_false hnone
  refine ⟨⟨h.toDue.inStep hnone, fun _ => h.placed hitems, ?_, fun hsome => ?_, h.extent⟩, ?_,
    h.untold⟩
  · rw [h.untold]
    exact h.window
  · rw [h.untold] at hsome
    cases hsome
  · rw [h.handedOut]
    rfl

end Stage

namespace Presenter

variable {σ : Type} {S : Surface σ κ α} {p p' : Presenter κ α}

/-- Where no frame was asked for, there is nothing to be told. -/
theorem UpToDate.told_of_idle {calls : List (SurfaceCall κ α)} (h : p.UpToDate calls)
    (hidle : p.scheduler.state = .idle) : p.Told calls := by
  refine ⟨h, ?_, ?_⟩
  · rw [h.coherent hidle]
    rfl
  · cases hvisible : p.visible with
    | none => rfl
    | some change =>
      have hpending := h.waiting (by rw [hvisible]; rfl)
      rw [Scheduler.isPending, hidle] at hpending
      cases hpending

/-- After a frame everything has been told. -/
theorem UpToDate.frame [Std.LawfulEqOrd κ] [PartialEquivBEq α] {s s' : Recorded σ κ α}
    {now : Nat} {report : FrameReport α} (h : p.UpToDate s.calls)
    (hp : p.frame S.recorded s now = .ok (report, p', s')) : p'.Told s'.calls := by
  obtain ⟨p₁, s₁, hadvance, hp⟩ := frame_cases hp
  have hp₁ : p₁.UpToDate s₁.calls :=
    (h.keepsShown (advance_keepsAwake hadvance).toKeepsShown).congr fun hread =>
      Stage.advance_reading S hread hadvance
  have hready := Stage.ready_opening (S := S) hp₁
  rcases hp with ⟨hidle, -, rfl, rfl⟩ | ⟨-, ⟨-, hpass⟩ | ⟨hnone, hend⟩⟩
  · exact hp₁.told_of_idle hidle
  · exact Stage.runPass_told hready hpass
  · rw [hend] at hready
    exact hready.told hnone

/-! ## Runs -/

/-- The presenters that runs lead to, with the calls that the surfaces have received so far, the
latest first. -/
inductive Logged : Presenter κ α → List (SurfaceCall κ α) → Prop
  | start {options : Options α} {keyOf : Nat → κ} {listening : Bool} {p : Presenter κ α} :
      DistinctKeys keyOf → ofOptions options keyOf listening = .ok p → Logged p []
  | input {p p' : Presenter κ α} {calls : List (SurfaceCall κ α)} {r : Request κ α} :
      Logged p calls → r.Admissible DistinctKeys → p.respond r = .ok p' → Logged p' calls
  | frame {σ : Type} {S : Surface σ κ α} {p p' : Presenter κ α} {s s' : Recorded σ κ α} {now : Nat}
      {report : FrameReport α} :
      Logged p s.calls → p.frame S.recorded s now = .ok (report, p', s') → Logged p' s'.calls

/-- In every state of a run the surface is up to date, as far as no reason is given. -/
theorem Logged.upToDate [Std.LawfulEqOrd κ] [PartialEquivBEq α] {calls : List (SurfaceCall κ α)}
    (h : Logged p calls) : p.UpToDate calls := by
  induction h with
  | start hkeys hp =>
    have hstep := inStep_of_ofOptions hkeys hp
    obtain ⟨layout, hlayout, hp⟩ := bind_eq_ok.1 hp
    cases hp
    obtain ⟨u, -, hlayout⟩ := bind_eq_ok.1 hlayout
    cases hlayout
    refine ⟨hstep, fun _ item hitem => ?_, ⟨rfl, rfl⟩, fun hsome => ?_, .refl _⟩
    · simp at hitem
    · cases hsome
  | input _ hr hp ih => exact ih.keepsShown (respond_keepsAwake hr hp).toKeepsShown
  | frame _ hp ih => exact (ih.frame hp).toUpToDate

/-- After every frame of a run, on whatever surface, the surface mirrors the layout. -/
theorem Logged.frame_mirrors [Std.LawfulEqOrd κ] [PartialEquivBEq α]
    {calls : List (SurfaceCall κ α)} {s s' : σ} {now : Nat} {report : FrameReport α}
    (h : Logged p calls) (hp : p.frame S s now = .ok (report, p', s')) :
    ∃ calls', p.frame S.recorded ⟨s, calls⟩ now = .ok (report, p', ⟨s', calls'⟩) ∧
      p'.Mirrors calls' := by
  have hrecorded := frame_recorded S p ⟨s, calls⟩ now
  rw [hp] at hrecorded
  cases hframe : p.frame S.recorded ⟨s, calls⟩ now with
  | error e =>
    rw [hframe] at hrecorded
    cases hrecorded
  | ok outcome =>
    obtain ⟨report', p'', ⟨t, calls'⟩⟩ := outcome
    rw [hframe] at hrecorded
    cases hrecorded
    exact ⟨calls', rfl, (h.upToDate.frame hframe).mirrors⟩

/-- A surface that reports a broken size every other time. -/
def brokenSurface : Surface Nat Nat Rat where
  bind _ _ s := s
  release _ s := s
  place _ _ s := s
  measure _ s := (if s % 2 = 0 then some ⟨-1, none, ⟨0, 0⟩⟩ else some ⟨12, none, ⟨0, 0⟩⟩, s + 1)
  setScrollSize _ s := s
  scrollTo _ s := s

/-- New keys between two frames: one target moves to another item, and the others are replaced. -/
theorem Logged.frame_mirrors_of_newKeys : ∃ (p p' : Presenter Nat Rat)
    (calls calls' : List (SurfaceCall Nat Rat)) (s s' : Nat) (report : FrameReport Rat),
    Logged p calls ∧ p.frame brokenSurface s 16 = .ok (report, p', s') ∧
      p.frame brokenSurface.recorded ⟨s, calls⟩ 16 = .ok (report, p', ⟨s', calls'⟩) ∧
      report.rebound = 1 ∧ report.released = 2 ∧ p'.Mirrors calls' := by
  have htest : ((ofOptions (⟨10, 5, 0, .vertical, true, 1⟩ : Options Rat) id true).toOption.any
      fun p => (((p.setTotal 6).setViewport 20 30).2.frame brokenSurface.recorded
        ⟨0, []⟩ 0).toOption.any fun x => ((x.2.1.setKeyOf (· + 2)).frame brokenSurface
          x.2.2.surface 16).toOption.any fun y => y.1.rebound == 1 && y.1.released == 2) = true := by
    decide +kernel
  obtain ⟨p₀, hstart, htest⟩ := exists_ok_of_any htest
  obtain ⟨⟨report₁, p₁, ⟨s₁, calls⟩⟩, hfirst, htest⟩ := exists_ok_of_any htest
  obtain ⟨⟨report, p', s'⟩, hsecond, htest⟩ := exists_ok_of_any htest
  simp only [Bool.and_eq_true, beq_iff_eq] at htest
  have hfits : 6 ≤ Index.limit := by decide
  have hkeys : DistinctKeys (· + 2) := fun i _ j _ h => by simpa using h
  have hinputs := ((Logged.start (Set.injOn_id _) hstart).input (r := .setTotal 6) hfits rfl).input
    (r := .setViewport 20 30) trivial rfl
  have hlogged := (hinputs.frame (s := ⟨0, []⟩) hfirst).input (r := .setKeyOf (· + 2)) hkeys rfl
  obtain ⟨calls', hrecorded, hmirrors⟩ := hlogged.frame_mirrors hsecond
  exact ⟨_, p', calls, calls', s₁, s', report, hlogged, hsecond, hrecorded, htest.1, htest.2,
    hmirrors⟩

end Presenter

end VirtualList
