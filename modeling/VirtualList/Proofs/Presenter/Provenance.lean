import VirtualList.Proofs.Presenter.Mirror
import VirtualList.Proofs.Presenter.Ownership

/-!
# For which key an item was measured

The book keeps sizes by item, the surface measures by key, and keys come and go.  This file follows
through the log of a surface for which key the measurement of an item was taken.

A target that moves from one item to another is marked and measured again.  A target that is bound
anew is not: if its item has been measured before, under another key, that measurement stays.  So
when nothing is left to do, each size was measured for the key that has the item, unless the key was
bound anew to an item that had been measured already, or what was measured for it was refused.

## Key results

- `lastTaken`: the key and the measurement that were taken last for an item
- `owed`: the keys that were moved to another item and have not been measured since
- `MeasuresAlone`: no item is measured under two keys at a time
- `lastTaken_append`, `mem_owed_append`: what the calls since a binding say
- `Sourced`, `Logged.sourced`: the book holds what was taken last, and what is owed is marked
- `Inherited`: a measurement from before the key was bound to the item
- `Logged.measured_under_own_key`: whose measurements are in use when nothing is left to do
- `Logged.foreign_measurement`: a run that is complete with the measurements of other keys
-/

namespace VirtualList

open Std (ExtTreeMap ExtTreeSet)
open Presenter (JustShown)

/-! ## What the calls say -/

section Calls

variable {κ α : Type}

/-- The call binds or releases the target of a key. -/
def SurfaceCall.Moves (key : κ) : SurfaceCall κ α → Prop
  | .bind k _ => k = key
  | .release k => k = key
  | _ => False

variable [Ord κ] [Std.TransOrd κ]

/-- The valid measurement that was taken last for item `i`, with the key that had the item then.  The
latest call comes first. -/
def lastTaken [Scalar α] : List (SurfaceCall κ α) → Nat → Option (κ × Measurement α)
  | [], _ => none
  | .measure key (some m) :: calls, i =>
    if (boundBy calls)[key]? = some i ∧ m.isValid = true then some (key, m) else lastTaken calls i
  | _ :: calls, i => lastTaken calls i

/-- The keys that were moved from one item to another and have not been measured since, whether the
measurement was valid or not. -/
def owed : List (SurfaceCall κ α) → ExtTreeSet κ
  | [] => ∅
  | .bind key _ :: calls =>
    if (boundBy calls).contains key then (owed calls).insert key else owed calls
  | .release key :: calls => (owed calls).erase key
  | .measure key (some _) :: calls => (owed calls).erase key
  | _ :: calls => owed calls

/-- The keys that are measured have their items to themselves. -/
def MeasuresAlone : List (SurfaceCall κ α) → Prop
  | [] => True
  | .measure key _ :: calls =>
    (∀ k i, (boundBy calls)[key]? = some i → (boundBy calls)[k]? = some i → k = key) ∧
      MeasuresAlone calls
  | _ :: calls => MeasuresAlone calls

/-- A measurement that is not valid is not taken. -/
theorem lastTaken_of_not_isValid [Scalar α] (calls : List (SurfaceCall κ α)) (key : κ)
    {m : Measurement α} (hm : m.isValid = false) (j : Nat) :
    lastTaken (.measure key (some m) :: calls) j = lastTaken calls j := by
  rw [lastTaken, if_neg]
  simp [hm]

/-- A valid measurement is taken for the item of its key. -/
theorem lastTaken_of_isValid [Scalar α] {calls : List (SurfaceCall κ α)} {key : κ} {i : Nat}
    (hkey : (boundBy calls)[key]? = some i) {m : Measurement α} (hm : m.isValid = true) (j : Nat) :
    lastTaken (.measure key (some m) :: calls) j =
      if j = i then some (key, m) else lastTaken calls j := by
  rw [lastTaken, hkey]
  by_cases hj : j = i
  · rw [if_pos hj, if_pos ⟨congrArg some hj.symm, hm⟩]
  · rw [if_neg hj, if_neg fun h => hj (Option.some.inj h.1).symm]

variable [Std.LawfulEqOrd κ]

/-- A call that does not move a key leaves it bound as it was. -/
theorem boundBy_cons {call : SurfaceCall κ α} {calls : List (SurfaceCall κ α)} {key : κ}
    (h : ¬call.Moves key) : (boundBy (call :: calls))[key]? = (boundBy calls)[key]? := by
  cases call with
  | bind k j =>
    rw [boundBy, ExtTreeMap.getElem?_insert, if_neg (mt Std.compare_eq_eq_iff_eq.1 h)]
  | release k =>
    rw [boundBy, ExtTreeMap.getElem?_erase, if_neg (mt Std.compare_eq_eq_iff_eq.1 h)]
  | place | measure | setScrollSize | scrollTo | windowChanged => rfl

theorem boundBy_append {later rest : List (SurfaceCall κ α)} {key : κ}
    (h : ∀ call ∈ later, ¬call.Moves key) :
    (boundBy (later ++ rest))[key]? = (boundBy rest)[key]? := by
  induction later with
  | nil => rfl
  | cons call later ih =>
    obtain ⟨hcall, hlater⟩ := List.forall_mem_cons.1 h
    rw [List.cons_append, boundBy_cons hcall, ih hlater]

/-- A key that is bound was bound by some call, and has not been moved since. -/
theorem exists_bind_of_boundBy {calls : List (SurfaceCall κ α)} {key : κ} {i : Nat}
    (h : (boundBy calls)[key]? = some i) :
    ∃ later earlier, calls = later ++ .bind key i :: earlier ∧ ∀ call ∈ later, ¬call.Moves key := by
  induction calls with
  | nil => simp [boundBy] at h
  | cons call calls ih =>
    by_cases hmoves : call.Moves key
    · cases call with
      | bind k j =>
        -- This is the call.
        obtain rfl : k = key := hmoves
        rw [boundBy, ExtTreeMap.getElem?_insert_self, Option.some.injEq] at h
        subst h
        exact ⟨[], calls, rfl, by simp⟩
      | release k =>
        obtain rfl : k = key := hmoves
        rw [boundBy, ExtTreeMap.getElem?_erase_self] at h
        cases h
      | place | measure | setScrollSize | scrollTo | windowChanged => exact hmoves.elim
    · rw [boundBy_cons hmoves] at h
      obtain ⟨later, earlier, rfl, hall⟩ := ih h
      exact ⟨call :: later, earlier, rfl, List.forall_mem_cons.2 ⟨hmoves, hall⟩⟩

/-- While a key has an item to itself, a measurement of the item is one of the key: either one was
taken, or all that were made were refused and the last one is from before. -/
theorem lastTaken_append [Scalar α] {later rest : List (SurfaceCall κ α)} {key : κ} {i : Nat}
    (hbound : (boundBy rest)[key]? = some i) (hlater : ∀ call ∈ later, ¬call.Moves key)
    (halone : MeasuresAlone (later ++ rest)) :
    (∃ m, lastTaken (later ++ rest) i = some (key, m)) ∨
      (lastTaken (later ++ rest) i = lastTaken rest i ∧
        ∀ m, .measure key (some m) ∈ later → m.isValid = false) := by
  induction later with
  | nil => exact Or.inr ⟨rfl, by simp⟩
  | cons call later ih =>
    obtain ⟨-, hlater⟩ := List.forall_mem_cons.1 hlater
    have hkept : (boundBy (later ++ rest))[key]? = some i := (boundBy_append hlater).trans hbound
    -- A call that takes no measurement of the item changes nothing.
    have hskip (halone : MeasuresAlone (later ++ rest))
        (hsame : lastTaken (call :: (later ++ rest)) i = lastTaken (later ++ rest) i)
        (hrefused : ∀ m, call = .measure key (some m) → m.isValid = false) :
        (∃ m, lastTaken (call :: (later ++ rest)) i = some (key, m)) ∨
          (lastTaken (call :: (later ++ rest)) i = lastTaken rest i ∧
            ∀ m, .measure key (some m) ∈ call :: later → m.isValid = false) := by
      rw [hsame]
      refine (ih hlater halone).imp_right fun h => ⟨h.1, fun m hm => ?_⟩
      rcases List.mem_cons.1 hm with heq | hmem
      · exact hrefused m heq.symm
      · exact h.2 m hmem
    cases call with
    | measure k answer =>
      obtain ⟨hself, halone⟩ := halone
      cases answer with
      | none => exact hskip halone rfl (by simp)
      | some m =>
        by_cases htaken : (boundBy (later ++ rest))[k]? = some i ∧ m.isValid = true
        · -- The key that was measured is the only one that has the item.
          obtain rfl : key = k := hself key i htaken.1 hkept
          exact Or.inl ⟨m, if_pos htaken⟩
        · refine hskip halone (if_neg htaken) fun m' heq => ?_
          cases heq
          rw [not_and, Bool.not_eq_true] at htaken
          exact htaken hkept
    | bind | release | place | setScrollSize | scrollTo | windowChanged =>
      exact hskip halone rfl (by simp)

/-- What is owed stays so until the key is moved or measured. -/
theorem mem_owed_append {later rest : List (SurfaceCall κ α)} {key : κ} (h : key ∈ owed rest)
    (hlater : ∀ call ∈ later, ¬call.Moves key)
    (hnone : ∀ m, .measure key (some m) ∉ later) : key ∈ owed (later ++ rest) := by
  induction later with
  | nil => exact h
  | cons call later ih =>
    obtain ⟨hcall, hlater⟩ := List.forall_mem_cons.1 hlater
    have hold : key ∈ owed (later ++ rest) :=
      ih hlater fun m hm => hnone m (List.mem_cons_of_mem _ hm)
    cases call with
    | bind k j =>
      rw [List.cons_append, owed]
      split
      · exact ExtTreeSet.mem_insert.2 (Or.inr hold)
      · exact hold
    | release k =>
      rw [List.cons_append, owed, ExtTreeSet.mem_erase]
      exact ⟨fun heq => hcall (Std.compare_eq_eq_iff_eq.1 heq), hold⟩
    | measure k answer =>
      cases answer with
      | none => exact hold
      | some m =>
        rw [List.cons_append, owed, ExtTreeSet.mem_erase]
        refine ⟨fun heq => ?_, hold⟩
        rw [Std.compare_eq_eq_iff_eq.1 heq] at hnone
        exact hnone m List.mem_cons_self
    | place | setScrollSize | scrollTo | windowChanged => exact hold

/-- The measurement of an item was taken before the key was bound to the item.  Since then all that
was measured of the key was refused, and a key that was bound to another item has been measured. -/
def Inherited [Scalar α] (calls : List (SurfaceCall κ α)) (key : κ) (i : Nat)
    (taken : κ × Measurement α) : Prop :=
  ∃ later earlier, calls = later ++ .bind key i :: earlier ∧ (∀ call ∈ later, ¬call.Moves key) ∧
    lastTaken earlier i = some taken ∧
    (∀ m, .measure key (some m) ∈ later → m.isValid = false) ∧
    (key ∈ boundBy earlier → ∃ m, .measure key (some m) ∈ later)

end Calls

namespace Presenter

variable {κ α : Type} [Ord κ] [Std.TransOrd κ] [Scalar α]

/-- The book holds for each item what was taken last for it, and the keys that have been moved since
they were measured are marked. -/
structure Sourced (p : Presenter κ α) (calls : List (SurfaceCall κ α)) : Prop where
  marked : ∀ k ∈ owed calls, k ∈ p.resized
  alone : MeasuresAlone calls
  taken : ∀ i m, p.layout.book.recorded? i = some m → ∃ k, lastTaken calls i = some (k, m)

variable {p p' : Presenter κ α} {calls : List (SurfaceCall κ α)}

/-- Marks may be added, and measurements may be dropped. -/
theorem Sourced.mono (h : p.Sourced calls) (hresized : ∀ k ∈ p.resized, k ∈ p'.resized)
    (hbook : ∀ i m, p'.layout.book.recorded? i = some m → p.layout.book.recorded? i = some m) :
    p'.Sourced calls where
  marked k hk := hresized k (h.marked k hk)
  alone := h.alone
  taken i m hm := h.taken i m (hbook i m hm)

theorem Sourced.congr (h : p.Sourced calls) (hresized : p'.resized = p.resized)
    (hbook : p'.layout.book = p.layout.book) : p'.Sourced calls :=
  h.mono (fun k hk => by rwa [hresized]) fun i m hm => by rwa [← hbook]

/-- Inputs take no measurement, and take no mark off. -/
theorem respond_sourced {r : Request κ α} (h : p.Sourced calls) (hp : p.respond r = .ok p') :
    p'.Sourced calls := by
  have hclear (i : Nat) (m : Measurement α) (hm : p.layout.book.clear.recorded? i = some m) :
      p.layout.book.recorded? i = some m := by
    rw [SizeBook.recorded?_clear] at hm
    cases hm
  cases respond_effect hp with
  | viewport main cross =>
    rcases p.setViewport_cases main cross with
      heq | ⟨book, corrections, remeasure, layout, rfl | ⟨-, rfl⟩, rfl, -, heq | ⟨-, -, heq⟩⟩ <;>
      rw [heq]
    · exact h
    · exact h.congr rfl rfl
    · exact h.congr rfl rfl
    · exact h.mono (fun _ hk => hk) hclear
    · exact h.mono (fun _ hk => hk) hclear
  | followed hfollow =>
    rcases followScroll_cases hfollow with ⟨-, rfl⟩ | ⟨_, rfl, -, rfl | rfl | ⟨_, _, -, -, rfl⟩⟩ <;>
      exact h.congr rfl rfl
  | marked =>
    exact h.mono (fun _ hk => ExtTreeSet.mem_insert.2 (Or.inr hk)) fun _ _ hm => hm
  | pinned hpin =>
    obtain ⟨settled, -, rfl⟩ := Layout.pinTo_eq hpin
    exact h.congr rfl rfl
  | forgotten => exact h.mono (fun _ hk => hk) hclear
  | unchanged | total | items | keys | eased | cancelled | listening => exact h.congr rfl rfl

theorem advance_sourced {σ : Type} {S : Surface σ κ α} {s s' : Recorded σ κ α} {now : Nat}
    (h : p.Sourced s.calls) (hp : p.advance S.recorded s now = .ok (p', s')) :
    p'.Sourced s'.calls := by
  obtain ⟨-, hresized, -, hbook⟩ := advance_leaves hp
  have hscrolled : p.Sourced s'.calls := by
    rcases advance_calls hp with heq | ⟨position, heq⟩ <;> rw [heq]
    · exact h
    · exact ⟨h.marked, h.alone, h.taken⟩
  exact hscrolled.congr hresized hbook

end Presenter

namespace Stage

variable {σ κ α : Type} [Ord κ] [Std.TransOrd κ] [Std.LawfulEqOrd κ] [Scalar α]
  {S : Surface σ κ α} {f : Stage (Recorded σ κ α) κ α}

/-- What the calls of a frame under way say of its measurements. -/
def Sourced (f : Stage (Recorded σ κ α) κ α) : Prop := f.presenter.Sourced f.surface.calls

/-! ## Showing items -/

omit [Std.LawfulEqOrd κ] in
/-- A target that moves to another item is marked. -/
theorem showItem_sourced (S : Surface σ κ α) {next : ExtTreeMap κ Nat} (hshares : Shares next f)
    {item : PlacedItem α} (hfresh : f.presenter.keyOf item.index ∉ next) (h : f.Sourced) :
    (showItem S.recorded next f item).2.Sourced := by
  have hbound := hshares.bound (f.presenter.keyOf item.index)
  rw [ExtTreeMap.getElem?_eq_none hfresh, Option.none_or] at hbound
  simp only [showItem]
  split
  · -- The key was not bound, so it has not been moved.
    rename_i hshown
    rw [hshown] at hbound
    refine ⟨fun k hk => h.marked k ?_, h.alone, h.taken⟩
    have howed : owed (.bind (f.presenter.keyOf item.index) item.index :: f.surface.calls) =
        owed f.surface.calls := by
      rw [owed, if_neg]
      rw [ExtTreeMap.contains_iff_mem, ExtTreeMap.mem_iff_isSome_getElem?, hbound]
      simp
    rw [← howed]
    exact hk
  · split
    · exact ⟨h.marked, h.alone, h.taken⟩
    · refine ⟨fun k hk => ExtTreeSet.mem_insert.2 ?_, h.alone, h.taken⟩
      have hk : k ∈ owed (.bind (f.presenter.keyOf item.index) item.index :: f.surface.calls) := hk
      rw [owed] at hk
      split at hk
      · exact (ExtTreeSet.mem_insert.1 hk).imp_right (h.marked k)
      · exact Or.inr (h.marked k hk)

omit [Std.LawfulEqOrd κ] in
/-- A target that is given up owes nothing any more. -/
theorem releaseKey_sourced (S : Surface σ κ α) (h : f.Sourced) (key : κ) :
    (releaseKey S.recorded f key).Sourced := by
  refine ⟨fun k hk => ?_, h.alone, h.taken⟩
  have hk : k ∈ (owed f.surface.calls).erase key := hk
  show k ∈ f.presenter.resized.erase key
  rw [ExtTreeSet.mem_erase] at hk ⊢
  exact hk.imp_right (h.marked k)

/-- Showing items whose keys do not collide. -/
theorem foldl_showNext_sourced (S : Surface σ κ α) (howns : f.Owns) (h : f.Sourced)
    {items : List (PlacedItem α)}
    (hkeys : (items.map fun item => f.presenter.keyOf item.index).Nodup) :
    (items.foldl (showNext S.recorded) (∅, f)).2.Sourced := by
  -- Items are shown in order, so no key of an earlier item comes up again.
  induction items using List.reverseRecOn with
  | nil => exact h
  | append_singleton items x ih =>
    rw [List.map_append, List.nodup_append] at hkeys
    obtain ⟨hold, -, hnew⟩ := hkeys
    have hshown := ih hold
    have hshares := foldl_showNext_shares S howns items
    obtain ⟨g, targets, resized, hfold, hg, -, -⟩ := foldl_showNext S.recorded f items
    rw [hfold] at hshown hshares
    rw [List.foldl_append, hfold]
    have hkey : g.presenter.keyOf = f.presenter.keyOf := by rw [hg]
    refine showItem_sourced S hshares ?_ hshown
    rw [hkey, mem_bindings]
    exact fun hmem => hnew _ hmem _ (by simp) rfl

theorem reconcile_sourced (S : Surface σ κ α) (howns : f.Owns) (h : f.Sourced)
    {items : List (PlacedItem α)}
    (hkeys : (items.map fun item => f.presenter.keyOf item.index).Nodup) :
    (f.reconcile S.recorded items).Sourced := by
  have hshown := foldl_showNext_sourced S howns h hkeys
  rw [reconcile_eq S.recorded f rfl]
  refine List.foldlRecOn (motive := fun g : Stage (Recorded σ κ α) κ α => g.Sourced) _ _ ?_
    fun g hg key _ => releaseKey_sourced S hg key
  exact hshown.congr rfl rfl

/-! ## The events of a pass -/

omit [Std.LawfulEqOrd κ] in
theorem announceVisible_sourced (S : Surface σ κ α) (h : f.Sourced) :
    (f.announceVisible S.recorded).Sourced := by
  unfold announceVisible
  split
  · exact h
  · exact ⟨h.marked, h.alone, h.taken⟩

theorem deliver_sourced (S : Surface σ κ α) (howns : f.Owns) (h : f.Sourced)
    {event : LayoutEvent α} (hkeys : ∀ items, .itemsPlaced items = event →
      (items.map fun item => f.presenter.keyOf item.index).Nodup) :
    (f.deliver S.recorded event).Sourced := by
  cases event with
  | itemsPlaced items => exact reconcile_sourced S howns h (hkeys items rfl)
  | windowChanged | scrollSizeChanged | scrollMoved => exact ⟨h.marked, h.alone, h.taken⟩

theorem foldl_deliver_sourced (S : Surface σ κ α) (howns : f.Owns) (h : f.Sourced)
    {events : List (LayoutEvent α)} (hkeys : ∀ items, .itemsPlaced items ∈ events →
      (items.map fun item => f.presenter.keyOf item.index).Nodup) :
    (events.foldl (deliver S.recorded) f).Owns ∧ (events.foldl (deliver S.recorded) f).Sourced := by
  induction events generalizing f with
  | nil => exact ⟨howns, h⟩
  | cons event rest ih =>
    have hfirst : (f.deliver S.recorded event).Sourced :=
      deliver_sourced S howns h fun items heq => hkeys items (by simp [heq])
    refine ih (deliver_owns S howns event) hfirst fun items hmem => ?_
    rw [(deliver_presenter S.recorded f event).1.keyOf]
    exact hkeys items (List.mem_cons_of_mem _ hmem)

/-- Showing a pass, with its items shown once more if the data changed in place. -/
theorem showPass_sourced (S : Surface σ κ α) (howns : f.Owns) (h : f.Sourced) (reasons : Reasons)
    {events : List (LayoutEvent α)}
    (hplaced : ∀ items, .itemsPlaced items ∈ events → items = f.presenter.layout.published)
    (hkeys : (f.presenter.layout.published.map fun item => f.presenter.keyOf item.index).Nodup) :
    (f.showPass S.recorded reasons events).Sourced := by
  obtain ⟨howns', hevents⟩ := foldl_deliver_sourced S howns h fun items hmem => by
    rw [hplaced items hmem]
    exact hkeys
  have hplan := foldl_deliver_keepsPlan S.recorded f events
  unfold showPass
  split
  · refine reconcile_sourced S howns' hevents ?_
    rw [hplan.layout, hplan.keyOf]
    exact hkeys
  · exact hevents

/-! ## Measuring -/

omit [Std.LawfulEqOrd κ] in
/-- A target that has its item to itself is measured: the book takes what is valid, and the mark is
taken off whatever the answer is. -/
theorem measureTarget_sourced (S : Surface σ κ α) (howns : f.Owns) (h : f.Sourced) {key : κ} {i : Nat}
    (hkey : f.presenter.targets[key]? = some i) (hi : i < f.presenter.layout.total)
    (halone : ∀ k, f.presenter.targets[k]? = some i → k = key) :
    (measureTarget S.recorded f key i).2.Sourced := by
  have hmeasures (answer : Option (Measurement α)) :
      MeasuresAlone (.measure key answer :: f.surface.calls) := by
    refine ⟨fun k j hj hk => ?_, h.alone⟩
    rw [howns.targets] at hj hk
    obtain rfl : i = j := Option.some.inj (hkey.symm.trans hj)
    exact halone k hk
  have hmarked (m : Measurement α) (k : κ)
      (hk : k ∈ owed (.measure key (some m) :: f.surface.calls)) :
      k ∈ f.presenter.resized.erase key := by
    rw [owed, ExtTreeSet.mem_erase] at hk
    rw [ExtTreeSet.mem_erase]
    exact hk.imp_right (h.marked k)
  rcases hmeasure : S.measure key f.surface.surface with ⟨answer, s⟩
  have hrecorded : S.recorded.measure key f.surface =
      (answer, ⟨s, .measure key answer :: f.surface.calls⟩) := by
    simp only [Surface.recorded, hmeasure]
  unfold measureTarget
  rw [hrecorded]
  cases answer with
  | none => exact ⟨h.marked, hmeasures none, h.taken⟩
  | some m =>
    simp only
    cases hvalid : m.isValid with
    | false =>
      -- What is refused was not taken.
      obtain ⟨e, hrecord⟩ := Layout.record_refused (l := f.presenter.layout) (i := i) (m := m)
        (by simp [hvalid])
      rw [hrecord]
      refine ⟨hmarked m, hmeasures (some m), fun j m' hm' => ?_⟩
      rw [lastTaken_of_not_isValid _ _ hvalid]
      exact h.taken j m' hm'
    | true =>
      obtain ⟨called, corrections, hrecord, -⟩ := Layout.record_eq_ok hi hvalid
      rw [hrecord]
      refine ⟨hmarked m, hmeasures (some m), fun j m' hm' => ?_⟩
      have hm' : (f.presenter.layout.book.enter i m).recorded? j = some m' := hm'
      rw [← howns.targets] at hkey
      rw [SizeBook.recorded?_enter] at hm'
      rw [lastTaken_of_isValid hkey hvalid]
      by_cases hj : j = i
      · rw [if_pos hj] at hm' ⊢
        cases hm'
        exact ⟨key, rfl⟩
      · rw [if_neg hj] at hm' ⊢
        exact h.taken j m' hm'

/-- The targets of a window are measured one after the other, and each has its item to itself. -/
theorem measureTargets_sourced (S : Surface σ κ α) (hshown : JustShown f.presenter) (howns : f.Owns)
    (h : f.Sourced) : (f.measureTargets S.recorded).Sourced := by
  obtain ⟨hloop, -, -⟩ := List.foldlRecOn
    (motive := fun x : Bool × Stage (Recorded σ κ α) κ α =>
      x.2.Sourced ∧ x.2.Owns ∧ Touches f x.2)
    (unmeasured f.presenter) (measureNext S.recorded) (b := (false, f)) ⟨h, howns, .refl f⟩
    fun x hx target hmem => by
      obtain ⟨hsourced, howns, htouches⟩ := hx
      have hi := (mem_unmeasured.1 (show (target.1, target.2) ∈ _ from hmem)).1
      have hwithin := (unmeasured_within hshown target hmem).2
      have halone (k : κ) (hk : f.presenter.targets[k]? = some target.2) : k = target.1 :=
        ((hshown.shown k target.2).1 hk).1.trans ((hshown.shown target.1 target.2).1 hi).1.symm
      -- The targets are as before.
      obtain ⟨book, corrections, resized, heq⟩ := htouches.presenter_eq
      refine ⟨measureTarget_sourced S howns hsourced ?_ ?_ ?_,
        measureTarget_owns S howns target.1 target.2,
        htouches.trans (measureTarget_touches S.recorded x.2 target.1 target.2)⟩ <;> rw [heq]
      · exact hi
      · exact hwithin
      · exact halone
  rw [measureTargets_eq S.recorded f rfl]
  split
  · exact hloop.congr rfl rfl
  · exact hloop

/-- A pass keeps the book and the calls in step. -/
theorem runPass_sourced {g : Stage (Recorded σ κ α) κ α} {reasons : Reasons} (hdue : f.Due reasons)
    (howns : f.Owns) (h : f.Sourced) (hpass : f.runPass S.recorded reasons = .ok g) : g.Sourced := by
  obtain ⟨pass, events, layout, hreflow, rfl⟩ := runPass_eq_ok hpass
  have hjust := justShown_of_reflow (S := S.recorded) hdue hreflow
  have hplan := showPass_keepsPlan S.recorded (f.withPass pass layout) reasons events
  -- A pass takes no measurement, and the keys of its window do not collide.
  have hbook := (Layout.reflow_keepsInputs hreflow).agrees.recorded
  have hwith : (f.withPass pass layout).Sourced :=
    h.mono (fun _ hk => hk) fun i m hm => by rwa [← hbook i]
  have hkeys := hjust.nodup_keys
  rw [hplan.layout, hplan.keyOf] at hkeys
  have howns' : (f.withPass pass layout).Owns := ⟨howns.targets, howns.releases⟩
  have hend := measureTargets_sourced S hjust (showPass_owns S howns' reasons events)
    (showPass_sourced S howns' hwith reasons (reflow_itemsPlaced hreflow).1 hkeys)
  rw [keepEasing]
  split
  · exact hend.congr rfl rfl
  · exact hend

end Stage

/-! ## Runs -/

namespace Presenter

variable {κ α : Type} [Ord κ] [Std.TransOrd κ] [Std.LawfulEqOrd κ] [Scalar α]
  {p p' : Presenter κ α}

theorem frame_sourced {σ : Type} {S : Surface σ κ α} {s s' : Recorded σ κ α} {now : Nat}
    {report : FrameReport α} (hstep : p.InStep) (htargets : boundBy s.calls = p.targets)
    (hreleases : ReleasesBound s.calls) (h : p.Sourced s.calls)
    (hp : p.frame S.recorded s now = .ok (report, p', s')) : p'.Sourced s'.calls := by
  obtain ⟨p₁, s₁, hadvance, hp⟩ := frame_cases hp
  obtain ⟨htargets₁, hreleases₁⟩ := advance_owns hadvance htargets hreleases
  have hp₁ := advance_sourced h hadvance
  have hopening : (p₁.opening s₁).Owns ∧ (p₁.opening s₁).Sourced :=
    ⟨⟨htargets₁, hreleases₁⟩, hp₁.congr rfl rfl⟩
  have howns := Stage.announceVisible_owns S hopening.1
  have hannounced := Stage.announceVisible_sourced S hopening.2
  rcases hp with ⟨-, -, rfl, rfl⟩ | ⟨-, ⟨-, hpass⟩ | ⟨-, hend⟩⟩
  · exact hp₁
  · have hstep₁ := (advance_keepsAwake hadvance).inStep hstep
    exact Stage.runPass_sourced (Stage.due_opening S.recorded hstep₁ s₁) howns hannounced hpass
  · rw [hend] at hannounced
    exact hannounced

/-- In every state of a run the calls leave just the targets bound, and say for which key what is on
record was measured. -/
theorem Logged.sourced [PartialEquivBEq α] {calls : List (SurfaceCall κ α)} (h : Logged p calls) :
    boundBy calls = p.targets ∧ ReleasesBound calls ∧ p.Sourced calls := by
  induction h with
  | start _ hp =>
    obtain ⟨layout, hlayout, hp⟩ := bind_eq_ok.1 hp
    cases hp
    obtain ⟨u, -, hlayout⟩ := bind_eq_ok.1 hlayout
    cases hlayout
    refine ⟨rfl, trivial, fun k hk => hk, trivial, fun i m hm => ?_⟩
    rw [SizeBook.recorded?_empty] at hm
    cases hm
  | input _ _ hp ih =>
    obtain ⟨htargets, hreleases, hsourced⟩ := ih
    exact ⟨htargets.trans (respond_targets hp).symm, hreleases, respond_sourced hsourced hp⟩
  | frame hlogged hp ih =>
    obtain ⟨htargets, hreleases, hsourced⟩ := ih
    obtain ⟨htargets', hreleases'⟩ := frame_owns hp htargets hreleases
    exact ⟨htargets', hreleases',
      frame_sourced hlogged.upToDate.toInStep htargets hreleases hsourced hp⟩

/-- Where nothing is left to do, no target is marked and every item with a target is measured. -/
theorem of_isComplete (h : p.isComplete = true) :
    p.resized = ∅ ∧
      ∀ (k : κ) (i : Nat), p.targets[k]? = some i → p.layout.book.isMeasured i = true := by
  simp only [isComplete, Bool.and_eq_true] at h
  obtain ⟨⟨-, hmarks⟩, hall⟩ := h
  refine ⟨ExtTreeSet.isEmpty_iff.1 hmarks, fun k i hi => ?_⟩
  refine List.all_eq_true.1 hall i ?_
  rw [ExtTreeMap.values_eq_map_snd_toList]
  exact List.mem_map.2 ⟨(k, i), ExtTreeMap.mem_toList_iff_getElem?_eq_some.2 hi, rfl⟩

/-- Where nothing is left to do, the size of an item with a target was measured for the key of the
target, or is one that the key has inherited. -/
theorem Logged.measured_under_own_key [PartialEquivBEq α] {calls : List (SurfaceCall κ α)}
    (h : Logged p calls) (hcomplete : p.isComplete = true) {k : κ} {i : Nat}
    (hi : p.targets[k]? = some i) :
    ∃ taken, p.layout.book.recorded? i = some taken.2 ∧ lastTaken calls i = some taken ∧
      (taken.1 = k ∨ Inherited calls k i taken) := by
  obtain ⟨hbound, -, hsourced⟩ := h.sourced
  obtain ⟨hunmarked, hmeasured⟩ := of_isComplete hcomplete
  have hrecorded := hmeasured k i hi
  rw [SizeBook.isMeasured_eq, Option.isSome_iff_exists] at hrecorded
  obtain ⟨m, hm⟩ := hrecorded
  obtain ⟨k', hlast⟩ := hsourced.taken i m hm
  refine ⟨(k', m), hm, hlast, ?_⟩
  -- What has been measured since the key was bound to the item.
  rw [← hbound] at hi
  obtain ⟨later, earlier, rfl, hlater⟩ := exists_bind_of_boundBy hi
  have hself : (boundBy (.bind k i :: earlier))[k]? = some i := by
    rw [boundBy, ExtTreeMap.getElem?_insert_self]
  rcases lastTaken_append hself hlater hsourced.alone with ⟨m', htaken⟩ | ⟨hkept, hrefused⟩
  · rw [htaken] at hlast
    cases hlast
    exact Or.inl rfl
  · refine Or.inr ⟨later, earlier, rfl, hlater, hkept.symm.trans hlast, hrefused, fun hmem => ?_⟩
    -- A key that was moved would still be marked.
    by_contra hnone
    rw [not_exists] at hnone
    have howed : k ∈ owed (.bind k i :: earlier) := by
      rw [owed, if_pos (ExtTreeMap.contains_iff_mem.2 hmem)]
      exact ExtTreeSet.mem_insert_self
    have hmarked := hsourced.marked k (mem_owed_append howed hlater hnone)
    rw [hunmarked] at hmarked
    exact ExtTreeSet.not_mem_empty hmarked

/-- A surface on which each key has a size of its own. -/
def keyedSurface : Surface Unit Nat Rat where
  bind _ _ s := s
  release _ s := s
  place _ _ s := s
  measure key s := (some ⟨10 + key, none, ⟨0, 0⟩⟩, s)
  setScrollSize _ s := s
  scrollTo _ s := s

/-- Six items change their keys: two targets move to another item, and one is bound anew. -/
theorem Logged.exists_rekeyed : ∃ (p : Presenter Nat Rat) (calls : List (SurfaceCall Nat Rat)),
    Logged p calls ∧ p.isComplete = true ∧ p.targets.toList = [(1, 0), (2, 1), (3, 2)] ∧
      p.layout.book.recorded? 2 = some ⟨12, none, ⟨0, 0⟩⟩ ∧
      (lastTaken calls 2).map Prod.fst = some 2 := by
  have htest : ((ofOptions (⟨10, 5, 0, .vertical, true, 1⟩ : Options Rat) id true).toOption.any
      fun p => (((p.setTotal 6).setViewport 20 30).2.frame keyedSurface.recorded
        ⟨(), []⟩ 0).toOption.any fun x => (x.2.1.frame keyedSurface.recorded
          x.2.2 16).toOption.any fun y => ((y.2.1.setKeyOf (· + 1)).frame keyedSurface.recorded
            y.2.2 32).toOption.any fun z => (z.2.1.frame keyedSurface.recorded
              z.2.2 48).toOption.any fun e => e.2.1.isComplete &&
                (e.2.1.targets.toList == [(1, 0), (2, 1), (3, 2)] &&
                  (e.2.1.layout.book.recorded? 2 == some ⟨12, none, ⟨0, 0⟩⟩ &&
                    (lastTaken e.2.2.calls 2).map Prod.fst == some 2))) = true := by
    decide +kernel
  obtain ⟨p₀, hstart, htest⟩ := exists_ok_of_any htest
  obtain ⟨⟨report₁, p₁, s₁⟩, hfirst, htest⟩ := exists_ok_of_any htest
  obtain ⟨⟨report₂, p₂, s₂⟩, hsecond, htest⟩ := exists_ok_of_any htest
  obtain ⟨⟨report₃, p₃, s₃⟩, hthird, htest⟩ := exists_ok_of_any htest
  obtain ⟨⟨report₄, p₄, s₄⟩, hfourth, htest⟩ := exists_ok_of_any htest
  simp only [Bool.and_eq_true, beq_iff_eq] at htest
  have hfits : 6 ≤ Index.limit := by decide
  have hkeys : DistinctKeys (· + 1) := fun i _ j _ h => by simpa using h
  have hinputs := ((Logged.start (Set.injOn_id _) hstart).input (r := .setTotal 6) hfits rfl).input
    (r := .setViewport 20 30) trivial rfl
  have hrekeyed := ((hinputs.frame (s := ⟨(), []⟩) hfirst).frame hsecond).input
    (r := .setKeyOf (· + 1)) hkeys rfl
  exact ⟨p₄, s₄.calls, (hrekeyed.frame hthird).frame hfourth, htest⟩

/-- A target that has moved to another item. -/
theorem Logged.measured_under_own_key_of_moved :
    ∃ (p : Presenter Nat Rat) (calls : List (SurfaceCall Nat Rat)), Logged p calls ∧
      p.isComplete = true ∧ p.targets[1]? = some 0 ∧
      ∃ taken, p.layout.book.recorded? 0 = some taken.2 ∧ lastTaken calls 0 = some taken ∧
        (taken.1 = 1 ∨ Inherited calls 1 0 taken) := by
  obtain ⟨p, calls, hlogged, hcomplete, htargets, -, -⟩ := Logged.exists_rekeyed
  have hi : p.targets[1]? = some 0 := by
    rw [← ExtTreeMap.mem_toList_iff_getElem?_eq_some, htargets]
    decide
  exact ⟨p, calls, hlogged, hcomplete, hi, hlogged.measured_under_own_key hcomplete hi⟩

/-- A target that was bound anew shows an item that had been measured for another key, and it was not
measured again, though its size is another one. -/
theorem Logged.foreign_measurement :
    ∃ (p : Presenter Nat Rat) (calls : List (SurfaceCall Nat Rat)) (m m' : Measurement Rat),
      Logged p calls ∧ p.isComplete = true ∧ p.targets[3]? = some 2 ∧
      p.layout.book.recorded? 2 = some m ∧ (lastTaken calls 2).map Prod.fst = some 2 ∧
      (keyedSurface.measure 3 ()).1 = some m' ∧ m'.size ≠ m.size := by
  obtain ⟨p, calls, hlogged, hcomplete, htargets, hrecorded, hlast⟩ := Logged.exists_rekeyed
  have hi : p.targets[3]? = some 2 := by
    rw [← ExtTreeMap.mem_toList_iff_getElem?_eq_some, htargets]
    decide
  exact ⟨p, calls, _, _, hlogged, hcomplete, hi, hrecorded, hlast, rfl, by decide +kernel⟩

end Presenter

end VirtualList
