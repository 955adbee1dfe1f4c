import VirtualList.Proofs.SizeBook.Tally
import VirtualList.Proofs.Layout.Run

/-!
# What a layout does from now on

The conduct of a layout is what can be asked of it now, and after each of any requests to come,
together with what it answers to them.  Everything in a layout can be asked for but what it keeps
for its next passes, and of these the corrections count only by what they add up to.  So in exact
arithmetic two layouts that differ in nothing but entries of zero among their corrections conduct
themselves alike.

## Key results

- `View`, `transcript`, `SameConduct`: what can be learned from a layout
- `growthAbove_eq_sum`: what passes read of the corrections
- `Alike`, `respond_alike`: layouts that differ in entries of zero only, and stay so
- `Alike.sameConduct`: such layouts cannot be told apart
-/

namespace VirtualList.Layout

open Std (ExtTreeMap)

/-- Everything that can be asked of a layout.  Where an item was placed and the largest scroll
position can be told from it. -/
structure View (α : Type) where
  state : LayoutState α
  options : Options α
  book : SizeBook α
  total : Nat
  pin : Option ScrollTarget
  published : List (PlacedItem α)
  positionOf : Nat → Except Fault α
  resolveAlign : Nat → Align → Except Fault Align
  revealPosition : Nat → Align → Except Fault α
  needsPass : Except Fault Bool

section Conduct

variable {α : Type} [Scalar α]

/-- What can be asked of a layout now. -/
def view (l : Layout α) : View α where
  state := l.toLayoutState
  options := l.options
  book := l.book
  total := l.total
  pin := l.pin
  published := l.published
  positionOf := l.positionOf
  resolveAlign := l.resolveAlign
  revealPosition := l.revealPosition
  needsPass := l.needsPass

/-- What a layout answers to requests one after the other, and what can be asked of it after each.
A fault is the end of it. -/
def transcript (l : Layout α) : List (Request α) → List (Except Fault (Answer α × View α))
  | [] => []
  | r :: rest =>
    match l.respond r with
    | .error fault => [.error fault]
    | .ok (answer, l) => .ok (answer, l.view) :: transcript l rest

/-- The layouts cannot be told apart, now or after any requests. -/
structure SameConduct (l l' : Layout α) : Prop where
  view : l'.view = l.view
  transcript : ∀ rs, l'.transcript rs = l.transcript rs

theorem SameConduct.refl (l : Layout α) : SameConduct l l := ⟨rfl, fun _ => rfl⟩

/-- By how much item `i` changed its size since the last stable pass. -/
def correction (l : Layout α) (i : Nat) : α := l.corrections[i]?.getD 0

end Conduct

/-! ## What passes read of the corrections -/

variable {l l' : Layout Rat}

/-- Summing up adds the values, whatever the sum was before. -/
private theorem foldl_add_snd (xs : List (Nat × Rat)) (s : Rat) :
    xs.foldl (fun sum (_, d) => sum + d) s = s + (xs.map Prod.snd).sum := by
  induction xs generalizing s with
  | nil => simp
  | cons x rest ih =>
    rw [List.foldl_cons, ih, List.map_cons, List.sum_cons, add_assoc]

/-- The corrections of item `i` add up to the one that is kept for it. -/
private theorem sum_map_of_key (l : Layout Rat) (i : Nat) :
    (l.corrections.toList.map fun p => if p.1 = i then p.2 else 0).sum = l.correction i := by
  -- Other items count as zero.
  have hzero (t : ExtTreeMap Nat Rat) (ht : t[i]? = none) :
      (t.toList.map fun p => if p.1 = i then p.2 else 0).sum = 0 := by
    refine List.sum_eq_zero fun x hx => ?_
    obtain ⟨⟨k, d⟩, hp, rfl⟩ := List.mem_map.1 hx
    rw [ExtTreeMap.mem_toList_iff_getElem?_eq_some] at hp
    refine if_neg fun hk => ?_
    rw [show k = i from hk, ht] at hp
    cases hp
  unfold correction
  cases hi : l.corrections[i]? with
  | none => exact hzero _ hi
  | some d =>
    rw [((ExtTreeMap.toList_perm_cons_erase hi).map _).sum_eq, List.map_cons, List.sum_cons,
      hzero _ ExtTreeMap.getElem?_erase_self, add_zero]
    exact if_pos rfl

/-- The growth above an item is the sum of the corrections in front of it. -/
theorem growthAbove_eq_sum (l : Layout Rat) (i : Nat) :
    l.growthAbove i = ((List.range i).map l.correction).sum := by
  have hsum : l.growthAbove i =
      (l.corrections.toList.map fun p => if p.1 < i then p.2 else 0).sum := by
    rw [growthAbove, foldl_add_snd, zero_add]
    induction l.corrections.toList with
    | nil => rfl
    | cons p rest ih => by_cases hp : p.1 < i <;> simp [hp, ih]
  rw [hsum]
  clear hsum
  induction i with
  | zero => simp
  | succ i ih =>
    have hsplit (p : Nat × Rat) : (if p.1 < i + 1 then p.2 else 0) =
        (if p.1 < i then p.2 else 0) + if p.1 = i then p.2 else 0 := by
      split_ifs <;> first | omega | simp
    rw [List.range_succ, List.map_append, List.sum_append, ← ih, List.map_singleton,
      List.sum_singleton, ← sum_map_of_key, ← List.sum_map_add]
    exact congrArg List.sum (List.map_congr_left fun p _ => hsplit p)

/-! ## Layouts that are alike -/

/-- The layouts differ in their corrections only, and there in entries of zero only. -/
structure Alike (l l' : Layout Rat) : Prop where
  fields : ∃ corrections, l' = { l with corrections }
  correction : ∀ i, l'.correction i = l.correction i

namespace Alike

theorem refl (l : Layout Rat) : Alike l l := ⟨⟨l.corrections, rfl⟩, fun _ => rfl⟩

theorem view (h : Alike l l') : l'.view = l.view := by
  obtain ⟨⟨corrections, rfl⟩, -⟩ := h
  rfl

theorem growthAbove (h : Alike l l') (i : Nat) : l'.growthAbove i = l.growthAbove i := by
  rw [growthAbove_eq_sum, growthAbove_eq_sum, funext h.correction]

/-- The same change of anything but the corrections. -/
theorem update (h : Alike l l') {k k' : Layout Rat} (hk : k.corrections = l.corrections)
    (hk' : k' = { k with corrections := l'.corrections }) : Alike k k' := by
  refine ⟨⟨_, hk'⟩, fun i => ?_⟩
  rw [hk', Layout.correction, Layout.correction, hk]
  exact h.correction i

/-- A correction by the same amount. -/
theorem correct (h : Alike l l') (i : Nat) (d : Rat) : Alike (l.correct i d) (l'.correct i d) := by
  obtain ⟨⟨corrections, rfl⟩, hcorrection⟩ := h
  refine ⟨⟨_, rfl⟩, fun k => ?_⟩
  have hk := hcorrection k
  simp only [Layout.correction, Layout.correct, ExtTreeMap.getElem?_alter] at hk ⊢
  split
  · rename_i hik
    obtain rfl : i = k := Std.LawfulEqCmp.eq_of_compare hik
    rw [hk]
  · exact hk

end Alike

/-- Both computations end in the same fault, or in the same answer with layouts that are alike. -/
inductive AlikeOutcomes {β : Type} :
    Except Fault (β × Layout Rat) → Except Fault (β × Layout Rat) → Prop
  | fault (fault : Fault) : AlikeOutcomes (.error fault) (.error fault)
  | answer (answer : β) {l l' : Layout Rat} : Alike l l' →
      AlikeOutcomes (.ok (answer, l)) (.ok (answer, l'))

namespace AlikeOutcomes

variable {β γ : Type}

theorem refl (x : Except Fault (β × Layout Rat)) : AlikeOutcomes x x := by
  cases x with
  | error fault => exact .fault fault
  | ok x => exact .answer x.1 (.refl x.2)

/-- The first parts of both computations are the same. -/
theorem after {x x' : Except Fault γ} (hx : x' = x) {f f' : γ → Except Fault (β × Layout Rat)}
    (h : ∀ a, AlikeOutcomes (f a) (f' a)) : AlikeOutcomes (x >>= f) (x' >>= f') := by
  subst hx
  cases x' with
  | error fault => exact .fault fault
  | ok a => exact h a

theorem bind {x x' : Except Fault (γ × Layout Rat)} (h : AlikeOutcomes x x')
    {f f' : γ × Layout Rat → Except Fault (β × Layout Rat)}
    (hf : ∀ a l l', Alike l l' → AlikeOutcomes (f (a, l)) (f' (a, l'))) :
    AlikeOutcomes (x >>= f) (x' >>= f') := by
  cases h with
  | fault fault => exact .fault fault
  | answer a h => exact hf a _ _ h

end AlikeOutcomes

/-! ## A pass -/

/-- Corrections say nothing about where a window grows. -/
theorem growBackward_withCorrections (l : Layout Rat) (corrections : ExtTreeMap Nat Rat)
    (lower : Rat) (first : Nat) (edge : Rat) (stable : Bool) (items : List (PlacedItem Rat)) :
    growBackward { l with corrections } lower first edge stable items =
      l.growBackward lower first edge stable items := by
  induction first generalizing edge stable items with
  | zero => rfl
  | succ i ih =>
    simp only [growBackward, ih]
    rfl

theorem growForward_withCorrections (l : Layout Rat) (corrections : ExtTreeMap Nat Rat)
    (upper : Rat) (remaining last : Nat) (edge : Rat) (stable : Bool) :
    growForward { l with corrections } upper remaining last edge stable =
      l.growForward upper remaining last edge stable := by
  induction remaining generalizing last edge stable with
  | zero => rfl
  | succ remaining ih =>
    simp only [growForward, ih]
    rfl

theorem growWindow_withCorrections (l : Layout Rat) (corrections : ExtTreeMap Nat Rat)
    (final : Nat) (f : Footing Rat) (b : Bounds Rat) :
    growWindow { l with corrections } final f b = l.growWindow final f b := by
  simp only [growWindow, growBackward_withCorrections, growForward_withCorrections]

theorem Alike.truncate (h : Alike l l') : Alike l.truncate l'.truncate := by
  obtain ⟨⟨corrections, rfl⟩, hcorrection⟩ := h
  refine ⟨⟨_, rfl⟩, fun k => ?_⟩
  -- A correction is kept or dropped by its item.
  have hfilter (d : Option Rat) : (d.filter fun _ => decide (k < l.total)).getD 0 =
      if k < l.total then d.getD 0 else 0 := by
    by_cases hk : k < l.total <;> cases d <;> simp [hk, Option.filter]
  have hk := hcorrection k
  simp only [Layout.correction, Layout.truncate, ExtTreeMap.getElem?_filter'] at hk ⊢
  rw [hfilter, hfilter, hk]

/-- The window is the same, and moved by the same distance. -/
theorem Alike.layOut (h : Alike l l') : AlikeOutcomes l.layOut l'.layOut := by
  have hgrowth := h.growthAbove
  obtain ⟨⟨corrections, rfl⟩, hcorrection⟩ := h
  unfold Layout.layOut
  refine .after rfl fun final => ?_
  refine .after rfl fun ⟨anchor, source, scroll⟩ => ?_
  simp only
  cases hfresh : source.startsAfresh with
  | true =>
    -- The corrections are dropped.
    exact .refl _
  | false =>
    simp only [Bool.false_eq_true, if_false]
    refine .after rfl fun footing => ?_
    refine .after (growWindow_withCorrections l corrections final footing _) fun strip => ?_
    have hoffset : settlingOffset { l with corrections } final source anchor.index strip =
        l.settlingOffset final source anchor.index strip := by
      simp only [settlingOffset, hgrowth]
      rfl
    rw [hoffset]
    generalize (if strip.stable then l.settlingOffset final source anchor.index strip else 0) =
      offset
    refine .after rfl fun scrollSize => ?_
    refine .after rfl fun scroll => ?_
    -- What is published does not depend on the corrections either; a stable window drops them.
    simp only [Layout.publish]
    cases visibleEnds (strip.items.map (·.shift offset)) scroll.position l.viewport.main with
    | none => exact .fault _
    | some ends =>
      refine .answer _ ⟨⟨_, rfl⟩, fun k => ?_⟩
      simp only [Layout.correction]
      split
      · rfl
      · exact hcorrection k

theorem Alike.pass (h : Alike l l') : AlikeOutcomes l.pass l'.pass := by
  have htruncate := h.truncate
  unfold Layout.pass
  generalize l.truncate = o at htruncate
  generalize l'.truncate = o' at htruncate
  have heq := htruncate.fields
  obtain ⟨corrections, rfl⟩ := heq
  have hopened (scrollSize : Rat) :
      Alike { o with scrollSize } { o with scrollSize, corrections } :=
    htruncate.update rfl rfl
  refine .after rfl fun scrollSize => ?_
  simp only
  split
  · exact .refl _
  · exact (hopened scrollSize).layOut

/-! ## Requests -/

/-- The same measurement is answered in the same way, and corrects an item by the same amount. -/
theorem Alike.record (h : Alike l l') (i : Nat) (m : Measurement Rat) :
    (l'.record i m).1 = (l.record i m).1 ∧ Alike (l.record i m).2 (l'.record i m).2 := by
  have heq := h.fields
  obtain ⟨corrections, rfl⟩ := heq
  simp only [Layout.record]
  by_cases hi : l.total ≤ i
  · rw [if_pos hi, if_pos hi]
    exact ⟨rfl, h⟩
  · rw [if_neg hi, if_neg hi]
    rcases l.book.record i m with ⟨e | previous, book⟩
    · exact ⟨rfl, h⟩
    · refine ⟨rfl, ?_⟩
      simp only
      split
      · exact (h.correct i _).update rfl rfl
      · exact h.update rfl rfl

theorem Alike.recordAll (h : Alike l l') (ms : List (Nat × Measurement Rat)) :
    (l'.recordAll ms).1 = (l.recordAll ms).1 ∧ Alike (l.recordAll ms).2 (l'.recordAll ms).2 := by
  induction ms generalizing l l' with
  | nil => exact ⟨rfl, h⟩
  | cons p rest ih =>
    obtain ⟨hanswer, hafter⟩ := h.record p.1 p.2
    simp only [Layout.recordAll]
    rcases hfirst : l.record p.1 p.2 with ⟨answer, k⟩
    rcases hsecond : l'.record p.1 p.2 with ⟨answer', k'⟩
    rw [hfirst, hsecond] at hanswer hafter
    obtain rfl : answer' = answer := hanswer
    cases answer' with
    | error e => exact ⟨rfl, hafter⟩
    | ok called =>
      obtain ⟨hrest, hend⟩ := ih hafter
      exact ⟨congrArg (Except.map (called || ·)) hrest, hend⟩

/-- Another side across the scroll axis drops all corrections. -/
theorem Alike.setViewport (h : Alike l l') (viewport : Viewport Rat) :
    (l'.setViewport viewport).1 = (l.setViewport viewport).1 ∧
      Alike (l.setViewport viewport).2 (l'.setViewport viewport).2 := by
  have heq := h.fields
  obtain ⟨corrections, rfl⟩ := heq
  simp only [Layout.setViewport]
  split
  · exact ⟨rfl, h⟩
  · refine ⟨rfl, ?_⟩
    simp only
    split
    · exact .refl _
    · exact h.update rfl rfl

/-- The same request has the same answer, and leads to layouts that are alike. -/
theorem respond_alike (h : Alike l l') (r : Request Rat) :
    AlikeOutcomes (l.respond r) (l'.respond r) := by
  have heq := h.fields
  cases r with
  | setOptions options =>
    obtain ⟨corrections, rfl⟩ := heq
    simp only [Layout.respond, Layout.setOptions]
    split
    · exact .answer _ h
    · exact .answer _ (h.update rfl rfl)
  | setTotal total =>
    obtain ⟨corrections, rfl⟩ := heq
    simp only [Layout.respond, Layout.setTotal]
    split
    · exact .answer _ h
    · exact .answer _ (h.update rfl rfl)
  | setViewport viewport =>
    obtain ⟨hanswer, hafter⟩ := h.setViewport viewport
    simp only [Layout.respond, hanswer]
    exact .answer _ hafter
  | setViewportMain main =>
    obtain ⟨hanswer, hafter⟩ := h.setViewport { l.viewport with main }
    obtain ⟨corrections, rfl⟩ := heq
    simp only [Layout.respond, Layout.setViewportMain, hanswer]
    exact .answer _ hafter
  | moveTo position =>
    obtain ⟨corrections, rfl⟩ := heq
    simp only [Layout.respond, Layout.moveTo]
    split
    · exact .answer _ h
    · split
      · exact .answer _ h
      · exact .answer _ (h.update rfl rfl)
  | record i m =>
    obtain ⟨hanswer, hafter⟩ := h.record i m
    simp only [Layout.respond, hanswer]
    exact .answer _ hafter
  | recordAll ms =>
    obtain ⟨hanswer, hafter⟩ := h.recordAll ms
    simp only [Layout.respond, hanswer]
    exact .answer _ hafter
  | pinTo i align =>
    obtain ⟨corrections, rfl⟩ := heq
    simp only [Layout.respond, Layout.pinTo, bind_assoc, pure_bind]
    exact .after rfl fun settled => .answer _ (h.update rfl rfl)
  | unpin =>
    obtain ⟨corrections, rfl⟩ := heq
    exact .answer _ (h.update rfl rfl)
  | forget =>
    -- All corrections are forgotten.
    obtain ⟨corrections, rfl⟩ := heq
    exact .refl _
  | refreshVisible =>
    obtain ⟨corrections, rfl⟩ := heq
    simp only [Layout.respond, Layout.refreshVisible]
    split
    · split
      · exact .answer _ h
      · exact .answer _ (h.update rfl rfl)
    · exact .answer _ h
  | reflow =>
    have hpass := h.pass
    obtain ⟨corrections, rfl⟩ := heq
    simp only [Layout.respond, Layout.reflow, bind_assoc, pure_bind]
    refine hpass.bind fun moved after after' hafter => ?_
    have heq' := hafter.fields
    obtain ⟨corrections, rfl⟩ := heq'
    exact .answer _ (hafter.update rfl rfl)

/-- Layouts that are alike cannot be told apart. -/
theorem Alike.sameConduct (h : Alike l l') : SameConduct l l' := by
  refine ⟨h.view, fun rs => ?_⟩
  induction rs generalizing l l' with
  | nil => rfl
  | cons r rest ih =>
    have hrespond := respond_alike h r
    simp only [Layout.transcript]
    generalize l.respond r = x at hrespond
    generalize l'.respond r = x' at hrespond
    cases hrespond with
    | fault fault => rfl
    | answer answer hafter =>
      simp only
      rw [hafter.view, ih hafter]

end VirtualList.Layout
