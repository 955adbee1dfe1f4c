import VirtualList.Proofs.Layout.Conduct
import VirtualList.Proofs.Layout.Convergence

/-!
# Only the last measurement of an item counts

Right after a pass the book has an entry for every item of the window, a measurement or the
estimate that the pass used.  So each measurement recorded from then on supersedes a size that is
written down, and the corrections that the measurements of one item make telescope: they add up to
the last size less the one that the pass has placed.  The averages change with every measurement,
but they do not enter into this, and in the end they are those of the last measurements.

## Key results

- `reflow_noted`: a pass leaves an entry for every item that it placed
- `correction_record`, `corrections_record`: what a measurement corrects
- `Noted`, `Reachable.record_comm`: measurements of two items with an entry can be swapped
- `origin`, `origin_recordAll`: the size that corrections count from, which no measurement changes
- `recordAll_alike`: lists with the same last measurements lead to layouts that are alike
-/

namespace VirtualList

open Std (ExtTreeMap)

/-! ## Entries of the window -/

namespace SizeBook

variable {α : Type} [Scalar α]

/-- A noted item has an entry, and no entry is lost. -/
theorem isSome_entry?_noteEstimate (b : SizeBook α) (i k : Nat) (v : α) :
    (SizeBook.entry? (b.noteEstimate i v) k).isSome = true ↔ k = i ∨ (b.entry? k).isSome = true := by
  rw [entry?_noteEstimate]
  split
  · rename_i hk
    simp [hk.1]
  · rename_i hk
    rw [not_and, Bool.not_eq_false] at hk
    -- A measured item had an entry before.
    have hentry (h : k = i) : (b.entry? k).isSome = true := by
      have hmeasured := hk h
      rw [isMeasured_eq, recorded?, ← h] at hmeasured
      exact Option.isSome_of_isSome_bind hmeasured
    exact ⟨Or.inr, fun h => h.elim hentry id⟩

theorem isSome_entry?_foldl_noteEstimate (b : SizeBook α) (items : List (PlacedItem α)) (k : Nat) :
    (SizeBook.entry? (items.foldl (fun b item => b.noteEstimate item.index item.size) b) k).isSome =
        true ↔
      k ∈ items.map PlacedItem.index ∨ (b.entry? k).isSome = true := by
  induction items generalizing b with
  | nil => simp
  | cons x rest ih =>
    rw [List.foldl_cons, ih, isSome_entry?_noteEstimate, List.map_cons, List.mem_cons,
      or_left_comm, or_assoc]

end SizeBook

namespace Layout

section

variable {α : Type} [Scalar α]

/-- A pass leaves an entry for every item that it placed. -/
theorem reflow_noted {l l' : Layout α} {report : PassReport α} {events : List (LayoutEvent α)}
    (h : l.reflow = .ok (report, events, l')) {i : Nat}
    (hi : i ∈ l'.published.map PlacedItem.index) : (l'.book.entry? i).isSome = true := by
  obtain ⟨moved, after, hpass, -, -, rfl⟩ := reflow_cases h
  obtain ⟨o, -, ⟨-, -, rfl⟩ | ⟨-, c, -, -, rfl⟩⟩ := pass_cases hpass
  · -- Where there is nothing to lay out, nothing is placed.
    cases hi
  · exact (SizeBook.isSome_entry?_foldl_noteEstimate c.base.book c.items i).2 (Or.inl hi)

/-- Item `i` is in the list, and the book has an entry for it. -/
structure Noted (l : Layout α) (i : Nat) : Prop where
  lt : i < l.total
  entry : (l.book.entry? i).isSome = true

/-- No measurement, recorded or refused, takes an entry away. -/
theorem Noted.record {l : Layout α} {k : Nat} (h : l.Noted k) (i : Nat) (m : Measurement α) :
    (l.record i m).2.Noted k := by
  by_cases hm : i < l.total ∧ m.isValid = true
  · obtain ⟨called, corrections, heq, -⟩ := record_eq_ok hm.1 hm.2
    rw [heq]
    refine ⟨h.lt, ?_⟩
    rw [SizeBook.entry?_enter]
    split
    · rfl
    · exact h.entry
  · obtain ⟨e, heq⟩ := record_refused hm
    rw [heq]
    exact h

/-- What is answered to a measurement of an item with an entry is told by the entry and the
window. -/
theorem record_answer_congr {l k : Layout α} {i : Nat} (htotal : k.total = l.total)
    (hrange : k.range = l.range) (hentry : k.book.entry? i = l.book.entry? i)
    (hsome : (l.book.entry? i).isSome = true) (m : Measurement α) :
    (k.record i m).1 = (l.record i m).1 := by
  obtain ⟨entry, he⟩ := Option.isSome_iff_exists.1 hsome
  rw [he] at hentry
  unfold record
  rw [htotal]
  split
  · rfl
  · simp only [SizeBook.record, SizeBook.superseded, hentry, he, hrange]
    cases m.check i with
    | error e => rfl
    | ok u => rfl

end

/-! ## Corrections -/

variable {l : Layout Rat}

/-- A measurement that changes the size of its item is written down as a correction. -/
theorem corrections_record {i : Nat} {m : Measurement Rat} (hi : i < l.total)
    (hm : m.isValid = true) (k : Nat) :
    (l.record i m).2.corrections[k]? =
      if k = i ∧ m.size ≠ (l.book.superseded i).value then
        some (l.correction i + (m.size - (l.book.superseded i).value))
      else l.corrections[k]? := by
  simp only [record, if_neg (Nat.not_le.2 hi), SizeBook.record, Measurement.check_of_isValid hm]
  by_cases hsize : m.size = (l.book.superseded i).value
  · simp [hsize]
  · have hgrown : (m.size - (l.book.superseded i).value != 0) = true := by
      simpa [sub_eq_zero] using hsize
    simp only [hgrown, if_true, correct, Std.ExtTreeMap.getElem?_alter, correction]
    by_cases hk : k = i
    · subst hk
      simp [hsize]
    · have hik : compare i k ≠ .eq := fun h => hk (Std.LawfulEqCmp.eq_of_compare h).symm
      simp [hk, hik]

/-- A measurement corrects its item by what it adds to the size it supersedes. -/
theorem correction_record {i : Nat} {m : Measurement Rat} (hi : i < l.total)
    (hm : m.isValid = true) (k : Nat) :
    (l.record i m).2.correction k =
      l.correction k + if k = i then m.size - (l.book.superseded i).value else 0 := by
  rw [correction, corrections_record hi hm]
  by_cases hk : k = i
  · subst hk
    by_cases hsize : m.size = (l.book.superseded k).value
    · -- A change by nothing is not written down.
      simp [hsize, correction]
    · simp [hsize]
  · simp [hk, correction]

/-- The size that the corrections of item `i` count from. -/
def origin (l : Layout Rat) (i : Nat) : Rat := (l.book.superseded i).value - l.correction i

/-- A measurement moves the size of an item and its correction by the same amount. -/
theorem origin_record {i : Nat} {m : Measurement Rat} (hi : i < l.total) (hm : m.isValid = true)
    {k : Nat} (hk : (l.book.entry? k).isSome = true) :
    (l.record i m).2.origin k = l.origin k ∧
      (SizeBook.entry? (l.record i m).2.book k).isSome = true := by
  obtain ⟨called, corrections, heq, -⟩ := record_eq_ok hi hm
  have hbook : (l.record i m).2.book = l.book.enter i m := by rw [heq]
  have hentry := SizeBook.entry?_enter l.book i k m
  rw [origin, correction_record hi hm, hbook]
  by_cases hki : k = i
  · subst hki
    rw [if_pos rfl] at hentry
    rw [hentry, if_pos rfl, origin]
    refine ⟨?_, rfl⟩
    simp only [SizeBook.superseded, hentry, Size.value_measured]
    ring
  · rw [if_neg hki] at hentry
    obtain ⟨entry, he⟩ := Option.isSome_iff_exists.1 hk
    rw [hentry, if_neg hki, add_zero]
    refine ⟨?_, hk⟩
    simp only [origin, SizeBook.superseded, hentry, he]

/-- No measurements change where the corrections of an item with an entry count from. -/
theorem origin_recordAll {ms : List (Nat × Measurement Rat)}
    (hms : ∀ p ∈ ms, p.1 < l.total ∧ p.2.isValid = true) {k : Nat}
    (hk : (l.book.entry? k).isSome = true) : (l.recordAll ms).2.origin k = l.origin k := by
  induction ms generalizing l with
  | nil => rfl
  | cons p rest ih =>
    obtain ⟨i, m⟩ := p
    obtain ⟨⟨hi, hm⟩, hrest⟩ := List.forall_mem_cons.1 hms
    obtain ⟨called, corrections, heq, -⟩ := record_eq_ok hi hm
    obtain ⟨horigin, hentry⟩ := origin_record hi hm hk
    rw [heq] at horigin hentry
    rw [recordAll, heq]
    exact (ih (l := { l with book := l.book.enter i m, corrections }) hrest hentry).trans horigin

/-- An item that is not measured is not corrected. -/
theorem correction_recordAll_of_not_mem {ms : List (Nat × Measurement Rat)}
    (hms : ∀ p ∈ ms, p.1 < l.total ∧ p.2.isValid = true) {k : Nat} (hk : k ∉ ms.map Prod.fst) :
    (l.recordAll ms).2.correction k = l.correction k := by
  induction ms generalizing l with
  | nil => rfl
  | cons p rest ih =>
    obtain ⟨i, m⟩ := p
    obtain ⟨⟨hi, hm⟩, hrest⟩ := List.forall_mem_cons.1 hms
    rw [List.map_cons, List.mem_cons, not_or] at hk
    obtain ⟨called, corrections, heq, -⟩ := record_eq_ok hi hm
    have hfirst := correction_record hi hm k
    rw [heq, if_neg hk.1, add_zero] at hfirst
    rw [recordAll, heq]
    exact (ih (l := { l with book := l.book.enter i m, corrections }) hrest hk.2).trans hfirst

/-! ## Any order -/

/-- A refused measurement leaves the layout as it is. -/
theorem record_of_not_isValid {m : Measurement Rat} (hm : ¬m.isValid = true) (l : Layout Rat)
    (i : Nat) : (l.record i m).2 = l := by
  obtain ⟨e, heq⟩ := record_refused (l := l) (i := i) (m := m) fun h => hm h.2
  rw [heq]

/-- Valid measurements of two items with an entry lead to the same layout in either order. -/
theorem Reachable.record_swap (hl : Reachable l) {i j : Nat} (hne : i ≠ j)
    (hi : l.Noted i) (hj : l.Noted j)
    {m m' : Measurement Rat} (hm : m.isValid = true) (hm' : m'.isValid = true) :
    ((l.record i m).2.record j m').2 = ((l.record j m').2.record i m).2 := by
  have hlimit := hl.total_le
  obtain ⟨hi, hentryᵢ⟩ := hi
  obtain ⟨hj, hentryⱼ⟩ := hj
  obtain ⟨entryᵢ, hentryᵢ⟩ := Option.isSome_iff_exists.1 hentryᵢ
  obtain ⟨entryⱼ, hentryⱼ⟩ := Option.isSome_iff_exists.1 hentryⱼ
  -- The book does not tell in what order it was filled.
  have hbook : (l.book.enter i m).enter j m' = (l.book.enter j m').enter i m := by
    show [(i, m), (j, m')].foldl (fun b x => b.enter x.1 x.2) l.book =
      [(j, m'), (i, m)].foldl (fun b x => b.enter x.1 x.2) l.book
    refine SizeBook.foldl_enter_eq hl.book_sound hl.book_tallied ?_ ?_ fun k => ?_
    · simp only [List.forall_mem_cons, List.not_mem_nil, false_imp_iff, implies_true, and_true]
      exact ⟨⟨by omega, hm'⟩, by omega, hm⟩
    · simp only [List.forall_mem_cons, List.not_mem_nil, false_imp_iff, implies_true, and_true]
      exact ⟨⟨by omega, hm⟩, by omega, hm'⟩
    · simp only [List.reverse_cons, List.reverse_nil, List.nil_append, List.cons_append,
        List.lookup_cons, List.lookup_nil]
      by_cases hk : k = i
      · subst hk
        simp [beq_false_of_ne hne]
      · simp [beq_false_of_ne hk]
  obtain ⟨a, c, heq, -⟩ := record_eq_ok (l := l) hi hm
  obtain ⟨a', c', heq', -⟩ := record_eq_ok (l := l) hj hm'
  have hc (k : Nat) := corrections_record hi hm k
  have hc' (k : Nat) := corrections_record hj hm' k
  rw [heq] at hc ⊢
  rw [heq'] at hc' ⊢
  obtain ⟨b, d, hsecond, -⟩ := record_eq_ok
    (l := { l with book := l.book.enter i m, corrections := c }) (i := j) hj hm'
  obtain ⟨b', d', hsecond', -⟩ := record_eq_ok
    (l := { l with book := l.book.enter j m', corrections := c' }) (i := i) hi hm
  have hd (k : Nat) := corrections_record
    (l := { l with book := l.book.enter i m, corrections := c }) (i := j) hj hm' k
  have hd' (k : Nat) := corrections_record
    (l := { l with book := l.book.enter j m', corrections := c' }) (i := i) hi hm k
  rw [hsecond] at hd ⊢
  rw [hsecond'] at hd' ⊢
  simp only at hc hc' hd hd' ⊢
  -- Neither measurement touches the entry or the correction of the other item.
  have hcorrections : d = d' := by
    refine ExtTreeMap.ext_getElem? fun k => ?_
    rw [hd, hd', hc, hc']
    simp only [SizeBook.superseded, SizeBook.entry?_enter, correction, hc, hc', hne, hne.symm,
      if_false, false_and, hentryᵢ, hentryⱼ]
    by_cases hki : k = i
    · subst hki
      simp [hne]
    · simp [hki]
  rw [hbook, hcorrections]

/-- Measurements of two items with an entry are answered and recorded alike in either order. -/
theorem Reachable.record_comm (hl : Reachable l) {i j : Nat} (hne : i ≠ j)
    (hi : l.Noted i) (hj : l.Noted j)
    (m m' : Measurement Rat) :
    ((l.record i m).2.record j m').1 = (l.record j m').1 ∧
      ((l.record i m).2.record j m').2 = ((l.record j m').2.record i m).2 := by
  by_cases hm : m.isValid = true
  · obtain ⟨a, c, heq, -⟩ := record_eq_ok (l := l) hi.lt hm
    have hentry : SizeBook.entry? (l.record i m).2.book j = l.book.entry? j := by
      rw [heq, SizeBook.entry?_enter, if_neg hne.symm]
    refine ⟨record_answer_congr (by rw [heq]) (by rw [heq]) hentry hj.entry m', ?_⟩
    by_cases hm' : m'.isValid = true
    · exact hl.record_swap hne hi hj hm hm'
    · rw [record_of_not_isValid hm', record_of_not_isValid hm']
  · rw [record_of_not_isValid hm, record_of_not_isValid hm]
    exact ⟨rfl, rfl⟩

/-- Valid measurements of items with an entry lead to layouts that are alike if they agree on the
last measurement of every item. -/
theorem Reachable.recordAll_alike (hl : Reachable l) {ms ms' : List (Nat × Measurement Rat)}
    (hms : ∀ p ∈ ms, p.1 < l.total ∧ p.2.isValid = true)
    (hms' : ∀ p ∈ ms', p.1 < l.total ∧ p.2.isValid = true)
    (hentries : ∀ p ∈ ms ++ ms', (l.book.entry? p.1).isSome = true)
    (hlast : ∀ i, ms'.reverse.lookup i = ms.reverse.lookup i) :
    Alike (l.recordAll ms).2 (l.recordAll ms').2 := by
  obtain ⟨called, corrections, heq⟩ := recordAll_eq_ok hms
  obtain ⟨called', corrections', heq'⟩ := recordAll_eq_ok hms'
  have hlimit := hl.total_le
  have hbook : (l.recordAll ms').2.book = (l.recordAll ms).2.book := by
    rw [heq, heq']
    refine SizeBook.foldl_enter_eq hl.book_sound hl.book_tallied (fun p hp => ?_) (fun p hp => ?_)
      hlast
    · obtain ⟨hlt, hvalid⟩ := hms p hp
      exact ⟨by omega, hvalid⟩
    · obtain ⟨hlt, hvalid⟩ := hms' p hp
      exact ⟨by omega, hvalid⟩
  refine ⟨⟨corrections', ?_⟩, fun k => ?_⟩
  · rw [heq, heq'] at hbook ⊢
    simp only at hbook
    rw [hbook]
  · by_cases hk : (l.book.entry? k).isSome = true
    · -- Both corrections count from the same size, to the same size.
      have horigin := (origin_recordAll hms hk).trans (origin_recordAll hms' hk).symm
      simp only [origin, hbook] at horigin
      linarith
    · -- Neither list measures the item.
      have hfree : k ∉ (ms ++ ms').map Prod.fst := fun hmem => by
        obtain ⟨p, hp, rfl⟩ := List.mem_map.1 hmem
        exact hk (hentries p hp)
      rw [List.map_append, List.mem_append, not_or] at hfree
      rw [correction_recordAll_of_not_mem hms hfree.1,
        correction_recordAll_of_not_mem hms' hfree.2]

end Layout

end VirtualList
