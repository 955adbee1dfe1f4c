import Mathlib.Algebra.BigOperators.Group.Finset.Basic
import Mathlib.Order.Interval.Set.UnorderedInterval
import Mathlib.Tactic.FieldSimp
import VirtualList.Proofs.SizeBook.History

/-!
# Books of fully measured lists

Once every item of a list has been measured, and nothing else is on record, a book says all there is
to say about the list: one size for each item, and one margin for each pair of neighbours and for
each end.  The averages go over exactly these, so that they give back the sums.

A margin at the end of a list is the margin of the last item only as long as it meets nothing: the
book does not know where a list ends, and collapses it with whatever it has on record behind.

## Key results

- `Margins.collapse_zero`, `Margins.collapse_eq_left_iff`: when a margin stays as it is
- `Sound.marginBefore_succ`: the margin behind a measured item
- `Complete`: the book of a fully measured list
- `Complete.mul_estimate`, `Complete.mul_averageMargin`: the averages give back the sums
-/

namespace VirtualList

/-! ## Margins that stay -/

/-- A margin that meets none stays as it is. -/
@[simp] theorem Margins.collapse_zero (a : Rat) : Margins.collapse a 0 = a := by
  simp only [collapse, Scalar.max, Scalar.min]
  split_ifs <;> linarith

/-- Of two margins that meet the first one stays iff the second one lies between zero and it. -/
theorem Margins.collapse_eq_left_iff {a b : Rat} : Margins.collapse a b = a ↔ b ∈ Set.uIcc 0 a := by
  rw [Set.mem_uIcc]
  simp only [collapse, Scalar.max, Scalar.min]
  constructor
  · intro h
    split_ifs at h <;> grind
  · intro h
    split_ifs <;> grind

/-! ## Totals over an index -/

/-- A list that holds one value for each index below `n` holds nothing else. -/
theorem perm_map_range {β : Type} {xs : List (Nat × β)} {f : Nat → β} {n : Nat} (hnodup : xs.Nodup)
    (h : ∀ i v, (i, v) ∈ xs ↔ i < n ∧ v = f i) :
    xs.Perm ((List.range n).map fun i => (i, f i)) := by
  have hrange : ((List.range n).map fun i => (i, f i)).Nodup :=
    List.nodup_range.map fun i k heq => (Prod.mk.inj heq).1
  rw [List.perm_ext_iff_of_nodup hnodup hrange]
  rintro ⟨i, v⟩
  simp only [h, List.mem_map, List.mem_range, Prod.mk.injEq]
  constructor
  · rintro ⟨hi, rfl⟩
    exact ⟨i, hi, rfl, rfl⟩
  · rintro ⟨i, hi, rfl, rfl⟩
    exact ⟨hi, rfl⟩

/-- The average of `n` values gives back their sum. -/
theorem RunningTotal.Tallies.mul_average {t : RunningTotal Rat} {f : Nat → Rat} {n : Nat}
    (h : t.Tallies ((List.range n).map f)) (hn : n ≠ 0) (d : Rat) :
    (n : Rat) * t.average?.getD d = ∑ i ∈ Finset.range n, f i := by
  obtain ⟨hsum, hcount⟩ := h
  rw [List.length_map, List.length_range] at hcount
  have hnonzero : (n : Rat) ≠ 0 := Nat.cast_ne_zero.2 hn
  rw [average?, hcount, if_neg hn, hsum, Option.getD_some]
  field_simp
  rfl

namespace SizeBook

/-! ## The margin behind an item -/

section

variable {α : Type} [Scalar α] {b : SizeBook α}

/-- The margin in front of item `i`, zero if none is on record. -/
def leadingMargin (b : SizeBook α) (i : Nat) : α :=
  ((b.recorded? i).map (·.margins.before)).getD 0

/-- Behind a measured item lies what its margin and the one on record behind it collapse to. -/
theorem Sound.marginBefore_succ (hs : b.Sound) {i : Nat} {m : Measurement α}
    (hi : i < Index.limit) (hm : b.recorded? i = some m) :
    b.marginBefore (i + 1) =
      .measured (Margins.collapse m.margins.after (b.leadingMargin (i + 1))) := by
  have hborders : b.Borders (i + 1) := by
    right
    rw [isMeasured_eq, Nat.add_sub_cancel, hm]
    exact ⟨Nat.succ_ne_zero i, rfl⟩
  have hspace := (hs.spaces_eq_some_iff (i + 1) _).2 ⟨hi, hborders, rfl⟩
  simp only [marginBefore, hspace, spaceFromMargins, measuredMargins?_eq, Nat.add_sub_cancel, hm,
    Nat.succ_ne_zero, if_false, leadingMargin, Option.map_map, Option.map_some, Option.getD_some,
    Function.comp_def]

end

/-! ## Fully measured lists -/

/-- What lies in front of item `k` of a list of `n` items with the measurements `ms`, where `k = n`
is the end of the list. -/
def listMargin (ms : Nat → Measurement Rat) (n k : Nat) : Rat :=
  if k = 0 then (ms 0).margins.before
  else if k = n then (ms (n - 1)).margins.after
  else Margins.collapse (ms (k - 1)).margins.after (ms k).margins.before

/-- The book has on record the measurements `ms` of the items before item `n`, and no others. -/
structure Complete (b : SizeBook Rat) (ms : Nat → Measurement Rat) (n : Nat) : Prop where
  recorded : ∀ i < n, b.recorded? i = some (ms i)
  beyond : ∀ i, n ≤ i → b.recorded? i = none

namespace Complete

variable {b : SizeBook Rat} {ms : Nat → Measurement Rat} {n : Nat}

theorem recorded?_iff (h : b.Complete ms n) (i : Nat) (m : Measurement Rat) :
    b.recorded? i = some m ↔ i < n ∧ m = ms i := by
  rcases Nat.lt_or_ge i n with hi | hi
  · simp [h.recorded i hi, hi, eq_comm]
  · simp [h.beyond i hi, Nat.not_lt.2 hi]

theorem iff_onRecord : b.Complete ms n ↔
    (∀ i < n, b.recorded? i = some (ms i)) ∧ ∀ p ∈ b.onRecord, p.1 < n := by
  constructor
  · intro h
    exact ⟨h.recorded, fun p hp => ((h.recorded?_iff p.1 p.2).1 (mem_onRecord.1 hp)).1⟩
  · rintro ⟨hrecorded, hall⟩
    refine ⟨hrecorded, fun i hi => Option.eq_none_iff_forall_ne_some.2 fun m hm => ?_⟩
    exact absurd (hall (i, m) (mem_onRecord.2 hm)) (Nat.not_lt.2 hi)

instance : Decidable (b.Complete ms n) := decidable_of_iff _ iff_onRecord.symm

theorem isMeasured_iff (h : b.Complete ms n) (i : Nat) : b.isMeasured i = true ↔ i < n := by
  rw [isMeasured_eq, Option.isSome_iff_exists]
  simp [h.recorded?_iff]

theorem sizeOf_eq (h : b.Complete ms n) {i : Nat} (hi : i < n) :
    b.sizeOf i = .measured (ms i).size := sizeOf_of_recorded (h.recorded i hi)

/-- The margins of a fully measured list are worked out from its own measurements. -/
theorem spaceFromMargins_eq (h : b.Complete ms n) {k : Nat} (hn : 0 < n) (hk : k ≤ n) :
    b.spaceFromMargins k = listMargin ms n k := by
  simp only [spaceFromMargins, measuredMargins?_eq, listMargin]
  split_ifs with hfirst hlast
  · rw [hfirst, h.recorded 0 hn]
    rfl
  · -- Behind the last item nothing is on record.
    rw [hlast, h.beyond n (Nat.le_refl n), h.recorded (n - 1) (by omega)]
    exact Margins.collapse_zero _
  · rw [h.recorded k (by omega), h.recorded (k - 1) (by omega)]
    rfl

/-- The book knows one margin for each pair of neighbours and for each end. -/
theorem spaces_iff (h : b.Complete ms n) (hs : b.Sound) (hn : 0 < n) (hlimit : n ≤ Index.limit)
    (k : Nat) (v : Rat) : b.spaces[k]? = some v ↔ k < n + 1 ∧ v = listMargin ms n k := by
  have hborders : b.Borders k ↔ k ≤ n := by
    rw [Borders, h.isMeasured_iff, h.isMeasured_iff]
    omega
  rw [hs.spaces_eq_some_iff, hborders, Nat.lt_succ_iff]
  constructor
  · rintro ⟨-, hk, rfl⟩
    exact ⟨hk, h.spaceFromMargins_eq hn hk⟩
  · rintro ⟨hk, rfl⟩
    exact ⟨hk.trans hlimit, hk, (h.spaceFromMargins_eq hn hk).symm⟩

theorem marginBefore_eq (h : b.Complete ms n) (hs : b.Sound) (hn : 0 < n)
    (hlimit : n ≤ Index.limit) {k : Nat} (hk : k ≤ n) :
    b.marginBefore k = .measured (listMargin ms n k) := by
  rw [marginBefore, (h.spaces_iff hs hn hlimit k _).2 ⟨Nat.lt_succ_of_le hk, rfl⟩]

/-- The estimate gives back the sum of all sizes. -/
theorem mul_estimate (h : b.Complete ms n) (ht : b.Tallied) (hn : 0 < n) :
    (n : Rat) * b.estimate = ∑ i ∈ Finset.range n, (ms i).size := by
  have hperm := (perm_map_range (nodup_onRecord b) fun i m => by
    rw [mem_onRecord, h.recorded?_iff]).map fun p => p.2.size
  rw [← measuredSizes_eq_onRecord, List.map_map] at hperm
  exact (ht.sizes.perm hperm).mul_average (Nat.ne_of_gt hn) _

/-- The average margin gives back the sum of all margins. -/
theorem mul_averageMargin (h : b.Complete ms n) (hs : b.Sound) (ht : b.Tallied) (hn : 0 < n)
    (hlimit : n ≤ Index.limit) :
    ((n : Rat) + 1) * b.averageMargin = ∑ k ∈ Finset.range (n + 1), listMargin ms n k := by
  have hperm := (perm_map_range (Std.ExtTreeMap.nodup_toList b.spaces) fun k v => by
    rw [Std.ExtTreeMap.mem_toList_iff_getElem?_eq_some, h.spaces_iff hs hn hlimit]).map Prod.snd
  rw [List.map_map] at hperm
  have hsum := (ht.spaces.perm hperm).mul_average (Nat.succ_ne_zero n) 0
  rwa [Nat.cast_succ] at hsum

end Complete

end SizeBook

end VirtualList
