import Mathlib.Algebra.Order.BigOperators.Group.List
import Mathlib.Algebra.Order.Field.Rat
import Mathlib.Tactic.Linarith
import Mathlib.Tactic.Positivity
import Mathlib.Tactic.Ring
import VirtualList.Proofs.ExtTreeMap
import VirtualList.Proofs.SizeBook.Record

/-!
# Running totals in exact arithmetic

In exact arithmetic the running totals of a book are the sums of the measured sizes and of the
known spaces, whatever was measured again or forgotten in between.  So the averages that a pass
falls back on are not negative where the measurements are not.

## Key results

- `Tallied`, `Tallied.enter`: the totals are exact
- `estimate_nonneg`, `averageMargin_nonneg`: the averages are not negative
- `estimate_pos`: an average of positive sizes is positive
- `spaceFromMargins_nonneg`: margins that are not negative leave no negative space
-/

namespace VirtualList

/-! ## The total of a list -/

/-- A total is the sum and the number of the values of a list. -/
def RunningTotal.Tallies (t : RunningTotal Rat) (xs : List Rat) : Prop :=
  t.total = xs.sum ∧ t.count = xs.length

namespace RunningTotal.Tallies

variable {t : RunningTotal Rat} {xs ys : List Rat}

theorem empty : RunningTotal.Tallies .empty [] := ⟨rfl, rfl⟩

theorem insert (h : t.Tallies xs) (v : Rat) : (t.insert v).Tallies (v :: xs) := by
  obtain ⟨hsum, hlen⟩ := h
  constructor
  · simp only [RunningTotal.insert, List.sum_cons, hsum]
    ring
  · simp only [RunningTotal.insert, List.length_cons, hlen]

theorem replace {old : Rat} (h : t.Tallies (old :: xs)) (v : Rat) :
    (t.replace old v).Tallies (v :: xs) := by
  obtain ⟨hsum, hlen⟩ := h
  constructor
  · simp only [RunningTotal.replace, List.sum_cons, hsum]
    ring
  · simp only [RunningTotal.replace, List.length_cons, hlen]

/-- The order of the values does not matter. -/
theorem perm (h : t.Tallies xs) (hp : xs.Perm ys) : t.Tallies ys :=
  ⟨h.1.trans hp.sum_eq, h.2.trans hp.length_eq⟩

/-- No other total is the sum and the number of the same values. -/
theorem unique {u : RunningTotal Rat} (h : t.Tallies xs) (hu : u.Tallies xs) : t = u := by
  cases t
  cases u
  exact congrArg₂ _ (h.1.trans hu.1.symm) (h.2.trans hu.2.symm)

/-- The average of values that are not negative is not negative. -/
theorem average_nonneg (h : t.Tallies xs) (hxs : ∀ x ∈ xs, 0 ≤ x) {v : Rat}
    (hv : t.average? = some v) : 0 ≤ v := by
  simp only [RunningTotal.average?] at hv
  split at hv
  · -- There is no average of nothing.
    cases hv
  · have hsum := List.sum_nonneg hxs
    rw [← h.1] at hsum
    cases hv
    positivity

/-- There is an average of some positive values, and it is positive. -/
theorem exists_average_pos (h : t.Tallies xs) (hne : xs ≠ []) (hxs : ∀ x ∈ xs, 0 < x) :
    ∃ v, t.average? = some v ∧ 0 < v := by
  have hcount : t.count ≠ 0 := by
    rw [h.2]
    exact Nat.ne_of_gt (List.length_pos_of_ne_nil hne)
  have hsum : 0 < t.total := by
    rw [h.1]
    exact List.sum_pos xs hxs hne
  exact ⟨t.total / (t.count : Rat), if_neg hcount, by positivity⟩

end RunningTotal.Tallies

/-! ## The totals of a book -/

namespace SizeBook

/-- The sizes that a list of entries says were measured. -/
def measuredSizes (entries : List (Nat × SizeEntry Rat)) : List Rat :=
  entries.filterMap fun p => p.2.measurement?.map (·.2.size)

/-- The running totals of a book are those of its measured sizes and of its known spaces. -/
structure Tallied (b : SizeBook Rat) : Prop where
  sizes : b.sizes.Tallies (measuredSizes b.entries.toList)
  spaces : b.spaceSizes.Tallies (b.spaces.toList.map Prod.snd)

/-- Putting an entry in the place of that of item `i` exchanges the size measured for it. -/
theorem measuredSizes_insert_perm (entries : Std.ExtTreeMap Nat (SizeEntry Rat)) (i : Nat)
    (entry : SizeEntry Rat) :
    (measuredSizes (entries.insert i entry).toList).Perm
      ((entry.measurement?.map (·.2.size)).toList ++ measuredSizes (entries.erase i).toList) := by
  refine ((Std.ExtTreeMap.toList_insert_perm entries i entry).filterMap _).trans ?_
  cases h : entry.measurement? <;> simp [measuredSizes, h]

theorem measuredSizes_perm_cons_erase {entries : Std.ExtTreeMap Nat (SizeEntry Rat)} {i : Nat}
    {entry : SizeEntry Rat} (he : entries[i]? = some entry) :
    (measuredSizes entries.toList).Perm
      ((entry.measurement?.map (·.2.size)).toList ++ measuredSizes (entries.erase i).toList) := by
  refine ((Std.ExtTreeMap.toList_perm_cons_erase he).filterMap _).trans ?_
  cases h : entry.measurement? <;> simp [measuredSizes, h]

namespace Tallied

theorem empty (d : Rat) : (SizeBook.empty d).Tallied where
  sizes := RunningTotal.Tallies.empty
  spaces := RunningTotal.Tallies.empty

theorem clear (b : SizeBook Rat) : b.clear.Tallied := empty _

theorem withDefault {b : SizeBook Rat} (hb : b.Tallied) (d : Rat) :
    { b with defaultEstimate := d }.Tallied :=
  ⟨hb.sizes, hb.spaces⟩

theorem updateSpace {b : SizeBook Rat} (hb : b.Tallied) (i : Nat) : (b.updateSpace i).Tallied where
  sizes := hb.sizes
  spaces := by
    have hnew := (Std.ExtTreeMap.toList_insert_perm b.spaces i (b.spaceFromMargins i)).map Prod.snd
    have hold := hb.spaces
    simp only [SizeBook.updateSpace]
    -- A space that was known before is replaced, and any other one is added.
    split
    · rename_i old hi
      have hperm := (Std.ExtTreeMap.toList_perm_cons_erase hi).map Prod.snd
      exact ((hold.perm hperm).replace _).perm hnew.symm
    · rename_i hi
      rw [Std.ExtTreeMap.erase_eq_self hi] at hnew
      exact (hold.insert _).perm hnew.symm

/-- Noting an estimate exchanges an entry without a measurement, if any at all. -/
theorem noteEstimate {b : SizeBook Rat} (hb : b.Tallied) (i : Nat) (v : Rat) :
    (b.noteEstimate i v).Tallied where
  sizes := by
    refine hb.sizes.perm ?_
    -- Altering an entry is inserting what comes of it.
    have hsame (entry : SizeEntry Rat) (f : Option (SizeEntry Rat) → Option (SizeEntry Rat))
        (h : f b.entries[i]? = some entry) : b.entries.alter i f = b.entries.insert i entry := by
      refine Std.ExtTreeMap.ext_getElem? fun k => ?_
      simp only [Std.ExtTreeMap.getElem?_alter, Std.ExtTreeMap.getElem?_insert, h]
    cases he : b.entries[i]? with
    | none =>
      simp only [SizeBook.noteEstimate]
      rw [hsame ⟨i, .estimated v, none, .zero⟩ _ (by simp [he])]
      have hperm := measuredSizes_insert_perm b.entries i ⟨i, .estimated v, none, .zero⟩
      rw [Std.ExtTreeMap.erase_eq_self he] at hperm
      exact hperm.symm
    | some entry =>
      have hold := measuredSizes_perm_cons_erase he
      cases hs : entry.primary with
      | measured w =>
        -- A measured entry stays.
        simp only [SizeBook.noteEstimate]
        rw [hsame entry _ (by simp [he, hs])]
        exact hold.trans (measuredSizes_insert_perm b.entries i entry).symm
      | estimated w =>
        -- Neither the old entry nor the new one has a measurement.
        simp only [SizeBook.noteEstimate]
        rw [hsame { entry with primary := .estimated v } _ (by simp [he, hs])]
        have hnew := measuredSizes_insert_perm b.entries i { entry with primary := .estimated v }
        simp only [SizeEntry.measurement?, hs] at hold hnew
        exact hold.trans hnew.symm
  spaces := hb.spaces

theorem enter {b : SizeBook Rat} (hb : b.Tallied) (i : Nat) (m : Measurement Rat) :
    (b.enter i m).Tallied := by
  simp only [SizeBook.enter]
  -- The two spaces are worked out last, so only the sizes are left.
  apply updateSpace
  apply updateSpace
  refine ⟨?_, hb.spaces⟩
  have hnew := measuredSizes_insert_perm b.entries i ⟨i, .measured m.size, m.secondary, m.margins⟩
  simp only [superseded, entry?]
  cases he : b.entries[i]? with
  | none =>
    rw [Std.ExtTreeMap.erase_eq_self he] at hnew
    exact (hb.sizes.insert _).perm hnew.symm
  | some entry =>
    have hold := hb.sizes.perm (measuredSizes_perm_cons_erase he)
    simp only
    cases hs : entry.primary with
    | estimated w =>
      simp only [SizeEntry.measurement?, hs] at hold
      exact (hold.insert _).perm hnew.symm
    | measured w =>
      -- A measurement that is made again takes the place of the one before.
      simp only [SizeEntry.measurement?, hs] at hold
      exact (hold.replace _).perm hnew.symm

end Tallied

/-! ## Averages that are not negative -/

/-- Margins that are not negative collapse to a space that is not negative. -/
theorem collapse_nonneg {a b : Rat} (ha : 0 ≤ a) (hb : 0 ≤ b) : 0 ≤ Margins.collapse a b := by
  simp only [Margins.collapse, Scalar.max, Scalar.min]
  split_ifs <;> linarith

/-- No margin on record is negative. -/
def NonnegMargins (b : SizeBook Rat) : Prop :=
  ∀ i m, b.recorded? i = some m → 0 ≤ m.margins.before ∧ 0 ≤ m.margins.after

variable {b : SizeBook Rat}

/-- Every size on record is positive. -/
def PositiveSizes (b : SizeBook Rat) : Prop := ∀ i m, b.recorded? i = some m → 0 < m.size

/-- The measurements on record are those of the entries. -/
theorem forall_recorded_iff (b : SizeBook Rat) (P : Measurement Rat → Prop) :
    (∀ i m, b.recorded? i = some m → P m) ↔
      ∀ p ∈ b.entries.toList, ∀ q ∈ p.2.measurement?, P q.2 := by
  constructor
  · intro h p hp q hq
    rw [Std.ExtTreeMap.mem_toList_iff_getElem?_eq_some] at hp
    apply h p.1 q.2
    rw [recorded?, entry?, hp, Option.bind_some, Option.mem_def.1 hq]
    rfl
  · intro h i m hm
    obtain ⟨entry, hentry, hm⟩ := Option.bind_eq_some_iff.1 hm
    obtain ⟨q, hq, rfl⟩ := Option.map_eq_some_iff.1 hm
    exact h (i, entry) (Std.ExtTreeMap.mem_toList_iff_getElem?_eq_some.2 hentry) q hq

instance : Decidable b.NonnegMargins := decidable_of_iff _ (b.forall_recorded_iff _).symm

instance : Decidable b.PositiveSizes := decidable_of_iff _ (b.forall_recorded_iff _).symm

theorem spaceFromMargins_nonneg (hm : b.NonnegMargins) (k : Nat) : 0 ≤ b.spaceFromMargins k := by
  -- On each side there is a margin on record, or none, which counts as zero.
  have hside (i : Nat) (f : Margins Rat → Rat)
      (hf : ∀ m, b.recorded? i = some m → 0 ≤ f m.margins) :
      0 ≤ ((b.measuredMargins? i).map f).getD 0 := by
    rw [measuredMargins?_eq]
    cases h : b.recorded? i with
    | none => exact le_refl _
    | some m => exact hf m h
  have hlead := hside k Margins.before fun m h => (hm k m h).1
  have htrail := hside (k - 1) Margins.after fun m h => (hm (k - 1) m h).2
  simp only [spaceFromMargins]
  split
  · exact hlead
  · exact collapse_nonneg htrail hlead

theorem averageMargin_nonneg (hs : b.Sound) (ht : b.Tallied) (hm : b.NonnegMargins) :
    0 ≤ b.averageMargin := by
  unfold averageMargin
  cases hv : b.spaceSizes.average? with
  | none => exact le_refl _
  | some v =>
    refine ht.spaces.average_nonneg (fun x hx => ?_) hv
    obtain ⟨⟨k, y⟩, hk, rfl⟩ := List.mem_map.1 hx
    rw [Std.ExtTreeMap.mem_toList_iff_getElem?_eq_some] at hk
    -- The average goes over spaces that are up to date.
    rw [(hs.space_eq k y hk).2.2]
    exact spaceFromMargins_nonneg hm k

/-- The space in front of an item is not negative, known or not. -/
theorem marginBefore_nonneg (hs : b.Sound) (ht : b.Tallied) (hm : b.NonnegMargins) (k : Nat) :
    0 ≤ (b.marginBefore k).value := by
  unfold marginBefore
  cases hk : b.spaces[k]? with
  | none => exact averageMargin_nonneg hs ht hm
  | some v =>
    simp only [Size.value_measured]
    rw [(hs.space_eq k v hk).2.2]
    exact spaceFromMargins_nonneg hm k

/-- A size on record is not negative. -/
theorem size_nonneg {m : Measurement Rat} (hm : m.isValid = true) : 0 ≤ m.size := by
  simp only [Measurement.isValid, Scalar.isExtent, Bool.and_eq_true, decide_eq_true_eq] at hm
  exact hm.1.1.2

/-- The sizes that the estimate goes over are those on record. -/
theorem mem_measuredSizes {x : Rat} : x ∈ measuredSizes b.entries.toList ↔
    ∃ i m, b.recorded? i = some m ∧ m.size = x := by
  constructor
  · intro hx
    obtain ⟨⟨k, entry⟩, hk, he⟩ := List.mem_filterMap.1 hx
    rw [Std.ExtTreeMap.mem_toList_iff_getElem?_eq_some] at hk
    obtain ⟨p, hp, rfl⟩ := Option.map_eq_some_iff.1 he
    refine ⟨k, p.2, ?_, rfl⟩
    rw [recorded?, entry?, hk]
    exact Option.map_eq_some_iff.2 ⟨p, hp, rfl⟩
  · intro h
    obtain ⟨i, m, hm, rfl⟩ := h
    obtain ⟨entry, hentry, hm⟩ := Option.bind_eq_some_iff.1 hm
    obtain ⟨q, hq, rfl⟩ := Option.map_eq_some_iff.1 hm
    exact List.mem_filterMap.2 ⟨(i, entry), Std.ExtTreeMap.mem_toList_iff_getElem?_eq_some.2 hentry,
      Option.map_eq_some_iff.2 ⟨q, hq, rfl⟩⟩

theorem estimate_nonneg (hs : b.Sound) (ht : b.Tallied) (hd : 0 ≤ b.defaultEstimate) :
    0 ≤ b.estimate := by
  unfold estimate
  cases hv : b.sizes.average? with
  | none => exact hd
  | some v =>
    refine ht.sizes.average_nonneg (fun x hx => ?_) hv
    obtain ⟨k, m, hm, rfl⟩ := mem_measuredSizes.1 hx
    exact size_nonneg (hs.valid k m hm)

/-- As soon as an item has been measured, the estimate is positive if the sizes on record are. -/
theorem estimate_pos (ht : b.Tallied) (hp : b.PositiveSizes) {i : Nat} {m : Measurement Rat}
    (hi : b.recorded? i = some m) : 0 < b.estimate := by
  have hmem := mem_measuredSizes.2 ⟨i, m, hi, rfl⟩
  obtain ⟨v, hv, hpos⟩ := ht.sizes.exists_average_pos (List.ne_nil_of_mem hmem) fun x hx => by
    obtain ⟨k, m, hm, rfl⟩ := mem_measuredSizes.1 hx
    exact hp k m hm
  rw [estimate, hv]
  exact hpos

/-- A measured item has a size. -/
theorem sizeOf_pos (hp : b.PositiveSizes) {i : Nat} {m : Measurement Rat}
    (hi : b.recorded? i = some m) : 0 < (b.sizeOf i).value := by
  rw [sizeOf_of_recorded hi]
  exact hp i m hi

/-- The size of an item is not negative, measured or not. -/
theorem sizeOf_nonneg (hs : b.Sound) (ht : b.Tallied) (hd : 0 ≤ b.defaultEstimate) (i : Nat) :
    0 ≤ (b.sizeOf i).value := by
  cases h : b.recorded? i with
  | none =>
    rw [sizeOf_of_not_recorded h]
    exact estimate_nonneg hs ht hd
  | some m =>
    rw [sizeOf_of_recorded h]
    exact size_nonneg (hs.valid i m h)

end SizeBook

end VirtualList
