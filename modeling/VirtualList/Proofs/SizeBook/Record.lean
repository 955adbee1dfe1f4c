import VirtualList.SizeBook.Basic

/-!
# The measurements on record

What a book says about sizes, margins and spaces depends on its entries only through `recorded?`,
the measurement on record for an item.  This file says what each operation does to that view, and
shows that a book keeps the space in front of an item exactly where one of the two items that
meet there has been measured.

## Key results

- `entry?_noteEstimate`, `recorded?_noteEstimate`: the effect of a noted estimate
- `entry?_enter`, `recorded?_enter`: the effect of a measurement
- `spaces_enter`: a measurement works out the two spaces next to its item again
- `Agrees`: books that say the same, as they do before and after a noted estimate
- `Sound`, `Sound.enter`: a book with valid measurements knows the spaces that these determine
-/

namespace VirtualList.SizeBook

variable {α : Type}

/-- The measurement on record for item `i`: the last one entered since the book was cleared. -/
def recorded? (b : SizeBook α) (i : Nat) : Option (Measurement α) :=
  (b.entry? i).bind fun entry => entry.measurement?.map Prod.snd

/-- The margins of an item are those on record. -/
theorem measuredMargins?_eq (b : SizeBook α) (i : Nat) :
    b.measuredMargins? i = (b.recorded? i).map Measurement.margins := by
  cases he : b.entry? i with
  | none => simp [measuredMargins?, recorded?, he]
  | some entry =>
    cases hs : entry.primary <;>
      simp [measuredMargins?, recorded?, he, SizeEntry.measurement?, hs, Option.filter]

variable [Scalar α]

/-! ## Queries through the view -/

/-- A measured item has the size on record. -/
theorem sizeOf_of_recorded {b : SizeBook α} {i : Nat} {m : Measurement α}
    (h : b.recorded? i = some m) : b.sizeOf i = .measured m.size := by
  simp only [recorded?, Option.bind_eq_some_iff, Option.map_eq_some_iff] at h
  obtain ⟨entry, he, p, hp, rfl⟩ := h
  cases hs : entry.primary with
  | estimated v =>
    -- An entry that only notes an estimate has no measurement.
    simp [SizeEntry.measurement?, hs] at hp
  | measured v =>
    simp only [SizeEntry.measurement?, hs, Option.some.injEq] at hp
    subst hp
    simp [sizeOf, he, hs]

/-- An item without a measurement has the estimate for its size. -/
theorem sizeOf_of_not_recorded {b : SizeBook α} {i : Nat} (h : b.recorded? i = none) :
    b.sizeOf i = .estimated b.estimate := by
  cases he : b.entry? i with
  | none => simp [sizeOf, he]
  | some entry =>
    cases hs : entry.primary with
    | estimated v => simp [sizeOf, he, hs]
    | measured v => simp [recorded?, he, SizeEntry.measurement?, hs] at h

/-- An item has been measured iff a measurement of it is on record. -/
theorem isMeasured_eq (b : SizeBook α) (i : Nat) : b.isMeasured i = (b.recorded? i).isSome := by
  cases h : b.recorded? i with
  | none => simp [isMeasured, sizeOf_of_not_recorded h]
  | some m => simp [isMeasured, sizeOf_of_recorded h]

/-- The space in front of an item is worked out from the measurements on its two sides. -/
theorem spaceFromMargins_congr {b c : SizeBook α} {k : Nat} (h : b.recorded? k = c.recorded? k)
    (hprev : k ≠ 0 → b.recorded? (k - 1) = c.recorded? (k - 1)) :
    b.spaceFromMargins k = c.spaceFromMargins k := by
  simp only [spaceFromMargins, measuredMargins?_eq, h]
  split
  · rfl
  · rename_i hk
    rw [hprev hk]

/-- The space in front of an item has been measured iff the book holds it. -/
theorem isMeasured_marginBefore (b : SizeBook α) (i : Nat) :
    (b.marginBefore i).isMeasured = (b.spaces[i]?).isSome := by
  unfold marginBefore
  cases b.spaces[i]? <;> rfl

/-! ## Operations through the view -/

@[simp] theorem recorded?_empty (d : α) (i : Nat) : (empty d).recorded? i = none := by
  simp [recorded?, empty, entry?]

/-- A noted estimate makes an entry for its item, or renews the estimate in the one there is.  A
measured item keeps its entry. -/
theorem entry?_noteEstimate (b : SizeBook α) (i k : Nat) (v : α) :
    SizeBook.entry? (b.noteEstimate i v) k =
      if k = i ∧ b.isMeasured i = false then
        some { (b.entry? i).getD ⟨i, .estimated v, none, .zero⟩ with primary := .estimated v }
      else b.entry? k := by
  simp only [noteEstimate, entry?, Std.ExtTreeMap.getElem?_alter]
  by_cases hk : k = i
  · subst hk
    simp only [Std.ReflCmp.compare_self, if_true, true_and]
    cases he : b.entries[k]? with
    | none => simp [isMeasured, sizeOf, entry?, he]
    | some entry => cases hs : entry.primary <;> simp [isMeasured, sizeOf, entry?, he, hs]
  · have hik : compare i k ≠ .eq := fun h => hk (Std.LawfulEqCmp.eq_of_compare h).symm
    rw [if_neg hik, if_neg fun h => hk h.1]

/-- A noted estimate leaves the measurements on record. -/
@[simp] theorem recorded?_noteEstimate (b : SizeBook α) (i k : Nat) (v : α) :
    (b.noteEstimate i v).recorded? k = b.recorded? k := by
  rw [recorded?, entry?_noteEstimate]
  split
  · -- An item that is not measured has no measurement before or after.
    rename_i hik
    obtain ⟨rfl, hnot⟩ := hik
    rw [isMeasured_eq, Option.isSome_eq_false_iff, Option.isNone_iff_eq_none] at hnot
    simp [hnot, SizeEntry.measurement?]
  · rfl

/-- A measured item needs no estimate. -/
theorem noteEstimate_of_isMeasured {b : SizeBook α} {i : Nat} (h : b.isMeasured i = true) (v : α) :
    b.noteEstimate i v = b := by
  obtain ⟨entry, hentry, w, hw⟩ : ∃ entry, b.entries[i]? = some entry ∧
      ∃ w, entry.primary = .measured w := by
    rw [isMeasured_eq, recorded?, entry?] at h
    cases he : b.entries[i]? with
    | none => simp [he] at h
    | some entry =>
      refine ⟨entry, rfl, ?_⟩
      cases hs : entry.primary with
      | measured w => exact ⟨w, rfl⟩
      | estimated w => simp [he, SizeEntry.measurement?, hs] at h
  have hsame : (b.noteEstimate i v).entries = b.entries := by
    apply Std.ExtTreeMap.ext_getElem?
    intro k
    simp only [noteEstimate, Std.ExtTreeMap.getElem?_alter]
    split
    · rename_i hk
      obtain rfl : i = k := Std.LawfulEqCmp.eq_of_compare hk
      rw [hentry]
      simp only [hw]
    · rfl
  show { b with entries := (b.noteEstimate i v).entries } = b
  rw [hsame]

/-- Working out a space again leaves the measurements on record. -/
@[simp] theorem recorded?_updateSpace (b : SizeBook α) (i k : Nat) :
    (b.updateSpace i).recorded? k = b.recorded? k := rfl

/-- A measurement puts an entry in the place of that of its item. -/
theorem entry?_enter (b : SizeBook α) (i k : Nat) (m : Measurement α) :
    SizeBook.entry? (b.enter i m) k =
      if k = i then some ⟨i, .measured m.size, m.secondary, m.margins⟩ else b.entry? k := by
  show (b.entries.insert i ⟨i, .measured m.size, m.secondary, m.margins⟩)[k]? = _
  rw [Std.ExtTreeMap.getElem?_insert]
  by_cases hk : k = i
  · subst hk
    simp
  · have hik : compare i k ≠ .eq := fun h => hk (Std.LawfulEqCmp.eq_of_compare h).symm
    rw [if_neg hik, if_neg hk]
    rfl

/-- A measurement is on record for its item from then on, and the others stay. -/
theorem recorded?_enter (b : SizeBook α) (i k : Nat) (m : Measurement α) :
    (b.enter i m).recorded? k = if k = i then some m else b.recorded? k := by
  simp only [recorded?, entry?_enter]
  by_cases hk : k = i <;> simp [hk, SizeEntry.measurement?]

/-- An item is measured from then on, and the others are if they were. -/
theorem isMeasured_enter (b : SizeBook α) (i k : Nat) (m : Measurement α) :
    (b.enter i m).isMeasured k = true ↔ k = i ∨ b.isMeasured k = true := by
  rw [isMeasured_eq, isMeasured_eq, recorded?_enter]
  by_cases hk : k = i <;> simp [hk]

/-- The items of a list of measurements are measured from then on. -/
theorem isMeasured_foldl_enter (b : SizeBook α) (ms : List (Nat × Measurement α)) (k : Nat) :
    (ms.foldl (fun b (i, m) => b.enter i m) b).isMeasured k = true ↔
      k ∈ ms.map Prod.fst ∨ b.isMeasured k = true := by
  induction ms generalizing b with
  | nil => simp
  | cons p rest ih =>
    rw [List.foldl_cons, ih, isMeasured_enter, List.map_cons, List.mem_cons, or_left_comm, or_assoc]

theorem spaces_updateSpace (b : SizeBook α) (i k : Nat) :
    (b.updateSpace i).spaces[k]? = if k = i then some (b.spaceFromMargins i) else b.spaces[k]? := by
  simp only [updateSpace, Std.ExtTreeMap.getElem?_insert]
  by_cases hk : k = i
  · simp [hk]
  · have hik : compare i k ≠ .eq := fun h => hk (Std.LawfulEqCmp.eq_of_compare h).symm
    simp [hk, hik]

/-- A measurement works out the spaces on both sides of its item again, and no others. -/
theorem spaces_enter (b : SizeBook α) (i k : Nat) (m : Measurement α) :
    (b.enter i m).spaces[k]? =
      if k = i ∨ k = Index.next i then some ((b.enter i m).spaceFromMargins k)
      else b.spaces[k]? := by
  -- Working out a space reads measurements, and these do not change any more.
  have hsame (c : SizeBook α) (j : Nat) :
      c.spaceFromMargins k = (c.updateSpace j).spaceFromMargins k :=
    spaceFromMargins_congr rfl fun _ => rfl
  simp only [enter, spaces_updateSpace]
  -- The space behind the item is worked out last, so it comes first here.
  by_cases hnext : k = Index.next i
  · subst hnext
    rw [if_pos rfl, if_pos (Or.inr rfl)]
    exact congrArg some (hsame _ _)
  · by_cases hi : k = i
    · subst hi
      rw [if_neg hnext, if_pos rfl, if_pos (Or.inl rfl)]
      exact congrArg some ((hsame _ _).trans (hsame _ _))
    · rw [if_neg hnext, if_neg hi, if_neg (not_or.2 ⟨hi, hnext⟩)]

/-! ## Books that say the same -/

/-- The books say the same of sizes and spaces, though they may have noted other estimates. -/
structure Agrees (b c : SizeBook α) : Prop where
  defaultEstimate : c.defaultEstimate = b.defaultEstimate
  recorded : ∀ i, c.recorded? i = b.recorded? i
  sizes : c.sizes = b.sizes
  spaces : c.spaces = b.spaces
  spaceSizes : c.spaceSizes = b.spaceSizes

namespace Agrees

variable {b c d : SizeBook α}

omit [Scalar α] in
theorem refl (b : SizeBook α) : b.Agrees b := ⟨rfl, fun _ => rfl, rfl, rfl, rfl⟩

omit [Scalar α] in
theorem trans (h : b.Agrees c) (h' : c.Agrees d) : b.Agrees d where
  defaultEstimate := h'.defaultEstimate.trans h.defaultEstimate
  recorded i := (h'.recorded i).trans (h.recorded i)
  sizes := h'.sizes.trans h.sizes
  spaces := h'.spaces.trans h.spaces
  spaceSizes := h'.spaceSizes.trans h.spaceSizes

theorem noteEstimate (b : SizeBook α) (i : Nat) (v : α) : b.Agrees (b.noteEstimate i v) :=
  ⟨rfl, fun k => recorded?_noteEstimate b i k v, rfl, rfl, rfl⟩

omit [Scalar α] in
/-- Books that say the same differ in their entries only. -/
theorem eq_entries (h : b.Agrees c) : c = { b with entries := c.entries } := by
  obtain ⟨defaultEstimate, entries, sizes, spaces, spaceSizes⟩ := c
  simp only [← h.defaultEstimate, ← h.sizes, ← h.spaces, ← h.spaceSizes]

theorem estimate_eq (h : b.Agrees c) : c.estimate = b.estimate := by
  simp only [estimate, h.sizes, h.defaultEstimate]

theorem averageMargin_eq (h : b.Agrees c) : c.averageMargin = b.averageMargin := by
  simp only [averageMargin, h.spaceSizes]

theorem marginBefore_eq (h : b.Agrees c) (i : Nat) : c.marginBefore i = b.marginBefore i := by
  simp only [marginBefore, h.spaces, h.averageMargin_eq]

theorem isMeasured_eq (h : b.Agrees c) (i : Nat) : c.isMeasured i = b.isMeasured i := by
  simp only [SizeBook.isMeasured_eq, h.recorded]

/-- A size is the one on record, or else the estimate. -/
theorem sizeOf_eq (h : b.Agrees c) (i : Nat) : c.sizeOf i = b.sizeOf i := by
  have hsame := h.recorded i
  cases hb : b.recorded? i with
  | none => rw [sizeOf_of_not_recorded hb, sizeOf_of_not_recorded (hsame.trans hb), h.estimate_eq]
  | some m => rw [sizeOf_of_recorded hb, sizeOf_of_recorded (hsame.trans hb)]

end Agrees

/-! ## Which spaces are known -/

/-- One of the two items that meet in front of item `k` has been measured. -/
def Borders (b : SizeBook α) (k : Nat) : Prop :=
  b.isMeasured k = true ∨ (k ≠ 0 ∧ b.isMeasured (k - 1) = true)

/-- The book holds valid measurements of representable items, and exactly the spaces that they
determine. -/
structure Sound (b : SizeBook α) : Prop where
  valid : ∀ i m, b.recorded? i = some m → m.isValid = true
  representable : ∀ i m, b.recorded? i = some m → i ≤ Index.limit
  /-- A space that the book holds borders on a measured item, and is up to date. -/
  space_eq : ∀ k v, b.spaces[k]? = some v →
    k ≤ Index.limit ∧ b.Borders k ∧ v = b.spaceFromMargins k
  /-- The book holds the space in front of an item that borders on a measured one. -/
  space_known : ∀ k, k ≤ Index.limit → b.Borders k → (b.spaces[k]?).isSome = true

namespace Sound

theorem empty (d : α) : (SizeBook.empty d).Sound where
  valid i m h := by simp at h
  representable i m h := by simp at h
  space_eq k v h := by simp [SizeBook.empty] at h
  space_known k _ h := by simp [Borders, isMeasured_eq] at h

theorem clear (b : SizeBook α) : b.clear.Sound := empty _

/-- Only the measurements on record and the spaces matter. -/
theorem congr {b c : SizeBook α} (hb : b.Sound) (hr : ∀ i, c.recorded? i = b.recorded? i)
    (hs : c.spaces = b.spaces) : c.Sound where
  valid i m h := hb.valid i m (by rwa [hr] at h)
  representable i m h := hb.representable i m (by rwa [hr] at h)
  space_eq k v h := by
    rw [hs] at h
    obtain ⟨hk, hborders, hv⟩ := hb.space_eq k v h
    refine ⟨hk, by simpa only [Borders, isMeasured_eq, hr] using hborders, ?_⟩
    rw [hv]
    exact spaceFromMargins_congr (hr k).symm fun _ => (hr (k - 1)).symm
  space_known k hk h := by
    rw [hs]
    exact hb.space_known k hk (by simpa only [Borders, isMeasured_eq, hr] using h)

theorem withDefault {b : SizeBook α} (hb : b.Sound) (d : α) :
    { b with defaultEstimate := d }.Sound :=
  hb.congr (fun _ => rfl) rfl

theorem noteEstimate {b : SizeBook α} (hb : b.Sound) (i : Nat) (v : α) :
    (b.noteEstimate i v).Sound :=
  hb.congr (recorded?_noteEstimate b i · v) rfl

/-- Where a measurement of item `i` does not work the space out again, it is on neither side. -/
private theorem prev_ne {i k : Nat} (hk : k ≤ Index.limit)
    (hne : ¬(k = i ∨ k = Index.next i)) (h0 : k ≠ 0) : k - 1 ≠ i := by
  intro h
  -- `Index.next` stops at the last representable index, which is not reached here.
  apply hne
  right
  unfold Index.next
  omega

/-- Such a space borders on a measured item iff it did before. -/
private theorem borders_enter_iff {b : SizeBook α} {i k : Nat} {m : Measurement α}
    (hk : k ≤ Index.limit) (hne : ¬(k = i ∨ k = Index.next i)) :
    (b.enter i m).Borders k ↔ b.Borders k := by
  simp only [Borders, isMeasured_eq, recorded?_enter, if_neg (not_or.1 hne).1]
  by_cases h0 : k = 0
  · simp [h0]
  · rw [if_neg (prev_ne hk hne h0)]

/-- Right before and right behind a measured item the space is known. -/
private theorem borders_enter_self {b : SizeBook α} {i k : Nat} {m : Measurement α}
    (hi : i ≤ Index.limit) (hk : k = i ∨ k = Index.next i) :
    k ≤ Index.limit ∧ (b.enter i m).Borders k := by
  have hcases : k = i ∨ (k = i + 1 ∧ k ≤ Index.limit) := by
    unfold Index.next at hk
    omega
  simp only [Borders, isMeasured_eq, recorded?_enter]
  rcases hcases with rfl | ⟨rfl, hle⟩
  · exact ⟨hi, by simp⟩
  · exact ⟨hle, by simp⟩

theorem enter {b : SizeBook α} {i : Nat} {m : Measurement α} (hb : b.Sound)
    (hm : m.isValid = true) (hi : i ≤ Index.limit) : (b.enter i m).Sound where
  valid j m' h := by
    rw [recorded?_enter] at h
    split at h
    · cases h
      exact hm
    · exact hb.valid j m' h
  representable j m' h := by
    rw [recorded?_enter] at h
    split at h
    · rename_i hj
      omega
    · exact hb.representable j m' h
  space_eq k v h := by
    rw [spaces_enter] at h
    split at h
    · rename_i hk
      obtain ⟨hle, hborders⟩ := borders_enter_self (b := b) (m := m) hi hk
      exact ⟨hle, hborders, (Option.some.inj h).symm⟩
    · -- The item is on neither side of this space.
      rename_i hne
      obtain ⟨hle, hborders, hv⟩ := hb.space_eq k v h
      refine ⟨hle, (borders_enter_iff hle hne).2 hborders, ?_⟩
      rw [hv]
      refine spaceFromMargins_congr ?_ fun h0 => ?_
      · rw [recorded?_enter, if_neg (not_or.1 hne).1]
      · rw [recorded?_enter, if_neg (prev_ne hle hne h0)]
  space_known k hk h := by
    rw [spaces_enter]
    split
    · rfl
    · rename_i hne
      exact hb.space_known k hk ((borders_enter_iff hk hne).1 h)

end Sound

end VirtualList.SizeBook
