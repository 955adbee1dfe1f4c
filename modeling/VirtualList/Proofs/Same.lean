import VirtualList.Window

/-!
# Values that compare as equal

What is told only when it changes can lag behind by as much as a comparison overlooks, such as the
sign of a zero.  `Same` says of two values that they differ by no more than that.

## Key results

- `Same`, `Same.trans_beq`: the values are identical or compare as equal
- `Same.update`: a copy that is replaced wherever it compares as different stays the same
- `exists_beq_of_mem`: lists that compare as equal have members that do
- `placedItem_beq_iff`: placed items compare as equal iff their parts do
- `map_index_eq_of_beq`: windows that compare as equal hold the same items
-/

namespace VirtualList

/-- The values are identical or compare as equal. -/
def Same {β : Type} [BEq β] (a b : β) : Prop := a = b ∨ (a == b) = true

variable {α β : Type}

theorem Same.refl [BEq β] (a : β) : Same a a := Or.inl rfl

theorem Same.trans_beq [BEq β] [PartialEquivBEq β] {a b c : β} (h : Same a b)
    (hc : (c == b) = true) : Same a c := by
  have hbc : (b == c) = true := PartialEquivBEq.symm hc
  rcases h with rfl | hab
  · exact Or.inr hbc
  · exact Or.inr (PartialEquivBEq.trans hab hbc)

/-- A copy that is replaced where it compares as different stays the same. -/
theorem Same.update [BEq β] [PartialEquivBEq β] {a b c : β} (h : Same a b) :
    Same (if c != b then c else a) c := by
  split
  · exact .refl c
  · rename_i hsame
    exact h.trans_beq (by simpa [bne] using hsame)

theorem Same.eq [BEq β] [LawfulBEq β] {a b : β} (h : Same a b) : a = b := h.elim id eq_of_beq

/-! ## Lists -/

/-- Lists compare as equal member by member. -/
theorem cons_beq_iff [BEq β] {x y : β} {xs ys : List β} :
    (x :: xs == y :: ys) = true ↔ (x == y) = true ∧ (xs == ys) = true :=
  Bool.and_eq_true_iff

instance instPartialEquivBEqList [BEq β] [PartialEquivBEq β] : PartialEquivBEq (List β) where
  symm {xs ys} h := by
    induction xs generalizing ys with
    | nil => cases ys with
      | nil => rfl
      | cons y ys => cases h
    | cons x xs ih => cases ys with
      | nil => cases h
      | cons y ys =>
        obtain ⟨hhead, htail⟩ := cons_beq_iff.1 h
        exact cons_beq_iff.2 ⟨PartialEquivBEq.symm hhead, ih htail⟩
  trans {xs ys zs} h h' := by
    induction xs generalizing ys zs with
    | nil => cases ys with
      | nil => exact h'
      | cons y ys => cases h
    | cons x xs ih => cases ys with
      | nil => cases h
      | cons y ys => cases zs with
        | nil => cases h'
        | cons z zs =>
          obtain ⟨hhead, htail⟩ := cons_beq_iff.1 h
          obtain ⟨hhead', htail'⟩ := cons_beq_iff.1 h'
          exact cons_beq_iff.2 ⟨PartialEquivBEq.trans hhead hhead', ih htail htail'⟩

/-- Lists that compare as equal have members that do. -/
theorem exists_beq_of_mem [BEq β] {xs ys : List β} (h : (xs == ys) = true) {x : β} (hx : x ∈ xs) :
    ∃ y ∈ ys, (x == y) = true := by
  induction xs generalizing ys with
  | nil => simp at hx
  | cons a xs ih =>
    cases ys with
    | nil => cases h
    | cons b ys =>
      obtain ⟨hhead, htail⟩ := cons_beq_iff.1 h
      rcases List.mem_cons.1 hx with rfl | hx
      · exact ⟨b, by simp, hhead⟩
      · obtain ⟨y, hy, heq⟩ := ih htail hx
        exact ⟨y, by simp [hy], heq⟩

/-! ## Placed items -/

/-- Placed items compare as equal iff their parts do. -/
theorem placedItem_beq_iff [BEq α] {x y : PlacedItem α} : (x == y) = true ↔
    x.index = y.index ∧ (x.position == y.position) = true ∧ (x.size == y.size) = true := by
  show (x.index == y.index && (x.position == y.position && x.size == y.size)) = true ↔ _
  simp

/-- Windows that compare as equal hold the same items, whatever the comparison of positions and
sizes says. -/
theorem map_index_eq_of_beq [BEq α] {xs ys : List (PlacedItem α)} (h : (xs == ys) = true) :
    xs.map PlacedItem.index = ys.map PlacedItem.index := by
  induction xs generalizing ys with
  | nil =>
    cases ys with
    | nil => rfl
    | cons y ys => cases h
  | cons x xs ih =>
    cases ys with
    | nil => cases h
    | cons y ys =>
      obtain ⟨hhead, htail⟩ := cons_beq_iff.1 h
      rw [List.map_cons, List.map_cons, (placedItem_beq_iff.1 hhead).1, ih htail]

instance [BEq α] [PartialEquivBEq α] : PartialEquivBEq (PlacedItem α) where
  symm {x y} h := by
    obtain ⟨hindex, hposition, hsize⟩ := placedItem_beq_iff.1 h
    exact placedItem_beq_iff.2
      ⟨hindex.symm, PartialEquivBEq.symm hposition, PartialEquivBEq.symm hsize⟩
  trans {x y z} h h' := by
    obtain ⟨hindex, hposition, hsize⟩ := placedItem_beq_iff.1 h
    obtain ⟨hindex', hposition', hsize'⟩ := placedItem_beq_iff.1 h'
    exact placedItem_beq_iff.2 ⟨hindex.trans hindex',
      PartialEquivBEq.trans hposition hposition', PartialEquivBEq.trans hsize hsize'⟩

instance [BEq α] [LawfulBEq α] : LawfulBEq (PlacedItem α) where
  rfl := placedItem_beq_iff.2 ⟨rfl, BEq.rfl, BEq.rfl⟩
  eq_of_beq {x y} h := by
    obtain ⟨hindex, hposition, hsize⟩ := placedItem_beq_iff.1 h
    cases x
    cases y
    cases hindex
    cases eq_of_beq hposition
    cases eq_of_beq hsize
    rfl

end VirtualList
