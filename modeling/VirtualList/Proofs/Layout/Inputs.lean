import VirtualList.Proofs.Layout.Course
import VirtualList.Proofs.SizeBook.History

/-!
# The inputs of a layout

A pass reads the inputs of a layout and does not change them, except that it notes the estimates
it used.  So what holds of them in a new layout, and is kept by the requests that set them, holds
in every state of a run.

## Key results

- `reflow_keepsInputs`: what a pass leaves alone
- `KeepsInputs.agrees`, `KeepsInputs.spaceBefore_eq`: the sizes and spaces that are laid out stay
- `Effect.options_cases`, `Effect.viewport_cases`, `Effect.total_cases`: what a request sets
- `Reachable.total_le`, `Reachable.options_valid`, `Reachable.viewport_valid`: the inputs in force
  are valid
- `BookInvariant`, `Reachable.book`: a property of books that requests keep holds in every run
- `Reachable.book_reachable`: the book of a layout has a history of its own
- `Reachable.book_sound`, `Reachable.book_tallied`: the book is sound, and its totals are exact
-/

namespace VirtualList

/-- The options that pass the check are finite and not negative. -/
theorem Options.check_eq_ok {α : Type} [Scalar α] {o : Options α} (h : o.check = .ok ()) :
    Scalar.isExtent o.estimateSize = true ∧ Scalar.isExtent o.overhang = true ∧
      Scalar.isExtent o.gap = true ∧ Scalar.isExtent o.minScrollSize = true := by
  have hextent {field : OptionField} {v : α} {u : Unit} (hv : checkExtent field v = .ok u) :
      Scalar.isExtent v = true := by
    unfold checkExtent at hv
    split at hv
    · assumption
    · cases hv
  simp only [Options.check, bind_eq_ok] at h
  obtain ⟨_, hestimate, _, hoverhang, _, hgap, _, hmin, -⟩ := h
  exact ⟨hextent hestimate, hextent hoverhang, hextent hgap, hextent hmin⟩

namespace Layout

variable {α : Type} [Scalar α]

/-! ## A pass -/

/-- The inputs are as they were, except that the book has noted estimates. -/
structure KeepsInputs (l l' : Layout α) : Prop where
  options : l'.options = l.options
  viewport : l'.viewport = l.viewport
  total : l'.total = l.total
  book : ∃ items : List (PlacedItem α),
    l'.book = items.foldl (fun b item => b.noteEstimate item.index item.size) l.book

theorem reflow_keepsInputs {l l' : Layout α} {report : PassReport α}
    {events : List (LayoutEvent α)} (h : l.reflow = .ok (report, events, l')) :
    KeepsInputs l l' := by
  obtain ⟨moved, after, hpass, -, -, rfl⟩ := reflow_cases h
  obtain ⟨o, hopen, hcases⟩ := pass_cases hpass
  rcases hcases with ⟨-, -, rfl⟩ | ⟨-, c, hcourse, -, rfl⟩
  · obtain ⟨hoptions, hviewport, htotal, hbook, -⟩ := opened_inputs hopen
    exact ⟨hoptions, hviewport, htotal, [], hbook⟩
  · -- A window that is published notes the size of each of its items.
    obtain ⟨hoptions, hviewport, htotal, hbook⟩ := hcourse.base_inputs hopen
    refine ⟨hoptions, hviewport, htotal, c.items, ?_⟩
    rw [← hbook]
    rfl

namespace KeepsInputs

variable {l l' : Layout α}

/-- With estimates noted the book still says the same. -/
theorem agrees (h : KeepsInputs l l') : l.book.Agrees l'.book := by
  obtain ⟨items, heq⟩ := h.book
  rw [heq]
  exact List.foldlRecOn (motive := l.book.Agrees) items _ (.refl l.book)
    fun b hb item _ => hb.trans (.noteEstimate b item.index item.size)

theorem spaceBefore_eq (h : KeepsInputs l l') (i : Nat) : l'.spaceBefore i = l.spaceBefore i := by
  simp only [spaceBefore, h.options, h.total, h.agrees.marginBefore_eq]

theorem averageDelta_eq (h : KeepsInputs l l') : l'.averageDelta = l.averageDelta := by
  simp only [averageDelta, h.options, h.agrees.estimate_eq, h.agrees.averageMargin_eq]

/-- Publishing a window notes the sizes of its items. -/
theorem outcome (c : Course α) : KeepsInputs c.base c.outcome := ⟨rfl, rfl, rfl, c.items, rfl⟩

end KeepsInputs

/-! ## Valid inputs -/

/-- The options after a request are those before it, or new ones that passed the check. -/
theorem Effect.options_cases {l l' : Layout α} {r : Request α} (h : Effect l r l') :
    l'.options = l.options ∨ l'.options.check = .ok () := by
  cases h with
  | options hcheck => exact Or.inr hcheck
  | passed hreflow => exact Or.inl (reflow_keepsInputs hreflow).options
  | _ => exact Or.inl rfl

theorem Effect.total_cases {l l' : Layout α} {r : Request α} (h : Effect l r l') :
    l'.total = l.total ∨ r = .setTotal l'.total := by
  cases h with
  | total total => exact Or.inr rfl
  | passed hreflow => exact Or.inl (reflow_keepsInputs hreflow).total
  | _ => exact Or.inl rfl

theorem Effect.viewport_cases {l l' : Layout α} {r : Request α} (h : Effect l r l') :
    l'.viewport = l.viewport ∨ l'.viewport.check = .ok () := by
  cases h with
  | viewport _ hcheck => exact Or.inr hcheck
  | passed hreflow => exact Or.inl (reflow_keepsInputs hreflow).viewport
  | _ => exact Or.inl rfl

/-- In every state of a run the viewport is valid, or still empty. -/
theorem Reachable.viewport_valid {l : Layout α} (h : Reachable l) :
    l.viewport = .empty ∨ l.viewport.check = .ok () := by
  induction h with
  | start h =>
    obtain ⟨u, -, h⟩ := bind_eq_ok.1 h
    cases h
    exact Or.inl rfl
  | step _ _ h ih =>
    rcases (respond_effect h).viewport_cases with heq | hcheck
    · rw [heq]
      exact ih
    · exact Or.inr hcheck

/-- In every state of a run the options are valid. -/
theorem Reachable.options_valid {l : Layout α} (h : Reachable l) : l.options.check = .ok () := by
  induction h with
  | start h =>
    obtain ⟨u, hcheck, h⟩ := bind_eq_ok.1 h
    cases h
    exact hcheck
  | step _ _ h ih =>
    rcases (respond_effect h).options_cases with heq | hcheck
    · rw [heq]
      exact ih
    · exact hcheck

/-- In every state of a run the number of items is representable. -/
theorem Reachable.total_le {l : Layout α} (h : Reachable l) : l.total ≤ Index.limit := by
  induction h with
  | start h =>
    obtain ⟨u, -, h⟩ := bind_eq_ok.1 h
    cases h
    exact Nat.zero_le _
  | step _ hr h ih =>
    rcases (respond_effect h).total_cases with heq | rfl
    · omega
    · exact hr

/-- The last item is not the last representable index, so that the space behind it has an index. -/
theorem Takes.final_lt {l o : Layout α} {c : Course α} (hl : Reachable l)
    (hopen : l.opened = .ok o) (h : o.Takes c) : c.base.total - 1 < Index.limit := by
  have hle := hl.total_le
  have hanchor := h.anchor_lt hopen
  obtain ⟨-, -, htotal, -⟩ := opened_inputs hopen
  rw [h.base_total]
  omega

/-! ## The book -/

/-- A property of books that whatever a request does to a book keeps. -/
structure BookInvariant (P : SizeBook α → Prop) : Prop where
  empty : ∀ d, Scalar.isExtent d = true → P (.empty d)
  clear : ∀ b, P b → P b.clear
  withDefault : ∀ b d, P b → Scalar.isExtent d = true → P { b with defaultEstimate := d }
  noteEstimate : ∀ b i v, P b → P (b.noteEstimate i v)
  enter : ∀ b i m, P b → i < Index.limit → m.isValid = true → P (b.enter i m)

namespace BookInvariant

variable {P : SizeBook α → Prop} {l l' : Layout α}

/-- A pass keeps it. -/
theorem keepsInputs (hP : BookInvariant P) (hl : P l.book) (h : KeepsInputs l l') : P l'.book := by
  obtain ⟨items, heq⟩ := h.book
  rw [heq]
  exact List.foldlRecOn items _ hl fun b hb item _ => hP.noteEstimate b _ _ hb

/-- Every request keeps it. -/
theorem effect {r : Request α} (hP : BookInvariant P) (hl : P l.book) (htotal : l.total ≤ Index.limit)
    (h : Effect l r l') : P l'.book := by
  cases h with
  | options hcheck => exact hP.withDefault _ _ hl (Options.check_eq_ok hcheck).1
  | viewport _ _ hbook =>
    -- Another side across the scroll axis may have cleared the book.
    rcases hbook with rfl | rfl
    · exact hl
    · exact hP.clear _ hl
  | @measured r ms corrections _ hall =>
    -- The measurements are entered one after the other, all of them valid.
    refine List.foldlRecOn ms _ hl fun b hb p hp => ?_
    obtain ⟨hlt, hvalid⟩ := hall p hp
    exact hP.enter b p.1 p.2 hb (by omega) hvalid
  | forgotten => exact hP.clear _ hl
  | passed hreflow => exact hP.keepsInputs hl (reflow_keepsInputs hreflow)
  | _ => exact hl

end BookInvariant

/-- A property that whatever a request does to a book keeps holds in every state of a run. -/
theorem Reachable.book {P : SizeBook α → Prop} {l : Layout α} (h : Reachable l)
    (hP : BookInvariant P) : P l.book := by
  induction h with
  | start h =>
    obtain ⟨u, hcheck, h⟩ := bind_eq_ok.1 h
    cases h
    exact hP.empty _ (Options.check_eq_ok hcheck).1
  | step hl _ h ih => exact hP.effect ih hl.total_le (respond_effect h)

/-- In every state of a run the book has a history, so what holds of all histories holds of it. -/
theorem Reachable.book_reachable {l : Layout α} (h : Reachable l) : l.book.Reachable :=
  h.book {
    empty := fun d _ => .empty d
    clear := fun _ hb => hb.respond (r := .clear) trivial
    withDefault := fun _ d hb _ => hb.respond (r := .setDefault d) trivial
    noteEstimate := fun _ i v hb => hb.respond (r := .noteEstimate i v) trivial
    enter := fun b i m hb hi hm => by
      rw [← SizeBook.respond_record_of_valid b i hm]
      exact hb.respond (Nat.le_of_lt hi) }

/-- In every state of a run the book is sound. -/
theorem Reachable.book_sound {l : Layout α} (h : Reachable l) : l.book.Sound :=
  h.book_reachable.sound

/-! ## Exact arithmetic -/

section Exact

variable {l : Layout Rat}

/-- An extent is not negative. -/
theorem nonneg_of_isExtent {x : Rat} (h : Scalar.isExtent x = true) : 0 ≤ x := by
  simp only [Scalar.isExtent, Bool.and_eq_true, decide_eq_true_eq] at h
  exact h.2

theorem Reachable.gap_nonneg (h : Reachable l) : 0 ≤ l.options.gap :=
  nonneg_of_isExtent (Options.check_eq_ok h.options_valid).2.2.1

theorem Reachable.overhang_nonneg (h : Reachable l) : 0 ≤ l.options.overhang :=
  nonneg_of_isExtent (Options.check_eq_ok h.options_valid).2.1

theorem Reachable.minScrollSize_nonneg (h : Reachable l) : 0 ≤ l.options.minScrollSize :=
  nonneg_of_isExtent (Options.check_eq_ok h.options_valid).2.2.2

theorem Reachable.viewport_main_nonneg (h : Reachable l) : 0 ≤ l.viewport.main := by
  rcases h.viewport_valid with hempty | hcheck
  · rw [hempty]
    exact le_refl 0
  · by_contra hneg
    simp [Viewport.check, not_le.1 hneg] at hcheck

/-- In every state of a run the totals of the book are exact. -/
theorem Reachable.book_tallied (h : Reachable l) : l.book.Tallied := h.book_reachable.tallied

theorem Reachable.defaultEstimate_nonneg (h : Reachable l) : 0 ≤ l.book.defaultEstimate :=
  h.book (P := fun b => 0 ≤ b.defaultEstimate) {
    empty := fun _ hd => nonneg_of_isExtent hd
    clear := fun _ hb => hb
    withDefault := fun _ _ _ hd => nonneg_of_isExtent hd
    noteEstimate := fun _ _ _ hb => hb
    enter := fun _ _ _ hb _ _ => hb }

/-- The size of an item is not negative, measured or not. -/
theorem Reachable.sizeOf_nonneg (h : Reachable l) (i : Nat) : 0 ≤ (l.book.sizeOf i).value :=
  SizeBook.sizeOf_nonneg h.book_sound h.book_tallied h.defaultEstimate_nonneg i

end Exact

end Layout

end VirtualList
