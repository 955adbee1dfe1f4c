import Mathlib.Data.List.Pairwise
import VirtualList.Window

/-!
# Windows as runs of neighbouring items

A window holds consecutive items in ascending order.  This file says so (`Consecutive`), and says
which items the search for the visible part can pass over.

## Key results

- `Consecutive.find?_eq`: an item of a window is found by its index
- `Consecutive.filter_lt_prefix`, `Consecutive.filter_lt`: what is left of a window when the list
  shrinks is the beginning of it, and a window
- `visibleEnds_append`: items on either side of the viewport make no difference to its visible part
- `visibleEnds_mem`, `visibleEnds_of_meets`: the ends of the visible part are in the window and in
  order, and enclose every item that lies in the viewport
- `visibleEnds_meet`: the ends reach into the viewport themselves, if any item does
-/

namespace VirtualList

variable {α : Type}

/-! ## Consecutive items -/

/-- The items are neighbours in ascending order, from item `first` on. -/
def Consecutive (items : List (PlacedItem α)) (first : Nat) : Prop :=
  items.map PlacedItem.index = List.range' first items.length

namespace Consecutive

variable {items : List (PlacedItem α)} {first : Nat}

theorem nil (first : Nat) : Consecutive ([] : List (PlacedItem α)) first := rfl

theorem cons_iff {x : PlacedItem α} :
    Consecutive (x :: items) first ↔ x.index = first ∧ Consecutive items (first + 1) := by
  simp [Consecutive, List.range'_succ]

theorem append {more : List (PlacedItem α)} (h : Consecutive items first)
    (h' : Consecutive more (first + items.length)) : Consecutive (items ++ more) first := by
  unfold Consecutive at *
  rw [List.map_append, h, h', List.length_append]
  rw [← List.range'_append, Nat.one_mul]

/-- Moving the items leaves their indices. -/
theorem map {f : PlacedItem α → PlacedItem α} (hf : ∀ x, (f x).index = x.index)
    (h : Consecutive items first) : Consecutive (items.map f) first := by
  unfold Consecutive at *
  rw [List.map_map, List.length_map, ← h]
  exact List.map_congr_left fun x _ => hf x

theorem index_bounds (h : Consecutive items first) {x : PlacedItem α} (hx : x ∈ items) :
    first ≤ x.index ∧ x.index < first + items.length := by
  have hmem : x.index ∈ items.map PlacedItem.index := List.mem_map_of_mem hx
  rw [h] at hmem
  simpa using List.mem_range'_1.1 hmem

/-- The items are in the order of their indices. -/
theorem pairwise_lt (h : Consecutive items first) :
    items.Pairwise fun x y => x.index < y.index := by
  rw [← List.pairwise_map (f := PlacedItem.index) (R := (· < ·)), h]
  exact List.pairwise_lt_range'

/-- An item is found by its index. -/
theorem find?_eq (h : Consecutive items first) {x : PlacedItem α} (hx : x ∈ items) :
    items.find? (fun item => item.index == x.index) = some x := by
  induction items generalizing first with
  | nil => cases hx
  | cons y rest ih =>
    obtain ⟨hy, hrest⟩ := cons_iff.1 h
    rw [List.find?_cons]
    rcases List.mem_cons.1 hx with rfl | hmem
    · simp
    · -- The items behind `y` have larger indices, so the search passes `y` over.
      have hlt := (hrest.index_bounds hmem).1
      have hne : (y.index == x.index) = false := by
        rw [beq_eq_false_iff_ne]
        omega
      rw [hne]
      exact ih hrest hmem

/-- No two items have the same index. -/
theorem index_inj (h : Consecutive items first) {x y : PlacedItem α} (hx : x ∈ items)
    (hy : y ∈ items) (hindex : x.index = y.index) : x = y := by
  have hfind := h.find?_eq hx
  rw [hindex, h.find?_eq hy] at hfind
  exact (Option.some.inj hfind).symm

/-- There is an item for every index of the window. -/
theorem exists_mem (h : Consecutive items first) {i : Nat} (hfirst : first ≤ i)
    (hlast : i < first + items.length) : ∃ x ∈ items, x.index = i := by
  rw [← List.mem_map, h, List.mem_range'_1]
  exact ⟨hfirst, hlast⟩

/-- What holds of any two items of which one comes behind the other holds of any two indices in
order. -/
theorem rel_of_lt (h : Consecutive items first) {R : PlacedItem α → PlacedItem α → Prop}
    (hR : items.Pairwise R) {x y : PlacedItem α} (hx : x ∈ items) (hy : y ∈ items)
    (hlt : x.index < y.index) : R x y := by
  have hahead : items.Pairwise fun a b => a.index < b.index → R a b := by
    apply hR.imp
    intro a b hab _
    exact hab
  -- For two items that come the other way round there is nothing to show.
  have hback : items.Pairwise (flip fun a b => a.index < b.index → R a b) :=
    h.pairwise_lt.imp fun hlt hgt => absurd hlt (Nat.lt_asymm hgt)
  exact hahead.forall_of_forall_of_flip (fun a _ hlt => absurd hlt (Nat.lt_irrefl _)) hback hx hy
    hlt

/-- The beginning of a window is a window. -/
theorem of_prefix {items' : List (PlacedItem α)} (h : Consecutive items first)
    (hbegins : items' <+: items) : Consecutive items' first := by
  obtain ⟨rest, rfl⟩ := hbegins
  unfold Consecutive at *
  rw [List.map_append, List.length_append, ← List.range'_append, Nat.one_mul] at h
  exact (List.append_inj h (by simp)).1

/-- What is left of a window when the list ends before item `n` is the beginning of it. -/
theorem filter_lt_prefix (h : Consecutive items first) (n : Nat) :
    (items.filter fun item => decide (item.index < n)) <+: items := by
  induction items generalizing first with
  | nil => exact List.nil_prefix
  | cons y rest ih =>
    obtain ⟨hy, hrest⟩ := cons_iff.1 h
    by_cases hn : y.index < n
    · rw [List.filter_cons_of_pos (by simpa using hn), List.cons_prefix_cons]
      exact ⟨rfl, ih hrest⟩
    · -- No later item is in the list either.
      have hall : ∀ x ∈ y :: rest, ¬decide (x.index < n) = true := by
        intro x hx
        have hle := (h.index_bounds hx).1
        simp only [decide_eq_true_eq]
        omega
      rw [List.filter_eq_nil_iff.2 hall]
      exact List.nil_prefix

theorem filter_lt (h : Consecutive items first) (n : Nat) :
    Consecutive (items.filter fun item => decide (item.index < n)) first :=
  h.of_prefix (h.filter_lt_prefix n)

end Consecutive

/-! ## The visible part -/

/-- Drops leading elements for which `p` holds, but never the last element. -/
def dropLeading {β : Type} (p : β → Prop) [DecidablePred p] : List β → List β
  | x :: y :: rest => if p x then dropLeading p (y :: rest) else x :: y :: rest
  | items => items

section DropLeading

variable {β : Type} {p : β → Prop} [DecidablePred p] {items : List β}

theorem dropLeading_suffix (p : β → Prop) [DecidablePred p] (items : List β) :
    dropLeading p items <:+ items := by
  fun_induction dropLeading p items with
  | case1 x y rest _ ih => exact ih.trans (List.suffix_cons x (y :: rest))
  | case2 => exact List.suffix_refl _
  | case3 => exact List.suffix_refl _

theorem dropLeading_ne_nil (h : items ≠ []) : dropLeading p items ≠ [] := by
  fun_induction dropLeading p items with
  | case1 x y rest _ ih => exact ih (List.cons_ne_nil _ _)
  | case2 => exact h
  | case3 => exact h

/-- Nothing but what `p` holds for is dropped. -/
theorem mem_dropLeading {x : β} (hx : x ∈ items) (hp : ¬p x) : x ∈ dropLeading p items := by
  fun_induction dropLeading p items with
  | case1 y z rest hy ih =>
    rcases List.mem_cons.1 hx with rfl | hmem
    · exact absurd hy hp
    · exact ih hmem
  | case2 => exact hx
  | case3 => exact hx

/-- If there is something that `p` does not hold for, what is left starts with such an element. -/
theorem not_of_head?_dropLeading {x : β} (h : ∃ y ∈ items, ¬p y)
    (hx : (dropLeading p items).head? = some x) : ¬p x := by
  fun_induction dropLeading p items with
  | case1 y z rest hy ih =>
    obtain ⟨w, hw, hstays⟩ := h
    have hlater : w ∈ z :: rest := (List.mem_cons.1 hw).resolve_left fun heq => hstays (heq ▸ hy)
    exact ih ⟨w, hlater, hstays⟩ hx
  | case2 y z rest hy =>
    cases hx
    exact hy
  | case3 items hshort =>
    -- There is one element at most, and it is the one that stays.
    obtain ⟨w, hw, hstays⟩ := h
    match items, hshort with
    | [y], _ =>
      cases hx
      rwa [List.mem_singleton.1 hw] at hstays
    | y :: z :: rest, hshort => exact absurd rfl (hshort y z rest)

/-- Leading elements that are all dropped make no difference. -/
theorem dropLeading_append_of_forall {pre : List β} (hpre : ∀ x ∈ pre, p x) (hne : items ≠ []) :
    dropLeading p (pre ++ items) = dropLeading p items := by
  induction pre with
  | nil => rfl
  | cons x rest ih =>
    obtain ⟨hx, hrest⟩ := List.forall_mem_cons.1 hpre
    obtain ⟨y, tail, htail⟩ :=
      List.exists_cons_of_ne_nil (List.append_ne_nil_of_right_ne_nil rest hne)
    rw [List.cons_append, htail, dropLeading, if_pos hx, ← htail]
    exact ih hrest

/-- Once an element stays, whatever comes behind it stays, too. -/
theorem dropLeading_append_of_exists (h : ∃ x ∈ items, ¬p x) (post : List β) :
    dropLeading p (items ++ post) = dropLeading p items ++ post := by
  induction items with
  | nil =>
    obtain ⟨x, hx, -⟩ := h
    cases hx
  | cons x rest ih =>
    obtain ⟨y, hy, hstays⟩ := h
    by_cases hx : p x
    · -- The element that stays is a later one.
      have hlater : y ∈ rest := (List.mem_cons.1 hy).resolve_left fun heq => hstays (heq ▸ hx)
      obtain ⟨z, tail, rfl⟩ := List.exists_cons_of_ne_nil (List.ne_nil_of_mem hlater)
      have hrest := ih ⟨y, hlater, hstays⟩
      rw [List.cons_append] at hrest ⊢
      rw [List.cons_append, dropLeading, dropLeading, if_pos hx, if_pos hx, hrest]
    · -- Nothing is dropped.
      have hwhole : ∀ more, dropLeading p (x :: more) = x :: more := by
        intro more
        cases more with
        | nil => rfl
        | cons z more => rw [dropLeading, if_neg hx]
      rw [List.cons_append, hwhole, hwhole, List.cons_append]

/-- Elements may be changed before or after leading ones are dropped. -/
theorem dropLeading_map {γ : Type} {q : γ → Prop} [DecidablePred q] {f : β → γ}
    (h : ∀ x, q (f x) ↔ p x) (items : List β) :
    dropLeading q (items.map f) = (dropLeading p items).map f := by
  fun_induction dropLeading p items with
  | case1 x y rest hx ih =>
    rw [List.map_cons, List.map_cons, dropLeading, if_pos ((h x).2 hx), ← List.map_cons, ih]
  | case2 x y rest hx =>
    rw [List.map_cons, List.map_cons, dropLeading, if_neg (mt (h x).1 hx)]
  | case3 items hshort =>
    cases items with
    | nil => rfl
    | cons x rest =>
      cases rest with
      | nil => rfl
      | cons y rest => exact absurd rfl (hshort x y rest)

/-- The head of an ordered list comes before its other elements. -/
theorem head_of_pairwise {R : β → β → Prop} {x y : β} (h : items.Pairwise R)
    (hx : items.head? = some x) (hy : y ∈ items) : x = y ∨ R x y := by
  obtain ⟨rest, rfl⟩ := List.head?_eq_some_iff.1 hx
  rcases List.mem_cons.1 hy with rfl | hmem
  · exact Or.inl rfl
  · exact Or.inr (List.rel_of_pairwise_cons h hmem)

end DropLeading

section Visible

variable [Scalar α] {items : List (PlacedItem α)} {position view : α} {x y : PlacedItem α}

theorem dropFinished_eq (edge : α) (items : List (PlacedItem α)) :
    dropFinished edge items = dropLeading (fun x => x.finish ≤ edge) items := by
  fun_induction dropFinished edge items with
  | case1 x y rest hx ih => rw [dropLeading, if_pos hx, ih]
  | case2 x y rest hx => rw [dropLeading, if_neg hx]
  | case3 items h => rw [dropLeading.eq_2 _ _ h]

theorem dropUnstarted_eq (edge : α) (items : List (PlacedItem α)) :
    dropUnstarted edge items = dropLeading (fun x => edge ≤ x.position) items := by
  fun_induction dropUnstarted edge items with
  | case1 x y rest hx ih => rw [dropLeading, if_pos hx, ih]
  | case2 x y rest hx => rw [dropLeading, if_neg hx]
  | case3 items h => rw [dropLeading.eq_2 _ _ h]

/-- The items that are left when those in front of the viewport are dropped. -/
def unfinished (items : List (PlacedItem α)) (position : α) : List (PlacedItem α) :=
  dropLeading (fun x => x.finish ≤ position) items

/-- The visible part is what is left when items are dropped from both sides. -/
theorem visibleEnds_eq_some_iff : visibleEnds items position view = some (x, y) ↔
    (unfinished items position).head? = some x ∧
      (dropLeading (fun x => position + view ≤ x.position)
        (unfinished items position).reverse).head? = some y := by
  simp only [visibleEnds, dropFinished_eq, dropUnstarted_eq, Option.bind_eq_bind,
    Option.bind_eq_some_iff, Option.pure_def, Option.some.injEq, Prod.mk.injEq, unfinished]
  constructor
  · intro h
    obtain ⟨a, ha, b, hb, rfl, rfl⟩ := h
    exact ⟨ha, hb⟩
  · intro h
    exact ⟨x, h.1, y, h.2, rfl, rfl⟩

/-- There is a visible part as soon as there is an item. -/
theorem visibleEnds_ne_none (h : items ≠ []) (position view : α) :
    ∃ x y, visibleEnds items position view = some (x, y) := by
  have hfront : unfinished items position ≠ [] := dropLeading_ne_nil h
  have hback : dropLeading (fun x => position + view ≤ x.position)
      (unfinished items position).reverse ≠ [] :=
    dropLeading_ne_nil (by simpa using hfront)
  exact ⟨_, _, visibleEnds_eq_some_iff.2
    ⟨List.head?_eq_some_head hfront, List.head?_eq_some_head hback⟩⟩

/-- Items in front of the viewport and items behind it make no difference to the visible part of the
others, unless these all end in front of the viewport and are followed by more. -/
theorem visibleEnds_append {pre mid post : List (PlacedItem α)} (hne : mid ≠ [])
    (hpre : ∀ x ∈ pre, x.finish ≤ position) (hpost : ∀ x ∈ post, position + view ≤ x.position)
    (hstays : post = [] ∨ ∃ x ∈ mid, ¬x.finish ≤ position) :
    visibleEnds (pre ++ mid ++ post) position view = visibleEnds mid position view := by
  have hfront : unfinished mid position ≠ [] := dropLeading_ne_nil hne
  have hunfinished :
      unfinished (pre ++ mid ++ post) position = unfinished mid position ++ post := by
    rw [List.append_assoc]
    refine (dropLeading_append_of_forall hpre (List.append_ne_nil_of_left_ne_nil hne post)).trans ?_
    rcases hstays with rfl | hstays
    · rw [List.append_nil, List.append_nil]
      rfl
    · exact dropLeading_append_of_exists hstays post
  have hback : dropLeading (fun x => position + view ≤ x.position)
      (unfinished mid position ++ post).reverse =
        dropLeading (fun x => position + view ≤ x.position) (unfinished mid position).reverse := by
    rw [List.reverse_append]
    exact dropLeading_append_of_forall (fun x hx => hpost x (List.mem_reverse.1 hx))
      (by simpa using hfront)
  have hhead : (unfinished mid position ++ post).head? = (unfinished mid position).head? := by
    rw [List.head?_append, List.head?_eq_some_head hfront]
    rfl
  refine Option.ext fun ends => ?_
  rw [visibleEnds_eq_some_iff, visibleEnds_eq_some_iff, hunfinished, hback, hhead]

/-- Both ends of the visible part are in the window, and in order. -/
theorem visibleEnds_mem {first : Nat} (hitems : Consecutive items first)
    (h : visibleEnds items position view = some (x, y)) :
    x ∈ items ∧ y ∈ items ∧ x.index ≤ y.index := by
  obtain ⟨hx, hy⟩ := visibleEnds_eq_some_iff.1 h
  have hsub : unfinished items position <:+ items := dropLeading_suffix _ items
  have hymem : y ∈ unfinished items position :=
    List.mem_reverse.1 ((dropLeading_suffix _ _).subset (List.mem_of_head? hy))
  refine ⟨hsub.subset (List.mem_of_head? hx), hsub.subset hymem, ?_⟩
  -- What is left when items are dropped from the front starts with `x` and is still in order.
  rcases head_of_pairwise (hitems.pairwise_lt.sublist hsub.sublist) hx hymem with rfl | hlt
  · exact Nat.le_refl _
  · exact Nat.le_of_lt hlt

/-- An item that lies in the viewport lies between the ends of the visible part. -/
theorem visibleEnds_of_meets {first : Nat} (hitems : Consecutive items first)
    (h : visibleEnds items position view = some (x, y)) {item : PlacedItem α} (hmem : item ∈ items)
    (hended : ¬item.finish ≤ position) (hstarts : ¬position + view ≤ item.position) :
    x.index ≤ item.index ∧ item.index ≤ y.index := by
  obtain ⟨hx, hy⟩ := visibleEnds_eq_some_iff.1 h
  have hsub : unfinished items position <:+ items := dropLeading_suffix _ items
  have hsorted := hitems.pairwise_lt.sublist hsub.sublist
  -- The item is dropped from neither side.
  have hleft : item ∈ unfinished items position := mem_dropLeading hmem hended
  have hboth := mem_dropLeading (p := fun x => position + view ≤ x.position)
    (List.mem_reverse.2 hleft) hstarts
  -- The second search runs from the back, over items in descending order.
  have hback := dropLeading_suffix (fun x : PlacedItem α => position + view ≤ x.position)
    (unfinished items position).reverse
  have hdesc := (List.pairwise_reverse.2 hsorted).sublist hback.sublist
  constructor
  · rcases head_of_pairwise hsorted hx hleft with rfl | hlt
    · exact Nat.le_refl _
    · exact Nat.le_of_lt hlt
  · rcases head_of_pairwise hdesc hy hboth with rfl | hlt
    · exact Nat.le_refl _
    · exact Nat.le_of_lt hlt

/-- If an item lies in the viewport, the visible part starts with an item that reaches into it from
the front, and ends with one that reaches into it from the back. -/
theorem visibleEnds_meet (h : visibleEnds items position view = some (x, y))
    {item : PlacedItem α} (hmem : item ∈ items) (hended : ¬item.finish ≤ position)
    (hstarts : ¬position + view ≤ item.position) :
    ¬x.finish ≤ position ∧ ¬position + view ≤ y.position := by
  obtain ⟨hx, hy⟩ := visibleEnds_eq_some_iff.1 h
  have hleft : item ∈ unfinished items position := mem_dropLeading hmem hended
  constructor
  · exact not_of_head?_dropLeading (p := fun x : PlacedItem α => x.finish ≤ position)
      ⟨item, hmem, hended⟩ hx
  · exact not_of_head?_dropLeading (p := fun x : PlacedItem α => position + view ≤ x.position)
      ⟨item, List.mem_reverse.2 hleft, hstarts⟩ hy

end Visible

end VirtualList
