import Mathlib.Tactic.Tauto
import VirtualList.Proofs.Layout.Run
import VirtualList.Proofs.SizeBook.Record
import VirtualList.Proofs.Window

/-!
# The window that a pass grows

Whatever the arithmetic returns, a window grows by neighbours, so it is a run of consecutive items
around its anchor that ends within the list.  Each item has the size that the book gives it, and
the window is stable iff every size and every space that went into it was measured.

## Key results

- `growBackward_grows`, `growForward_grows`: one induction for each direction
- `growWindow_spans`: the window as a whole
- `Spans.stable_iff_isMeasured`: a window is stable iff all of its items have been measured
-/

namespace VirtualList

namespace Layout

variable {α : Type} [Scalar α]

/-- Item `i` has been measured, and so has the space in front of item `k`. -/
def Measured (l : Layout α) (i k : Nat) : Prop :=
  (l.book.sizeOf i).isMeasured = true ∧ (l.spaceBefore k).isMeasured = true

/-- A window stays stable with what was measured, and with nothing else. -/
theorem and_isMeasured_iff (l : Layout α) (b : Bool) (i k : Nat) :
    (b && ((l.book.sizeOf i).isMeasured && (l.spaceBefore k).isMeasured)) = true ↔
      b = true ∧ l.Measured i k := by
  rw [Bool.and_eq_true, Bool.and_eq_true]
  exact Iff.rfl

/-- The space in front of an item has been measured iff the book holds its margin. -/
theorem isMeasured_spaceBefore (l : Layout α) (i : Nat) :
    (l.spaceBefore i).isMeasured = (l.book.spaces[i]?).isSome := by
  simp only [spaceBefore, Size.isMeasured_map, SizeBook.isMeasured_marginBefore]

/-! ## The anchor -/

/-- The footing of an anchor, spelt out. -/
theorem footing_eq_ok {l : Layout α} {a : Anchor α} {f : Footing α} (h : l.footing a = .ok f) :
    a.index < Index.limit ∧
      f = {
        anchor := ⟨a.index, if a.index = 0 then (l.spaceBefore a.index).value else a.position⟩
        size := (l.book.sizeOf a.index).value
        lead := (l.spaceBefore a.index).value
        trail := (l.spaceBefore (a.index + 1)).value
        stable := (l.book.sizeOf a.index).isMeasured && (l.spaceBefore a.index).isMeasured &&
          (l.spaceBefore (a.index + 1)).isMeasured } := by
  simp only [footing, bind_eq_ok, Index.succ_eq_ok_iff] at h
  obtain ⟨next, ⟨hlt, rfl⟩, h⟩ := h
  cases h
  exact ⟨hlt, rfl⟩

/-! ## Growth in one direction -/

/-- What growing backward from item `first` adds to a window. -/
structure GrownBackward (l : Layout α) (first : Nat) (stable : Bool) (items : List (PlacedItem α))
    (g : Growth α) (new : List (PlacedItem α)) : Prop where
  items_eq : g.items = new ++ items
  consecutive : Consecutive new g.reached
  reached : g.reached + new.length = first
  size_eq : ∀ x ∈ new, x.size = (l.book.sizeOf x.index).value
  stable_iff : g.stable = true ↔
    stable = true ∧ ∀ i, g.reached ≤ i → i < first → l.Measured i i

namespace GrownBackward

/-- A window that does not grow is as it was. -/
theorem stop (l : Layout α) (first : Nat) (edge : α) (stable : Bool)
    (items : List (PlacedItem α)) :
    l.GrownBackward first stable items ⟨items, first, edge, stable⟩ [] where
  items_eq := rfl
  consecutive := .nil _
  reached := rfl
  size_eq := by simp
  stable_iff := ⟨fun h => ⟨h, fun i hi hlt => absurd hi (Nat.not_le.2 hlt)⟩, And.left⟩

/-- A window grows by the item in front of it, and then by whatever it grows from there on. -/
theorem add {l : Layout α} {i : Nat} {position : α} {stable : Bool}
    {items new : List (PlacedItem α)} {g : Growth α}
    (h : l.GrownBackward i
      (stable && ((l.book.sizeOf i).isMeasured && (l.spaceBefore i).isMeasured))
      (⟨i, position, (l.book.sizeOf i).value⟩ :: items) g new) :
    l.GrownBackward (i + 1) stable items g (new ++ [⟨i, position, (l.book.sizeOf i).value⟩]) where
  items_eq := by
    rw [h.items_eq, List.append_assoc]
    rfl
  consecutive := h.consecutive.append (Consecutive.cons_iff.2 ⟨h.reached.symm, .nil _⟩)
  reached := by
    have hreached := h.reached
    rw [List.length_append, List.length_singleton]
    omega
  size_eq x hx := by
    rcases List.mem_append.1 hx with hx | hx
    · exact h.size_eq x hx
    · rw [List.mem_singleton.1 hx]
  stable_iff := by
    have hreached := h.reached
    rw [h.stable_iff, and_isMeasured_iff]
    constructor
    · intro hboth
      obtain ⟨⟨hstable, hmeasured⟩, hrest⟩ := hboth
      refine ⟨hstable, fun k hk hlt => ?_⟩
      rcases Nat.lt_succ_iff_lt_or_eq.1 hlt with hlt | rfl
      · exact hrest k hk hlt
      · exact hmeasured
    · intro hboth
      obtain ⟨hstable, hall⟩ := hboth
      exact ⟨⟨hstable, hall i (by omega) (by omega)⟩, fun k hk hlt => hall k hk (by omega)⟩

end GrownBackward

theorem growBackward_grows (l : Layout α) (lower : α) (first : Nat) (edge : α) (stable : Bool)
    (items : List (PlacedItem α)) :
    ∃ new, l.GrownBackward first stable items (l.growBackward lower first edge stable items) new := by
  induction first generalizing edge stable items with
  | zero => exact ⟨[], .stop l 0 edge stable items⟩
  | succ i ih =>
    unfold growBackward
    split
    · simp only
      split
      · obtain ⟨new, hnew⟩ := ih (edge - (l.book.sizeOf i).value - (l.spaceBefore i).value)
          (stable && ((l.book.sizeOf i).isMeasured && (l.spaceBefore i).isMeasured))
          (⟨i, edge - (l.book.sizeOf i).value, (l.book.sizeOf i).value⟩ :: items)
        exact ⟨_, hnew.add⟩
      · -- Without speculative layout an unmeasured item ends the growth.
        exact ⟨_, (GrownBackward.stop l i _ _ _).add⟩
    · exact ⟨[], .stop l (i + 1) edge stable items⟩

/-- What growing forward from item `last` adds to a window. -/
structure GrownForward (l : Layout α) (remaining last : Nat) (stable : Bool) (g : Growth α) :
    Prop where
  consecutive : Consecutive g.items (last + 1)
  reached : g.reached = last + g.items.length
  length_le : g.items.length ≤ remaining
  size_eq : ∀ x ∈ g.items, x.size = (l.book.sizeOf x.index).value
  stable_iff : g.stable = true ↔
    stable = true ∧ ∀ i, last < i → i ≤ g.reached → l.Measured i (i + 1)

namespace GrownForward

/-- A window that does not grow is as it was. -/
theorem stop (l : Layout α) (remaining last : Nat) (edge : α) (stable : Bool) :
    l.GrownForward remaining last stable ⟨[], last, edge, stable⟩ where
  consecutive := .nil _
  reached := rfl
  length_le := Nat.zero_le _
  size_eq := by simp
  stable_iff := ⟨fun h => ⟨h, fun i hlt hi => absurd hi (Nat.not_le.2 hlt)⟩, And.left⟩

/-- A window grows by the item behind it, and then by whatever it grows from there on. -/
theorem add {l : Layout α} {remaining last : Nat} {position : α} {stable : Bool} {g : Growth α}
    (h : l.GrownForward remaining (last + 1) (stable && ((l.book.sizeOf (last + 1)).isMeasured &&
      (l.spaceBefore (last + 1 + 1)).isMeasured)) g) :
    l.GrownForward (remaining + 1) last stable
      { g with items := ⟨last + 1, position, (l.book.sizeOf (last + 1)).value⟩ :: g.items } where
  consecutive := Consecutive.cons_iff.2 ⟨rfl, h.consecutive⟩
  reached := by
    have hreached := h.reached
    simp only [List.length_cons]
    omega
  length_le := Nat.succ_le_succ h.length_le
  size_eq := List.forall_mem_cons.2 ⟨rfl, h.size_eq⟩
  stable_iff := by
    have hreached := h.reached
    simp only
    rw [h.stable_iff, and_isMeasured_iff]
    constructor
    · intro hboth
      obtain ⟨⟨hstable, hmeasured⟩, hall⟩ := hboth
      refine ⟨hstable, fun k hlt hk => ?_⟩
      rcases Nat.lt_or_eq_of_le hlt with hlt | rfl
      · exact hall k hlt hk
      · exact hmeasured
    · intro hboth
      obtain ⟨hstable, hall⟩ := hboth
      exact ⟨⟨hstable, hall _ (Nat.lt_succ_self _) (by omega)⟩,
        fun k hlt hk => hall k (by omega) hk⟩

end GrownForward

theorem growForward_grows {l : Layout α} {upper : α} {remaining last : Nat} {edge : α}
    {stable : Bool} {g : Growth α}
    (h : l.growForward upper remaining last edge stable = .ok g) :
    l.GrownForward remaining last stable g := by
  -- The induction is on the number of items that are left in the list.
  induction remaining generalizing last edge stable g with
  | zero =>
    cases h
    exact .stop l 0 last edge stable
  | succ remaining ih =>
    unfold growForward at h
    split at h
    · simp only [bind_eq_ok, Index.succ_eq_ok_iff] at h
      obtain ⟨i, ⟨-, rfl⟩, next, ⟨-, rfl⟩, h⟩ := h
      split at h
      · obtain ⟨rest, hrest, h⟩ := bind_eq_ok.1 h
        cases h
        exact (ih hrest).add
      · -- Here, too, an unmeasured item ends the growth.
        cases h
        exact (GrownForward.stop l remaining (last + 1) _ _).add
    · cases h
      exact .stop l (remaining + 1) last edge stable

/-! ## The whole window -/

/-- The window from item `first` to item `last` around an anchor with its footing. -/
structure Spans (l : Layout α) (final : Nat) (f : Footing α) (s : Strip α) : Prop where
  consecutive : Consecutive s.items s.first
  length_eq : s.first + s.items.length = s.last + 1
  first_le : s.first ≤ f.anchor.index
  le_last : f.anchor.index ≤ s.last
  last_le : s.last ≤ final
  mem : f.item ∈ s.items
  size_eq : ∀ x ∈ s.items, x = f.item ∨ x.size = (l.book.sizeOf x.index).value
  stable_iff : s.stable = true ↔ f.stable = true ∧
    (∀ i, s.first ≤ i → i < f.anchor.index → l.Measured i i) ∧
    (∀ i, f.anchor.index < i → i ≤ s.last → l.Measured i (i + 1))

theorem growWindow_spans {l : Layout α} {final : Nat} {f : Footing α} {b : Bounds α} {s : Strip α}
    (h : l.growWindow final f b = .ok s) (hfinal : f.anchor.index ≤ final) : l.Spans final f s := by
  simp only [growWindow, bind_eq_ok] at h
  obtain ⟨ahead, hahead, h⟩ := h
  cases h
  obtain ⟨new, hback⟩ := l.growBackward_grows b.lower f.anchor.index f.lower f.stable []
  have hfore := growForward_grows hahead
  have hitems : (l.growBackward b.lower f.anchor.index f.lower f.stable []).items = new := by
    rw [hback.items_eq, List.append_nil]
  have hreached := hback.reached
  have hlast := hfore.reached
  have hlen := hfore.length_le
  refine ⟨?_, ?_, ?_, ?_, ?_, ?_, ?_, ?_⟩
  · -- The items in front of the anchor, the anchor, and the items behind it.
    rw [hitems]
    refine hback.consecutive.append ?_
    rw [hreached]
    exact Consecutive.cons_iff.2 ⟨rfl, hfore.consecutive⟩
  · simp only [hitems, List.length_append, List.length_cons]
    omega
  · simp only
    omega
  · simp only
    omega
  · simp only
    omega
  · simp
  · intro x hx
    rw [hitems] at hx
    rcases List.mem_append.1 hx with hx | hx
    · exact Or.inr (hback.size_eq x hx)
    · rcases List.mem_cons.1 hx with hx | hx
      · exact Or.inl hx
      · exact Or.inr (hfore.size_eq x hx)
  · rw [hfore.stable_iff, hback.stable_iff, and_assoc]

/-- A measured item and the spaces next to it have all been measured. -/
theorem measured_of_isMeasured {l : Layout α} (hs : l.book.Sound) {i : Nat} (hi : i < Index.limit)
    (hm : l.book.isMeasured i = true) : l.Measured i i ∧ l.Measured i (i + 1) := by
  have hlead := hs.space_known i (Nat.le_of_lt hi) (Or.inl hm)
  have htrail := hs.space_known (i + 1) hi (Or.inr ⟨Nat.succ_ne_zero i, hm⟩)
  rw [← isMeasured_spaceBefore] at hlead htrail
  exact ⟨⟨hm, hlead⟩, ⟨hm, htrail⟩⟩

/-- A window is stable iff all of its items have been measured: the spaces at its ends, which it
shares with items outside, never make it unstable. -/
theorem Spans.stable_iff_isMeasured {l : Layout α} {final : Nat} {a : Anchor α} {f : Footing α}
    {s : Strip α} (h : l.Spans final f s) (hf : l.footing a = .ok f) (hs : l.book.Sound)
    (hfinal : final < Index.limit) :
    s.stable = true ↔ ∀ i, s.first ≤ i → i ≤ s.last → l.book.isMeasured i = true := by
  obtain ⟨-, hfooting⟩ := footing_eq_ok hf
  have hanchor : f.anchor.index = a.index := by rw [hfooting]
  have hstable : f.stable = true ↔ l.Measured a.index a.index ∧ l.Measured a.index (a.index + 1) := by
    rw [hfooting]
    simp only [Measured, Bool.and_eq_true]
    tauto
  have hle := h.last_le
  have hfirst := h.first_le
  have hlast := h.le_last
  rw [h.stable_iff, hstable, hanchor]
  rw [hanchor] at hfirst hlast
  constructor
  · intro h i hi hi'
    obtain ⟨hself, hback, hahead⟩ := h
    rcases Nat.lt_trichotomy i a.index with hlt | rfl | hlt
    · exact (hback i hi hlt).1
    · exact hself.1.1
    · exact (hahead i hlt hi').1
  · -- A measured item knows the spaces on both of its sides.
    intro hall
    have hboth (i : Nat) (hi : s.first ≤ i) (hi' : i ≤ s.last) :=
      measured_of_isMeasured hs (i := i) (by omega) (hall i hi hi')
    exact ⟨hboth a.index hfirst hlast, fun i hi hlt => (hboth i hi (by omega)).1,
      fun i hlt hi => (hboth i (by omega) hi).2⟩

end Layout

end VirtualList
