import Mathlib.Tactic.Tauto
import VirtualList.Scheduler

/-!
# What a scheduler has collected

A pass is due as soon as one of the collected reasons calls for one, and no reason is lost while
others arrive.

## Key results

- `needsPass_union`, `contains_items_union`: what follows from the reasons of both of two sets
- `contains_union_left`, `needsPass_of_contains`: what follows from one of the reasons
- `isEmpty_union`, `union_comm`: how sets of reasons add up
- `invalidate_cases`, `begin_cases`: what a call to a scheduler does
- `pending_invalidate`: the reasons after a request for a frame
- `Scheduler.Coherent`: an idle scheduler has no reasons left
-/

namespace VirtualList

namespace Reasons

/-- Two sets of reasons call for a pass iff one of them does. -/
theorem needsPass_union (a b : Reasons) : (a ∪ b).needsPass = (a.needsPass || b.needsPass) := by
  -- Masking a bit out of a union masks it out of both parts.
  show ((a.bits ||| b.bits) &&& ~~~visibleRange.bits != 0#8) = _
  rw [needsPass, needsPass, BitVec.and_or_distrib_right, Bool.eq_iff_iff]
  simp only [bne_iff_ne, ne_eq, Bool.or_eq_true, BitVec.or_eq_zero_iff]
  tauto

/-- There is no reason in either of two sets iff there is none in both together. -/
theorem isEmpty_union (a b : Reasons) : (a ∪ b).isEmpty = (a.isEmpty && b.isEmpty) := by
  show (a.bits ||| b.bits == 0#8) = (a.bits == 0#8 && b.bits == 0#8)
  rw [Bool.eq_iff_iff, beq_iff_eq, BitVec.or_eq_zero_iff, Bool.and_eq_true, beq_iff_eq,
    beq_iff_eq]

theorem union_comm (a b : Reasons) : a ∪ b = b ∪ a := by
  show Reasons.mk (a.bits ||| b.bits) = Reasons.mk (b.bits ||| a.bits)
  rw [BitVec.or_comm]

/-- A set without reasons adds nothing. -/
theorem union_of_isEmpty (a : Reasons) {b : Reasons} (h : b.isEmpty = true) : a ∪ b = a := by
  have hbits : b.bits = 0#8 := eq_of_beq h
  show Reasons.mk (a.bits ||| b.bits) = a
  rw [hbits, BitVec.or_zero]

/-- The reasons hold that the data changed in place iff the lowest bit is set. -/
theorem contains_items_eq (a : Reasons) : a.contains .items = a.bits.getLsbD 0 := by
  -- There are 256 sets of reasons.
  have hbit : ∀ x : BitVec 8, (x &&& 1#8 == 1#8) = x.getLsbD 0 := by decide
  exact hbit a.bits

theorem contains_items_union (a b : Reasons) :
    (a ∪ b).contains .items = (a.contains .items || b.contains .items) := by
  rw [contains_items_eq, contains_items_eq, contains_items_eq]
  exact BitVec.getLsbD_or

/-- To hold reasons is to gain nothing by adding them. -/
theorem contains_iff_union_eq {a b : Reasons} : a.contains b = true ↔ a ∪ b = a := by
  obtain ⟨x⟩ := a
  obtain ⟨y⟩ := b
  show (x &&& y == y) = true ↔ Reasons.mk (x ||| y) = Reasons.mk x
  rw [beq_iff_eq, Reasons.mk.injEq]
  constructor
  · intro h
    rw [← h]
    ext i hi
    rw [BitVec.getElem_or, BitVec.getElem_and]
    cases x[i] <;> cases y[i] <;> rfl
  · intro h
    rw [← h]
    ext i hi
    rw [BitVec.getElem_and, BitVec.getElem_or]
    cases x[i] <;> cases y[i] <;> rfl

/-- No reason is lost while others arrive. -/
theorem contains_union_left {a r : Reasons} (h : a.contains r = true) (b : Reasons) :
    (a ∪ b).contains r = true := by
  have hbits : a.bits ||| r.bits = a.bits := congrArg bits (contains_iff_union_eq.1 h)
  rw [contains_iff_union_eq]
  show Reasons.mk (a.bits ||| b.bits ||| r.bits) = Reasons.mk (a.bits ||| b.bits)
  rw [BitVec.or_assoc, BitVec.or_comm b.bits, ← BitVec.or_assoc, hbits]

theorem contains_union_right (a b : Reasons) : (a ∪ b).contains b = true := by
  rw [contains_iff_union_eq]
  show Reasons.mk (a.bits ||| b.bits ||| b.bits) = Reasons.mk (a.bits ||| b.bits)
  rw [BitVec.or_assoc, BitVec.or_self]

/-- Who holds a reason for a pass calls for one. -/
theorem needsPass_of_contains {a r : Reasons} (h : a.contains r = true)
    (hr : r.needsPass = true) : a.needsPass = true := by
  rw [← contains_iff_union_eq.1 h, needsPass_union, hr, Bool.or_true]

theorem contains_items_eq_false {a : Reasons} (h : a.needsPass = false) :
    a.contains .items = false := by
  cases hitems : a.contains .items with
  | false => rfl
  | true =>
    rw [needsPass_of_contains hitems rfl] at h
    cases h

end Reasons

namespace Scheduler

/-- An idle scheduler has handed out all of its reasons. -/
def Coherent (s : Scheduler) : Prop := s.state = .idle → s.pending = .none

/-- A set without reasons is overlooked.  Other reasons are added to those collected before, and if
the scheduler is idle a frame is asked for. -/
theorem invalidate_cases (s : Scheduler) (r : Reasons) :
    (r.isEmpty = true ∧ s.invalidate r = (false, s)) ∨
      (r.isEmpty = false ∧ s.state = .pending ∧
        s.invalidate r = (false, { s with pending := s.pending ∪ r })) ∨
      (r.isEmpty = false ∧ s.state = .idle ∧
        s.invalidate r = (true, { s with
          state := .pending
          pending := s.pending ∪ r
          framesRequested := Index.next s.framesRequested
          calls := if s.listening then s.calls + 1 else s.calls })) := by
  unfold invalidate
  cases hr : r.isEmpty with
  | true => exact Or.inl ⟨rfl, rfl⟩
  | false =>
    refine Or.inr ?_
    cases hstate : s.state with
    | idle => exact Or.inr ⟨rfl, rfl, rfl⟩
    | pending => exact Or.inl ⟨rfl, rfl, rfl⟩

/-- A frame that has been asked for begins with the reasons collected, and leaves none. -/
theorem begin_cases (s : Scheduler) :
    (s.state = .idle ∧ s.begin = (none, s)) ∨
      (s.state = .pending ∧
        s.begin = (some s.pending, { s with state := .idle, pending := .none })) := by
  unfold begin
  split
  · rename_i hstate
    exact Or.inl ⟨hstate, rfl⟩
  · rename_i hstate
    exact Or.inr ⟨hstate, rfl⟩

/-- Reasons are added to those collected before. -/
theorem pending_invalidate (s : Scheduler) (r : Reasons) :
    (s.invalidate r).2.pending = s.pending ∪ r := by
  rcases s.invalidate_cases r with ⟨hempty, heq⟩ | ⟨-, -, heq⟩ | ⟨-, -, heq⟩
  · rw [heq, Reasons.union_of_isEmpty s.pending hempty]
  · rw [heq]
  · rw [heq]

/-- A frame has been asked for once there is a reason. -/
theorem isPending_invalidate (s : Scheduler) {r : Reasons} (hr : r.isEmpty = false) :
    (s.invalidate r).2.isPending = true := by
  rcases s.invalidate_cases r with ⟨hempty, -⟩ | ⟨-, hstate, heq⟩ | ⟨-, -, heq⟩
  · rw [hr] at hempty
    cases hempty
  · rw [heq]
    simp [isPending, hstate]
  · rw [heq]
    rfl

/-- What has been asked for stays so while more reasons arrive. -/
theorem isPending_invalidate_of_isPending {s : Scheduler} (h : s.isPending = true) (r : Reasons) :
    (s.invalidate r).2.isPending = true := by
  cases hr : r.isEmpty with
  | true => simpa [invalidate, hr] using h
  | false => exact s.isPending_invalidate hr

theorem Coherent.invalidate {s : Scheduler} (h : s.Coherent) (r : Reasons) :
    (s.invalidate r).2.Coherent := by
  intro hidle
  cases hr : r.isEmpty with
  | true =>
    simp only [Scheduler.invalidate, hr, if_true] at hidle ⊢
    exact h hidle
  | false =>
    -- Once there is a reason the scheduler is not idle.
    have hpending := s.isPending_invalidate hr
    simp [isPending, hidle] at hpending

/-- A scheduler that has not asked for a frame has no reason for a pass. -/
theorem Coherent.needsPass_eq_false {s : Scheduler} (h : s.Coherent)
    (hidle : s.isPending = false) : s.pending.needsPass = false := by
  have hnone : s.pending = .none := by
    apply h
    cases hstate : s.state with
    | idle => rfl
    | pending =>
      rw [isPending, hstate] at hidle
      cases hidle
  rw [hnone]
  rfl

end Scheduler

end VirtualList
