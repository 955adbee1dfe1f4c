import VirtualList.Proofs.Layout.Run
import VirtualList.Proofs.SizeBook.Refusal

/-!
# Refused inputs leave no trace

A layout refuses an input before anything is done about it, and for what the input says: the number
of items and the other side of the viewport apart, nothing of the layout matters.  So a list of
measurements to be recorded is cut at the first one refused: what comes before it stays recorded,
and nothing else does.

## Key results

- `setOptions_eq_error_iff`, `setViewport_eq_error_iff`, `setViewportMain_eq_error_iff`,
  `moveTo_eq_error_iff`, `record_eq_error_iff`: what a layout refuses, and that nothing changes then
- `recordAll_eq_error_iff`, `recordAll_eq_ok_iff`: where a list of measurements is cut
- `refusals_leave_no_trace`: all of it, with what a book refuses
-/

namespace VirtualList.Layout

variable {α : Type} [Scalar α] {l l' : Layout α} {e : InputError α}

/-! ## What a layout refuses -/

/-- Options are refused iff one of them is outside its domain, and then nothing changes. -/
theorem setOptions_eq_error_iff {options : Options α} :
    l.setOptions options = (.error e, l') ↔ options.check = .error e ∧ l' = l := by
  simp only [setOptions]
  split
  · rename_i d hcheck
    simp [hcheck, eq_comm]
  · rename_i hcheck
    simp [hcheck]

/-- A viewport is refused iff it is outside its domain, and then nothing changes. -/
theorem setViewport_eq_error_iff {v : Viewport α} :
    l.setViewport v = (.error e, l') ↔ v.check = .error e ∧ l' = l := by
  cases hcheck : v.check with
  | error d =>
    rw [setViewport_refused hcheck, Prod.mk.injEq, Except.error.injEq, Except.error.injEq,
      eq_comm (a := l)]
  | ok u =>
    obtain ⟨book, corrections, remeasure, -, heq⟩ := setViewport_eq (l := l) hcheck
    rw [heq]
    simp

/-- One side of the viewport is refused iff it is outside its domain together with the other one. -/
theorem setViewportMain_eq_error_iff {main : α} :
    l.setViewportMain main = (.error e, l') ↔
      Viewport.check { l.viewport with main } = .error e ∧ l' = l := by
  rw [← setViewport_eq_error_iff]
  simp only [setViewportMain]
  -- The answer tells less of an accepted viewport, and the same of a refused one.
  rcases l.setViewport { l.viewport with main } with ⟨answer, after⟩
  cases answer <;> simp [Except.map]

/-- A scroll position is refused iff it is not finite, and then nothing changes. -/
theorem moveTo_eq_error_iff {position : α} :
    l.moveTo position = (.error e, l') ↔
      Scalar.isFinite position = false ∧ e = .scrollPosition position ∧ l' = l := by
  unfold moveTo
  cases hfinite : Scalar.isFinite position with
  | false => simp [eq_comm]
  | true =>
    -- The answer to a finite position is not a refusal.
    simp only [Bool.not_true, Bool.false_eq_true, if_false]
    split <;> simp

/-- What speaks against a measurement of an item of the list, if anything does. -/
def objection? (l : Layout α) (p : Nat × Measurement α) : Option (InputError α) :=
  if l.total ≤ p.1 then some (.indexOutOfRange p.1 l.total) else SizeBook.objection? p

theorem objection?_eq_none_iff {p : Nat × Measurement α} :
    l.objection? p = none ↔ p.1 < l.total ∧ p.2.isValid = true := by
  rw [← SizeBook.objection?_eq_none_iff, ← Nat.not_le]
  simp only [objection?]
  split <;> simp [*]

/-- A measurement is refused iff something speaks against it, and then nothing changes. -/
theorem record_eq_error_iff {i : Nat} {m : Measurement α} :
    l.record i m = (.error e, l') ↔ l.objection? (i, m) = some e ∧ l' = l := by
  simp only [record, objection?]
  split
  · simp [eq_comm]
  · split
    · -- What the book refuses, the layout refuses.
      rename_i d book hrecord
      have hbook := (SizeBook.record_eq_error_iff.1 hrecord).1
      simp [hbook, eq_comm]
    · rename_i previous book hrecord
      have hnone : SizeBook.objection? (i, m) ≠ some e := by
        intro hobject
        have hrefused := (SizeBook.record_eq_error_iff (b := l.book)).2 ⟨hobject, rfl⟩
        simp [hrecord] at hrefused
      simp [hnone]

/-! ## Measurements one after the other -/

/-- The layout after measurements recorded one by one, whatever the answers are. -/
def recordEach (l : Layout α) (ms : List (Nat × Measurement α)) : Layout α :=
  ms.foldl (fun l p => (l.record p.1 p.2).2) l

/-- A measurement leaves the number of items, so that the same speaks against the next one before
and after it. -/
theorem objection?_record (i : Nat) (m : Measurement α) (p : Nat × Measurement α) :
    (l.record i m).2.objection? p = l.objection? p := by
  by_cases hok : i < l.total ∧ m.isValid = true
  · obtain ⟨called, corrections, hrecord, -⟩ := record_eq_ok hok.1 hok.2
    rw [hrecord]
    rfl
  · obtain ⟨d, hrecord⟩ := record_refused hok
    rw [hrecord]

/-- Whatever was recorded before, the same speaks against a measurement. -/
theorem objection?_recordEach (ms : List (Nat × Measurement α)) (p : Nat × Measurement α) :
    (l.recordEach ms).objection? p = l.objection? p := by
  induction ms generalizing l with
  | nil => rfl
  | cons q rest ih =>
    show ((l.record q.1 q.2).2.recordEach rest).objection? p = _
    rw [ih, objection?_record]

/-- Acceptable measurements are all recorded. -/
theorem recordAll_of_acceptable {ms : List (Nat × Measurement α)}
    (h : ∀ p ∈ ms, l.objection? p = none) :
    ∃ called, l.recordAll ms = (.ok called, l.recordEach ms) := by
  induction ms generalizing l with
  | nil => exact ⟨false, rfl⟩
  | cons p rest ih =>
    obtain ⟨i, m⟩ := p
    obtain ⟨hp, hrest⟩ := List.forall_mem_cons.1 h
    have hok := objection?_eq_none_iff.1 hp
    obtain ⟨called, corrections, hrecord, -⟩ := record_eq_ok hok.1 hok.2
    have hlater : ∀ q ∈ rest, (l.record i m).2.objection? q = none := by
      intro q hq
      rw [objection?_record]
      exact hrest q hq
    obtain ⟨others, hothers⟩ := ih hlater
    rw [hrecord] at hothers
    refine ⟨called || others, ?_⟩
    -- The answer tells whether one of the measurements calls for a pass.
    simp only [recordAll, recordEach, List.foldl_cons, hrecord, hothers, Except.map]

/-- Measurements are recorded up to the first one that something speaks against. -/
theorem recordAll_of_objection {before rest : List (Nat × Measurement α)}
    {p : Nat × Measurement α} (hbefore : ∀ q ∈ before, l.objection? q = none)
    (hp : l.objection? p = some e) :
    l.recordAll (before ++ p :: rest) = (.error e, l.recordEach before) := by
  induction before generalizing l with
  | nil =>
    have hrecord : l.record p.1 p.2 = (.error e, l) := record_eq_error_iff.2 ⟨hp, rfl⟩
    simp only [List.nil_append, recordAll, hrecord]
    rfl
  | cons q before ih =>
    obtain ⟨i, m⟩ := q
    obtain ⟨hq, hrest⟩ := List.forall_mem_cons.1 hbefore
    have hok := objection?_eq_none_iff.1 hq
    obtain ⟨called, corrections, hrecord, -⟩ := record_eq_ok hok.1 hok.2
    have hlater := ih (l := (l.record i m).2) (by simpa [objection?_record] using hrest)
      (by simpa [objection?_record] using hp)
    rw [hrecord] at hlater
    simp only [List.cons_append, recordAll, recordEach, List.foldl_cons, hrecord, hlater,
      Except.map]

/-- A list of measurements is refused for the first one that something speaks against.  It leaves
what recording those before it one by one leaves. -/
theorem recordAll_eq_error_iff {ms : List (Nat × Measurement α)} :
    l.recordAll ms = (.error e, l') ↔ ∃ before p rest, ms = before ++ p :: rest ∧
      (∀ q ∈ before, l.objection? q = none) ∧ l.objection? p = some e ∧
        l' = l.recordEach before := by
  constructor
  · intro h
    cases hfirst : ms.findSome? l.objection? with
    | none =>
      obtain ⟨called, hrecorded⟩ := recordAll_of_acceptable (List.findSome?_eq_none_iff.1 hfirst)
      rw [hrecorded] at h
      cases h
    | some d =>
      obtain ⟨before, p, rest, rfl, hp, hbefore⟩ := List.findSome?_eq_some_iff.1 hfirst
      rw [recordAll_of_objection hbefore hp] at h
      cases h
      exact ⟨before, p, rest, rfl, hbefore, hp, rfl⟩
  · rintro ⟨before, p, rest, rfl, hbefore, hp, rfl⟩
    exact recordAll_of_objection hbefore hp

/-- A list of measurements is accepted iff nothing speaks against any of them, and then all of them
are recorded. -/
theorem recordAll_eq_ok_iff {ms : List (Nat × Measurement α)} :
    (∃ called, l.recordAll ms = (.ok called, l')) ↔
      (∀ p ∈ ms, l.objection? p = none) ∧ l' = l.recordEach ms := by
  constructor
  · rintro ⟨called, h⟩
    cases hfirst : ms.findSome? l.objection? with
    | none =>
      have hnone := List.findSome?_eq_none_iff.1 hfirst
      obtain ⟨answer, hrecorded⟩ := recordAll_of_acceptable hnone
      rw [hrecorded] at h
      cases h
      exact ⟨hnone, rfl⟩
    | some d =>
      obtain ⟨before, p, rest, rfl, hp, hbefore⟩ := List.findSome?_eq_some_iff.1 hfirst
      rw [recordAll_of_objection hbefore hp] at h
      cases h
  · rintro ⟨hnone, rfl⟩
    exact recordAll_of_acceptable hnone

/-! ## Refusals -/

/-- What is refused is refused for a reason that can be told beforehand, and leaves no trace.

* Options, a viewport, one side of it, a scroll position and a measurement leave the layout as it
  was, and so do a measurement and a list to be restored with the book.
* A list to be restored is refused iff one of its measurements is not valid, wherever it stands.
  Otherwise the cleared book accepts every one of them.
* A list of measurements to be recorded is cut at the first one refused, which gives the answer.  It
  leaves exactly what recording those before it one by one leaves. -/
theorem refusals_leave_no_trace (l l' : Layout α) (b b' : SizeBook α) (e : InputError α) :
    (∀ options, l.setOptions options = (.error e, l') ↔ options.check = .error e ∧ l' = l) ∧
    (∀ viewport, l.setViewport viewport = (.error e, l') ↔ viewport.check = .error e ∧ l' = l) ∧
    (∀ main, l.setViewportMain main = (.error e, l') ↔
      Viewport.check { l.viewport with main } = .error e ∧ l' = l) ∧
    (∀ position, l.moveTo position = (.error e, l') ↔
      Scalar.isFinite position = false ∧ e = .scrollPosition position ∧ l' = l) ∧
    (∀ i m, l.record i m = (.error e, l') ↔ l.objection? (i, m) = some e ∧ l' = l) ∧
    (∀ i m, b.record i m = (.error e, b') ↔ SizeBook.objection? (i, m) = some e ∧ b' = b) ∧
    (∀ ms, b.restore ms = (.error e, b') ↔ ms.findSome? SizeBook.objection? = some e ∧ b' = b) ∧
    (∀ ms, (∃ d, (b.restore ms).1 = .error d) ↔ ∃ p ∈ ms, p.2.isValid = false) ∧
    (∀ ms, b.restore ms = (.ok (), b') ↔
      (∀ p ∈ ms, p.2.isValid = true) ∧ b' = b.clear.recordEach ms) ∧
    (∀ ms, l.recordAll ms = (.error e, l') ↔ ∃ before p rest, ms = before ++ p :: rest ∧
      (∀ q ∈ before, l.objection? q = none) ∧ l.objection? p = some e ∧
        l' = l.recordEach before) ∧
    (∀ ms, (∃ called, l.recordAll ms = (.ok called, l')) ↔
      (∀ p ∈ ms, l.objection? p = none) ∧ l' = l.recordEach ms) ∧
    (∀ ms p, (l.recordEach ms).objection? p = l.objection? p) := by
  refine ⟨fun _ => setOptions_eq_error_iff, fun _ => setViewport_eq_error_iff,
    fun _ => setViewportMain_eq_error_iff, fun _ => moveTo_eq_error_iff,
    fun _ _ => record_eq_error_iff, fun _ _ => SizeBook.record_eq_error_iff,
    fun _ => SizeBook.restore_eq_error_iff, fun ms => SizeBook.restore_refused_iff,
    fun _ => SizeBook.restore_eq_ok_iff, fun _ => recordAll_eq_error_iff,
    fun _ => recordAll_eq_ok_iff, fun ms p => objection?_recordEach ms p⟩

/-- Of three measurements the second one is of an item that the list does not have: the first one is
recorded, and the third one is not looked at. -/
theorem refusals_leave_no_trace_of_cut : ∃ (l l' : Layout Rat) (m : Measurement Rat),
    Reachable l ∧ l.recordAll [(0, m), (3, m), (1, m)] = (.error (.indexOutOfRange 3 3), l') ∧
      l' = (l.record 0 m).2 ∧ l'.book.recorded? 0 = some m ∧ l'.book.recorded? 1 = none := by
  let m : Measurement Rat := ⟨12, none, ⟨1, 2⟩⟩
  obtain ⟨l, hl, htest⟩ := Reachable.exists_of_any
    ⟨10, 5, 0, .vertical, true, 1⟩ [.setTotal 3, .setViewport ⟨20, 30⟩, .reflow]
    (fun l : Layout Rat => decide (l.objection? (0, m) = none ∧
      l.objection? (3, m) = some (.indexOutOfRange 3 3) ∧
      (l.record 0 m).2.book.recorded? 0 = some m ∧ (l.record 0 m).2.book.recorded? 1 = none))
    (by simp [Request.Representable, Index.limit]) (by decide +kernel)
  simp only [decide_eq_true_eq] at htest
  obtain ⟨hfirst, hsecond, hrecorded, hskipped⟩ := htest
  obtain ⟨-, -, -, -, -, -, -, -, -, hcut, -⟩ := refusals_leave_no_trace l (l.record 0 m).2 l.book
    l.book (.indexOutOfRange 3 3)
  have hrefused := (hcut [(0, m), (3, m), (1, m)]).2
    ⟨[(0, m)], (3, m), [(1, m)], rfl, by simpa using hfirst, hsecond, rfl⟩
  exact ⟨l, _, m, hl, hrefused, rfl, hrecorded, hskipped⟩

end VirtualList.Layout
