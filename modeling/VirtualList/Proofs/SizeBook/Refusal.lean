import VirtualList.Proofs.SizeBook.History

/-!
# What a book refuses

A book refuses a measurement that is not valid, and a list of measurements to be restored if one of
them is not: all of them are checked before the book is cleared.  Once the list is accepted none of
its measurements is refused any more, so that a book is never left half restored.

## Key results

- `record_eq_error_iff`: when a measurement is refused, and that nothing changes then
- `restore_eq_error_iff`, `restore_refused_iff`: the same of a list to be restored
- `restore_eq_ok_iff`: what an accepted list leaves
- `restore_eq_recordAll`: recording an accepted list measurement by measurement refuses none
-/

namespace VirtualList.SizeBook

variable {α : Type} [Scalar α] {b b' : SizeBook α} {e : InputError α}

/-- What speaks against a measurement, if anything does. -/
def objection? (p : Nat × Measurement α) : Option (InputError α) :=
  if p.2.isValid then none else some (.measurement p.1 p.2.size)

theorem objection?_eq_none_iff {p : Nat × Measurement α} :
    objection? p = none ↔ p.2.isValid = true := by
  simp [objection?]

theorem check_eq_error_iff {p : Nat × Measurement α} :
    p.2.check p.1 = .error e ↔ objection? p = some e := by
  simp only [Measurement.check, objection?]
  split <;> simp

/-- A measurement is refused iff it is not valid, and then nothing changes. -/
theorem record_eq_error_iff {i : Nat} {m : Measurement α} :
    b.record i m = (.error e, b') ↔ objection? (i, m) = some e ∧ b' = b := by
  rw [← check_eq_error_iff]
  simp only [record]
  split
  · rename_i d hcheck
    simp [hcheck, eq_comm]
  · -- A measurement that passes the check is answered with what it supersedes.
    rename_i hcheck
    simp [hcheck]

/-- The book after measurements recorded one by one, whatever the answers are. -/
def recordEach (b : SizeBook α) (ms : List (Nat × Measurement α)) : SizeBook α :=
  ms.foldl (fun b p => (b.record p.1 p.2).2) b

/-- Recording valid measurements one by one enters all of them. -/
theorem recordEach_of_valid {ms : List (Nat × Measurement α)} (h : ∀ p ∈ ms, p.2.isValid = true) :
    b.recordEach ms = ms.foldl (fun b p => b.enter p.1 p.2) b := by
  induction ms generalizing b with
  | nil => rfl
  | cons p rest ih =>
    obtain ⟨hp, hrest⟩ := List.forall_mem_cons.1 h
    have hfirst : (b.record p.1 p.2).2 = b.enter p.1 p.2 := respond_record_of_valid b p.1 hp
    show (b.record p.1 p.2).2.recordEach rest = _
    rw [hfirst, ih hrest, List.foldl_cons]

/-- The check of a list finds the first measurement that something speaks against. -/
theorem checkAll_eq_error_iff {ms : List (Nat × Measurement α)} :
    checkAll ms = .error e ↔ ms.findSome? objection? = some e := by
  induction ms with
  | nil => simp [checkAll]
  | cons p rest ih =>
    obtain ⟨i, m⟩ := p
    rw [List.findSome?_cons]
    cases hfirst : objection? (i, m) with
    | some d =>
      -- The others are not looked at.
      have hcheck : m.check i = .error d := check_eq_error_iff.2 hfirst
      simp [checkAll, bind, Except.bind, hcheck]
    | none =>
      have hcheck := Measurement.check_of_isValid (i := i) (objection?_eq_none_iff.1 hfirst)
      simp [checkAll, bind, Except.bind, hcheck, ih]

/-- A list that is to be restored is refused for its first measurement that is not valid, and then
nothing changes. -/
theorem restore_eq_error_iff {ms : List (Nat × Measurement α)} :
    b.restore ms = (.error e, b') ↔ ms.findSome? objection? = some e ∧ b' = b := by
  rw [← checkAll_eq_error_iff]
  simp only [restore]
  split
  · rename_i d hcheck
    simp [hcheck, eq_comm]
  · rename_i hcheck
    simp [hcheck]

/-- A list that is to be restored is accepted iff all of its measurements are valid.  It is then
recorded into the cleared book, where none of them is refused. -/
theorem restore_eq_ok_iff {ms : List (Nat × Measurement α)} :
    b.restore ms = (.ok (), b') ↔
      (∀ p ∈ ms, p.2.isValid = true) ∧ b' = b.clear.recordEach ms := by
  rw [← checkAll_eq_ok_iff]
  simp only [restore]
  split
  · rename_i d hcheck
    simp [hcheck]
  · rename_i hcheck
    rw [recordEach_of_valid ((checkAll_eq_ok_iff ms).1 hcheck)]
    simp [hcheck, eq_comm]

/-- Records measurements in order up to the first one refused. -/
def recordAll (b : SizeBook α) : List (Nat × Measurement α) →
    Except (InputError α) Unit × SizeBook α
  | [] => (.ok (), b)
  | (i, m) :: rest =>
    match b.record i m with
    | (.error e, b) => (.error e, b)
    | (.ok _, b) => recordAll b rest

/-- Of a list that passes the check no measurement is refused when its turn comes. -/
theorem restore_eq_recordAll {ms : List (Nat × Measurement α)} (h : checkAll ms = .ok ()) :
    b.restore ms = b.clear.recordAll ms := by
  have hvalid := (checkAll_eq_ok_iff ms).1 h
  have haccepted (b : SizeBook α) : b.recordAll ms = (.ok (), b.recordEach ms) := by
    clear h
    induction ms generalizing b with
    | nil => rfl
    | cons p rest ih =>
      obtain ⟨i, m⟩ := p
      obtain ⟨hm, hrest⟩ := List.forall_mem_cons.1 hvalid
      have hrecord : b.record i m = (.ok (b.superseded i), b.enter i m) := by
        simp only [record, Measurement.check_of_isValid hm]
      rw [recordAll, hrecord]
      simp only
      rw [ih hrest]
      simp only [recordEach, List.foldl_cons, hrecord]
  rw [haccepted]
  exact restore_eq_ok_iff.2 ⟨hvalid, rfl⟩

/-- A list that is to be restored is refused iff one of its measurements is not valid. -/
theorem restore_refused_iff {ms : List (Nat × Measurement α)} :
    (∃ e, (b.restore ms).1 = .error e) ↔ ∃ p ∈ ms, p.2.isValid = false := by
  have hrefused : (∃ e, (b.restore ms).1 = .error e) ↔ (b.restore ms).1 ≠ .ok () := by
    cases (b.restore ms).1 <;> simp
  have haccepted : (b.restore ms).1 = .ok () ↔ ∀ p ∈ ms, p.2.isValid = true := by
    constructor
    · intro h
      exact (restore_eq_ok_iff.1 (Prod.ext h rfl)).1
    · intro h
      exact congrArg Prod.fst (restore_eq_ok_iff.2 ⟨h, rfl⟩)
  rw [hrefused, Ne, haccepted]
  simp

end VirtualList.SizeBook
