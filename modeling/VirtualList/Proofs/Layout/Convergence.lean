import VirtualList.Proofs.Layout.Stability

/-!
# Measuring leads to a stable pass

A pass that is not stable has an item in its window that was never measured.  Measuring the window
measures it, and passes drop no measurement.  The window may lie anywhere and move from pass to
pass: what gets smaller in every round is the number of items that were never measured.  So the
loop of passes and measurements comes to a stable pass, unless one of its passes faults, after at
most one pass more than there were such items.

## Key results

- `unmeasured`: the items that were never measured
- `recordAll_eq_ok`: valid measurements of items of the list are all entered
- `card_unmeasured_lt`: a round measures something new
- `Reachable.settle_converges`: the loop comes to a stable pass
-/

namespace VirtualList.Layout

variable {α : Type} [Scalar α]

/-- The items of the list that were never measured. -/
def unmeasured (l : Layout α) : Finset Nat :=
  (Finset.range l.total).filter fun i => l.book.isMeasured i = false

theorem mem_unmeasured {l : Layout α} {i : Nat} :
    i ∈ l.unmeasured ↔ i < l.total ∧ ¬l.book.isMeasured i = true := by
  simp [unmeasured]

/-! ## A round -/

/-- Valid measurements of items of the list are all entered. -/
theorem recordAll_eq_ok {l : Layout α} {ms : List (Nat × Measurement α)}
    (h : ∀ p ∈ ms, p.1 < l.total ∧ p.2.isValid = true) :
    ∃ called corrections, l.recordAll ms = (.ok called,
      { l with book := ms.foldl (fun b (i, m) => b.enter i m) l.book, corrections }) := by
  induction ms generalizing l with
  | nil => exact ⟨false, l.corrections, rfl⟩
  | cons p rest ih =>
    obtain ⟨i, m⟩ := p
    obtain ⟨⟨hi, hm⟩, hrest⟩ := List.forall_mem_cons.1 h
    obtain ⟨called, corrections, hrec, -⟩ := record_eq_ok hi hm
    obtain ⟨later, corrections', heq⟩ :=
      ih (l := { l with book := l.book.enter i m, corrections }) hrest
    unfold recordAll
    rw [hrec]
    simp only [heq]
    exact ⟨_, corrections', rfl⟩

/-- Measuring the window measures its items and no others. -/
theorem isMeasured_measureWindow {l : Layout α} {sizes : Nat → Measurement α}
    (hlt : ∀ r, l.range = some r → r.last < l.total)
    (hsizes : ∀ i < l.total, (sizes i).isValid = true) :
    (l.measureWindow sizes).2.total = l.total ∧
      ∀ i, (l.measureWindow sizes).2.book.isMeasured i = true ↔
        l.range.any (·.contains i) = true ∨ l.book.isMeasured i = true := by
  cases hrange : l.range with
  | none => simp [measureWindow, hrange]
  | some r =>
    have hall : ∀ p ∈ r.indices.map fun i => (i, sizes i), p.1 < l.total ∧ p.2.isValid = true := by
      intro p hp
      obtain ⟨i, hi, rfl⟩ := List.mem_map.1 hp
      have hlast := hlt r hrange
      rw [WindowRange.indices, List.mem_range'_1] at hi
      have hi' : i < l.total := by omega
      exact ⟨hi', hsizes i hi'⟩
    obtain ⟨called, corrections, heq⟩ := recordAll_eq_ok hall
    simp only [measureWindow, hrange, heq, true_and]
    intro i
    rw [SizeBook.isMeasured_foldl_enter]
    have hmem : i ∈ (r.indices.map fun i => (i, sizes i)).map Prod.fst ↔ r.contains i = true := by
      simp only [List.map_map, Function.comp_def, List.map_id', WindowRange.indices,
        WindowRange.contains, List.mem_range'_1, decide_eq_true_eq]
      omega
    rw [hmem, Option.any_some]

/-- Measuring the window is a request. -/
theorem Reachable.measureWindow {l : Layout α} (hl : Reachable l) (sizes : Nat → Measurement α) :
    Reachable (l.measureWindow sizes).2 := by
  unfold Layout.measureWindow
  cases hrange : l.range with
  | none => exact hl
  | some r => exact hl.step (r := .recordAll (r.indices.map fun i => (i, sizes i))) trivial rfl

variable {l l' : Layout α} {report : PassReport α} {events : List (LayoutEvent α)}
  {sizes : Nat → Measurement α}

/-- A pass that is not stable has an item in its window that was never measured. -/
theorem Reachable.exists_unmeasured (hl : Reachable l) (h : l.reflow = .ok (report, events, l'))
    (hstable : report.stable = false) :
    ∃ i ∈ l.unmeasured, l'.range.any (·.contains i) = true := by
  have hkept := reflow_keepsInputs h
  have hl' := hl.reflow h
  have hreport : report.stable = l'.stable := by
    obtain ⟨moved, after, -, rfl, -, rfl⟩ := reflow_cases h
    rfl
  have hsome : ¬∀ item ∈ l'.published, l'.book.isMeasured item.index = true := by
    rw [← reflow_stable_iff hl h, ← hreport, hstable]
    exact Bool.false_ne_true
  obtain ⟨item, hitem, hnot⟩ := not_forall₂.1 hsome
  obtain ⟨hlt, hcontains⟩ := hl'.consistent.index_lt (reflow_freshlyLaidOut h) hitem
  rw [hkept.total] at hlt
  rw [hkept.agrees.isMeasured_eq] at hnot
  exact ⟨item.index, mem_unmeasured.2 ⟨hlt, hnot⟩, hcontains⟩

/-- A pass that is not stable, and measuring its window, leave fewer items to be measured. -/
theorem Reachable.card_unmeasured_lt (hl : Reachable l)
    (hsizes : ∀ i < l.total, (sizes i).isValid = true)
    (h : l.reflow = .ok (report, events, l')) (hstable : report.stable = false) :
    (l'.measureWindow sizes).2.total = l.total ∧
      (l'.measureWindow sizes).2.unmeasured.card < l.unmeasured.card := by
  have hkept := reflow_keepsInputs h
  rw [← hkept.total] at hsizes
  obtain ⟨htotal, hmeasured⟩ :=
    isMeasured_measureWindow (reflow_freshlyLaidOut h).last_lt hsizes
  refine ⟨htotal.trans hkept.total, Finset.card_lt_card ?_⟩
  obtain ⟨i, hi, hcontains⟩ := hl.exists_unmeasured h hstable
  refine Finset.ssubset_iff_subset_ne.2 ⟨fun k hk => ?_, fun heq => ?_⟩
  · -- What was measured before the round still is.
    obtain ⟨hlt, hnot⟩ := mem_unmeasured.1 hk
    rw [htotal, hkept.total] at hlt
    rw [hmeasured, hkept.agrees.isMeasured_eq, not_or] at hnot
    exact mem_unmeasured.2 ⟨hlt, hnot.2⟩
  · -- The item found in the window is measured now.
    rw [← heq] at hi
    exact (mem_unmeasured.1 hi).2 ((hmeasured i).2 (Or.inl hcontains))

/-! ## The loop -/

/-- A number of passes that are not stable, each with its window measured, lead from one layout to
another. -/
inductive Rounds (sizes : Nat → Measurement α) : Layout α → Nat → Layout α → Prop
  | refl (l : Layout α) : Rounds sizes l 0 l
  | round {l l' end' : Layout α} {n : Nat} {report : PassReport α}
      {events : List (LayoutEvent α)} :
      l.reflow = .ok (report, events, l') → report.stable = false →
        Rounds sizes (l'.measureWindow sizes).2 n end' → Rounds sizes l (n + 1) end'

/-- A stable pass ends the loop. -/
theorem settle_of_stable (h : l.reflow = .ok (report, events, l')) (hstable : report.stable = true)
    (passes : Nat) : l.settle sizes (passes + 1) = .ok ([(report, events)], l') := by
  simp only [settle, h]
  show (if report.stable then _ else _) = _
  rw [if_pos hstable]
  rfl

/-- After any other pass the loop goes on with the window measured. -/
theorem settle_of_not_stable {rest : List (PassReport α × List (LayoutEvent α))}
    {end' : Layout α} {passes : Nat} (h : l.reflow = .ok (report, events, l'))
    (hstable : report.stable = false)
    (hrest : (l'.measureWindow sizes).2.settle sizes passes = .ok (rest, end')) :
    l.settle sizes (passes + 1) = .ok ((report, events) :: rest, end') := by
  simp only [settle, h]
  show (if report.stable then _ else _) = _
  rw [if_neg (Bool.eq_false_iff.1 hstable), hrest]
  rfl

/-- A pass that faults is the end of the loop, if the loop gets there. -/
theorem Rounds.settle_eq_error {l₁ : Layout α} {n passes : Nat} {fault : Fault}
    (hrounds : Rounds sizes l n l₁) (hfault : l₁.reflow = .error fault) (hn : n < passes) :
    l.settle sizes passes = .error fault := by
  induction hrounds generalizing passes with
  | refl l =>
    obtain ⟨passes, rfl⟩ := Nat.exists_eq_succ_of_ne_zero (Nat.ne_of_gt hn)
    simp only [settle, hfault]
    rfl
  | round h hstable _ ih =>
    obtain ⟨passes, rfl⟩ := Nat.exists_eq_succ_of_ne_zero (Nat.ne_of_gt (Nat.zero_lt_of_lt hn))
    have hrest := ih hfault (Nat.lt_of_succ_lt_succ hn)
    simp only [settle, h]
    show (if _ then _ else _) = _
    rw [if_neg (Bool.eq_false_iff.1 hstable), hrest]
    rfl

/-- With a measurement for every item of the list, passes and measurements in turn come to a stable
pass, after at most as many passes that are not stable as there were items never measured.  Nothing
but a pass that faults can keep them from it. -/
theorem Reachable.settle_converges (hl : Reachable l)
    (hsizes : ∀ i < l.total, (sizes i).isValid = true) {passes : Nat}
    (hpasses : l.unmeasured.card < passes) :
    (∃ n l₁ fault, n ≤ l.unmeasured.card ∧ Rounds sizes l n l₁ ∧ l₁.reflow = .error fault) ∨
    ∃ unstable report events l', l.settle sizes passes = .ok (unstable ++ [(report, events)], l') ∧
      unstable.length ≤ l.unmeasured.card ∧ (∀ x ∈ unstable, x.1.stable = false) ∧
      report.stable = true := by
  induction passes generalizing l with
  | zero => omega
  | succ passes ih =>
    cases hreflow : l.reflow with
    | error fault => exact Or.inl ⟨0, l, fault, Nat.zero_le _, .refl l, hreflow⟩
    | ok outcome =>
      obtain ⟨report, events, l'⟩ := outcome
      cases hstable : report.stable with
      | true =>
        exact Or.inr ⟨[], report, events, l', settle_of_stable hreflow hstable passes,
          Nat.zero_le _, by simp, hstable⟩
      | false =>
        have hround := (hl.reflow hreflow).measureWindow sizes
        obtain ⟨htotal, hlt⟩ := hl.card_unmeasured_lt hsizes hreflow hstable
        rw [← htotal] at hsizes
        rcases ih hround hsizes (by omega) with ⟨n, l₁, fault, hn, hrounds, hfault⟩ |
          ⟨unstable, report₁, events₁, l₁, hsettle, hlength, hall, hlast⟩
        · exact Or.inl ⟨n + 1, l₁, fault, by omega, .round hreflow hstable hrounds, hfault⟩
        · refine Or.inr ⟨(report, events) :: unstable, report₁, events₁, l₁, ?_, ?_, ?_, hlast⟩
          · exact settle_of_not_stable hreflow hstable hsettle
          · rw [List.length_cons]
            omega
          · exact List.forall_mem_cons.2 ⟨hstable, hall⟩

/-- An item is to be brought into view, and estimates are turned off.  The items turn out small, so
the window becomes longer twice before the fifth pass is stable. -/
theorem Reachable.settle_converges_of_pinned : ∃ (l : Layout Rat) (sizes : Nat → Measurement Rat)
    (unstable : List (PassReport Rat × List (LayoutEvent Rat))) (report : PassReport Rat)
    (events : List (LayoutEvent Rat)) (l' : Layout Rat),
    Reachable l ∧ l.pin = some ⟨7, .center⟩ ∧ l.unmeasured.card = 12 ∧
      l.settle sizes 13 = .ok (unstable ++ [(report, events)], l') ∧ unstable.length = 4 ∧
      (∀ x ∈ unstable, x.1.stable = false) ∧ report.stable = true := by
  let sizes : Nat → Measurement Rat := fun _ => ⟨3, none, ⟨1, 2⟩⟩
  obtain ⟨l, hl, htest⟩ := Reachable.exists_of_any
    ⟨10, 5, 2, .vertical, false, 1⟩
    [.setTotal 12, .setViewport ⟨20, 30⟩, .pinTo 7 .center]
    (fun l : Layout Rat => decide (l.pin = some ⟨7, .center⟩ ∧ l.unmeasured.card = 12 ∧
      ∀ i < l.total, (sizes i).isValid = true) &&
        (l.settle sizes 13).toOption.any fun x => x.1.length == 5)
    (by simp [Request.Representable, Index.limit]) (by decide +kernel)
  simp only [Bool.and_eq_true, decide_eq_true_eq] at htest
  obtain ⟨⟨hpin, hcard, hsizes⟩, htest⟩ := htest
  obtain ⟨⟨passes, end'⟩, hsettle, hlength⟩ := exists_ok_of_any htest
  have hpasses : l.unmeasured.card < 13 := by omega
  rcases hl.settle_converges hsizes hpasses with ⟨n, l₁, fault, hn, hrounds, hfault⟩ |
    ⟨unstable, report, events, l', heq, -, hall, hlast⟩
  · rw [hrounds.settle_eq_error hfault (by omega)] at hsettle
    cases hsettle
  · have hfour : unstable.length = 4 := by
      rw [heq] at hsettle
      cases hsettle
      simpa using hlength
    exact ⟨l, sizes, unstable, report, events, l', hl, hpin, hcard, heq, hfour, hall, hlast⟩

end VirtualList.Layout
