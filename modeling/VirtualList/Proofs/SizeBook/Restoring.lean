import Mathlib.Data.List.Pairwise
import VirtualList.Proofs.SizeBook.Refusal

/-!
# Books that are written down and restored

The measurements of a book are written down in ascending order of the items, each with what is on
record.  Restoring them rebuilds the spaces and the running totals from nothing, and arrives where
the history of the book had led: measurements that were made again, or dropped, or refused, and
estimates that were noted, leave no trace in what is said.

## Key results

- `Tidy.measurements_pairwise`, `Tidy.mem_measurements`: what is written down, and in which order
- `rebuilt`, `restore_eq_ok`: what valid measurements are restored as
- `Tidy.recorded?_rebuilt_measurements`, `Tidy.entry?_rebuilt_measurements`: what comes back of a
  book that was written down
- `Reachable.agrees_rebuilt`: in exact arithmetic, that is all the book says
- `restore_lastMeasurements`, `Reachable.restore_measurements`, `Reachable.restore_saysSame`: writing
  down and restoring are inverse
-/

namespace VirtualList

/-! ## Ascending keys -/

section

variable {β : Type} {xs ys : List (Nat × β)}

/-- In a list with ascending keys the last value of a key is the only one. -/
theorem lookup_reverse_eq_some_iff (h : xs.Pairwise fun p q => p.1 < q.1) (k : Nat) (v : β) :
    xs.reverse.lookup k = some v ↔ (k, v) ∈ xs := by
  induction xs generalizing v with
  | nil => simp
  | cons p rest ih =>
    obtain ⟨i, w⟩ := p
    obtain ⟨hahead, hrest⟩ := List.pairwise_cons.1 h
    rw [List.reverse_cons, List.lookup_append, List.mem_cons]
    by_cases hk : k = i
    · subst hk
      -- The key does not come again.
      have hnot (x : β) : (k, x) ∉ rest := fun hx => Nat.lt_irrefl k (hahead _ hx)
      have hnone : rest.reverse.lookup k = none := by
        rw [Option.eq_none_iff_forall_ne_some]
        intro x hx
        exact hnot x ((ih hrest x).1 hx)
      simp [hnot, hnone, eq_comm]
    · have hlast : ([(i, w)] : List (Nat × β)).lookup k = none := by
        simp [List.lookup_cons, beq_false_of_ne hk]
      rw [hlast, Option.or_none, ih hrest]
      simp [hk]

/-- A list with ascending keys is known by its members. -/
theorem eq_of_ascending (hx : xs.Pairwise fun p q => p.1 < q.1)
    (hy : ys.Pairwise fun p q => p.1 < q.1) (h : ∀ p, p ∈ xs ↔ p ∈ ys) : xs = ys := by
  have hnodup {zs : List (Nat × β)} (hz : zs.Pairwise fun p q => p.1 < q.1) : zs.Nodup :=
    hz.imp fun hlt heq => Nat.ne_of_lt hlt (congrArg Prod.fst heq)
  have hperm : xs.Perm ys := (List.perm_ext_iff_of_nodup (hnodup hx) (hnodup hy)).2 h
  apply List.Perm.eq_of_pairwise _ hx hy hperm
  intro p q _ _ hpq hqp
  omega

end

/-- A measurement is written down under the index of its entry. -/
theorem SizeEntry.fst_eq_of_measurement? {α : Type} {entry : SizeEntry α} {p : Nat × Measurement α}
    (h : entry.measurement? = some p) : p.1 = entry.index := by
  unfold SizeEntry.measurement? at h
  split at h
  · cases h
    rfl
  · cases h

namespace SizeBook

variable {α : Type} [Scalar α] {b c : SizeBook α}

/-! ## What is written down -/

namespace Tidy

/-- The measurements are written down in ascending order of the items. -/
theorem measurements_pairwise (hb : b.Tidy) : b.measurements.Pairwise fun p q => p.1 < q.1 := by
  rw [measurements, Std.ExtTreeMap.values_eq_map_snd_toList, List.filterMap_map,
    List.pairwise_filterMap]
  apply (Std.ExtTreeMap.ordered_keys_toList (t := b.entries)).imp_of_mem
  intro p q hp hq hlt x hx y hy
  rw [Std.ExtTreeMap.mem_toList_iff_getElem?_eq_some] at hp hq
  -- An entry stands under its own index, so the order of the keys is that of the items.
  rw [SizeEntry.fst_eq_of_measurement? hx, SizeEntry.fst_eq_of_measurement? hy,
    (hb p.1 p.2 hp).index_eq, (hb q.1 q.2 hq).index_eq]
  exact Nat.compare_eq_lt.1 hlt

/-- What is written down is what is on record. -/
theorem mem_measurements (hb : b.Tidy) {i : Nat} {m : Measurement α} :
    (i, m) ∈ b.measurements ↔ b.recorded? i = some m := by
  rw [measurements, Std.ExtTreeMap.values_eq_map_snd_toList, List.filterMap_map, List.mem_filterMap]
  constructor
  · rintro ⟨⟨k, entry⟩, hmem, hm⟩
    have hentry : b.entry? k = some entry :=
      Std.ExtTreeMap.mem_toList_iff_getElem?_eq_some.1 hmem
    have hi : i = k := (SizeEntry.fst_eq_of_measurement? hm).trans (hb k entry hentry).index_eq
    subst hi
    rw [recorded?, hentry]
    exact Option.map_eq_some_iff.2 ⟨(i, m), hm, rfl⟩
  · intro h
    obtain ⟨entry, hentry, hm⟩ := Option.bind_eq_some_iff.1 h
    obtain ⟨⟨k, n⟩, hn, rfl⟩ := Option.map_eq_some_iff.1 hm
    have hi : k = i := (SizeEntry.fst_eq_of_measurement? hn).trans (hb i entry hentry).index_eq
    subst hi
    exact ⟨(k, entry), Std.ExtTreeMap.mem_toList_iff_getElem?_eq_some.2 hentry, hn⟩

/-- Of what is written down, the last measurement of an item is the one on record. -/
theorem lookup_measurements (hb : b.Tidy) (i : Nat) :
    b.measurements.reverse.lookup i = b.recorded? i := by
  apply Option.ext
  intro m
  rw [lookup_reverse_eq_some_iff hb.measurements_pairwise, hb.mem_measurements]

/-- Books with the same measurements on record are written down in the same way. -/
theorem measurements_congr (hb : b.Tidy) (hc : c.Tidy) (h : ∀ i, c.recorded? i = b.recorded? i) :
    c.measurements = b.measurements := by
  apply eq_of_ascending hc.measurements_pairwise hb.measurements_pairwise
  rintro ⟨i, m⟩
  rw [hc.mem_measurements, hb.mem_measurements, h]

end Tidy

/-- What is written down of a sound book is valid. -/
theorem Sound.isValid_of_mem_measurements (hs : b.Sound) (hb : b.Tidy) :
    ∀ p ∈ b.measurements, p.2.isValid = true := by
  rintro ⟨i, m⟩ hp
  exact hs.valid i m (hb.mem_measurements.1 hp)

/-! ## What is restored -/

/-- The book that measurements make of a new one. -/
def rebuilt (d : α) (ms : List (Nat × Measurement α)) : SizeBook α :=
  ms.foldl (fun b (i, m) => b.enter i m) (empty d)

/-- Of what was in a book only its default estimate is left when valid measurements are restored. -/
theorem restore_eq_ok {ms : List (Nat × Measurement α)} (h : ∀ p ∈ ms, p.2.isValid = true) :
    b.restore ms = (.ok (), rebuilt b.defaultEstimate ms) := by
  rw [restore_eq_ok_iff, recordEach_of_valid h]
  exact ⟨h, rfl⟩

/-- The last measurement of an item is on record. -/
theorem recorded?_rebuilt (d : α) (ms : List (Nat × Measurement α)) (i : Nat) :
    (rebuilt d ms).recorded? i = ms.reverse.lookup i := by
  have hnew (k : Nat) : (empty d).recorded? k = ([] : List (Nat × Measurement α)).lookup k := by
    simp
  have h := recorded?_foldl_enter hnew ms i
  rwa [List.append_nil] at h

/-- The last measurement of an item makes its entry, and there are no others. -/
theorem entry?_rebuilt (d : α) (ms : List (Nat × Measurement α)) (i : Nat) :
    SizeBook.entry? (rebuilt d ms) i = (ms.reverse.lookup i).map fun m =>
      ⟨i, .measured m.size, m.secondary, m.margins⟩ := by
  have hnew : SizeBook.entry? (empty d) i = none := by simp [empty, entry?]
  rw [rebuilt, entry?_foldl_enter, hnew, Option.or_none]

theorem rebuilt_tidy (d : α) (ms : List (Nat × Measurement α)) : (rebuilt d ms).Tidy :=
  List.foldlRecOn ms _ (Tidy.empty d) fun _ hc p _ => hc.enter p.1 p.2

/-- A rebuilt book has the history of one request. -/
theorem rebuilt_reachable (d : α) {ms : List (Nat × Measurement α)}
    (hvalid : ∀ p ∈ ms, p.2.isValid = true) (hrep : ∀ p ∈ ms, p.1 ≤ Index.limit) :
    (rebuilt d ms).Reachable := by
  have h := (Reachable.empty d).respond (r := .restore ms) hrep
  rwa [respond_restore_of_valid _ hvalid] at h

/-! ## What comes back -/

/-- What is on record comes back. -/
theorem Tidy.recorded?_rebuilt_measurements (hb : b.Tidy) (d : α) (i : Nat) :
    (rebuilt d b.measurements).recorded? i = b.recorded? i := by
  rw [recorded?_rebuilt, hb.lookup_measurements]

/-- An entry comes back as it was if it holds a measurement.  The others are lost. -/
theorem Tidy.entry?_rebuilt_measurements (hb : b.Tidy) (d : α) (i : Nat) :
    SizeBook.entry? (rebuilt d b.measurements) i = (b.entry? i).filter (·.primary.isMeasured) := by
  rw [entry?_rebuilt, hb.lookup_measurements, recorded?]
  cases hentry : b.entry? i with
  | none => rfl
  | some entry =>
    obtain ⟨index, primary, secondary, margins⟩ := entry
    have hindex : index = i := (hb i _ hentry).index_eq
    cases primary with
    | estimated v => rfl
    | measured v =>
      rw [hindex]
      rfl

/-- In exact arithmetic a book with the same default estimate agrees, down to the totals. -/
theorem Reachable.agrees_rebuilt {b : SizeBook Rat} (hb : b.Reachable) :
    b.Agrees (rebuilt b.defaultEstimate b.measurements) := by
  have hrep : ∀ p ∈ b.measurements, p.1 ≤ Index.limit := by
    rintro ⟨i, m⟩ hp
    exact hb.sound.representable i m (hb.tidy.mem_measurements.1 hp)
  have hvalid := hb.sound.isValid_of_mem_measurements hb.tidy
  have hc := rebuilt_reachable b.defaultEstimate hvalid hrep
  apply hb.tallied.agrees hc.tallied hb.sound hc.sound
  · exact defaultEstimate_foldl_enter (SizeBook.empty b.defaultEstimate) b.measurements
  · exact hb.tidy.recorded?_rebuilt_measurements b.defaultEstimate

/-- Of valid measurements, in whatever order and number, the last one of each item is written down
again, in ascending order of the items. -/
theorem restore_lastMeasurements (b : SizeBook α) {ms : List (Nat × Measurement α)}
    (hms : ∀ p ∈ ms, p.2.isValid = true) :
    ∃ c, b.restore ms = (.ok (), c) ∧ (c.measurements.Pairwise fun x y => x.1 < y.1) ∧
      ∀ i m, (i, m) ∈ c.measurements ↔ ms.reverse.lookup i = some m := by
  refine ⟨_, restore_eq_ok hms, ?_, fun i m => ?_⟩
  · exact (rebuilt_tidy _ ms).measurements_pairwise
  · rw [(rebuilt_tidy _ ms).mem_measurements, recorded?_rebuilt]

/-- What is written down of a book can be restored anywhere: the same is written down again, and
nothing is lost but entries without a measurement. -/
theorem Reachable.restore_measurements {s : SizeBook α} (hs : s.Reachable) (t : SizeBook α) :
    ∃ c, t.restore s.measurements = (.ok (), c) ∧ c.measurements = s.measurements ∧
      ∀ i, c.entry? i = (s.entry? i).filter (·.primary.isMeasured) := by
  refine ⟨_, restore_eq_ok (hs.sound.isValid_of_mem_measurements hs.tidy), ?_, fun i => ?_⟩
  · exact hs.tidy.measurements_congr (rebuilt_tidy _ _)
      (hs.tidy.recorded?_rebuilt_measurements t.defaultEstimate)
  · exact hs.tidy.entry?_rebuilt_measurements t.defaultEstimate i

/-- In exact arithmetic, and with the same default estimate, the books answer every question
alike. -/
theorem Reachable.restore_saysSame {q u : SizeBook Rat} (hq : q.Reachable)
    (hdefault : u.defaultEstimate = q.defaultEstimate) :
    ∃ c, u.restore q.measurements = (.ok (), c) ∧ q.SaysSame c ∧
      c.measuredLength = q.measuredLength ∧ c.totalMeasured = q.totalMeasured := by
  refine ⟨_, restore_eq_ok (hq.sound.isValid_of_mem_measurements hq.tidy), ?_⟩
  rw [hdefault]
  have hagrees := hq.agrees_rebuilt
  exact ⟨hagrees.saysSame hq.tidy (rebuilt_tidy _ _), congrArg RunningTotal.count hagrees.sizes,
    congrArg RunningTotal.total hagrees.sizes⟩

/-- Writing down and restoring are inverse.  Of valid measurements, in whatever order and number,
the last one of each item is written down again, in ascending order of the items.  So what is
written down of a book can be restored anywhere: the same is written down again, and nothing is lost
but entries without a measurement.  In exact arithmetic, and with the same default estimate, the
books answer every question alike. -/
theorem restore_inverts_measurements {b s t : SizeBook α} {q u : SizeBook Rat}
    {ms : List (Nat × Measurement α)} (hms : ∀ p ∈ ms, p.2.isValid = true) (hs : s.Reachable)
    (hq : q.Reachable) (hdefault : u.defaultEstimate = q.defaultEstimate) :
    (∃ c, b.restore ms = (.ok (), c) ∧ (c.measurements.Pairwise fun x y => x.1 < y.1) ∧
      ∀ i m, (i, m) ∈ c.measurements ↔ ms.reverse.lookup i = some m) ∧
    (∃ c, t.restore s.measurements = (.ok (), c) ∧ c.measurements = s.measurements ∧
      ∀ i, c.entry? i = (s.entry? i).filter (·.primary.isMeasured)) ∧
    (∃ c, u.restore q.measurements = (.ok (), c) ∧ q.SaysSame c ∧
      c.measuredLength = q.measuredLength ∧ c.totalMeasured = q.totalMeasured) :=
  ⟨restore_lastMeasurements b hms, hs.restore_measurements t, hq.restore_saysSame hdefault⟩

/-- Item 2 comes before item 0, and again at the end. -/
def outOfOrder : List (Nat × Measurement Rat) :=
  [(2, ⟨40, none, ⟨1, 1⟩⟩), (0, ⟨10, some 7, .zero⟩), (2, ⟨25, none, ⟨3, 0⟩⟩)]

/-- Measurements out of order, and a book with a long history, restored into a book with the same
default estimate. -/
theorem restore_inverts_measurements_of_remeasured :
    (∀ p ∈ outOfOrder, p.2.isValid = true) ∧ ((empty 50).run remeasured).Reachable ∧
      (empty (40 : Rat)).defaultEstimate = ((empty 50).run remeasured).defaultEstimate ∧
      (∃ c, ((empty 50).run remeasured).restore outOfOrder = (.ok (), c) ∧
        (c.measurements.Pairwise fun x y => x.1 < y.1) ∧
        (2, ⟨25, none, ⟨3, 0⟩⟩) ∈ c.measurements ∧ (2, ⟨40, none, ⟨1, 1⟩⟩) ∉ c.measurements) ∧
      ∃ c, (empty 40).restore ((empty 50).run remeasured).measurements = (.ok (), c) ∧
        c.measurements = ((empty 50).run remeasured).measurements ∧
        ((empty 50).run remeasured).SaysSame c := by
  have hms : ∀ p ∈ outOfOrder, p.2.isValid = true := by decide
  have hreach : ((empty 50).run remeasured).Reachable := ⟨50, remeasured, by decide, rfl⟩
  have hdefault : (empty (40 : Rat)).defaultEstimate =
      ((empty 50).run remeasured).defaultEstimate := by
    rw [run_defaultEstimate]
    decide
  obtain ⟨⟨c, hc, horder, hlast⟩, ⟨c', hc', hsame, -⟩, ⟨c'', hc'', hsays, -⟩⟩ :=
    restore_inverts_measurements (b := (empty 50).run remeasured) (t := empty 40) hms hreach hreach
      hdefault
  obtain rfl : c' = c'' := congrArg Prod.snd (hc'.symm.trans hc'')
  have hagain : (2, ⟨25, none, ⟨3, 0⟩⟩) ∈ c.measurements := (hlast _ _).2 (by decide)
  have hfirst : (2, ⟨40, none, ⟨1, 1⟩⟩) ∉ c.measurements := by
    rw [hlast]
    decide
  exact ⟨hms, hreach, hdefault, ⟨c, hc, horder, hagain, hfirst⟩, c', hc', hsame, hsays⟩

end SizeBook

end VirtualList
