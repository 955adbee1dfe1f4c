import VirtualList.Proofs.SizeBook.Tally

/-!
# Books and their histories

A history is the sequence of requests that a book has answered since it was new.  Of all of it a
book keeps the default estimate and, for each item, the last measurement since it was last
emptied: notes of estimates, refused measurements and the order of the others leave no trace in
what it says.

## Key results

- `Request`, `run`, `lastMeasurement`: histories, and what they say themselves
- `Reachable.sound`, `Reachable.tallied`, `Reachable.tidy`: what holds after every history
- `run_recorded?`: a book has on record what its history says last
- `Tidy`: entries stand under their own index, and those that note an estimate say nothing else
- `Sound.spaces_getElem?`: the spaces follow from the measurements on record
- `Tallied.agrees`: in exact arithmetic, so do the totals
- `foldl_enter_eq`: so the order in which measurements are entered does not matter
- `run_follows`, `run_exactTotals`, `run_saysSame`: everything a book says follows from its history
-/

namespace VirtualList

variable {α : Type} [Scalar α]

/-- The entry stands under its own index, and says nothing else if it only notes an estimate. -/
structure SizeEntry.Tidy (entry : SizeEntry α) (i : Nat) : Prop where
  index_eq : entry.index = i
  bare : entry.primary.isMeasured = false → entry.secondary = none ∧ entry.margins = .zero

namespace SizeBook

/-! ## Histories -/

/-- A call that may change a book. -/
inductive Request (α : Type) where
  | record (i : Nat) (m : Measurement α)
  | noteEstimate (i : Nat) (value : α)
  | restore (ms : List (Nat × Measurement α))
  | clear
  | setDefault (value : α)

/-- The items that a request reports measurements of are representable. -/
def Request.Representable : Request α → Prop
  | .record i _ => i ≤ Index.limit
  | .restore ms => ∀ p ∈ ms, p.1 ≤ Index.limit
  | _ => True

instance : (r : Request α) → Decidable r.Representable
  | .record i _ => inferInstanceAs (Decidable (i ≤ Index.limit))
  | .restore ms => inferInstanceAs (Decidable (∀ p ∈ ms, p.1 ≤ Index.limit))
  | .noteEstimate _ _ | .clear | .setDefault _ => .isTrue trivial

/-- The book after a request. -/
def respond (b : SizeBook α) : Request α → SizeBook α
  | .record i m => (b.record i m).2
  | .noteEstimate i value => b.noteEstimate i value
  | .restore ms => (b.restore ms).2
  | .clear => b.clear
  | .setDefault value => { b with defaultEstimate := value }

/-- The book after requests one after the other. -/
def run (b : SizeBook α) (rs : List (Request α)) : SizeBook α := rs.foldl respond b

/-- The books that histories of representable requests lead to. -/
def Reachable (b : SizeBook α) : Prop :=
  ∃ (d : α) (rs : List (Request α)), (∀ r ∈ rs, r.Representable) ∧ b = (empty d).run rs

/-- The valid measurements reported since the book was last emptied, the latest first, where
`since` is what they were before a request. -/
def Request.reported (since : List (Nat × Measurement α)) :
    Request α → List (Nat × Measurement α)
  | .record i m => if m.isValid then (i, m) :: since else since
  | .restore ms => if ms.all (·.2.isValid) then ms.reverse else since
  | .clear => []
  | .noteEstimate _ _ | .setDefault _ => since

/-- The last measurement of item `i` in a history since the book was last emptied. -/
def lastMeasurement (rs : List (Request α)) (i : Nat) : Option (Measurement α) :=
  (rs.foldl Request.reported []).lookup i

/-- The default estimate that a history leaves in force. -/
def lastDefault (d : α) (rs : List (Request α)) : α :=
  rs.foldl (fun d r => match r with | .setDefault value => value | _ => d) d

/-! ## Induction over a history -/

theorem respond_record_of_valid (b : SizeBook α) (i : Nat) {m : Measurement α}
    (hm : m.isValid = true) : b.respond (.record i m) = b.enter i m := by
  simp [respond, record, Measurement.check_of_isValid hm]

/-- A measurement that is not valid is refused. -/
theorem respond_record_of_not_valid (b : SizeBook α) (i : Nat) {m : Measurement α}
    (hm : m.isValid = false) : b.respond (.record i m) = b := by
  simp [respond, record, Measurement.check_of_not_isValid hm]

/-- A list of measurements is accepted iff all of them are valid. -/
theorem checkAll_eq_ok_iff (ms : List (Nat × Measurement α)) :
    checkAll ms = .ok () ↔ ∀ p ∈ ms, p.2.isValid = true := by
  induction ms with
  | nil => simp [checkAll]
  | cons p rest ih =>
    obtain ⟨i, m⟩ := p
    cases h : m.isValid with
    | false => simp [checkAll, bind, Except.bind, Measurement.check_of_not_isValid h, h]
    | true => simp [checkAll, bind, Except.bind, Measurement.check_of_isValid h, h, ih]

theorem respond_restore_of_valid (b : SizeBook α) {ms : List (Nat × Measurement α)}
    (h : ∀ p ∈ ms, p.2.isValid = true) :
    b.respond (.restore ms) = ms.foldl (fun b p => b.enter p.1 p.2) b.clear := by
  simp [respond, restore, (checkAll_eq_ok_iff ms).2 h]

/-- One measurement that is not valid has all of them refused. -/
theorem respond_restore_of_not_valid (b : SizeBook α) {ms : List (Nat × Measurement α)}
    (h : ¬∀ p ∈ ms, p.2.isValid = true) : b.respond (.restore ms) = b := by
  rw [← checkAll_eq_ok_iff] at h
  simp only [respond, restore]
  split
  · rfl
  · exact absurd ‹_› h

namespace Reachable

theorem empty (d : α) : (SizeBook.empty d).Reachable := ⟨d, [], by simp, rfl⟩

theorem respond {b : SizeBook α} {r : Request α} (hb : b.Reachable) (hr : r.Representable) :
    (b.respond r).Reachable := by
  obtain ⟨d, rs, hrs, rfl⟩ := hb
  refine ⟨d, rs ++ [r], List.forall_mem_append.2 ⟨hrs, by simpa using hr⟩, ?_⟩
  simp [run]

/-- What new books have, and all that requests consist of keeps, holds at the end of a history. -/
theorem induction {P : SizeBook α → Prop} {b : SizeBook α} (h : b.Reachable)
    (hempty : ∀ d, P (.empty d)) (hdefault : ∀ b d, P b → P { b with defaultEstimate := d })
    (hnote : ∀ b i v, P b → P (b.noteEstimate i v))
    (henter : ∀ b i m, P b → i ≤ Index.limit → m.isValid = true → P (b.enter i m)) : P b := by
  obtain ⟨d, rs, hrs, rfl⟩ := h
  refine List.foldlRecOn rs _ (hempty d) fun b hb r hr => ?_
  cases r with
  | record i m =>
    cases h : m.isValid with
    | false => simpa only [respond_record_of_not_valid b i h] using hb
    | true => simpa only [respond_record_of_valid b i h] using henter b i m hb (hrs _ hr) h
  | noteEstimate i value => exact hnote b i value hb
  | restore ms =>
    by_cases h : ∀ p ∈ ms, p.2.isValid = true
    · simp only [respond_restore_of_valid b h]
      exact List.foldlRecOn ms _ (hempty b.defaultEstimate) fun b hb p hp =>
        henter b p.1 p.2 hb (hrs _ hr p hp) (h p hp)
    · simpa only [respond_restore_of_not_valid b h] using hb
  | clear => exact hempty b.defaultEstimate
  | setDefault value => exact hdefault b value hb

theorem sound {b : SizeBook α} (h : b.Reachable) : b.Sound :=
  h.induction .empty (fun _ d hb => hb.withDefault d) (fun _ i v hb => hb.noteEstimate i v)
    fun _ _ _ hb hi hm => hb.enter hm hi

theorem tallied {b : SizeBook Rat} (h : b.Reachable) : b.Tallied :=
  h.induction .empty (fun _ d hb => hb.withDefault d) (fun _ i v hb => hb.noteEstimate i v)
    fun _ i m hb _ _ => hb.enter i m

end Reachable

/-! ## What is on record -/

@[simp] theorem recorded?_clear (b : SizeBook α) (i : Nat) : b.clear.recorded? i = none :=
  recorded?_empty b.defaultEstimate i

/-- Measurements entered one after the other are on record, the last one of an item first. -/
theorem recorded?_foldl_enter {b : SizeBook α} {since : List (Nat × Measurement α)}
    (h : ∀ i, b.recorded? i = since.lookup i) (ms : List (Nat × Measurement α)) (i : Nat) :
    (ms.foldl (fun b p => b.enter p.1 p.2) b).recorded? i = (ms.reverse ++ since).lookup i := by
  induction ms generalizing b since with
  | nil => exact h i
  | cons p rest ih =>
    rw [List.foldl_cons, List.reverse_cons, List.append_assoc]
    refine ih fun k => ?_
    rw [recorded?_enter, List.singleton_append, List.lookup_cons, h]
    by_cases hk : k = p.1
    · simp [hk]
    · simp [hk, beq_false_of_ne hk]

/-- One more request puts on record what it reports. -/
theorem recorded?_respond {b : SizeBook α} {since : List (Nat × Measurement α)}
    (h : ∀ i, b.recorded? i = since.lookup i) (r : Request α) (i : Nat) :
    (b.respond r).recorded? i = (r.reported since).lookup i := by
  cases r with
  | record j m =>
    cases hm : m.isValid with
    | false => simp [respond_record_of_not_valid b j hm, Request.reported, hm, h]
    | true =>
      simp only [respond_record_of_valid b j hm, Request.reported, hm, if_true]
      exact recorded?_foldl_enter h [(j, m)] i
  | noteEstimate j value => simp [respond, Request.reported, h]
  | restore ms =>
    by_cases hms : ∀ p ∈ ms, p.2.isValid = true
    · have hall : ms.all (·.2.isValid) = true := List.all_eq_true.2 hms
      simp only [respond_restore_of_valid b hms, Request.reported, hall, if_true]
      have hstart (k : Nat) : b.clear.recorded? k = ([] : List (Nat × Measurement α)).lookup k := by
        simp
      simpa using recorded?_foldl_enter hstart ms i
    · have hall : ¬ms.all (·.2.isValid) = true := fun hall => hms (List.all_eq_true.1 hall)
      simp only [respond_restore_of_not_valid b hms, Request.reported, hall, h]
      rfl
  | clear => simp [respond, Request.reported]
  | setDefault value => exact h i

/-- A book has on record what its history says last. -/
theorem run_recorded? (d : α) (rs : List (Request α)) (i : Nat) :
    ((empty d).run rs).recorded? i = lastMeasurement rs i := by
  have hrun (b : SizeBook α) (since : List (Nat × Measurement α))
      (h : ∀ i, b.recorded? i = since.lookup i) :
      (b.run rs).recorded? i = (rs.foldl Request.reported since).lookup i := by
    induction rs generalizing b since with
    | nil => exact h i
    | cons r rest ih => exact ih _ _ (recorded?_respond h r)
  exact hrun (empty d) [] fun i => by simp

/-- Measurements leave the default estimate. -/
theorem defaultEstimate_foldl_enter (b : SizeBook α) (ms : List (Nat × Measurement α)) :
    (ms.foldl (fun b p => b.enter p.1 p.2) b).defaultEstimate = b.defaultEstimate :=
  List.foldlRecOn (motive := fun c : SizeBook α => c.defaultEstimate = b.defaultEstimate) ms _
    rfl fun _ hc _ _ => hc

/-- Only a request for another default estimate changes it. -/
theorem run_defaultEstimate (b : SizeBook α) (rs : List (Request α)) :
    (b.run rs).defaultEstimate = lastDefault b.defaultEstimate rs := by
  induction rs generalizing b with
  | nil => rfl
  | cons r rest ih =>
    refine (ih (b.respond r)).trans ?_
    simp only [lastDefault, List.foldl_cons]
    congr 1
    cases r with
    | record i m =>
      cases hm : m.isValid with
      | false => simp only [respond_record_of_not_valid b i hm]
      | true =>
        simp only [respond_record_of_valid b i hm]
        exact defaultEstimate_foldl_enter b [(i, m)]
    | restore ms =>
      by_cases hms : ∀ p ∈ ms, p.2.isValid = true
      · simp only [respond_restore_of_valid b hms]
        exact defaultEstimate_foldl_enter b.clear ms
      · simp only [respond_restore_of_not_valid b hms]
    | _ => rfl

/-! ## Entries -/

/-- Of measurements entered one after the other, the last one of an item makes its entry. -/
theorem entry?_foldl_enter (b : SizeBook α) (ms : List (Nat × Measurement α)) (k : Nat) :
    SizeBook.entry? (ms.foldl (fun b (i, m) => b.enter i m) b) k =
      ((ms.reverse.lookup k).map fun m : Measurement α =>
        (⟨k, .measured m.size, m.secondary, m.margins⟩ : SizeEntry α)).or (b.entry? k) := by
  induction ms using List.reverseRecOn with
  | nil => rfl
  | append_singleton ms p ih =>
    obtain ⟨i, m⟩ := p
    rw [List.foldl_append, List.foldl_cons, List.foldl_nil, entry?_enter, ih, List.reverse_append,
      List.reverse_singleton, List.singleton_append, List.lookup_cons]
    by_cases hk : k = i
    · simp [hk]
    · simp [hk, beq_false_of_ne hk]

/-- All entries are tidy. -/
def Tidy (b : SizeBook α) : Prop := ∀ i entry, b.entry? i = some entry → entry.Tidy i

namespace Tidy

theorem empty (d : α) : (SizeBook.empty d).Tidy := fun i entry h => by
  simp [SizeBook.empty, entry?] at h

/-- In a tidy book the entry of an item that was not measured holds the estimate that was last
noted, and nothing else. -/
theorem entry?_noteEstimate {b : SizeBook α} (hb : b.Tidy) (i k : Nat) (v : α) :
    SizeBook.entry? (b.noteEstimate i v) k =
      if k = i ∧ b.isMeasured i = false then some ⟨i, .estimated v, none, .zero⟩
      else b.entry? k := by
  rw [SizeBook.entry?_noteEstimate]
  split
  · rename_i hk
    cases he : b.entry? i with
    | none => rfl
    | some entry =>
      obtain ⟨index, primary, secondary, margins⟩ := entry
      have hnot : primary.isMeasured = false := by
        cases primary with
        | estimated w => rfl
        | measured w => simp [isMeasured, sizeOf, he] at hk
      obtain ⟨rfl, hbare⟩ := hb i _ he
      obtain ⟨rfl, rfl⟩ := hbare hnot
      rfl
  · rfl

theorem noteEstimate {b : SizeBook α} (hb : b.Tidy) (i : Nat) (v : α) :
    (b.noteEstimate i v).Tidy := fun k entry h => by
  rw [hb.entry?_noteEstimate] at h
  split at h
  · rename_i hk
    cases h
    exact ⟨hk.1.symm, fun _ => ⟨rfl, rfl⟩⟩
  · exact hb k entry h

theorem enter {b : SizeBook α} (hb : b.Tidy) (i : Nat) (m : Measurement α) :
    (b.enter i m).Tidy := fun k entry h => by
  rw [entry?_enter] at h
  split at h
  · rename_i hk
    cases h
    exact ⟨hk.symm, fun hs => by simp at hs⟩
  · exact hb k entry h

/-- The size across the scroll axis is the one on record. -/
theorem secondaryOf_eq {b : SizeBook α} (hb : b.Tidy) (i : Nat) :
    b.secondaryOf i = (b.recorded? i).bind Measurement.secondary := by
  cases he : b.entry? i with
  | none => simp [secondaryOf, recorded?, he]
  | some entry =>
    have hbare := (hb i entry he).bare
    cases hs : entry.primary with
    | estimated v => simp_all [secondaryOf, recorded?, SizeEntry.measurement?]
    | measured v => simp [secondaryOf, recorded?, he, SizeEntry.measurement?, hs]

end Tidy

theorem Reachable.tidy {b : SizeBook α} (h : b.Reachable) : b.Tidy :=
  h.induction .empty (fun _ _ hb => hb) (fun _ i v hb => hb.noteEstimate i v)
    fun _ i m hb _ _ => hb.enter i m

/-! ## Spaces and totals follow -/

namespace Sound

/-- The book holds the spaces that border on a measured item and are representable. -/
theorem spaces_eq_some_iff {b : SizeBook α} (hb : b.Sound) (k : Nat) (v : α) :
    b.spaces[k]? = some v ↔ k ≤ Index.limit ∧ b.Borders k ∧ v = b.spaceFromMargins k := by
  refine ⟨hb.space_eq k v, fun ⟨hk, hborders, hv⟩ => ?_⟩
  obtain ⟨w, hw⟩ := Option.isSome_iff_exists.1 (hb.space_known k hk hborders)
  rw [hw, hv, (hb.space_eq k w hw).2.2]

/-- The spaces follow from the measurements on record. -/
theorem spaces_eq {b c : SizeBook α} (hb : b.Sound) (hc : c.Sound)
    (h : ∀ i, c.recorded? i = b.recorded? i) : c.spaces = b.spaces := by
  refine Std.ExtTreeMap.ext_getElem? fun k => Option.ext fun v => ?_
  rw [hb.spaces_eq_some_iff, hc.spaces_eq_some_iff,
    spaceFromMargins_congr (h k) fun _ => h (k - 1)]
  simp only [Borders, isMeasured_eq, h]

end Sound

/-! ## Exact arithmetic -/

/-- The entries with a measured size. -/
def measuredEntries (b : SizeBook α) : List (SizeEntry α) :=
  b.entries.values.filter (·.primary.isMeasured)

/-- The measured sizes are those of the entries that have one. -/
theorem measuredSizes_eq (b : SizeBook Rat) :
    measuredSizes b.entries.toList = b.measuredEntries.map (·.primary.value) := by
  rw [measuredEntries, Std.ExtTreeMap.values_eq_map_snd_toList, measuredSizes]
  induction b.entries.toList with
  | nil => rfl
  | cons p rest ih =>
    rw [List.map_cons, List.filterMap_cons, List.filter_cons, ih]
    cases hs : p.2.primary <;> simp [SizeEntry.measurement?, hs]

/-- The measurements on record, with their items. -/
def onRecord (b : SizeBook Rat) : List (Nat × Measurement Rat) :=
  b.entries.toList.filterMap fun p => p.2.measurement?.map fun q => (p.1, q.2)

theorem mem_onRecord {b : SizeBook Rat} {i : Nat} {m : Measurement Rat} :
    (i, m) ∈ b.onRecord ↔ b.recorded? i = some m := by
  simp only [onRecord, recorded?, entry?, List.mem_filterMap, Option.map_eq_some_iff,
    Option.bind_eq_some_iff, Prod.exists, Std.ExtTreeMap.mem_toList_iff_getElem?_eq_some]
  constructor
  · rintro ⟨k, entry, he, j, n, hn, heq⟩
    obtain ⟨rfl, rfl⟩ := Prod.mk.inj heq
    exact ⟨entry, he, j, n, hn, rfl⟩
  · rintro ⟨entry, he, j, n, hn, rfl⟩
    exact ⟨i, entry, he, j, n, hn, rfl⟩

/-- Each item has one measurement on record at most. -/
theorem nodup_onRecord (b : SizeBook Rat) : b.onRecord.Nodup := by
  refine Std.ExtTreeMap.distinct_keys_toList.filterMap _ fun p p' hne q hq q' hq' heq => hne ?_
  obtain ⟨r, -, rfl⟩ := Option.map_eq_some_iff.1 hq
  obtain ⟨r', -, rfl⟩ := Option.map_eq_some_iff.1 hq'
  rw [(Prod.mk.inj heq).1]
  exact Std.ReflCmp.compare_self

/-- The measured sizes are those on record. -/
theorem measuredSizes_eq_onRecord (b : SizeBook Rat) :
    measuredSizes b.entries.toList = b.onRecord.map (·.2.size) := by
  simp [onRecord, measuredSizes, List.map_filterMap, Function.comp_def]

/-- Which sizes are measured, and how often each, follows from the measurements on record. -/
theorem measuredSizes_perm {b c : SizeBook Rat} (h : ∀ i, c.recorded? i = b.recorded? i) :
    (measuredSizes c.entries.toList).Perm (measuredSizes b.entries.toList) := by
  rw [measuredSizes_eq_onRecord, measuredSizes_eq_onRecord]
  refine List.Perm.map _ ((List.perm_ext_iff_of_nodup (nodup_onRecord c) (nodup_onRecord b)).2 ?_)
  rintro ⟨i, m⟩
  rw [mem_onRecord, mem_onRecord, h]

/-- In exact arithmetic all that a book says follows from its default estimate and from the
measurements on record. -/
theorem Tallied.agrees {b c : SizeBook Rat} (hb : b.Tallied) (hc : c.Tallied) (hbs : b.Sound)
    (hcs : c.Sound) (hd : c.defaultEstimate = b.defaultEstimate)
    (h : ∀ i, c.recorded? i = b.recorded? i) : b.Agrees c where
  defaultEstimate := hd
  recorded := h
  sizes := hc.sizes.unique (hb.sizes.perm (measuredSizes_perm h).symm)
  spaces := hbs.spaces_eq hcs h
  spaceSizes := (hbs.spaces_eq hcs h ▸ hc.spaces).unique hb.spaces

/-- Of valid measurements entered one after the other only the last one of each item matters, in
whatever order they come: the books are the same to the last total. -/
theorem foldl_enter_eq {b : SizeBook Rat} (hs : b.Sound) (ht : b.Tallied)
    {ms ms' : List (Nat × Measurement Rat)}
    (hms : ∀ p ∈ ms, p.1 ≤ Index.limit ∧ p.2.isValid = true)
    (hms' : ∀ p ∈ ms', p.1 ≤ Index.limit ∧ p.2.isValid = true)
    (hlast : ∀ i, ms'.reverse.lookup i = ms.reverse.lookup i) :
    ms'.foldl (fun b (i, m) => b.enter i m) b = ms.foldl (fun b (i, m) => b.enter i m) b := by
  have hentries : (ms'.foldl (fun b (i, m) => b.enter i m) b).entries =
      (ms.foldl (fun b (i, m) => b.enter i m) b).entries := by
    refine Std.ExtTreeMap.ext_getElem? fun k => ?_
    have hentry := entry?_foldl_enter b ms' k
    rw [hlast, ← entry?_foldl_enter b ms k] at hentry
    exact hentry
  have hsound {ms : List (Nat × Measurement Rat)}
      (hms : ∀ p ∈ ms, p.1 ≤ Index.limit ∧ p.2.isValid = true) :
      (ms.foldl (fun b (i, m) => b.enter i m) b).Sound :=
    List.foldlRecOn ms _ hs fun c hc p hp => hc.enter (hms p hp).2 (hms p hp).1
  have htallied (ms : List (Nat × Measurement Rat)) :
      (ms.foldl (fun b (i, m) => b.enter i m) b).Tallied :=
    List.foldlRecOn ms _ ht fun c hc p _ => hc.enter p.1 p.2
  -- Whatever else a book keeps follows from what is on record.
  have hagrees : (ms.foldl (fun b (i, m) => b.enter i m) b).Agrees
      (ms'.foldl (fun b (i, m) => b.enter i m) b) := by
    refine (htallied ms).agrees (htallied ms') (hsound hms) (hsound hms')
      ((defaultEstimate_foldl_enter b ms').trans (defaultEstimate_foldl_enter b ms).symm)
      fun i => ?_
    simp only [recorded?, entry?, hentries]
  generalize ms.foldl (fun b (i, m) => b.enter i m) b = c at hentries hagrees
  generalize ms'.foldl (fun b (i, m) => b.enter i m) b = c' at hentries hagrees
  cases c
  cases c'
  obtain ⟨hdefault, -, hsizes, hspaces, hspaceSizes⟩ := hagrees
  simp only at hentries hdefault hsizes hspaces hspaceSizes
  rw [hentries, hdefault, hsizes, hspaces, hspaceSizes]

/-- The running totals are what the entries and the known spaces add up to. -/
structure ExactTotals (b : SizeBook Rat) : Prop where
  measuredLength : b.measuredLength = b.measuredEntries.length
  totalMeasured : b.totalMeasured = (b.measuredEntries.map (·.primary.value)).sum
  averageMargin : b.averageMargin =
    if b.spaces.values = [] then 0 else b.spaces.values.sum / (b.spaces.values.length : Rat)

theorem Tallied.exactTotals {b : SizeBook Rat} (hb : b.Tallied) : b.ExactTotals := by
  obtain ⟨⟨htotal, hcount⟩, hspaces⟩ := hb
  rw [measuredSizes_eq] at htotal hcount
  rw [← Std.ExtTreeMap.values_eq_map_snd_toList] at hspaces
  refine ⟨hcount.trans (List.length_map _), htotal, ?_⟩
  simp only [averageMargin, RunningTotal.average?, hspaces.1, hspaces.2, List.length_eq_zero_iff]
  split <;> rfl

/-! ## What a book says -/

/-- The book says what a history with default estimate `d` and last measurements `last` tells. -/
structure Follows (b : SizeBook α) (d : α) (last : Nat → Option (Measurement α)) : Prop where
  defaultEstimate : b.defaultEstimate = d
  recorded : ∀ i, b.recorded? i = last i
  own_index : ∀ i entry, b.entry? i = some entry → entry.index = i
  extent : ∀ i entry size, b.entry? i = some entry → entry.primary = .measured size →
    Scalar.isExtent size = true
  bare : ∀ i entry value, b.entry? i = some entry → entry.primary = .estimated value →
    entry.secondary = none ∧ entry.margins = .zero
  space_known_iff : ∀ k, (b.marginBefore k).isMeasured = true ↔ k ≤ Index.limit ∧ b.Borders k
  /-- Margins that are not on record count as zero. -/
  space_eq : ∀ k space, b.marginBefore k = .measured space →
    let before := ((last k).map (·.margins.before)).getD 0
    let after := ((last (k - 1)).map (·.margins.after)).getD 0
    space = if k = 0 then before else Margins.collapse after before

/-- The books give the same answer to every question about sizes and spaces. -/
structure SaysSame (b c : SizeBook α) : Prop where
  sizeOf : ∀ i, c.sizeOf i = b.sizeOf i
  secondaryOf : ∀ i, c.secondaryOf i = b.secondaryOf i
  marginBefore : ∀ k, c.marginBefore k = b.marginBefore k
  estimate : c.estimate = b.estimate
  averageMargin : c.averageMargin = b.averageMargin

/-- In whatever arithmetic, a sound and tidy book says what its measurements on record tell. -/
theorem Sound.follows {b : SizeBook α} (hb : b.Sound) (ht : b.Tidy) :
    b.Follows b.defaultEstimate b.recorded? where
  defaultEstimate := rfl
  recorded _ := rfl
  own_index i entry he := (ht i entry he).index_eq
  extent i entry size he hs := by
    have hm : b.recorded? i = some ⟨size, entry.secondary, entry.margins⟩ := by
      simp [recorded?, he, SizeEntry.measurement?, hs]
    have hvalid := hb.valid i _ hm
    simp only [Measurement.isValid, Bool.and_eq_true] at hvalid
    exact hvalid.1.1
  bare i entry value he hs := (ht i entry he).bare (by simp [hs])
  space_known_iff k := by
    rw [isMeasured_marginBefore, Option.isSome_iff_exists]
    simp [hb.spaces_eq_some_iff]
  space_eq k space h := by
    have hspace : b.spaces[k]? = some space := by
      unfold marginBefore at h
      split at h <;> simp_all
    rw [((hb.spaces_eq_some_iff k space).1 hspace).2.2]
    simp only [spaceFromMargins, measuredMargins?_eq, Option.map_map, Function.comp_def]

theorem Agrees.saysSame {b c : SizeBook α} (h : b.Agrees c) (hb : b.Tidy) (hc : c.Tidy) :
    b.SaysSame c where
  sizeOf := h.sizeOf_eq
  secondaryOf i := by rw [hb.secondaryOf_eq, hc.secondaryOf_eq, h.recorded]
  marginBefore := h.marginBefore_eq
  estimate := h.estimate_eq
  averageMargin := h.averageMargin_eq

/-- In whatever arithmetic a book has on record what its history says last, in tidy entries, and
knows the spaces that these measurements determine. -/
theorem run_follows {d : α} {rs : List (Request α)} (hrs : ∀ r ∈ rs, r.Representable) :
    ((empty d).run rs).Follows (lastDefault d rs) (lastMeasurement rs) := by
  have hb : ((empty d).run rs).Reachable := ⟨d, rs, hrs, rfl⟩
  have h := hb.sound.follows hb.tidy
  rwa [run_defaultEstimate, funext (run_recorded? d rs)] at h

/-- In exact arithmetic the running totals of a book are exact. -/
theorem run_exactTotals {d : Rat} {rs : List (Request Rat)} (hrs : ∀ r ∈ rs, r.Representable) :
    ((empty d).run rs).ExactTotals := by
  have hb : ((empty d).run rs).Reachable := ⟨d, rs, hrs, rfl⟩
  exact hb.tallied.exactTotals

/-- In exact arithmetic two histories that leave the same default estimate and the same last
measurements lead to books that say the same. -/
theorem run_saysSame {d d' : Rat} {rs rs' : List (Request Rat)} (hrs : ∀ r ∈ rs, r.Representable)
    (hrs' : ∀ r ∈ rs', r.Representable) (hdefault : lastDefault d' rs' = lastDefault d rs)
    (hlast : ∀ i, lastMeasurement rs' i = lastMeasurement rs i) :
    ((empty d).run rs).SaysSame ((empty d').run rs') := by
  have hb : ((empty d).run rs).Reachable := ⟨d, rs, hrs, rfl⟩
  have hc : ((empty d').run rs').Reachable := ⟨d', rs', hrs', rfl⟩
  have hagrees : ((empty d).run rs).Agrees ((empty d').run rs') := by
    apply hb.tallied.agrees hc.tallied hb.sound hc.sound
    · rw [run_defaultEstimate, run_defaultEstimate]
      exact hdefault
    · intro i
      rw [run_recorded?, run_recorded?, hlast]
  exact hagrees.saysSame hb.tidy hc.tidy

/-- Everything a book says follows from its history.  In whatever arithmetic it has on record
what the history says last, in tidy entries, and knows the spaces that these measurements
determine.  In exact arithmetic its running totals are exact, and two histories that leave the
same default estimate and the same last measurements lead to books that say the same. -/
theorem run_follows_history {d : α} {rs : List (Request α)} {q s : Rat}
    {xs ys : List (Request Rat)} (hrs : ∀ r ∈ rs, r.Representable)
    (hxs : ∀ r ∈ xs, r.Representable) (hys : ∀ r ∈ ys, r.Representable) :
    ((empty d).run rs).Follows (lastDefault d rs) (lastMeasurement rs) ∧
      ((empty q).run xs).ExactTotals ∧
      (lastDefault s ys = lastDefault q xs → (∀ i, lastMeasurement ys i = lastMeasurement xs i) →
        ((empty q).run xs).SaysSame ((empty s).run ys)) :=
  ⟨run_follows hrs, run_exactTotals hxs, run_saysSame hxs hys⟩

/-- Item 3 is forgotten, a size below zero is refused, and item 0 is measured again. -/
def remeasured : List (Request Rat) :=
  [.record 3 ⟨70, none, ⟨5, 5⟩⟩, .clear, .noteEstimate 1 30, .record 0 ⟨20, none, ⟨0, 9⟩⟩,
    .record 1 ⟨-1, none, .zero⟩, .setDefault 40, .record 1 ⟨50, none, ⟨2, 6⟩⟩,
    .record 0 ⟨30, some 100, ⟨4, 8⟩⟩]

/-- The same two measurements, restored into a new book. -/
def restored : List (Request Rat) :=
  [.setDefault 40, .restore [(0, ⟨30, some 100, ⟨4, 8⟩⟩), (1, ⟨50, none, ⟨2, 6⟩⟩)]]

/-- Two different histories with the same last measurements. -/
theorem run_follows_history_of_remeasured :
    (∀ r ∈ remeasured, r.Representable) ∧ (∀ r ∈ restored, r.Representable) ∧
      ((empty 50).run remeasured).Follows 40 (lastMeasurement remeasured) ∧
      ((empty 50).run remeasured).ExactTotals ∧
      ((empty 50).run remeasured).SaysSame ((empty 10).run restored) := by
  have hrs : ∀ r ∈ remeasured, r.Representable := by decide
  have hrs' : ∀ r ∈ restored, r.Representable := by decide
  have hlast (i : Nat) : lastMeasurement restored i = lastMeasurement remeasured i := by
    match i with
    | 0 => decide +kernel
    | 1 => decide +kernel
    | i + 2 => rfl
  obtain ⟨hfollows, hexact, hsame⟩ := run_follows_history (d := 50) (q := 50) (s := 10) hrs hrs hrs'
  exact ⟨hrs, hrs', hfollows, hexact, hsame (by decide) hlast⟩

end SizeBook

end VirtualList
