import VirtualList.Layout.Reflow

/-!
# Runs of a layout

A run is any sequence of requests to a layout, refused ones included.  Queries do not change a
layout and are left out.  `Reachable` collects the layouts that runs lead to from a new one; a
request that faults has no layout after it and ends its run.

The second half says what each request can do to a layout.  Statements about requests go by the
cases of `Effect` and never unfold an operation again.

## Key results

- `respond`, `run`, `Reachable`: requests and runs
- `respond_effect`: every way in which a request changes a layout
- `Effect.keepsWindow`: what requests other than a pass do to the window
-/

namespace VirtualList

/-- A computation with two parts succeeds iff both parts do. -/
theorem bind_eq_ok {ε α β : Type} {x : Except ε α} {f : α → Except ε β} {b : β} :
    (x >>= f) = .ok b ↔ ∃ a, x = .ok a ∧ f a = .ok b := by
  cases x <;> simp [bind, Except.bind]

/-- A computation with two parts fails iff one of them does. -/
theorem bind_eq_error {ε α β : Type} {x : Except ε α} {f : α → Except ε β} {e : ε} :
    (x >>= f) = .error e ↔ x = .error e ∨ ∃ a, x = .ok a ∧ f a = .error e := by
  cases x <;> simp [bind, Except.bind]

/-- A computation whose outcome passes a test has an outcome. -/
theorem exists_ok_of_any {ε α : Type} {x : Except ε α} {p : α → Bool}
    (h : x.toOption.any p = true) : ∃ a, x = .ok a ∧ p a = true := by
  cases x with
  | error e => simp [Except.toOption] at h
  | ok a => exact ⟨a, rfl, by simpa [Except.toOption] using h⟩

namespace Layout

variable {α : Type}

/-- A call that may change a layout. -/
inductive Request (α : Type) where
  | setOptions (options : Options α)
  | setTotal (total : Nat)
  | setViewport (viewport : Viewport α)
  | setViewportMain (main : α)
  | moveTo (position : α)
  | record (i : Nat) (m : Measurement α)
  | recordAll (ms : List (Nat × Measurement α))
  | pinTo (i : Nat) (align : Align)
  | unpin
  | forget
  | refreshVisible
  | reflow

/-- What a layout answers to a request. -/
inductive Answer (α : Type) where
  | done
  | refused (error : InputError α)
  /-- Whether something changed, or calls for a pass. -/
  | flag (value : Bool)
  | sides (change : ViewportChange)
  | announced (change : Option WindowChange)
  | passed (report : PassReport α) (events : List (LayoutEvent α))

/-- The answer to a request that can be refused. -/
def Answer.ofExcept {β : Type} (f : β → Answer α) : Except (InputError α) β → Answer α
  | .error e => .refused e
  | .ok b => f b

/-- The number of items that a request asks for, if any, is representable. -/
def Request.Representable : Request α → Prop
  | .setTotal total => total ≤ Index.limit
  | _ => True

variable [Scalar α]

/-- Carries out a request. -/
def respond (l : Layout α) : Request α → Except Fault (Answer α × Layout α)
  | .setOptions options =>
    let (answer, l) := l.setOptions options
    .ok (.ofExcept (fun _ => .done) answer, l)
  | .setTotal total =>
    let (changed, l) := l.setTotal total
    .ok (.flag changed, l)
  | .setViewport viewport =>
    let (answer, l) := l.setViewport viewport
    .ok (.ofExcept .sides answer, l)
  | .setViewportMain main =>
    let (answer, l) := l.setViewportMain main
    .ok (.ofExcept .flag answer, l)
  | .moveTo position =>
    let (answer, l) := l.moveTo position
    .ok (.ofExcept .flag answer, l)
  | .record i m =>
    let (answer, l) := l.record i m
    .ok (.ofExcept .flag answer, l)
  | .recordAll ms =>
    let (answer, l) := l.recordAll ms
    .ok (.ofExcept .flag answer, l)
  | .pinTo i align => do
    let l ← l.pinTo i align
    return (.done, l)
  | .unpin => .ok (.done, l.unpin)
  | .forget => .ok (.done, l.forget)
  | .refreshVisible =>
    let (change, l) := l.refreshVisible
    .ok (.announced change, l)
  | .reflow => do
    let (report, events, l) ← l.reflow
    return (.passed report events, l)

/-- Carries out requests one after the other. -/
def run (l : Layout α) : List (Request α) → Except Fault (Layout α)
  | [] => .ok l
  | r :: rest => do
    let (_, l) ← l.respond r
    run l rest

/-- The layouts that runs of representable requests lead to. -/
inductive Reachable : Layout α → Prop
  | start {options : Options α} {l : Layout α} : ofOptions options = .ok l → Reachable l
  | step {l l' : Layout α} {r : Request α} {answer : Answer α} :
      Reachable l → r.Representable → l.respond r = .ok (answer, l') → Reachable l'

/-- A run of representable requests leads from a reachable layout to a reachable one. -/
theorem Reachable.run {l l' : Layout α} {rs : List (Request α)} (hl : Reachable l)
    (hrs : ∀ r ∈ rs, r.Representable) (h : l.run rs = .ok l') : Reachable l' := by
  induction rs generalizing l with
  | nil =>
    cases h
    exact hl
  | cons r rest ih =>
    obtain ⟨hr, hrest⟩ := List.forall_mem_cons.1 hrs
    obtain ⟨⟨answer, l₁⟩, hrespond, h⟩ := bind_eq_ok.1 h
    exact ih (hl.step hr hrespond) hrest h

/-- So does a pass. -/
theorem Reachable.reflow {l l' : Layout α} {report : PassReport α}
    {events : List (LayoutEvent α)} (hl : Reachable l)
    (h : l.reflow = .ok (report, events, l')) : Reachable l' := by
  have hrespond : l.respond .reflow = .ok (.passed report events, l') := by
    simp only [respond, h]
    rfl
  exact hl.step (r := .reflow) trivial hrespond

/-- A run on given inputs leads to a layout that passes a test, if it does when it is carried
out. -/
theorem Reachable.exists_of_any (options : Options α) (rs : List (Request α))
    (p : Layout α → Bool) (hrs : ∀ r ∈ rs, r.Representable)
    (h : ((ofOptions options).toOption.any fun l => (l.run rs).toOption.any p) = true) :
    ∃ l, Reachable l ∧ p l = true := by
  obtain ⟨l₀, hstart, h⟩ := exists_ok_of_any h
  obtain ⟨l, hrun, hp⟩ := exists_ok_of_any h
  exact ⟨l, (Reachable.start hstart).run hrs hrun, hp⟩

/-- A pass at the end of a run on given inputs passes a test, if it does when it is carried out. -/
theorem Reachable.exists_run_of_any (options : Options α) (rs : List (Request α))
    (p : Layout α → Layout α → Bool) (hrs : ∀ r ∈ rs, r.Representable)
    (h : ((ofOptions options).toOption.any fun l => (l.run rs).toOption.any fun l =>
      l.reflow.toOption.any fun passed => p l passed.2.2) = true) :
    ∃ l₀ l l' report events, ofOptions options = .ok l₀ ∧ l₀.run rs = .ok l ∧ Reachable l ∧
      l.reflow = .ok (report, events, l') ∧ p l l' = true := by
  obtain ⟨l₀, hstart, h⟩ := exists_ok_of_any h
  obtain ⟨l, hrun, h⟩ := exists_ok_of_any h
  obtain ⟨⟨report, events, l'⟩, hreflow, hp⟩ := exists_ok_of_any h
  exact ⟨l₀, l, l', report, events, hstart, hrun, (Reachable.start hstart).run hrs hrun, hreflow,
    hp⟩

theorem Reachable.exists_reflow_of_any (options : Options α) (rs : List (Request α))
    (p : Layout α → Layout α → Bool) (hrs : ∀ r ∈ rs, r.Representable)
    (h : ((ofOptions options).toOption.any fun l => (l.run rs).toOption.any fun l =>
      l.reflow.toOption.any fun passed => p l passed.2.2) = true) :
    ∃ l l' report events, Reachable l ∧ l.reflow = .ok (report, events, l') ∧ p l l' = true := by
  obtain ⟨-, l, l', report, events, -, -, hend⟩ := Reachable.exists_run_of_any options rs p hrs h
  exact ⟨l, l', report, events, hend⟩

/-- The events of a pass, one for each part that differs. -/
theorem mem_events {before after : Layout α} {remeasure : Bool} {moved : α} {event : LayoutEvent α} :
    event ∈ events before after remeasure moved ↔
      ((after.range ≠ before.range ∨ after.stable ≠ before.stable ∨ remeasure = true) ∧
          event = .windowChanged (after.windowChange remeasure)) ∨
        ((after.published != before.published) = true ∧ event = .itemsPlaced after.published) ∨
        ((after.scrollSize != before.scrollSize) = true ∧
          event = .scrollSizeChanged after.scrollSize) ∨
        ((moved != 0) = true ∧ event = .scrollMoved moved) := by
  simp only [events, List.mem_append, List.mem_ite_nil_right, List.mem_singleton, or_assoc]

/-! ## Measurements -/

/-- A valid measurement of an item of the list is entered.  A first measurement calls for a pass
iff its item is in the window. -/
theorem record_eq_ok {l : Layout α} {i : Nat} {m : Measurement α} (hi : i < l.total)
    (hm : m.isValid = true) :
    ∃ called corrections,
      l.record i m = (.ok called, { l with book := l.book.enter i m, corrections }) ∧
        (l.book.isMeasured i = false → called = l.range.any (·.contains i)) := by
  -- Growth in front of the window is noted as a correction, which does not matter here.
  have hcorrect (c : Prop) [Decidable c] (d : α) :
      ∃ corrections, (if c then l.correct i d else l) = { l with corrections } := by
    split
    · exact ⟨_, rfl⟩
    · exact ⟨l.corrections, rfl⟩
  simp only [record, if_neg (Nat.not_le.2 hi), SizeBook.record, Measurement.check_of_isValid hm]
  obtain ⟨corrections, heq⟩ := hcorrect ((m.size - (l.book.superseded i).value != 0) = true)
    (m.size - (l.book.superseded i).value)
  rw [heq]
  refine ⟨_, corrections, rfl, fun hfirst => ?_⟩
  -- What a first measurement supersedes is an estimate, noted or present.
  have hsuper : ∃ v, l.book.superseded i = .estimated v := by
    simp only [SizeBook.isMeasured, SizeBook.sizeOf] at hfirst
    unfold SizeBook.superseded
    cases he : l.book.entry? i with
    | none => exact ⟨_, rfl⟩
    | some entry =>
      cases hs : entry.primary with
      | estimated v => exact ⟨v, hs⟩
      | measured v => simp [he, hs] at hfirst
  obtain ⟨v, hv⟩ := hsuper
  rw [hv]
  rfl

/-- Any other measurement is refused. -/
theorem record_refused {l : Layout α} {i : Nat} {m : Measurement α}
    (h : ¬(i < l.total ∧ m.isValid = true)) : ∃ e, l.record i m = (.error e, l) := by
  unfold record
  by_cases hi : l.total ≤ i
  · exact ⟨_, if_pos hi⟩
  · have hm : m.isValid = false := by
      rw [← Bool.not_eq_true]
      exact fun hm => h ⟨Nat.lt_of_not_le hi, hm⟩
    rw [if_neg hi]
    simp only [SizeBook.record, Measurement.check_of_not_isValid hm]
    exact ⟨_, rfl⟩

/-- Recording several measurements enters some of them, each a valid one of an item of the
list. -/
theorem recordAll_eq (l : Layout α) (ms : List (Nat × Measurement α)) :
    ∃ (entered : List (Nat × Measurement α)) (corrections : Std.ExtTreeMap Nat α),
      (l.recordAll ms).2 =
        { l with book := entered.foldl (fun b (i, m) => b.enter i m) l.book, corrections } ∧
      ∀ p ∈ entered, p.1 < l.total ∧ p.2.isValid = true := by
  induction ms generalizing l with
  | nil => exact ⟨[], l.corrections, rfl, by simp⟩
  | cons p rest ih =>
    obtain ⟨i, m⟩ := p
    unfold recordAll
    by_cases hok : i < l.total ∧ m.isValid = true
    · -- The first measurement is entered before the others.
      obtain ⟨called, corrections, hrec, -⟩ := record_eq_ok hok.1 hok.2
      rw [hrec]
      obtain ⟨entered, corrections', heq, hall⟩ :=
        ih { l with book := l.book.enter i m, corrections }
      refine ⟨(i, m) :: entered, corrections', heq, ?_⟩
      exact List.forall_mem_cons.2 ⟨hok, hall⟩
    · -- The first measurement that is refused ends it.
      obtain ⟨e, hrec⟩ := record_refused hok
      rw [hrec]
      exact ⟨[], l.corrections, rfl, by simp⟩

/-- Recording one measurement is recording a list of one. -/
theorem recordAll_singleton (l : Layout α) (i : Nat) (m : Measurement α) :
    (l.recordAll [(i, m)]).2 = (l.record i m).2 := by
  unfold recordAll
  split <;> simp_all [recordAll]

/-! ## What a request can do -/

/-- A request that succeeds leads from a layout to another in one of these ways.  A request that
is refused, or that asks for what is already there, changes nothing. -/
inductive Effect (l : Layout α) : Request α → Layout α → Prop
  | unchanged (r : Request α) : Effect l r l
  | options {options : Options α} : options.check = .ok () →
      Effect l (.setOptions options)
        { l with options, book := { l.book with defaultEstimate := options.estimateSize } }
  | total (total : Nat) : Effect l (.setTotal total) { l with total }
  | viewport {r : Request α} {viewport : Viewport α} {book : SizeBook α}
      {corrections : Std.ExtTreeMap Nat α} {remeasure : Bool} :
      r = .setViewport viewport ∨
        (∃ main, r = .setViewportMain main ∧ viewport = { l.viewport with main }) →
      viewport.check = .ok () → book = l.book ∨ book = l.book.clear →
      Effect l r { l with book, corrections, remeasure, viewport }
  | scrolled {position : α} : (position == l.scrollPosition) = false →
      Effect l (.moveTo position) { l with scrollPosition := position, pin := none }
  | measured {r : Request α} {ms : List (Nat × Measurement α)}
      {corrections : Std.ExtTreeMap Nat α} :
      (∃ i m, r = .record i m) ∨ (∃ ms, r = .recordAll ms) →
      (∀ p ∈ ms, p.1 < l.total ∧ p.2.isValid = true) →
      Effect l r { l with book := ms.foldl (fun b (i, m) => b.enter i m) l.book, corrections }
  | pinned {i : Nat} {align settled : Align} : settled ≠ .nearest →
      Effect l (.pinTo i align) { l with pin := some ⟨i, settled⟩, retained := none }
  | unpinned : Effect l .unpin l.unpin
  | forgotten : Effect l .forget l.forget
  | visible {range : Option WindowRange} : l.refreshVisible.2 = { l with range } →
      Effect l .refreshVisible { l with range }
  | passed {report : PassReport α} {events : List (LayoutEvent α)} {l' : Layout α} :
      l.reflow = .ok (report, events, l') → Effect l .reflow l'

/-- A viewport with another side across the scroll axis may drop the measurements, but it leaves
the window as it is. -/
theorem setViewport_eq {l : Layout α} {v : Viewport α} (h : v.check = .ok ()) :
    ∃ book corrections remeasure,
      (book = l.book ∨ ((v.cross != l.viewport.cross) = true ∧ book = l.book.clear)) ∧
      l.setViewport v = (.ok ⟨v.main != l.viewport.main, v.cross != l.viewport.cross⟩,
        { l with book, corrections, remeasure, viewport := v }) := by
  simp only [setViewport, h]
  split
  · rename_i hdrop
    exact ⟨_, _, _, Or.inr ⟨(Bool.and_eq_true_iff.1 hdrop).1, rfl⟩, rfl⟩
  · exact ⟨l.book, l.corrections, l.remeasure, Or.inl rfl, rfl⟩

/-- A viewport outside its domain is refused. -/
theorem setViewport_refused {l : Layout α} {v : Viewport α} {e : InputError α}
    (h : v.check = .error e) : l.setViewport v = (.error e, l) := by
  simp only [setViewport, h]

/-- A scroll position is refused, is the one that is there, or is taken over. -/
theorem moveTo_cases (l : Layout α) (position : α) :
    (∃ e, l.moveTo position = (.error e, l)) ∨ l.moveTo position = (.ok false, l) ∨
      ((position == l.scrollPosition) = false ∧
        l.moveTo position = (.ok true, { l with scrollPosition := position, pin := none })) := by
  unfold moveTo
  split
  · exact Or.inl ⟨_, rfl⟩
  · split
    · exact Or.inr (Or.inl rfl)
    · rename_i hne
      exact Or.inr (Or.inr ⟨Bool.eq_false_iff.2 hne, rfl⟩)

/-- What is noted of a request to bring an item into view has a settled alignment. -/
theorem resolveAlign_ne_nearest {l : Layout α} {i : Nat} {align settled : Align}
    (h : l.resolveAlign i align = .ok settled) : settled ≠ .nearest := by
  unfold resolveAlign at h
  split at h
  · -- The nearest alignment is settled against the middle of the window.
    obtain ⟨length, -, h⟩ := bind_eq_ok.1 h
    simp only at h
    split at h <;> cases h <;> exact Align.noConfusion
  · cases h
    exact Align.noConfusion
  · rename_i hne
    cases h
    exact fun heq => by cases hr : l.range <;> simp_all

/-- A request to bring an item into view is noted with a settled alignment. -/
theorem pinTo_eq {l l' : Layout α} {i : Nat} {align : Align} (h : l.pinTo i align = .ok l') :
    ∃ settled, l.resolveAlign i align = .ok settled ∧
      l' = { l with pin := some ⟨i, settled⟩, retained := none } := by
  obtain ⟨settled, hsettled, h⟩ := bind_eq_ok.1 h
  cases h
  exact ⟨settled, hsettled, rfl⟩

/-- An announcement of the visible part is one of the window as it is from then on. -/
theorem refreshVisible_cases (l : Layout α) : l.refreshVisible = (none, l) ∨
    ∃ range, l.refreshVisible =
      (some (windowChange { l with range } false), { l with range }) := by
  unfold refreshVisible
  split
  · simp only
    split
    · exact Or.inl rfl
    · exact Or.inr ⟨_, rfl⟩
  · exact Or.inl rfl

/-- Only the visible part of the window moves without a pass. -/
theorem refreshVisible_eq (l : Layout α) :
    ∃ range, l.refreshVisible.2 = { l with range } := by
  rcases l.refreshVisible_cases with heq | ⟨range, heq⟩
  · exact ⟨l.range, congrArg Prod.snd heq⟩
  · exact ⟨range, congrArg Prod.snd heq⟩

/-- Without a pass the window stays, and its visible part is worked out again. -/
theorem refreshVisible_range {l : Layout α} {r : WindowRange} {x y : PlacedItem α}
    (hrange : l.range = some r)
    (hends : visibleEnds l.published l.scrollPosition l.viewport.main = some (x, y)) :
    l.refreshVisible.2.range =
      some { r with firstVisible := x.index, lastVisible := y.index } := by
  unfold refreshVisible
  rw [hrange, hends]
  simp only
  split
  · rename_i hsame
    rw [hrange, hsame]
  · rfl

private theorem setViewport_effect {l : Layout α} {r : Request α} {v : Viewport α}
    (hr : r = .setViewport v ∨ ∃ main, r = .setViewportMain main ∧ v = { l.viewport with main }) :
    Effect l r (l.setViewport v).2 := by
  cases hcheck : v.check with
  | error e =>
    rw [setViewport_refused hcheck]
    exact .unchanged r
  | ok u =>
    obtain ⟨book, corrections, remeasure, hbook, heq⟩ := setViewport_eq (l := l) hcheck
    rw [heq]
    exact .viewport hr hcheck (hbook.imp_right And.right)

/-- What a request can do. -/
theorem respond_effect {l l' : Layout α} {r : Request α} {answer : Answer α}
    (h : l.respond r = .ok (answer, l')) : Effect l r l' := by
  cases r <;> simp only [respond, Except.ok.injEq, Prod.mk.injEq] at h
  case setOptions options =>
    obtain ⟨-, rfl⟩ := h
    unfold setOptions
    split
    · exact .unchanged _
    · rename_i hcheck
      exact .options hcheck
  case setTotal total =>
    obtain ⟨-, rfl⟩ := h
    unfold setTotal
    split
    · exact .unchanged _
    · exact .total total
  case setViewport viewport =>
    obtain ⟨-, rfl⟩ := h
    exact setViewport_effect (Or.inl rfl)
  case setViewportMain main =>
    obtain ⟨-, rfl⟩ := h
    exact setViewport_effect (Or.inr ⟨main, rfl, rfl⟩)
  case moveTo position =>
    obtain ⟨-, rfl⟩ := h
    rcases l.moveTo_cases position with ⟨e, heq⟩ | heq | ⟨hne, heq⟩
    · rw [heq]
      exact .unchanged _
    · rw [heq]
      exact .unchanged _
    · rw [heq]
      exact .scrolled hne
  case record i m =>
    obtain ⟨-, rfl⟩ := h
    -- One measurement is a list of one, so both requests have the same effect.
    obtain ⟨entered, corrections, heq, hall⟩ := l.recordAll_eq [(i, m)]
    rw [← recordAll_singleton, heq]
    exact .measured (Or.inl ⟨i, m, rfl⟩) hall
  case recordAll ms =>
    obtain ⟨-, rfl⟩ := h
    obtain ⟨entered, corrections, heq, hall⟩ := l.recordAll_eq ms
    rw [heq]
    exact .measured (Or.inr ⟨ms, rfl⟩) hall
  case pinTo i align =>
    obtain ⟨l₁, hpin, h⟩ := bind_eq_ok.1 h
    cases h
    obtain ⟨settled, hsettled, rfl⟩ := pinTo_eq hpin
    exact .pinned (resolveAlign_ne_nearest hsettled)
  case unpin =>
    obtain ⟨-, rfl⟩ := h
    exact .unpinned
  case forget =>
    obtain ⟨-, rfl⟩ := h
    exact .forgotten
  case refreshVisible =>
    obtain ⟨-, rfl⟩ := h
    obtain ⟨range, heq⟩ := l.refreshVisible_eq
    have heffect := Effect.visible heq
    rwa [← heq] at heffect
  case reflow =>
    obtain ⟨⟨report, events, l₁⟩, hreflow, h⟩ := bind_eq_ok.1 h
    cases h
    exact .passed hreflow

/-- The window is as it was, except that its anchor or the last stable window may be forgotten. -/
structure KeepsWindow (l l' : Layout α) : Prop where
  range : l'.range = l.range
  published : l'.published = l.published
  stable : l'.stable = l.stable
  anchor : l'.anchor = l.anchor ∨ l'.anchor = none
  settled : l'.settled = l.settled ∨ l'.settled = []

/-- Requests other than a pass or a search for the visible part keep the window. -/
theorem Effect.keepsWindow {l l' : Layout α} {r : Request α} (h : Effect l r l')
    (hvisible : r ≠ .refreshVisible) (hpass : r ≠ .reflow) : KeepsWindow l l' := by
  cases h with
  | forgotten => exact ⟨rfl, rfl, rfl, Or.inr rfl, Or.inr rfl⟩
  | visible => exact absurd rfl hvisible
  | passed => exact absurd rfl hpass
  | _ => exact ⟨rfl, rfl, rfl, Or.inl rfl, Or.inl rfl⟩

end Layout

end VirtualList
