import VirtualList.Proofs.Layout.IndexSafety

/-!
# The order of the last stable window

Without negative margins the items of a window lie one behind the other.  The last stable window
keeps this order: later passes replace it, keep it or cut it off at the end of the list, and nothing
else touches it, whatever becomes of the sizes, the margins and the gap that it was laid out with.
So in exact arithmetic the bounds that a pass clamps between are never crossed, and no run faults.

## Key results

- `reflow_settled_cases`: what a pass does to the last stable window
- `InOrder`, `Takes.items_inOrder`: the window of a pass is in order
- `Effect.settled_inOrder`: every request keeps the last stable window in order
- `NonnegMarginsThroughout`, `nonnegMarginsThroughout_of_requests`: runs without negative margins
- `NonnegMarginsThroughout.induction`: what each request of such a run keeps, the run keeps
- `run_inOrder`: such a run does not fault, and leaves the last stable window in order
- `run_answers`: nothing that is asked of a layout during such a run faults
-/

namespace VirtualList

/-- The items lie one behind the other, and none of them ends in front of where it starts. -/
structure InOrder (items : List (PlacedItem Rat)) : Prop where
  pairwise : items.Pairwise fun x y => x.finish ≤ y.position
  size_nonneg : ∀ x ∈ items, 0 ≤ x.size

namespace InOrder

variable {items items' : List (PlacedItem Rat)} {head tail : PlacedItem Rat}

theorem nil : InOrder [] := ⟨.nil, fun _ hx => absurd hx List.not_mem_nil⟩

/-- What is left of items in order is in order. -/
theorem sublist (h : InOrder items) (hsub : items'.Sublist items) : InOrder items' :=
  ⟨h.pairwise.sublist hsub, fun x hx => h.size_nonneg x (hsub.subset hx)⟩

/-- Items in order do not end in front of where they start. -/
theorem head_le_finish (h : InOrder items) (hhead : items.head? = some head)
    (htail : items.getLast? = some tail) : head.position ≤ tail.finish := by
  have hsize := h.size_nonneg head (List.mem_of_head? hhead)
  have hsize' := h.size_nonneg tail (List.mem_of_getLast? htail)
  rcases head_of_pairwise h.pairwise hhead (List.mem_of_getLast? htail) with rfl | hle
  · exact le_add_of_nonneg_right hsize
  · exact (le_add_of_nonneg_right hsize).trans (hle.trans (le_add_of_nonneg_right hsize'))

end InOrder

namespace Layout

/-! ## What a pass keeps of the last stable window -/

section

variable {α : Type} [Scalar α] {l l' o : Layout α}

/-- A pass begins with what the list still holds of the last stable window. -/
theorem opened_settled (h : l.opened = .ok o) :
    o.settled = l.settled.filter fun item => decide (item.index < l.total) := by
  obtain ⟨scrollSize, -, rfl⟩ := opened_eq_ok h
  rfl

/-- A stable pass keeps what it publishes, and any other one what it began with. -/
theorem reflow_settled_cases {report : PassReport α} {events : List (LayoutEvent α)}
    (h : l.reflow = .ok (report, events, l')) :
    (report.stable = true ∧ l'.settled = l'.published) ∨
      (report.stable = false ∧
        l'.settled = l.settled.filter fun item => decide (item.index < l.total)) := by
  obtain ⟨moved, after, hpass, rfl, -, rfl⟩ := reflow_cases h
  obtain ⟨o, hopen, ⟨-, -, rfl⟩ | ⟨-, c, hcourse, -, rfl⟩⟩ := pass_cases hpass
  · -- Without a window there is nothing to wait for.
    exact Or.inl ⟨rfl, rfl⟩
  · cases hstable : c.strip.stable with
    | true => exact Or.inl ⟨hstable, if_pos hstable⟩
    | false =>
      obtain ⟨corrections, hbase⟩ := hcourse.base_fields
      have hkept : c.outcome.settled = c.base.settled := if_neg (Bool.eq_false_iff.1 hstable)
      have hsame : c.base.settled = o.settled := by rw [hbase]
      exact Or.inr ⟨hstable, hkept.trans (hsame.trans (opened_settled hopen))⟩

end

variable {l l' o : Layout Rat} {c : Course Rat}

/-! ## The window of a pass -/

/-- Without negative extents an item starts where the ones before it have ended. -/
theorem NonnegExtents.finish_le_placeFrom (h : l.NonnegExtents) (lower : Rat) {first i k : Nat}
    (hi : first ≤ i) (hik : i < k) :
    l.placeFrom lower first i + (l.book.sizeOf i).value ≤ l.placeFrom lower first k := by
  have hspace := h.space (i + 1)
  have hmono := h.placeFrom_mono lower (hi.trans (Nat.le_succ i)) hik
  rw [placeFrom_succ l lower hi] at hmono
  linarith

theorem Takes.items_inOrder (hopen : l.opened = .ok o) (h : o.Takes c)
    (hextents : o.NonnegExtents) : InOrder c.items := by
  have hcons := h.items_consecutive hopen
  have hplaced := h.items_tile hopen
  have houtcome : c.outcome.NonnegExtents :=
    (hextents.congr h.base_options h.base_total h.base_book).keepsInputs (KeepsInputs.outcome c)
  constructor
  · refine hcons.pairwise_lt.imp_of_mem fun {x y} hx hy hlt => ?_
    obtain ⟨hposition, hsize⟩ := hplaced x hx
    rw [PlacedItem.finish, hposition, hsize, (hplaced y hy).1]
    exact houtcome.finish_le_placeFrom _ (hcons.index_bounds hx).1 hlt
  · intro x hx
    rw [(hplaced x hx).2]
    exact houtcome.size x.index

/-- A pass publishes a window in order. -/
theorem reflow_published_inOrder {report : PassReport Rat} {events : List (LayoutEvent Rat)}
    (hextents : l.NonnegExtents) (h : l.reflow = .ok (report, events, l')) :
    InOrder l'.published := by
  obtain ⟨moved, after, hpass, -, -, rfl⟩ := reflow_cases h
  obtain ⟨o, hopen, ⟨-, -, rfl⟩ | ⟨-, c, hcourse, -, rfl⟩⟩ := pass_cases hpass
  · exact .nil
  · obtain ⟨hoptions, -, htotal, hbook, -⟩ := opened_inputs hopen
    exact hcourse.items_inOrder hopen (hextents.congr hoptions htotal hbook)

/-- A pass leaves the last stable window in order: its own, or what the list still holds of the
one before. -/
theorem reflow_settled_inOrder {report : PassReport Rat} {events : List (LayoutEvent Rat)}
    (hextents : l.NonnegExtents) (hsettled : InOrder l.settled)
    (h : l.reflow = .ok (report, events, l')) : InOrder l'.settled := by
  rcases reflow_settled_cases h with ⟨-, hnew⟩ | ⟨-, hkept⟩
  · rw [hnew]
    exact reflow_published_inOrder hextents h
  · rw [hkept]
    exact hsettled.sublist List.filter_sublist

/-- Every request keeps the last stable window in order. -/
theorem Effect.settled_inOrder {r : Request Rat} (hl : Reachable l)
    (hmargins : l.book.NonnegMargins) (hsettled : InOrder l.settled) (h : Effect l r l') :
    InOrder l'.settled := by
  cases h with
  | forgotten => exact .nil
  | passed hreflow => exact reflow_settled_inOrder (hl.nonnegExtents hmargins) hsettled hreflow
  | _ => exact hsettled

/-! ## Clamping -/

theorem maxScrollPosition_nonneg (s : LayoutState Rat) : 0 ≤ s.maxScrollPosition :=
  (Scalar.le_max _ _).2

/-- If the last stable window is in order a pass clamps between bounds that are in order. -/
theorem not_mayCross_truncate (h : InOrder l.settled) : ¬l.truncate.MayCross := by
  rintro (⟨x, hx⟩ | ⟨head, tail, hhead, htail, hcrossed⟩)
  · exact hx (Scalar.le_max x 0).2
  · have htruncated : InOrder l.truncate.settled := h.sublist List.filter_sublist
    exact hcrossed (htruncated.head_le_finish hhead htail)

theorem Reachable.respond_exists_ok (hl : Reachable l) (hsettled : InOrder l.settled)
    (r : Request Rat) : ∃ answer l', l.respond r = .ok (answer, l') := by
  obtain ⟨⟨answer, l'⟩, h⟩ :=
    (hl.indexed.respond_okUnless r).exists_ok (not_mayCross_truncate hsettled)
  exact ⟨answer, l', h⟩

/-! ## Runs without negative margins -/

/-- In no state of a run there is a negative margin on record. -/
def NonnegMarginsThroughout (l : Layout Rat) (rs : List (Request Rat)) : Prop :=
  ∀ before l', before <+: rs → l.run before = .ok l' → l'.book.NonnegMargins

/-- The measurements that a request offers. -/
def Request.measurements {α : Type} : Request α → List (Nat × Measurement α)
  | .record i m => [(i, m)]
  | .recordAll ms => ms
  | _ => []

/-- What is measured without negative margins goes on record without any. -/
theorem recordAll_nonnegMargins {ms : List (Nat × Measurement Rat)}
    (hms : ∀ p ∈ ms, 0 ≤ p.2.margins.before ∧ 0 ≤ p.2.margins.after)
    (hl : l.book.NonnegMargins) : (l.recordAll ms).2.book.NonnegMargins := by
  induction ms generalizing l with
  | nil => exact hl
  | cons p rest ih =>
    obtain ⟨i, m⟩ := p
    obtain ⟨hm, hrest⟩ := List.forall_mem_cons.1 hms
    unfold recordAll
    by_cases hok : i < l.total ∧ m.isValid = true
    · obtain ⟨called, corrections, hrec, -⟩ := record_eq_ok hok.1 hok.2
      rw [hrec]
      refine ih (l := { l with book := l.book.enter i m, corrections }) hrest fun k m' hk => ?_
      rw [SizeBook.recorded?_enter] at hk
      split at hk
      · cases hk
        exact hm
      · exact hl k m' hk
    · obtain ⟨e, hrec⟩ := record_refused hok
      rw [hrec]
      exact hl

theorem respond_nonnegMargins {r : Request Rat} {answer : Answer Rat}
    (hr : ∀ p ∈ r.measurements, 0 ≤ p.2.margins.before ∧ 0 ≤ p.2.margins.after)
    (hl : l.book.NonnegMargins) (h : l.respond r = .ok (answer, l')) :
    l'.book.NonnegMargins := by
  -- A book that was cleared has nothing on record.
  have hclear : l.book.clear.NonnegMargins := fun i m hm => by simp at hm
  cases respond_effect h with
  | viewport _ _ hbook =>
    rcases hbook with rfl | rfl
    · exact hl
    · exact hclear
  | measured hms _ =>
    rcases hms with ⟨i, m, rfl⟩ | ⟨ms, rfl⟩
    · simp only [respond, Except.ok.injEq, Prod.mk.injEq] at h
      rw [← h.2, ← recordAll_singleton]
      exact recordAll_nonnegMargins hr hl
    · simp only [respond, Except.ok.injEq, Prod.mk.injEq] at h
      rw [← h.2]
      exact recordAll_nonnegMargins hr hl
  | forgotten => exact hclear
  | passed hreflow =>
    obtain ⟨items, hbook⟩ := (reflow_keepsInputs hreflow).book
    rw [hbook]
    refine List.foldlRecOn items _ hl fun b hb item _ i m hm => ?_
    rw [SizeBook.recorded?_noteEstimate] at hm
    exact hb i m hm
  | _ => exact hl

/-- If no negative margin is ever reported there is none on record. -/
theorem nonnegMarginsThroughout_of_requests {rs : List (Request Rat)}
    (hrs : ∀ r ∈ rs, ∀ p ∈ r.measurements, 0 ≤ p.2.margins.before ∧ 0 ≤ p.2.margins.after)
    (hl : l.book.NonnegMargins) : l.NonnegMarginsThroughout rs := by
  intro before l' hbefore h
  induction before generalizing l rs with
  | nil =>
    cases h
    exact hl
  | cons r rest ih =>
    obtain ⟨later, rfl⟩ := hbefore
    obtain ⟨hr, hrest⟩ := List.forall_mem_cons.1 hrs
    obtain ⟨⟨answer, l₁⟩, hrespond, h⟩ := bind_eq_ok.1 h
    exact ih hrest (respond_nonnegMargins hr hl hrespond) (List.prefix_append rest later) h

/-- What keeps requests from faulting, and is kept by every request as long as there is no negative
margin on record, holds at the end of a run without negative margins, which does not fault. -/
theorem NonnegMarginsThroughout.induction {P : Layout Rat → Prop} {rs : List (Request Rat)}
    (hmargins : l.NonnegMarginsThroughout rs) (hl : Reachable l) (hrs : ∀ r ∈ rs, r.Representable)
    (hP : P l)
    (hanswers : ∀ l, Reachable l → P l → ∀ r, ∃ answer l', l.respond r = .ok (answer, l'))
    (hstep : ∀ l r l', Reachable l → l.book.NonnegMargins → P l → Effect l r l' → P l') :
    ∃ l', l.run rs = .ok l' ∧ Reachable l' ∧ l'.book.NonnegMargins ∧ P l' := by
  have hnow : l.book.NonnegMargins := hmargins [] l List.nil_prefix rfl
  induction rs generalizing l with
  | nil => exact ⟨l, rfl, hl, hnow, hP⟩
  | cons r rest ih =>
    obtain ⟨hr, hrest⟩ := List.forall_mem_cons.1 hrs
    obtain ⟨answer, l₁, hrespond⟩ := hanswers l hl hP r
    have hlater : l₁.NonnegMarginsThroughout rest := fun before l' hbefore hrun =>
      hmargins (r :: before) l' (List.cons_prefix_cons.2 ⟨rfl, hbefore⟩)
        (bind_eq_ok.2 ⟨_, hrespond, hrun⟩)
    obtain ⟨l', hrun, hend⟩ := ih hlater (hl.step hr hrespond) hrest
      (hstep l r l₁ hl hnow hP (respond_effect hrespond)) (hlater [] l₁ List.nil_prefix rfl)
    exact ⟨l', bind_eq_ok.2 ⟨_, hrespond, hrun⟩, hend⟩

/-- A run without negative margins does not fault, and keeps the last stable window in order. -/
theorem run_inOrder {rs : List (Request Rat)} (hl : Reachable l) (hsettled : InOrder l.settled)
    (hrs : ∀ r ∈ rs, r.Representable) (hmargins : l.NonnegMarginsThroughout rs) :
    ∃ l', l.run rs = .ok l' ∧ Reachable l' ∧ InOrder l'.settled := by
  obtain ⟨l', hrun, hl', -, hsettled'⟩ := hmargins.induction hl hrs hsettled
    (fun l hl hsettled => hl.respond_exists_ok hsettled)
    fun l r l' hl hnow hsettled h => h.settled_inOrder hl hnow hsettled
  exact ⟨l', hrun, hl', hsettled'⟩

/-- In exact arithmetic a run of requests to a new layout goes through, as long as there is no
negative margin on record.  Where it ends

* what the list still holds of the last stable window does not end in front of where it starts,
  whatever has changed since that window was laid out;
* so every request that may come next is answered;
* and so is every query. -/
theorem run_answers {options : Options Rat} {l₀ : Layout Rat} {rs : List (Request Rat)}
    (hstart : ofOptions options = .ok l₀) (hrs : ∀ r ∈ rs, r.Representable)
    (hmargins : l₀.NonnegMarginsThroughout rs) :
    ∃ l, l₀.run rs = .ok l ∧
      (∀ head tail, l.truncate.settled.head? = some head →
        l.truncate.settled.getLast? = some tail → head.position ≤ tail.finish) ∧
      (∀ r, ∃ answer l', l.respond r = .ok (answer, l')) ∧
      (∀ i align, ∃ x, l.revealPosition i align = .ok x) ∧
      (∀ i, ∃ x, l.positionOf i = .ok x) ∧
      (∀ i align, ∃ settled, l.resolveAlign i align = .ok settled) ∧
      (∃ needed, l.needsPass = .ok needed) ∧
      (∀ r, l.range = some r → ∃ n, r.length = .ok n) := by
  have hnew : InOrder l₀.settled := by
    obtain ⟨u, -, h⟩ := bind_eq_ok.1 hstart
    cases h
    exact .nil
  obtain ⟨l, hrun, hl, hsettled⟩ := run_inOrder (.start hstart) hnew hrs hmargins
  have hindexed := hl.indexed
  have htruncated : InOrder l.truncate.settled := hsettled.sublist List.filter_sublist
  refine ⟨l, hrun, fun head tail => htruncated.head_le_finish, hl.respond_exists_ok hsettled,
    fun i align => ?_, hindexed.positionOf_exists_ok, hindexed.resolveAlign_exists_ok,
    hindexed.needsPass_exists_ok, fun r => hindexed.length_exists_ok⟩
  exact (hindexed.revealPosition_okUnless i align).exists_ok
    (not_not_intro (maxScrollPosition_nonneg _))

/-- A window settles, the gap becomes larger, a pass elsewhere is not stable, and the list is cut
off within the window that had settled. -/
theorem run_answers_of_cutOff : ∃ (l₀ l l' : Layout Rat) (rs : List (Request Rat))
    (answer : Answer Rat) (head tail : PlacedItem Rat),
    ofOptions (⟨10, 5, 2, .vertical, true, 1⟩ : Options Rat) = .ok l₀ ∧
      l₀.NonnegMarginsThroughout rs ∧ l₀.run rs = .ok l ∧ l.stable = false ∧ l.options.gap = 40 ∧
      l.truncate.settled.length < l.settled.length ∧ l.truncate.settled.head? = some head ∧
      l.truncate.settled.getLast? = some tail ∧ head.position ≤ tail.finish ∧
      l.respond .reflow = .ok (answer, l') := by
  let rs : List (Request Rat) := [.setTotal 20, .setViewport ⟨60, 30⟩, .reflow,
    .recordAll ((List.range 8).map fun i => (i, ⟨12, none, ⟨1, 2⟩⟩)), .reflow,
    .setOptions ⟨10, 5, 40, .vertical, true, 1⟩, .moveTo 600, .reflow, .setTotal 3, .moveTo 20]
  have htest : ((ofOptions (⟨10, 5, 2, .vertical, true, 1⟩ : Options Rat)).toOption.any fun l₀ =>
      decide l₀.book.NonnegMargins && (l₀.run rs).toOption.any fun l =>
        decide (l.stable = false ∧ l.options.gap = 40 ∧
          l.truncate.settled.length < l.settled.length ∧ l.truncate.settled ≠ [])) = true := by
    decide +kernel
  obtain ⟨l₀, hstart, htest⟩ := exists_ok_of_any htest
  obtain ⟨hnew, htest⟩ := Bool.and_eq_true_iff.1 htest
  obtain ⟨l, hrun, htest⟩ := exists_ok_of_any htest
  obtain ⟨hunstable, hgap, hcut, hkept⟩ := of_decide_eq_true htest
  have hmargins : l₀.NonnegMarginsThroughout rs :=
    nonnegMarginsThroughout_of_requests (by decide +kernel) (of_decide_eq_true hnew)
  obtain ⟨l₁, hrun₁, hordered, hanswers, -⟩ :=
    run_answers hstart (by simp [rs, Request.Representable, Index.limit]) hmargins
  obtain rfl : l = l₁ := Except.ok.inj (hrun.symm.trans hrun₁)
  have hhead := List.head?_eq_some_head hkept
  have htail := List.getLast?_eq_some_getLast hkept
  obtain ⟨answer, l', hpass⟩ := hanswers .reflow
  exact ⟨l₀, l, l', rs, answer, _, _, hstart, hmargins, hrun, hunstable, hgap, hcut, hhead, htail,
    hordered _ _ hhead htail, hpass⟩

end Layout

end VirtualList
