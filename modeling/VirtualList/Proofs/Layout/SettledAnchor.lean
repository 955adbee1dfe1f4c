import VirtualList.Proofs.Bisection
import VirtualList.Proofs.Layout.Rest
import VirtualList.Proofs.Layout.SettledOrder

/-!
# The anchor from the last stable window

A pass that takes its anchor from the last stable window searches it by bisection for the item at
the scroll position.  Without negative margins the items of that window lie one behind the other, so
their ends do not decrease and the search finds what a look at one item after the other would find:
the first item that ends behind the scroll position, or the last one if there is none.  Items
without a size, and ends that the scroll position meets exactly, make no difference.

## Key results

- `itemAt?`, `getElem?_min_bisect`: the item at a position, and that the search finds it
- `freeAnchor_settled_iff`, `settledAnchor?_eq_some_iff`: when the last stable window is used, and
  for which item
- `lastStable`, `run_settled_prefix`: the window that the last stable pass of a run published, and
  that nothing but its end is ever lost
- `settled_anchor_at_target`: the anchor of every pass that uses that window
-/

namespace VirtualList

variable {items : List (PlacedItem Rat)}

/-! ## The item at a position -/

/-- The first item that ends behind `target`, or the last item if none does. -/
def itemAt? (target : Rat) (items : List (PlacedItem Rat)) : Option (PlacedItem Rat) :=
  (items.find? fun x => decide (target < x.finish)).or items.getLast?

/-- If the ends do not decrease, the search by bisection finds the item at a position. -/
theorem getElem?_min_bisect (h : items.Pairwise fun x y => x.finish ≤ y.finish) (target : Rat) :
    items[min (bisect (fun x => decide (x.finish ≤ target)) items) (items.length - 1)]? =
      itemAt? target items := by
  have hsplits : SplitsAt (fun x : PlacedItem Rat => decide (x.finish ≤ target)) items
      (bisect (fun x => decide (x.finish ≤ target)) items) := by
    apply splitsAt_bisect
    apply h.imp
    intro x y hxy hy
    rw [decide_eq_true_iff] at hy ⊢
    exact hxy.trans hy
  generalize bisect (fun x : PlacedItem Rat => decide (x.finish ≤ target)) items = n at hsplits ⊢
  have hfind : (items.find? fun x => decide (target < x.finish)) = items[n]? := by
    rw [← hsplits.find?_not]
    congr
    funext x
    rw [← decide_not]
    simp only [not_le]
  have hlength := hsplits.le_length
  rw [itemAt?, hfind]
  by_cases hn : n < items.length
  · rw [Nat.min_eq_left (by omega), List.getElem?_eq_getElem hn, Option.some_or]
  · -- Every item ends at the target or in front of it.
    rw [Nat.min_eq_right (by omega), List.getElem?_eq_none (Nat.le_of_not_lt hn), Option.none_or,
      List.getLast?_eq_getElem?]

/-- The ends of items in order do not decrease. -/
theorem InOrder.finish_mono (h : InOrder items) : items.Pairwise fun x y => x.finish ≤ y.finish := by
  apply h.pairwise.imp_of_mem
  intro x y _ hy hxy
  have hsize := h.size_nonneg y hy
  exact hxy.trans (le_add_of_nonneg_right hsize)

namespace Layout

/-! ## When the last stable window is used -/

section

variable {α : Type} [Scalar α] {l : Layout α} {a : Anchor α} {scroll : ScrollTrack α}

/-- An anchor comes from the last stable window iff that offers one and none was retained that is
still of use. -/
theorem freeAnchor_settled_iff : l.freeAnchor scroll = .ok (a, .settled) ↔
    (∀ kept, l.retained = some kept → kept.index < l.total →
      l.overlaps kept (l.boundsAt scroll.position) = false) ∧
    l.settledAnchor? scroll.position (l.boundsAt scroll.position) = .ok (some a) := by
  simp only [freeAnchor]
  split
  · rename_i kept hkept
    obtain ⟨hretained, husable⟩ := Option.filter_eq_some_iff.1 hkept
    simp only [Bool.and_eq_true, decide_eq_true_eq] at husable
    constructor
    · intro h
      cases h
    · rintro ⟨hnone, -⟩
      rw [hnone kept hretained husable.1] at husable
      cases husable.2
  · rename_i hunusable
    rw [bind_eq_ok]
    constructor
    · rintro ⟨found, hfound, h⟩
      cases found with
      | some item =>
        cases h
        refine ⟨fun kept hretained hlt => ?_, hfound⟩
        rw [hretained, Option.filter_eq_none_iff] at hunusable
        simpa [hlt] using hunusable kept rfl
      | none =>
        -- Without an item from the window the averages are asked.
        simp only [bind_eq_ok] at h
        obtain ⟨final, -, position, -, h⟩ := h
        cases h
    · rintro ⟨-, hfound⟩
      exact ⟨some a, hfound, rfl⟩

/-- Only a pass without a pinned item takes its anchor from the last stable window. -/
theorem chooseAnchor_settled_iff : l.chooseAnchor = .ok (a, .settled, scroll) ↔
    l.pin = none ∧ l.clampedScroll = .ok scroll ∧ l.freeAnchor scroll = .ok (a, .settled) := by
  constructor
  · intro h
    rcases chooseAnchor_cases h with ⟨t, -, hsource, -⟩ | hfree
    · cases hsource
    · exact hfree
  · rintro ⟨hpin, hscroll, hfree⟩
    unfold chooseAnchor
    rw [hpin]
    exact bind_eq_ok.2 ⟨_, hscroll, bind_eq_ok.2 ⟨_, hfree, rfl⟩⟩

/-- The last stable window offers an anchor only if it reaches into the stretch. -/
theorem settledAnchor?_reaches {position : α} {b : Bounds α}
    (h : l.settledAnchor? position b = .ok (some a)) :
    ∃ head tail, l.settled.head? = some head ∧ l.settled.getLast? = some tail ∧
      head.position ≤ b.upper ∧ b.lower ≤ tail.finish := by
  unfold settledAnchor? at h
  split at h
  · rename_i head tail hhead htail
    split at h
    · rename_i hreaches
      exact ⟨head, tail, hhead, htail, hreaches⟩
    · cases h
  · cases h

end

/-- If the last stable window is in order it offers its item at the scroll position, confined to
the window, as soon as it reaches into the stretch. -/
theorem settledAnchor?_eq_some_iff {l : Layout Rat} {a : Anchor Rat} {position : Rat}
    {b : Bounds Rat} (h : InOrder l.settled) :
    l.settledAnchor? position b = .ok (some a) ↔
      ∃ head tail item, l.settled.head? = some head ∧ l.settled.getLast? = some tail ∧
        head.position ≤ b.upper ∧ b.lower ≤ tail.finish ∧
        itemAt? (Scalar.confine position head.position tail.finish) l.settled = some item ∧
        a = ⟨item.index, item.position⟩ := by
  constructor
  · intro hfound
    obtain ⟨head, tail, hhead, htail, hlower, hupper⟩ := settledAnchor?_reaches hfound
    obtain ⟨item, hitem, hanchor⟩ :=
      settledAnchor?_eq position hhead htail hlower hupper (h.head_le_finish hhead htail)
    rw [getElem?_min_bisect h.finish_mono] at hitem
    rw [hanchor] at hfound
    cases hfound
    exact ⟨head, tail, item, hhead, htail, hlower, hupper, hitem, rfl⟩
  · rintro ⟨head, tail, item, hhead, htail, hlower, hupper, hitem, rfl⟩
    obtain ⟨item', hitem', hanchor⟩ :=
      settledAnchor?_eq position hhead htail hlower hupper (h.head_le_finish hhead htail)
    rw [getElem?_min_bisect h.finish_mono, hitem] at hitem'
    cases hitem'
    exact hanchor

/-! ## The window of the last stable pass -/

section

variable {α : Type} [Scalar α] {l l' : Layout α} {since : List (PlacedItem α)}

/-- What the last stable pass has published once a request is answered, where `since` is what it
was before and `l'` the layout afterwards. -/
def Answer.lastStable {α : Type} (since : List (PlacedItem α)) (l' : Layout α) :
    Answer α → List (PlacedItem α)
  | .passed report _ => if report.stable then l'.published else since
  | _ => since

/-- What the last stable pass of a run has published, where `since` is what it was before. -/
def lastStable (l : Layout α) (since : List (PlacedItem α)) :
    List (Request α) → List (PlacedItem α)
  | [] => since
  | r :: rest =>
    match l.respond r with
    | .ok (answer, l') => lastStable l' (answer.lastStable since l') rest
    | .error _ => since

/-- Only a pass publishes a window. -/
theorem lastStable_of_ne_reflow {r : Request α} {answer : Answer α} (hr : r ≠ .reflow)
    (h : l.respond r = .ok (answer, l')) : answer.lastStable since l' = since := by
  have hanswer {β : Type} (f : β → Answer α) (hf : ∀ b, (f b).lastStable since l' = since)
      (x : Except (InputError α) β) : (Answer.ofExcept f x).lastStable since l' = since := by
    cases x with
    | error e => rfl
    | ok b => exact hf b
  cases r <;> simp only [respond, Except.ok.injEq, Prod.mk.injEq] at h
  case reflow => exact absurd rfl hr
  case pinTo i align =>
    obtain ⟨l₁, -, h⟩ := bind_eq_ok.1 h
    cases h
    rfl
  all_goals obtain ⟨rfl, -⟩ := h
  case setTotal | unpin | forget | refreshVisible => rfl
  all_goals exact hanswer _ (fun _ => rfl) _

/-- Whatever is asked of a layout, only the end of what it holds of the last stable window is ever
lost. -/
theorem respond_settled_prefix {r : Request α} {answer : Answer α}
    (hl : ∃ first, Consecutive l.settled first) (hsince : l.settled <+: since)
    (h : l.respond r = .ok (answer, l')) : l'.settled <+: answer.lastStable since l' := by
  by_cases hr : r = .reflow
  · subst hr
    obtain ⟨⟨report, events, l₁⟩, hreflow, h⟩ := bind_eq_ok.1 h
    cases h
    rcases reflow_settled_cases hreflow with ⟨hstable, hsettled⟩ | ⟨hunstable, hsettled⟩
    · simp [Answer.lastStable, hstable, hsettled]
    · obtain ⟨first, hconsecutive⟩ := hl
      have hcut := (hconsecutive.filter_lt_prefix l.total).trans hsince
      simpa [Answer.lastStable, hunstable, hsettled] using hcut
  · rw [lastStable_of_ne_reflow hr h]
    cases respond_effect h with
    | forgotten => exact List.nil_prefix
    | passed => exact absurd rfl hr
    | _ => exact hsince

/-- After a run a layout holds what the last stable pass published, up to some item. -/
theorem run_settled_prefix {rs : List (Request α)} (hl : Reachable l)
    (hrs : ∀ r ∈ rs, r.Representable) (hsince : l.settled <+: since) (h : l.run rs = .ok l') :
    l'.settled <+: l.lastStable since rs := by
  induction rs generalizing l since with
  | nil =>
    cases h
    exact hsince
  | cons r rest ih =>
    obtain ⟨hr, hrest⟩ := List.forall_mem_cons.1 hrs
    obtain ⟨⟨answer, l₁⟩, hrespond, h⟩ := bind_eq_ok.1 h
    have hstep := respond_settled_prefix hl.consistent.settled_consecutive hsince hrespond
    simp only [lastStable, hrespond]
    exact ih (hl.step hr hrespond) hrest hstep h

end

/-! ## The anchor of a pass -/

/-- In exact arithmetic and without negative margins, a pass at the end of a run takes its anchor
from the last stable window iff no item is pinned, no anchor was retained that is still in reach,
and the window reaches into the stretch to fill.  The anchor is then the first item of the window
that ends behind the scroll position, confined to the window, or the last item if there is none.
What is searched is what the last stable pass published, up to where the list has ended since, and
the ends do not decrease. -/
theorem settled_anchor_at_target {options : Options Rat} {l₀ : Layout Rat} {rs : List (Request Rat)}
    (hstart : ofOptions options = .ok l₀) (hrs : ∀ r ∈ rs, r.Representable)
    (hmargins : l₀.NonnegMarginsThroughout rs) :
    ∃ l o, l₀.run rs = .ok l ∧ l.opened = .ok o ∧ o.settled <+: l₀.lastStable [] rs ∧
      (o.settled.Pairwise fun x y => x.finish ≤ y.finish) ∧
      ∀ a scroll, o.chooseAnchor = .ok (a, .settled, scroll) ↔
        o.pin = none ∧ o.clampedScroll = .ok scroll ∧
        (∀ kept, o.retained = some kept → kept.index < o.total →
          o.overlaps kept (o.boundsAt scroll.position) = false) ∧
        ∃ head tail item, o.settled.head? = some head ∧ o.settled.getLast? = some tail ∧
          head.position ≤ (o.boundsAt scroll.position).upper ∧
          (o.boundsAt scroll.position).lower ≤ tail.finish ∧
          itemAt? (Scalar.confine scroll.position head.position tail.finish) o.settled = some item ∧
          a = ⟨item.index, item.position⟩ := by
  have hnew : l₀.settled = [] := by
    obtain ⟨u, -, h⟩ := bind_eq_ok.1 hstart
    cases h
    rfl
  have hfirst : InOrder l₀.settled := by
    rw [hnew]
    exact .nil
  obtain ⟨l, hrun, hl, hsettled⟩ := run_inOrder (.start hstart) hfirst hrs hmargins
  obtain ⟨o, hopen⟩ := opened_exists_ok hl.indexed.total_le
  have hbegins : l.settled <+: l₀.lastStable [] rs :=
    run_settled_prefix (.start hstart) hrs (by rw [hnew]) hrun
  have hordered : InOrder o.settled := by
    rw [opened_settled hopen]
    exact hsettled.sublist List.filter_sublist
  have hkept : o.settled <+: l.settled := by
    obtain ⟨first, hconsecutive⟩ := hl.consistent.settled_consecutive
    rw [opened_settled hopen]
    exact hconsecutive.filter_lt_prefix l.total
  refine ⟨l, o, hrun, hopen, hkept.trans hbegins, hordered.finish_mono, fun a scroll => ?_⟩
  rw [chooseAnchor_settled_iff, freeAnchor_settled_iff, settledAnchor?_eq_some_iff hordered]

/-- The list is cut off within the window, and the scroll position is where item 2 ends, with two
items behind it that have no size. -/
theorem settled_anchor_at_target_of_emptyItems : ∃ (l₀ l o : Layout Rat) (rs : List (Request Rat))
    (scroll : ScrollTrack Rat) (head tail item : PlacedItem Rat),
    ofOptions (⟨10, 25, 0, .vertical, true, 1⟩ : Options Rat) = .ok l₀ ∧
      l₀.NonnegMarginsThroughout rs ∧ l₀.run rs = .ok l ∧ l.opened = .ok o ∧
      o.settled.length < (l₀.lastStable [] rs).length ∧ o.settled <+: l₀.lastStable [] rs ∧
      o.chooseAnchor = .ok (⟨item.index, item.position⟩, .settled, scroll) ∧
      o.settled.head? = some head ∧ o.settled.getLast? = some tail ∧
      itemAt? (Scalar.confine scroll.position head.position tail.finish) o.settled = some item ∧
      (o.settled.map PlacedItem.finish).count scroll.position = 3 ∧ item.index = 5 := by
  let rs : List (Request Rat) := [.setTotal 20, .setViewport ⟨10, 30⟩, .reflow,
    .recordAll ((List.range 12).map fun i => (i, ⟨if i = 3 ∨ i = 4 then 0 else 12, none, .zero⟩)),
    .reflow, .moveTo 15, .reflow, .setTotal 6, .moveTo 36]
  have htest : ((ofOptions (⟨10, 25, 0, .vertical, true, 1⟩ : Options Rat)).toOption.any fun l₀ =>
      decide l₀.book.NonnegMargins && (l₀.run rs).toOption.any fun l => l.opened.toOption.any fun o =>
        decide (o.settled.length < (l₀.lastStable [] rs).length) &&
          o.chooseAnchor.toOption.any fun (a, source, scroll) =>
            decide (source = .settled ∧ a.index = 5 ∧
              (o.settled.map PlacedItem.finish).count scroll.position = 3)) = true := by
    decide +kernel
  obtain ⟨l₀, hstart, htest⟩ := exists_ok_of_any htest
  obtain ⟨hnew, htest⟩ := Bool.and_eq_true_iff.1 htest
  obtain ⟨l, hrun, htest⟩ := exists_ok_of_any htest
  obtain ⟨o, hopen, htest⟩ := exists_ok_of_any htest
  obtain ⟨hcut, htest⟩ := Bool.and_eq_true_iff.1 htest
  obtain ⟨⟨a, source, scroll⟩, hchoose, htest⟩ := exists_ok_of_any htest
  obtain ⟨rfl, hindex, hties⟩ := of_decide_eq_true htest
  have hmargins : l₀.NonnegMarginsThroughout rs :=
    nonnegMarginsThroughout_of_requests (by decide +kernel) (of_decide_eq_true hnew)
  obtain ⟨l', o', hrun', hopen', hkept, -, hanchor⟩ :=
    settled_anchor_at_target hstart (by simp [rs, Request.Representable, Index.limit]) hmargins
  obtain rfl : l = l' := Except.ok.inj (hrun.symm.trans hrun')
  obtain rfl : o = o' := Except.ok.inj (hopen.symm.trans hopen')
  obtain ⟨-, -, -, head, tail, item, hhead, htail, -, -, hitem, rfl⟩ := (hanchor a scroll).1 hchoose
  exact ⟨l₀, l, o, rs, scroll, head, tail, item, hstart, hmargins, hrun, hopen,
    of_decide_eq_true hcut, hkept, hchoose, hhead, htail, hitem, hties, hindex⟩

end Layout

end VirtualList
