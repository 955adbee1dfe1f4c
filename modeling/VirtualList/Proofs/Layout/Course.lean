import VirtualList.Proofs.Layout.Anchor
import VirtualList.Proofs.Layout.Strip

/-!
# The course of a pass

Everything that a pass works out on its way, as one record with the equations that hold between
its parts.  A pass either finds nothing to lay out, or takes a `Course`; either way the layout
after it is given by a record update.  Statements about passes start from `pass_cases` and
`reflow_cases` and never unfold a pass again.

## Key results

- `layOut_takes`: a pass with a window takes a course
- `pass_cases`, `reflow_cases`: what a pass can do
- `Takes.reflow_eq`: a pass takes the course that there is
- `Takes.base_inputs`: the window is laid out for the inputs with which the pass began
- `Takes.spans`: the window of a course ends within the list and holds the anchor
-/

namespace VirtualList.Layout

variable {α : Type} [Scalar α]

/-- The layout with which a pass begins: what lies beyond the end of the list is forgotten, and
the extent is estimated. -/
def opened (l : Layout α) : Except Fault (Layout α) := do
  let scrollSize ← l.truncate.estimatedExtent
  return { l.truncate with scrollSize }

/-- The layout with which a pass goes on once it has an anchor from `source`. -/
def goingOnFrom (l : Layout α) (source : AnchorSource) : Layout α :=
  if source.startsAfresh then { l with corrections := ∅ } else l

/-- There is nothing to lay out. -/
def IsBlank (l : Layout α) : Prop := l.total = 0 ∨ (l.viewport.main == 0) = true

omit [Scalar α] in
/-- Going on from an anchor may drop corrections, and nothing else. -/
theorem goingOnFrom_eq (l : Layout α) (source : AnchorSource) :
    ∃ corrections, l.goingOnFrom source = { l with corrections } := by
  unfold goingOnFrom
  split
  · exact ⟨∅, rfl⟩
  · exact ⟨l.corrections, rfl⟩

theorem opened_eq_ok {l o : Layout α} (h : l.opened = .ok o) :
    ∃ scrollSize, l.truncate.estimatedExtent = .ok scrollSize ∧
      o = { l.truncate with scrollSize } := by
  simp only [opened, bind_eq_ok] at h
  obtain ⟨scrollSize, hsize, h⟩ := h
  cases h
  exact ⟨scrollSize, hsize, rfl⟩

end Layout

/-- What a pass with a window works out. -/
structure Course (α : Type) where
  /-- The layout that the window is laid out for. -/
  base : Layout α
  anchor : Anchor α
  source : AnchorSource
  /-- The scroll position at which the anchor was chosen. -/
  chosenAt : ScrollTrack α
  footing : Footing α
  /-- The window before it is moved to its place. -/
  strip : Strip α
  scrollSize : α
  /-- The scroll position at the end. -/
  scroll : ScrollTrack α
  firstVisible : PlacedItem α
  lastVisible : PlacedItem α

namespace Course

variable {α : Type} [Scalar α]

/-- How far the stretch to fill was moved to reach the anchor. -/
def drift (c : Course α) : α := c.footing.drift (c.base.boundsAt c.chosenAt.position)

/-- How far the window was moved to its place. -/
def offset (c : Course α) : α :=
  if c.strip.stable then
    c.base.settlingOffset (c.base.total - 1) c.source c.anchor.index c.strip
  else 0

/-- The anchor in its place. -/
def placed (c : Course α) : Anchor α :=
  { c.footing.anchor with position := c.footing.anchor.position + c.offset }

/-- The items in their places. -/
def items (c : Course α) : List (PlacedItem α) := c.strip.items.map (·.shift c.offset)

/-- The layout after the pass. -/
def outcome (c : Course α) : Layout α :=
  { c.base with
    range := some ⟨c.strip.first, c.strip.last, c.firstVisible.index, c.lastVisible.index⟩
    scrollPosition := c.scroll.position
    scrollSize := c.scrollSize
    anchor := some c.placed
    stable := c.strip.stable
    book := c.items.foldl (fun book item => book.noteEstimate item.index item.size) c.base.book
    published := c.items
    settled := if c.strip.stable then c.items else c.base.settled
    retained := if c.strip.stable then none else some c.placed
    corrections := if c.strip.stable then ∅ else c.base.corrections
    pin := if c.strip.stable then none else c.base.pin }

end Course

namespace Layout

variable {α : Type} [Scalar α]

/-- A pass that begins with layout `o` takes the course `c`. -/
structure Takes (o : Layout α) (c : Course α) : Prop where
  base_eq : c.base = o.goingOnFrom c.source
  pos_total : 0 < o.total
  choose : o.chooseAnchor = .ok (c.anchor, c.source, c.chosenAt)
  footing : c.base.footing c.anchor = .ok c.footing
  grow : c.base.growWindow (c.base.total - 1) c.footing
    ((c.base.boundsAt c.chosenAt.position).shift c.drift) = .ok c.strip
  extent : c.base.extentFrom (c.base.total - 1) c.strip.last (c.strip.upper + c.offset) =
    .ok c.scrollSize
  realign : { c.base with scrollSize := c.scrollSize }.realigned c.source c.placed c.footing.size
    ((c.chosenAt.shift c.drift).shift c.offset) = .ok c.scroll
  visible : visibleEnds c.items c.scroll.position c.base.viewport.main =
    some (c.firstVisible, c.lastVisible)

/-- What publishing a window changes. -/
theorem publish_eq_ok {l l' : Layout α} {s : Strip α} {a : Anchor α} {scroll : ScrollTrack α}
    (h : l.publish s a scroll = .ok l') :
    ∃ x y, visibleEnds s.items scroll.position l.viewport.main = some (x, y) ∧ l' = { l with
      range := some ⟨s.first, s.last, x.index, y.index⟩
      scrollPosition := scroll.position
      anchor := some a
      stable := s.stable
      book := s.items.foldl (fun book item => book.noteEstimate item.index item.size) l.book
      published := s.items
      settled := if s.stable then s.items else l.settled
      retained := if s.stable then none else some a
      pin := if s.stable then none else l.pin } := by
  unfold publish at h
  split at h
  · cases h
  · rename_i x y hends
    cases h
    exact ⟨x, y, hends, rfl⟩

/-- A pass with a window takes a course. -/
theorem layOut_takes {o l' : Layout α} {moved : α} (h : o.layOut = .ok (moved, l')) :
    ∃ c : Course α, o.Takes c ∧ moved = c.scroll.moved ∧ l' = c.outcome := by
  simp only [layOut, lastIndex, bind_eq_ok, Index.sub_eq_ok_iff] at h
  obtain ⟨final, ⟨hpos, rfl⟩, ⟨anchor, source, chosenAt⟩, hchoose, h⟩ := h
  have hbase : (if source.startsAfresh = true then { o with corrections := ∅ } else o) =
      o.goingOnFrom source := rfl
  simp only [hbase] at h
  obtain ⟨footing, hfooting, strip, hgrow, scrollSize, hsize, scroll, hscroll, l₂, hpublish, h⟩ := h
  cases h
  -- From here on everything is about the layout that the pass goes on with.  It has the same list
  -- and the same viewport as the one that the pass began with.
  obtain ⟨corrections, heq⟩ := o.goingOnFrom_eq source
  have hbounds : o.boundsAt chosenAt.position = (o.goingOnFrom source).boundsAt chosenAt.position := by
    rw [heq]
    rfl
  have htotal : o.total = (o.goingOnFrom source).total := by rw [heq]
  rw [hbounds, htotal] at hgrow
  rw [htotal] at hsize
  rw [hbounds, htotal] at hscroll
  rw [htotal] at hpublish
  obtain ⟨x, y, hends, hl'⟩ := publish_eq_ok hpublish
  exact ⟨⟨o.goingOnFrom source, anchor, source, chosenAt, footing, strip, scrollSize, scroll, x, y⟩,
    ⟨rfl, hpos, hchoose, hfooting, hgrow, hsize, hscroll, hends⟩, rfl, hl'⟩

/-- A window with a visible part is published. -/
theorem publish_of_visible {l : Layout α} {s : Strip α} {a : Anchor α} {scroll : ScrollTrack α}
    {x y : PlacedItem α}
    (h : visibleEnds s.items scroll.position l.viewport.main = some (x, y)) :
    l.publish s a scroll = .ok { l with
      range := some ⟨s.first, s.last, x.index, y.index⟩
      scrollPosition := scroll.position
      anchor := some a
      stable := s.stable
      book := s.items.foldl (fun book item => book.noteEstimate item.index item.size) l.book
      published := s.items
      settled := if s.stable then s.items else l.settled
      retained := if s.stable then none else some a
      pin := if s.stable then none else l.pin } := by
  unfold publish
  rw [h]

/-- A course that can be taken is taken. -/
theorem Takes.layOut_eq {o : Layout α} {c : Course α} (h : o.Takes c) :
    o.layOut = .ok (c.scroll.moved, c.outcome) := by
  have htotal : o.total = c.base.total := by
    obtain ⟨corrections, heq⟩ := o.goingOnFrom_eq c.source
    rw [h.base_eq, heq]
  have hbounds : o.boundsAt c.chosenAt.position = c.base.boundsAt c.chosenAt.position := by
    obtain ⟨corrections, heq⟩ := o.goingOnFrom_eq c.source
    rw [h.base_eq, heq]
    rfl
  have hbase : (if c.source.startsAfresh = true then { o with corrections := ∅ } else o) =
      c.base := h.base_eq.symm
  simp only [layOut, lastIndex, bind_eq_ok, Index.sub_eq_ok_iff]
  refine ⟨o.total - 1, ⟨h.pos_total, rfl⟩, (c.anchor, c.source, c.chosenAt), h.choose, ?_⟩
  simp only [hbase]
  simp only [htotal, hbounds]
  refine ⟨c.footing, h.footing, c.strip, h.grow, c.scrollSize, h.extent, c.scroll, h.realign,
    c.outcome, ?_, rfl⟩
  exact publish_of_visible h.visible

/-- A pass begins with a layout, and then finds nothing to lay out or takes a course. -/
theorem pass_cases {l l' : Layout α} {moved : α} (h : l.pass = .ok (moved, l')) :
    ∃ o, l.opened = .ok o ∧
      ((o.IsBlank ∧ moved = 0 ∧ l' = o.publishNothing) ∨
        (¬o.IsBlank ∧ ∃ c : Course α, o.Takes c ∧ moved = c.scroll.moved ∧ l' = c.outcome)) := by
  simp only [pass, bind_eq_ok] at h
  obtain ⟨scrollSize, hsize, h⟩ := h
  refine ⟨{ l.truncate with scrollSize }, ?_, ?_⟩
  · simp only [opened, bind_eq_ok]
    exact ⟨scrollSize, hsize, rfl⟩
  · split at h
    · rename_i hblank
      cases h
      exact Or.inl ⟨hblank, rfl, rfl⟩
    · rename_i hblank
      exact Or.inr ⟨hblank, layOut_takes h⟩

/-- What the host sees of a pass. -/
theorem reflow_cases {l l' : Layout α} {report : PassReport α} {events : List (LayoutEvent α)}
    (h : l.reflow = .ok (report, events, l')) :
    ∃ moved after, l.pass = .ok (moved, after) ∧
      report = ⟨after.range, after.stable, moved, after.scrollSize⟩ ∧
      events = Layout.events l after after.remeasure moved ∧
      l' = { after with remeasure := false } := by
  simp only [reflow, bind_eq_ok] at h
  obtain ⟨⟨moved, after⟩, hpass, h⟩ := h
  cases h
  exact ⟨moved, after, hpass, rfl, rfl, rfl⟩

/-- If there is something to lay out and a course can be taken, a pass takes it. -/
theorem Takes.reflow_eq {l o : Layout α} {c : Course α} (hopen : l.opened = .ok o)
    (hfull : ¬o.IsBlank) (h : o.Takes c) :
    l.reflow = .ok (⟨c.outcome.range, c.outcome.stable, c.scroll.moved, c.outcome.scrollSize⟩,
      events l c.outcome c.outcome.remeasure c.scroll.moved,
      { c.outcome with remeasure := false }) := by
  obtain ⟨scrollSize, hsize, rfl⟩ := opened_eq_ok hopen
  have hpass : l.pass = .ok (c.scroll.moved, c.outcome) := by
    simp only [pass, bind_eq_ok]
    refine ⟨scrollSize, hsize, ?_⟩
    split
    · rename_i hblank
      exact absurd hblank hfull
    · exact h.layOut_eq
  simp only [reflow, bind_eq_ok]
  exact ⟨_, hpass, rfl⟩

/-- A pass begins with the inputs as they are. -/
theorem opened_inputs {l o : Layout α} (h : l.opened = .ok o) :
    o.options = l.options ∧ o.viewport = l.viewport ∧ o.total = l.total ∧ o.book = l.book ∧
      o.pin = l.pin := by
  obtain ⟨_, -, rfl⟩ := opened_eq_ok h
  exact ⟨rfl, rfl, rfl, rfl, rfl⟩

/-- If there is something to lay out, a pass takes a course. -/
theorem reflow_takes {l l' : Layout α} {report : PassReport α} {events : List (LayoutEvent α)}
    (hfull : ¬l.IsBlank) (h : l.reflow = .ok (report, events, l')) :
    ∃ o c, l.opened = .ok o ∧ o.Takes c ∧ l' = { c.outcome with remeasure := false } := by
  obtain ⟨moved, after, hpass, -, -, rfl⟩ := reflow_cases h
  obtain ⟨o, hopen, ⟨hblank, -⟩ | ⟨-, c, hcourse, -, rfl⟩⟩ := pass_cases hpass
  · -- Opening a pass does not empty the list or the viewport.
    obtain ⟨-, hviewport, htotal, -⟩ := opened_inputs hopen
    rw [IsBlank, hviewport, htotal] at hblank
    exact absurd hblank hfull
  · exact ⟨o, c, hopen, hcourse, rfl⟩

/-- A pass that leaves a window took a course. -/
theorem reflow_takes_of_range {l l' : Layout α} {report : PassReport α}
    {events : List (LayoutEvent α)} (hrange : l'.range ≠ none)
    (h : l.reflow = .ok (report, events, l')) :
    ∃ o c, l.opened = .ok o ∧ o.Takes c ∧ l' = { c.outcome with remeasure := false } := by
  obtain ⟨moved, after, hpass, -, -, rfl⟩ := reflow_cases h
  obtain ⟨o, hopen, ⟨-, -, rfl⟩ | ⟨-, c, hcourse, -, rfl⟩⟩ := pass_cases hpass
  · exact absurd rfl hrange
  · exact ⟨o, c, hopen, hcourse, rfl⟩

/-- A pass begins with what is left of the last stable window in the list. -/
theorem opened_settled_lt {l o : Layout α} (h : l.opened = .ok o) :
    ∀ item ∈ o.settled, item.index < o.total := by
  obtain ⟨_, -, rfl⟩ := opened_eq_ok h
  intro item hitem
  exact of_decide_eq_true (List.mem_filter.1 hitem).2

/-! ## The window of a course -/

namespace Takes

variable {o : Layout α} {c : Course α}

/-- The layout that a pass goes on with differs in its corrections only. -/
theorem base_fields (h : o.Takes c) : ∃ corrections, c.base = { o with corrections } := by
  rw [h.base_eq]
  exact o.goingOnFrom_eq c.source

theorem base_book (h : o.Takes c) : c.base.book = o.book := by
  obtain ⟨corrections, heq⟩ := h.base_fields
  rw [heq]

theorem base_total (h : o.Takes c) : c.base.total = o.total := by
  obtain ⟨corrections, heq⟩ := h.base_fields
  rw [heq]

theorem base_options (h : o.Takes c) : c.base.options = o.options := by
  obtain ⟨corrections, heq⟩ := h.base_fields
  rw [heq]

theorem base_viewport (h : o.Takes c) : c.base.viewport = o.viewport := by
  obtain ⟨corrections, heq⟩ := h.base_fields
  rw [heq]

/-- The window is laid out for the inputs with which the pass began. -/
theorem base_inputs {l : Layout α} (hopen : l.opened = .ok o) (h : o.Takes c) :
    c.base.options = l.options ∧ c.base.viewport = l.viewport ∧ c.base.total = l.total ∧
      c.base.book = l.book := by
  obtain ⟨hoptions, hviewport, htotal, hbook, -⟩ := opened_inputs hopen
  exact ⟨h.base_options.trans hoptions, h.base_viewport.trans hviewport,
    h.base_total.trans htotal, h.base_book.trans hbook⟩

/-- The footing is that of the anchor chosen. -/
theorem footing_index (h : o.Takes c) : c.footing.anchor.index = c.anchor.index := by
  rw [(footing_eq_ok h.footing).2]

/-- The anchor of a pass is an item of the list. -/
theorem anchor_lt {l : Layout α} (hopen : l.opened = .ok o) (h : o.Takes c) :
    c.anchor.index < o.total :=
  chooseAnchor_index_lt (opened_settled_lt hopen) h.choose

/-- The window spans the anchor and ends within the list. -/
theorem spans {l : Layout α} (hopen : l.opened = .ok o) (h : o.Takes c) :
    c.base.Spans (c.base.total - 1) c.footing c.strip := by
  have hlt := h.anchor_lt hopen
  refine growWindow_spans h.grow ?_
  rw [h.footing_index, h.base_total]
  omega

end Takes

end VirtualList.Layout
