import VirtualList.Json.Value
import VirtualList.Layout.Basic
import VirtualList.Scheduler
import VirtualList.Tween

/-!
# Stored forms

The stored form of every plain value that a host may want to keep: options, measurements, the
state of a layout and what it consists of.
-/

namespace VirtualList

open Json Storable

/-! ## Plain alternatives -/

/-- The alignments by name. -/
def Align.named : List (String × Align) :=
  [("Start", .start), ("Center", .center), ("End", .finish), ("Nearest", .nearest)]

/-- The axes by name. -/
def Axis.named : List (String × Axis) := [("Vertical", .vertical), ("Horizontal", .horizontal)]

/-- The easings by name. -/
def Easing.named : List (String × Easing) :=
  [("Linear", .linear), ("SmoothStep", .smoothStep), ("EaseInOutCubic", .easeInOutCubic)]

/-- The name of an alignment. -/
def Align.name : Align → String
  | start => "Start"
  | center => "Center"
  | finish => "End"
  | nearest => "Nearest"

/-- The name of an axis. -/
def Axis.name : Axis → String
  | vertical => "Vertical"
  | horizontal => "Horizontal"

/-- The name of an easing. -/
def Easing.name : Easing → String
  | linear => "Linear"
  | smoothStep => "SmoothStep"
  | easeInOutCubic => "EaseInOutCubic"

instance : Storable Align := ⟨fun a => .string a.name, alternative? Align.named⟩

instance : Storable Axis := ⟨fun a => .string a.name, alternative? Axis.named⟩

instance : Storable Easing := ⟨fun e => .string e.name, alternative? Easing.named⟩

instance : Storable SchedulerState where
  toJson s := .string s.name
  ofJson? := alternative? [("Idle", .idle), ("Pending", .pending)]

/-! ## Sizes and measurements -/

/-- A set of reasons is stored as the number that its bits make. -/
instance : Storable Reasons where
  toJson r := .ofNat r.bits.toNat
  ofJson? value := (natural? 255 value).map fun n => ⟨n⟩

instance : Storable (Size Float) where
  toJson
    | .estimated v => .object [("Estimated", .real v)]
    | .measured v => .object [("Measured", .real v)]
  ofJson?
    | .object [("Estimated", v)] => (scalar? v).map .estimated
    | .object [("Measured", v)] => (scalar? v).map .measured
    | _ => none

instance : Storable (Margins Float) where
  toJson m := .object [("before", toJson m.before), ("after", toJson m.after)]
  ofJson? value := do
    let [before, after] ← record? ["before", "after"] 2 value | none
    return ⟨← ofJson? (← before), ← ofJson? (← after)⟩

instance : Storable (Measurement Float) where
  toJson m := .object
    [("size", toJson m.size), ("secondary", toJson m.secondary), ("margins", toJson m.margins)]
  ofJson? value := do
    let [size, secondary, margins] ← record? ["size", "secondary", "margins"] 3 value | none
    return ⟨← ofJson? (← size), ← ofJson? (orNull secondary), ← ofJson? (← margins)⟩

instance : Storable (SizeEntry Float) where
  toJson e := .object
    [("index", toJson e.index), ("primary", toJson e.primary),
      ("secondary", toJson e.secondary), ("margins", toJson e.margins)]
  ofJson? value := do
    let [index, primary, secondary, margins] ←
      record? ["index", "primary", "secondary", "margins"] 4 value | none
    return ⟨← ofJson? (← index), ← ofJson? (← primary), ← ofJson? (orNull secondary),
      ← ofJson? (← margins)⟩

/-! ## Windows -/

instance : Storable (PlacedItem Float) where
  toJson item := .object
    [("index", toJson item.index), ("position", toJson item.position),
      ("size", toJson item.size)]
  ofJson? value := do
    let [index, position, size] ← record? ["index", "position", "size"] 3 value | none
    return ⟨← ofJson? (← index), ← ofJson? (← position), ← ofJson? (← size)⟩

instance : Storable WindowRange where
  toJson r := .object
    [("first", toJson r.first), ("last", toJson r.last),
      ("first_visible", toJson r.firstVisible), ("last_visible", toJson r.lastVisible)]
  ofJson? value := do
    let [first, last, firstVisible, lastVisible] ←
      record? ["first", "last", "first_visible", "last_visible"] 4 value | none
    return ⟨← ofJson? (← first), ← ofJson? (← last), ← ofJson? (← firstVisible),
      ← ofJson? (← lastVisible)⟩

instance : Storable WindowChange where
  toJson c := .object
    [("range", toJson c.range), ("stable", toJson c.stable),
      ("remeasure", toJson c.remeasure), ("axis", toJson c.axis)]
  ofJson? value := do
    let [range, stable, remeasure, axis] ←
      record? ["range", "stable", "remeasure", "axis"] 4 value | none
    return ⟨← ofJson? (orNull range), ← ofJson? (← stable), ← ofJson? (← remeasure),
      ← ofJson? (← axis)⟩

instance : Storable (Viewport Float) where
  toJson v := .object [("main", toJson v.main), ("cross", toJson v.cross)]
  ofJson? value := do
    let [main, cross] ← record? ["main", "cross"] 2 value | none
    return ⟨← ofJson? (← main), ← ofJson? (← cross)⟩

instance : Storable ScrollTarget where
  toJson t := .object [("index", toJson t.index), ("align", toJson t.align)]
  ofJson? value := do
    let [index, align] ← record? ["index", "align"] 2 value | none
    return ⟨← ofJson? (← index), ← ofJson? (← align)⟩

instance : Storable (Anchor Float) where
  toJson a := .object [("index", toJson a.index), ("position", toJson a.position)]
  ofJson? value := do
    let [index, position] ← record? ["index", "position"] 2 value | none
    return ⟨← ofJson? (← index), ← ofJson? (← position)⟩

instance : Storable (LayoutState Float) where
  toJson s := .object
    [("range", toJson s.range), ("scroll_position", toJson s.scrollPosition),
      ("scroll_size", toJson s.scrollSize), ("viewport", toJson s.viewport),
      ("anchor", toJson s.anchor), ("stable", toJson s.stable)]
  ofJson? value := do
    let [range, scrollPosition, scrollSize, viewport, anchor, stable] ←
      record? ["range", "scroll_position", "scroll_size", "viewport", "anchor", "stable"] 6 value
      | none
    return ⟨← ofJson? (orNull range), ← ofJson? (← scrollPosition), ← ofJson? (← scrollSize),
      ← ofJson? (← viewport), ← ofJson? (orNull anchor), ← ofJson? (← stable)⟩

/-! ## Configuration and movement -/

/-- Options that are not stored have their default values. -/
instance : Storable (Options Float) where
  toJson o := .object
    [("estimate_size", toJson o.estimateSize), ("overhang", toJson o.overhang),
      ("gap", toJson o.gap), ("axis", toJson o.axis), ("estimate", toJson o.estimate),
      ("min_scroll_size", toJson o.minScrollSize)]
  ofJson? value := do
    let [estimateSize, overhang, gap, axis, estimate, minScrollSize] ←
      record? ["estimate_size", "overhang", "gap", "axis", "estimate", "min_scroll_size"] 0 value
      | none
    let unset : Options Float := .default
    return {
      estimateSize := ← orElse ofJson? unset.estimateSize estimateSize
      overhang := ← orElse ofJson? unset.overhang overhang
      gap := ← orElse ofJson? unset.gap gap
      axis := ← orElse ofJson? unset.axis axis
      estimate := ← orElse ofJson? unset.estimate estimate
      minScrollSize := ← orElse ofJson? unset.minScrollSize minScrollSize }

/-- A stored tween may have no duration. -/
instance : Storable (Tween Float) where
  toJson t := .object
    [("from", toJson t.origin), ("to", toJson t.destination), ("start_ms", toJson t.start),
      ("duration_ms", toJson t.duration), ("easing", toJson t.easing)]
  ofJson? value := do
    let [origin, destination, start, duration, easing] ←
      record? ["from", "to", "start_ms", "duration_ms", "easing"] 5 value | none
    return ⟨← ofJson? (← origin), ← ofJson? (← destination), ← ofJson? (← start),
      ← ofJson? (← duration), ← ofJson? (← easing)⟩

end VirtualList
