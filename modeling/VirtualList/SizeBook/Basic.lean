import Std.Data.ExtTreeMap
import VirtualList.Measurement
import VirtualList.SizeBook.RunningTotal

/-!
# The book of sizes

What is known about the items of a list: the measurements so far, the estimates that passes used
in their place, and the spaces between measured items.  The book holds sizes only, never
positions, so a measurement far down a long list costs one entry.

An item nobody has measured counts with the average of all measurements.  The space in front of
an item is known once the item or the one before it has been measured.
-/

namespace VirtualList

open Std (ExtTreeMap)

/-- What is known about one item. -/
structure SizeEntry (α : Type) where
  index : Nat
  /-- The measured size, or the estimate that the last pass used. -/
  primary : Size α
  secondary : Option α
  margins : Margins α
  deriving DecidableEq, Repr

/-- The measurement that an entry holds, if it holds one. -/
def SizeEntry.measurement? {α : Type} (entry : SizeEntry α) :
    Option (Nat × Measurement α) :=
  match entry.primary with
  | .measured size => some (entry.index, ⟨size, entry.secondary, entry.margins⟩)
  | .estimated _ => none

/-- The sizes of the items, as far as they are known. -/
structure SizeBook (α : Type) where
  /-- The size of an item before anything has been measured. -/
  defaultEstimate : α
  entries : ExtTreeMap Nat (SizeEntry α)
  /-- The total of the measured sizes. -/
  sizes : RunningTotal α
  /-- The collapsed margin in front of an item, by index. -/
  spaces : ExtTreeMap Nat α
  /-- The total of the known spaces. -/
  spaceSizes : RunningTotal α

namespace SizeBook

variable {α : Type} [Scalar α]

/-- A book in which nothing has been measured. -/
def empty (defaultEstimate : α) : SizeBook α where
  defaultEstimate := defaultEstimate
  entries := ∅
  sizes := .empty
  spaces := ∅
  spaceSizes := .empty

/-! ## What the book says -/

/-- The size assumed for an item that was not measured. -/
def estimate (b : SizeBook α) : α := b.sizes.average?.getD b.defaultEstimate

/-- The average space between neighbours, zero if none is known. -/
def averageMargin (b : SizeBook α) : α := b.spaceSizes.average?.getD 0

/-- The number of measured items. -/
def measuredLength (b : SizeBook α) : Nat := b.sizes.count

/-- The sum of the measured sizes. -/
def totalMeasured (b : SizeBook α) : α := b.sizes.total

/-- The number of entries, estimated ones included. -/
def length (b : SizeBook α) : Nat := b.entries.size

/-- The book has no entry, not even an estimated one. -/
def isEmpty (b : SizeBook α) : Bool := b.entries.isEmpty

/-- The entry of item `i`. -/
def entry? (b : SizeBook α) (i : Nat) : Option (SizeEntry α) := b.entries[i]?

/-- The size of item `i`: measured, or the present estimate. -/
def sizeOf (b : SizeBook α) (i : Nat) : Size α :=
  match (b.entry? i).map SizeEntry.primary with
  | some (.measured v) => .measured v
  | _ => .estimated b.estimate

/-- Item `i` has been measured. -/
def isMeasured (b : SizeBook α) (i : Nat) : Bool := (b.sizeOf i).isMeasured

/-- The size of item `i` across the scroll axis, if it was reported. -/
def secondaryOf (b : SizeBook α) (i : Nat) : Option α := (b.entry? i).bind SizeEntry.secondary

/-- The collapsed margin in front of item `i`: known, or the average one. -/
def marginBefore (b : SizeBook α) (i : Nat) : Size α :=
  match b.spaces[i]? with
  | some v => .measured v
  | none => .estimated b.averageMargin

/-- The margins of item `i`, if it has been measured. -/
def measuredMargins? (b : SizeBook α) (i : Nat) : Option (Margins α) :=
  ((b.entry? i).filter (·.primary.isMeasured)).map SizeEntry.margins

/-! ## What changes the book -/

/-- Notes the estimate that a pass used for item `i`.  A measurement is not touched. -/
def noteEstimate (b : SizeBook α) (i : Nat) (value : α) : SizeBook α :=
  let note : Option (SizeEntry α) → Option (SizeEntry α)
    | some entry =>
      match entry.primary with
      | .measured _ => some entry
      | .estimated _ => some { entry with primary := .estimated value }
    | none => some ⟨i, .estimated value, none, .zero⟩
  { b with entries := b.entries.alter i note }

/-- The space in front of item `i` that the margins measured on its two sides leave. -/
def spaceFromMargins (b : SizeBook α) (i : Nat) : α :=
  let leading := ((b.measuredMargins? i).map Margins.before).getD 0
  if i = 0 then
    leading
  else
    let trailing := ((b.measuredMargins? (i - 1)).map Margins.after).getD 0
    Margins.collapse trailing leading

/-- Works out the space in front of item `i` again. -/
def updateSpace (b : SizeBook α) (i : Nat) : SizeBook α :=
  let space := b.spaceFromMargins i
  { b with
    spaces := b.spaces.insert i space
    spaceSizes :=
      match b.spaces[i]? with
      | some old => b.spaceSizes.replace old space
      | none => b.spaceSizes.insert space }

/-- The size that a measurement of item `i` supersedes: its last measurement, or the estimate
last used for it. -/
def superseded (b : SizeBook α) (i : Nat) : Size α :=
  match b.entry? i with
  | some entry => entry.primary
  | none => .estimated b.estimate

/-- Enters a measurement, valid or not, of item `i`. -/
def enter (b : SizeBook α) (i : Nat) (m : Measurement α) : SizeBook α :=
  let sizes :=
    match b.superseded i with
    | .measured old => b.sizes.replace old m.size
    | .estimated _ => b.sizes.insert m.size
  let entries := b.entries.insert i ⟨i, .measured m.size, m.secondary, m.margins⟩
  (updateSpace { b with sizes, entries } i).updateSpace (Index.next i)

/-- Records a measurement of item `i` and answers with the size it supersedes.  An invalid
measurement is refused. -/
def record (b : SizeBook α) (i : Nat) (m : Measurement α) :
    Except (InputError α) (Size α) × SizeBook α :=
  match m.check i with
  | .error e => (.error e, b)
  | .ok () => (.ok (b.superseded i), b.enter i m)

/-- Drops every entry, and the running estimate with them. -/
def clear (b : SizeBook α) : SizeBook α := empty b.defaultEstimate

/-! ## Keeping measurements -/

/-- All measurements, in ascending order of the items. -/
def measurements (b : SizeBook α) : List (Nat × Measurement α) :=
  b.entries.values.filterMap SizeEntry.measurement?

/-- Refuses the first invalid measurement of a list. -/
def checkAll : List (Nat × Measurement α) → Except (InputError α) Unit
  | [] => .ok ()
  | (i, m) :: rest => do
    m.check i
    checkAll rest

/-- Replaces what is in the book by the given measurements, recorded in order.  If one of them is
invalid the first such is refused and the book stays as it is.  Once all have passed the check none
can be refused when its turn comes, so they are entered without another one. -/
def restore (b : SizeBook α) (ms : List (Nat × Measurement α)) :
    Except (InputError α) Unit × SizeBook α :=
  match checkAll ms with
  | .error e => (.error e, b)
  | .ok () => (.ok (), ms.foldl (fun b (i, m) => b.enter i m) b.clear)

end SizeBook

end VirtualList
