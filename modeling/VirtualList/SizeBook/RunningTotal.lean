import VirtualList.Scalar

/-!
# Running totals

The sum and the number of some values, kept up to date as values are added and replaced, so that
their average is at hand at any time.
-/

namespace VirtualList

/-- The sum of some values and how many there are. -/
structure RunningTotal (α : Type) where
  total : α
  count : Nat
  deriving DecidableEq, Repr

namespace RunningTotal

variable {α : Type} [Scalar α]

/-- The total of no values. -/
def empty : RunningTotal α := ⟨0, 0⟩

/-- The average, if there is a value. -/
def average? (t : RunningTotal α) : Option α :=
  if t.count = 0 then none else some (t.total / (t.count : α))

/-- Adds a value. -/
def insert (t : RunningTotal α) (value : α) : RunningTotal α :=
  ⟨t.total + value, t.count + 1⟩

/-- Puts `new` in the place of a value `old` that was added before. -/
def replace (t : RunningTotal α) (old new : α) : RunningTotal α :=
  { t with total := t.total + (new - old) }

end RunningTotal

end VirtualList
