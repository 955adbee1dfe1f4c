import VirtualList.Decimal.Positional

/-!
# Rejected inputs

An operation that refuses its input answers with an `InputError` and changes nothing that it
guards.  The message is built from the cause; scalars appear in it in positional form.
-/

namespace VirtualList

/-- The numeric options, by name. -/
inductive OptionField where
  | estimateSize
  | overhang
  | gap
  | minScrollSize
  deriving DecidableEq, Repr

/-- The name under which an option is configured. -/
def OptionField.name : OptionField → String
  | estimateSize => "estimate_size"
  | overhang => "overhang"
  | gap => "gap"
  | minScrollSize => "min_scroll_size"

/-- Why an input was refused. -/
inductive InputError (α : Type) where
  /-- A side of the viewport is not finite or is negative. -/
  | viewportSize (value : α)
  /-- The scroll position is not finite. -/
  | scrollPosition (value : α)
  /-- A size is not finite or is negative, or a margin is not finite. -/
  | measurement (index : Nat) (size : α)
  /-- There is no such item. -/
  | indexOutOfRange (index total : Nat)
  /-- An option is outside its domain. -/
  | option (field : OptionField) (value : α)
  deriving DecidableEq, Repr

/-- The text shown for an error. -/
def InputError.message : InputError Float → String
  | viewportSize value =>
    s!"viewport size must be finite and non-negative, got {Decimal.textOfDouble value}"
  | scrollPosition value =>
    s!"scroll position must be finite, got {Decimal.textOfDouble value}"
  | measurement index size =>
    s!"invalid measurement for item {index}: size {Decimal.textOfDouble size}"
  | indexOutOfRange index total =>
    s!"item {index} is out of range (total items: {total})"
  | option field value =>
    s!"invalid option `{field.name}`: {Decimal.textOfDouble value}"

end VirtualList
