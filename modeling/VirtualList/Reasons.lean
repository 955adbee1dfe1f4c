/-!
# Reasons for a frame

A set of reasons why a frame is needed, kept as eight bits.  Every reason but `visibleRange`
calls for a layout pass.
-/

namespace VirtualList

/-- A set of reasons, one per bit. -/
structure Reasons where
  bits : BitVec 8
  deriving DecidableEq, Repr

namespace Reasons

/-- No reason. -/
def none : Reasons := ⟨0#8⟩

/-- The data changed in place. -/
def items : Reasons := ⟨1#8⟩

/-- The number of items changed. -/
def totalItems : Reasons := ⟨2#8⟩

/-- The list was scrolled. -/
def scroll : Reasons := ⟨4#8⟩

/-- The viewport changed. -/
def viewport : Reasons := ⟨8#8⟩

/-- An item must be measured, or was. -/
def measurement : Reasons := ⟨16#8⟩

/-- An item is to be brought into view. -/
def scrollToIndex : Reasons := ⟨32#8⟩

/-- All measurements were dropped. -/
def reset : Reasons := ⟨64#8⟩

/-- Only the visible part of the window moved: the window still covers the viewport. -/
def visibleRange : Reasons := ⟨128#8⟩

/-- The reasons with their names, in the order of their bits. -/
def named : List (Reasons × String) :=
  [(items, "ITEMS"), (totalItems, "TOTAL_ITEMS"), (scroll, "SCROLL"), (viewport, "VIEWPORT"),
    (measurement, "MEASUREMENT"), (scrollToIndex, "SCROLL_TO_INDEX"), (reset, "RESET"),
    (visibleRange, "VISIBLE_RANGE")]

/-- There is no reason. -/
def isEmpty (a : Reasons) : Bool := a.bits == 0#8

/-- All reasons of `b` are among those of `a`. -/
def contains (a b : Reasons) : Bool := a.bits &&& b.bits == b.bits

/-- The reasons of both. -/
def union (a b : Reasons) : Reasons := ⟨a.bits ||| b.bits⟩

instance : Union Reasons := ⟨union⟩

/-- There is a reason that calls for a layout pass. -/
def needsPass (a : Reasons) : Bool := a.bits &&& ~~~visibleRange.bits != 0#8

/-- The names of the reasons, in the order of their bits and between braces. -/
def text (a : Reasons) : String :=
  let names := (named.filter fun (flag, _) => a.contains flag).map Prod.snd
  "\x7b" ++ ", ".intercalate names ++ "\x7d"

end Reasons

end VirtualList
