/-!
# Search by bisection

`bisect p xs` finds the number of leading elements of `xs` for which `p` holds, provided that no
element for which `p` fails comes before one for which it holds.  It tests one element per
halving of the list, and always the same number of elements for lists of one length.  On lists
that are not so ordered it still returns a place in the list or its end.
-/

namespace VirtualList

universe u

variable {β : Type u}

/-- Narrows the `size` elements from `base` on down to one: the later half is kept while its
first element satisfies `p`. -/
def bisectFrom (p : β → Bool) (xs : List β) (base size : Nat) : Nat :=
  if _h : 1 < size then
    let half := size / 2
    let kept := if (xs[base + half]?).any p then base + half else base
    bisectFrom p xs kept (size - half)
  else
    base
termination_by size
decreasing_by omega

/-- The place where `p` stops holding in `xs`. -/
def bisect (p : β → Bool) (xs : List β) : Nat :=
  let base := bisectFrom p xs 0 xs.length
  if (xs[base]?).any p then base + 1 else base

end VirtualList
