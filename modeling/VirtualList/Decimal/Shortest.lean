/-!
# Shortest decimals

A binary number stands for every real that rounds to it.  `Binary.shortest` picks, among the
decimals that stand for the same number, one on the coarsest decimal grid, and on that grid the
one nearest to the exact value; of two that are equally near, the larger.

A decimal grid `g` consists of the multiples of `10 ^ g`.  All comparisons are between natural
numbers, so nothing is rounded on the way.

* `Binary.readsBack_of_gridPoint?`: the decimal chosen on a grid reads back.
* `Binary.shortest_eq_exact_or_readsBack`: so does the chosen decimal, unless no grid was hit and
  the exact value is written out.
-/

namespace VirtualList

/-- The positive number `significand · 2 ^ exponent`, as a member of the binary numbers of fixed
precision around it. -/
structure Binary where
  significand : Nat
  exponent : Int
  /-- The next smaller member is only half as far away as the next larger one. -/
  narrowBelow : Bool
  deriving DecidableEq, Repr

/-- The number `digits · 10 ^ exponent`. -/
structure Decimal where
  digits : Nat
  exponent : Int
  deriving DecidableEq, Repr

namespace Binary

/-- The size of `n` quarters of a unit in the last place, as a multiple of the common denominator
of `b` and grid `g`. -/
def quarters (b : Binary) (g : Int) (n : Nat) : Nat :=
  n * Nat.pow 2 (b.exponent - 2).toNat * Nat.pow 10 (-g).toNat

/-- The step of grid `g`, as a multiple of the same denominator. -/
def step (b : Binary) (g : Int) : Nat :=
  Nat.pow 10 g.toNat * Nat.pow 2 (2 - b.exponent).toNat

/-- The decimal `c · 10 ^ g` lies where reals round to `b`: between the midpoints to the two
neighbours.  The midpoints themselves round to an even significand. -/
def readsBack (b : Binary) (g : Int) (c : Nat) : Bool :=
  let low := b.quarters g (4 * b.significand - if b.narrowBelow then 1 else 2)
  let high := b.quarters g (4 * b.significand + 2)
  let x := c * b.step g
  if b.significand % 2 = 0 then decide (low ≤ x ∧ x ≤ high) else decide (low < x ∧ x < high)

/-- The nearer of the two points of grid `g` around `b` that read back, if there is one. -/
def gridPoint? (b : Binary) (g : Int) : Option Decimal :=
  let exact := b.quarters g (4 * b.significand)
  let below := exact / b.step g
  let above := below + 1
  if b.readsBack g below then
    if b.readsBack g above && decide (above * b.step g - exact ≤ exact - below * b.step g) then
      some ⟨above, g⟩
    else
      some ⟨below, g⟩
  else if b.readsBack g above then some ⟨above, g⟩ else none

/-- All digits of `b`. -/
def exact (b : Binary) : Decimal :=
  let scale := Nat.pow 2 b.exponent.toNat * Nat.pow 5 (-b.exponent).toNat
  ⟨b.significand * scale, if b.exponent < 0 then b.exponent else 0⟩

/-- The grids that are tried, coarsest first: from beyond the largest double to below the last
place of the smallest. -/
def grids : List Int := (List.range 640).map fun k : Nat => 309 - (k : Int)

/-- The shortest decimal that reads back as `b`. -/
def shortest (b : Binary) : Decimal :=
  (grids.findSome? b.gridPoint?).getD b.exact

theorem readsBack_of_gridPoint? {b : Binary} {g : Int} {d : Decimal}
    (h : b.gridPoint? g = some d) : d.exponent = g ∧ b.readsBack g d.digits = true := by
  simp only [gridPoint?] at h
  split at h
  · split at h <;> cases h <;> simp_all
  · split at h <;> cases h
    simp_all

theorem shortest_eq_exact_or_readsBack (b : Binary) :
    b.shortest = b.exact ∨ b.readsBack b.shortest.exponent b.shortest.digits = true := by
  unfold shortest
  cases h : grids.findSome? b.gridPoint? with
  | none => exact .inl rfl
  | some d =>
    obtain ⟨g, _, hg⟩ := List.exists_of_findSome?_eq_some h
    obtain ⟨rfl, hd⟩ := readsBack_of_gridPoint? hg
    exact .inr hd

end Binary

end VirtualList
