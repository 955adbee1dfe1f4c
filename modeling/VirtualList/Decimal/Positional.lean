import VirtualList.Decimal.Shortest

/-!
# Positional text of doubles

A double is written with the fewest digits that read back, always positionally: never with an
exponent, and without a fraction when it is whole.  The sign of zero is kept.
-/

namespace VirtualList.Decimal

/-- The number a decimal stands for, written out: `12·10^2` is `1200`, `12·10^-1` is `1.2`, and
`12·10^-3` is `0.012`. -/
def positional (d : Decimal) : String :=
  let digits := Nat.toDigits 10 d.digits
  match d.exponent with
  | .ofNat zeros => String.ofList (digits ++ List.replicate zeros '0')
  | .negSucc k =>
    let places := k + 1
    let padded := List.replicate (places + 1 - digits.length) '0' ++ digits
    let whole := padded.length - places
    String.ofList (padded.take whole ++ '.' :: padded.drop whole)

/-- The leading bit of a significand, which is not stored. -/
def hidden : Nat := 4503599627370496

/-- The text of a double, read off its bits: one sign bit, eleven bits of exponent and fifty-two
of fraction. -/
def textOfBits (bits : Nat) : String :=
  let fraction : Nat := bits % hidden
  let biased : Nat := bits / hidden % 2048
  let sign := if bits / (hidden * 2048) = 1 then "-" else ""
  if biased = 2047 then
    if fraction = 0 then sign ++ "inf" else "NaN"
  else if biased = 0 then
    if fraction = 0 then sign ++ "0"
    else sign ++ (Binary.shortest ⟨fraction, -1074, false⟩).positional
  else
    let narrowBelow := decide (fraction = 0 ∧ 1 < biased)
    let b : Binary := ⟨hidden + fraction, (biased : Int) - 1075, narrowBelow⟩
    sign ++ b.shortest.positional

/-- The text of a double. -/
def textOfDouble (x : Float) : String := textOfBits x.toBits.toNat

end VirtualList.Decimal
