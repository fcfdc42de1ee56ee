import WarmPool.Number.Binary64

/-!
# Scaling by powers of ten

`Binary64.ofScaled?` reads a decimal `significand · 10 ^ scale` as a binary64 number by rounding
twice: the significand first, and then its product with a rounded power of ten, or its quotient by
one. Scales below `-308` take one more quotient for every 308 places. The result is the nearest
number for a short significand and a small scale, and may be a neighbour of it otherwise.
-/

namespace WarmPool.Binary64

/-- The greatest exponent of a power of ten in range. -/
def maxPower : Nat := 308

/-- The number nearest to a power of ten in range. -/
def powerOfTen (exponent : Nat) : Binary64 := (ofNat? (10 ^ exponent)).getD default

/--
The quotient by `10 ^ places`, taken `maxPower` places at a time, each quotient rounded; a quotient
that is zero stays so.
-/
def scaleDown? : (fuel : Nat) → Binary64 → (places : Nat) → Option Binary64
  | 0, x, _ => some x
  | fuel + 1, x, places =>
    if places ≤ maxPower then x.over? (powerOfTen places)
    else if x.significand = 0 then some x
    else (x.over? (powerOfTen maxPower)).bind fun y => scaleDown? fuel y (places - maxPower)

/-- The product with `10 ^ places`, if it is in range. -/
def scaleUp? (x : Binary64) (places : Nat) : Option Binary64 :=
  if places ≤ maxPower then x.times? (powerOfTen places)
  else if x.significand = 0 then some x
  else none

/-- A number near `± significand · 10 ^ scale`, if that is in range. -/
def ofScaled? (negative : Bool) (significand : Nat) (scale : Int) : Option Binary64 :=
  (ofRatio? negative significand 1).bind fun x =>
    if 0 ≤ scale then x.scaleUp? scale.toNat
    else x.scaleDown? ((-scale).toNat / maxPower + 1) (-scale).toNat

end WarmPool.Binary64
