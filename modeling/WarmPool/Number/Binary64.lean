/-!
# Binary64 numbers as exact values

A finite binary64 number is a sign, a significand and an exponent, so its value is an exact
rational and every operation is "compute exactly, then round once". `Binary64.ofRatio?` is that one
rounding: the nearest number, a tie going to the even significand. `Extended` adds the two
infinities and the result of an undefined operation, which is all that products need.
-/

namespace WarmPool

-- In this namespace a power is that of the core library, also where other instances are at hand.
-- A numeral as an exponent has its type written out: a default for it would come before this.
attribute [scoped instance (20000)] instPowNat

/-- The natural number nearest to `num / den`; a tie goes to the even one. -/
def roundQuotient (num den : Nat) : Nat :=
  let quotient := num / den
  let twice := 2 * (num % den)
  if twice < den then quotient
  else if den < twice then quotient + 1
  else quotient + quotient % 2

/--
A finite binary64 number, of value `± significand · 2 ^ exponent`. The exponent is the least one
that leaves the significand below `2 ^ 53`, so a value other than zero has one representation.
-/
structure Binary64 where
  /-- Whether the sign bit is set; zero has both signs. -/
  negative : Bool
  significand : Nat
  exponent : Int
  significand_lt : significand < 2 ^ (53 : Nat)
  exponent_ge : -1074 ≤ exponent
  exponent_le : exponent ≤ 971
  aligned : exponent = -1074 ∨ 2 ^ (52 : Nat) ≤ significand
deriving DecidableEq, Repr

namespace Binary64

/-- Zero of the given sign. -/
def zero (negative : Bool) : Binary64 :=
  ⟨negative, 0, -1074, by decide, by decide, by decide, .inl rfl⟩

instance : Inhabited Binary64 := ⟨zero false⟩

/-- Two. -/
def two : Binary64 :=
  ⟨false, 2 ^ (52 : Nat), -51, by decide, by decide, by decide, .inr (by decide)⟩

/-- The number with these parts, if they are the parts of a number. -/
def ofParts? (negative : Bool) (significand : Nat) (exponent : Int) : Option Binary64 :=
  if h : significand < 2 ^ (53 : Nat) ∧ -1074 ≤ exponent ∧ exponent ≤ 971 ∧
      (exponent = -1074 ∨ 2 ^ (52 : Nat) ≤ significand) then
    some ⟨negative, significand, exponent, h.1, h.2.1, h.2.2.1, h.2.2.2⟩
  else
    none

/-- The magnitude as a numerator and a denominator. -/
def magnitude (x : Binary64) : Nat × Nat :=
  if 0 ≤ x.exponent then (x.significand * 2 ^ x.exponent.toNat, 1)
  else (x.significand, 2 ^ (-x.exponent).toNat)

/-- The magnitude with the sign, as a numerator over the denominator of `magnitude`. -/
def numerator (x : Binary64) : Int :=
  if x.negative then -(x.magnitude.1 : Int) else (x.magnitude.1 : Int)

instance : LE Binary64 := ⟨fun x y => x.numerator * y.magnitude.2 ≤ y.numerator * x.magnitude.2⟩

instance (x y : Binary64) : Decidable (x ≤ y) :=
  inferInstanceAs (Decidable (x.numerator * y.magnitude.2 ≤ y.numerator * x.magnitude.2))

/-- The greatest `e` with `2 ^ e ≤ num / den`, for positive `num` and `den`. -/
def floorLog2 (num den : Nat) : Int :=
  let guess : Int := (num.log2 : Int) - den.log2
  let reached := if 0 ≤ guess then den * 2 ^ guess.toNat ≤ num else den ≤ num * 2 ^ (-guess).toNat
  if reached then guess else guess - 1

/--
The number nearest to `± num / den`, with ties to the even significand. There is none when the
magnitude rounds to `2 ^ 1024` or more.
-/
def ofRatio? (negative : Bool) (num den : Nat) : Option Binary64 :=
  if num = 0 then some (zero negative)
  else
    let exponent := max (floorLog2 num den - 52) (-1074)
    let significand := roundQuotient (num * 2 ^ (-exponent).toNat) (den * 2 ^ exponent.toNat)
    if significand = 2 ^ (53 : Nat) then ofParts? negative (2 ^ (52 : Nat)) (exponent + 1)
    else ofParts? negative significand exponent

/-- The number nearest to a natural number, if it is in range. -/
def ofNat? (n : Nat) : Option Binary64 := ofRatio? false n 1

/-- The product, rounded once, if it is in range. -/
def times? (x y : Binary64) : Option Binary64 :=
  ofRatio? (x.negative != y.negative) (x.magnitude.1 * y.magnitude.1)
    (x.magnitude.2 * y.magnitude.2)

/-- The quotient by a number other than zero, rounded once, if it is in range. -/
def over? (x y : Binary64) : Option Binary64 :=
  ofRatio? (x.negative != y.negative) (x.magnitude.1 * y.magnitude.2)
    (x.magnitude.2 * y.magnitude.1)

/-- Whether the value is below zero; zero is not, whatever its sign. -/
def isBelowZero (x : Binary64) : Bool := x.negative && x.significand != 0

/-- Whether the value is an integer. -/
def isIntegral (x : Binary64) : Bool :=
  let (num, den) := x.magnitude
  num % den == 0

/-- The integer part of the magnitude, with the sign. -/
def truncate (x : Binary64) : Int :=
  let (num, den) := x.magnitude
  if x.negative then -((num / den : Nat) : Int) else ((num / den : Nat) : Int)

end Binary64

/-- A binary64 number, an infinity, or the result of an undefined operation. -/
inductive Extended where
  | undefined
  | infinite (negative : Bool)
  | finite (value : Binary64)
deriving DecidableEq, Repr, Inhabited

namespace Extended

/-- The number nearest to `± num / den`, or the infinity of that sign beyond the range. -/
def ofRatio (negative : Bool) (num den : Nat) : Extended :=
  match Binary64.ofRatio? negative num den with
  | some x => finite x
  | none => infinite negative

/-- The number nearest to a natural number. -/
def ofNat (n : Nat) : Extended := ofRatio false n 1

/-- The product, rounded once. -/
def mul : Extended → Extended → Extended
  | undefined, _ => undefined
  | _, undefined => undefined
  | infinite s, infinite t => infinite (s != t)
  | infinite s, finite y => if y.significand = 0 then undefined else infinite (s != y.negative)
  | finite x, infinite t => if x.significand = 0 then undefined else infinite (x.negative != t)
  | finite x, finite y =>
    ofRatio (x.negative != y.negative) (x.magnitude.1 * y.magnitude.1)
      (x.magnitude.2 * y.magnitude.2)

instance : Mul Extended := ⟨mul⟩

/-- Multiplies `acc` by `base ^ count`, squaring the base and taking it in at each odd count. -/
def powLoop : (fuel : Nat) → (acc base : Extended) → (count : Nat) → Extended
  | 0, acc, _, _ => acc
  | fuel + 1, acc, base, count =>
    let acc := if count % 2 = 1 then acc * base else acc
    if count / 2 = 0 then acc else powLoop fuel acc (base * base) (count / 2)

/-- The power by repeated squaring, each product rounded. -/
def pow (base : Extended) (count : Nat) : Extended :=
  powLoop (count + 1) (ofNat 1) base count

end Extended

end WarmPool
