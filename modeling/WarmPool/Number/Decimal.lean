import WarmPool.Number.Binary64

/-!
# The shortest decimal of a binary64 number

`Binary64.shortest` gives the fewest digits that read back as the same number, the nearest such
decimal among them. `DecimalLayout` holds the decisions of a text format (which exponents are
written positionally, how the exponent is marked), and `DecimalLayout.render` applies them.
-/

namespace WarmPool

/-- The positive decimal `digits · 10 ^ scale`. -/
structure Decimal where
  digits : Nat
  scale : Int
deriving DecidableEq, Repr, Inhabited

namespace Decimal

/-- The decimal digits of a number, most significant first, in front of `rest`. -/
def digitChars : (fuel : Nat) → Nat → List Char → List Char
  | 0, _, rest => rest
  | fuel + 1, n, rest =>
    let rest := Char.ofNat ('0'.toNat + n % 10) :: rest
    if n < 10 then rest else digitChars fuel (n / 10) rest

/-- The decimal numeral of a natural number. -/
def numeral (n : Nat) : List Char := digitChars (n + 1) n []

/-- Drops zeros at the end of the digits. -/
def strip : (fuel : Nat) → Decimal → Decimal
  | 0, d => d
  | fuel + 1, d =>
    if d.digits ≠ 0 ∧ d.digits % 10 = 0 then strip fuel ⟨d.digits / 10, d.scale + 1⟩ else d

end Decimal

namespace Binary64

/-- `num / den · 10 ^ shift` as a numerator and a denominator. -/
def scaled (num den : Nat) (shift : Int) : Nat × Nat :=
  (num * 10 ^ shift.toNat, den * 10 ^ (-shift).toNat)

/-- The greatest `e` with `10 ^ e ≤ num / den`, searched downward from `start`. -/
def floorLog10 (num den : Nat) : (fuel : Nat) → (start : Int) → Int
  | 0, e => e
  | fuel + 1, e =>
    let (n, d) := scaled num den (-e)
    if d ≤ n then e else floorLog10 num den fuel (e - 1)

/-- The ends of the interval of reals that round to a positive number, and whether they belong. -/
structure Cell where
  low : Nat
  high : Nat
  /-- The unit of both ends as a numerator and a denominator. -/
  unit : Nat × Nat
  closed : Bool

/--
The interval of reals that round to `x`, in quarters of the last place. Below a power of two the
numbers are twice as dense, and the ends belong to `x` exactly when its significand is even.
-/
def cell (x : Binary64) : Cell :=
  let m := x.significand
  let atPower := m = 2 ^ (52 : Nat) ∧ x.exponent ≠ -1074
  let q := x.exponent - 2
  { low := if atPower then 4 * m - 1 else 4 * m - 2
    high := 4 * m + 2
    unit := (2 ^ q.toNat, 2 ^ (-q).toNat)
    closed := m % 2 == 0 }

/-- Whether the decimal `digits · 10 ^ scale` rounds to the number whose interval this is. -/
def Cell.covers (c : Cell) (digits : Nat) (scale : Int) : Bool :=
  let value := digits * 10 ^ scale.toNat * c.unit.2
  let low := c.low * c.unit.1 * 10 ^ (-scale).toNat
  let high := c.high * c.unit.1 * 10 ^ (-scale).toNat
  if c.closed then low ≤ value && value ≤ high else low < value && value < high

/-- The decimal of the grid `10 ^ scale` that reads back as `x`, the nearer one if two do. -/
def onGrid? (x : Binary64) (scale : Int) : Option Decimal :=
  let (num, den) := x.magnitude
  let (n, d) := scaled num den (-scale)
  let below := n / d
  let c := x.cell
  match c.covers below scale, c.covers (below + 1) scale with
  | true, true => some ⟨roundQuotient n d, scale⟩
  | true, false => some ⟨below, scale⟩
  | false, true => some ⟨below + 1, scale⟩
  | false, false => none

/-- Tries grids from `scale` on, each ten times finer; `fuel` grids at most. -/
def firstGrid (x : Binary64) : (fuel : Nat) → (scale : Int) → Decimal
  | 0, scale =>
    let (num, den) := x.magnitude
    let (n, d) := scaled num den (-scale)
    ⟨roundQuotient n d, scale⟩
  | fuel + 1, scale => (x.onGrid? scale).getD (firstGrid x fuel (scale - 1))

/-- The fewest digits that read back as the magnitude of `x`, nearest to it. -/
def shortest (x : Binary64) : Decimal :=
  if x.significand = 0 then ⟨0, 0⟩
  else
    let (num, den) := x.magnitude
    -- The logarithm to base ten is at most this estimate and at least three below it.
    let estimate := (floorLog2 num den + 1) * 30103 / 100000 + 1
    (firstGrid x 16 (floorLog10 num den 8 estimate)).strip 20

end Binary64

/-- How a decimal is laid out as text. -/
structure DecimalLayout where
  /-- The least scientific exponent written positionally. -/
  positionalFrom : Int
  /-- The greatest scientific exponent written positionally. -/
  positionalTo : Int
  /-- Whether an integral value written positionally ends in `.0`. -/
  markIntegral : Bool
  exponentMark : Char
  /-- Whether a positive exponent carries a plus sign. -/
  plusSign : Bool

namespace DecimalLayout

/-- An integer as text, a plus sign being optional. -/
def exponentText (layout : DecimalLayout) (e : Int) : List Char :=
  if e < 0 then '-' :: Decimal.numeral e.natAbs
  else (if layout.plusSign then ['+'] else []) ++ Decimal.numeral e.natAbs

/-- The text of a number. -/
def render (layout : DecimalLayout) (x : Binary64) : List Char :=
  let sign := if x.negative then ['-'] else []
  let d := x.shortest
  let digits := Decimal.numeral d.digits
  let count : Int := digits.length
  -- The point stands after this many digits, a negative number meaning zeros in front.
  let point := count + d.scale
  let scientific := point - 1
  if layout.positionalFrom ≤ scientific ∧ scientific ≤ layout.positionalTo then
    if point ≤ 0 then
      sign ++ ['0', '.'] ++ List.replicate (-point).toNat '0' ++ digits
    else if count ≤ point then
      sign ++ digits ++ List.replicate (point - count).toNat '0' ++
        (if layout.markIntegral then ['.', '0'] else [])
    else
      sign ++ digits.take point.toNat ++ ['.'] ++ digits.drop point.toNat
  else
    let mantissa := match digits with
      | first :: second :: more => first :: '.' :: second :: more
      | other => other
    sign ++ mantissa ++ layout.exponentMark :: layout.exponentText scientific

end DecimalLayout

/-- The decimal numeral of a natural number. -/
def natText (n : Nat) : String := String.ofList (Decimal.numeral n)

end WarmPool
