import WarmPool.Json.Basic
import WarmPool.Number.Scaling

/-!
# Numerals

The grammar of JSON numbers and what they denote. An integer without point and exponent is kept as
it is where 64 bits hold it. Any other numeral is read as a binary64 number from the digits that fit
a significand of 64 bits, and `-0` is the negative zero; a numeral beyond the range of binary64 is
well formed, but there is no number that it denotes.
-/

namespace WarmPool.Json

/-- The number that a decimal digit denotes. -/
def digitValue (c : Char) : Nat := c.toNat - '0'.toNat

/-- The number that a string of decimal digits denotes. -/
def digitsValue (digits : List Char) : Nat :=
  digits.foldl (fun n c => 10 * n + digitValue c) 0

/-- Splits off the digits in front. -/
def spanDigits (cs : List Char) : List Char × List Char :=
  (cs.takeWhile Char.isDigit, cs.dropWhile Char.isDigit)

/-- The parts of a numeral. -/
structure Numeral where
  negative : Bool
  /-- The digits before the point. -/
  integral : List Char
  /-- The digits after the point, none if there is no point. -/
  fraction : List Char
  exponent : Option Int
deriving DecidableEq, Repr

namespace Numeral

/-! ### Grammar -/

/-- The digits before the point: a lone zero, or digits that start with another one. -/
def parseIntegral? : List Char → Option (List Char × List Char)
  | '0' :: rest =>
    match rest with
    | c :: _ => if c.isDigit then none else some (['0'], rest)
    | [] => some (['0'], [])
  | cs =>
    match spanDigits cs with
    | ([], _) => none
    | (digits, rest) => some (digits, rest)

/-- The digits after a point, if a point comes next. -/
def parseFraction? : List Char → Option (List Char × List Char)
  | '.' :: rest =>
    match spanDigits rest with
    | ([], _) => none
    | (digits, rest) => some (digits, rest)
  | cs => some ([], cs)

/-- The exponent after its mark, if one comes next. -/
def parseExponent? : List Char → Option (Option Int × List Char)
  | c :: rest =>
    if c = 'e' || c = 'E' then
      let (negative, rest) := match rest with
        | '+' :: rest => (false, rest)
        | '-' :: rest => (true, rest)
        | rest => (false, rest)
      match spanDigits rest with
      | ([], _) => none
      | (digits, rest) =>
        let e : Int := digitsValue digits
        some (some (if negative then -e else e), rest)
    else some (none, c :: rest)
  | [] => some (none, [])

/-- A numeral in front of the rest. -/
def parse? (cs : List Char) : Option (Numeral × List Char) := do
  let (negative, cs) := match cs with
    | '-' :: rest => (true, rest)
    | cs => (false, cs)
  let (integral, cs) ← parseIntegral? cs
  let (fraction, cs) ← parseFraction? cs
  let (exponent, cs) ← parseExponent? cs
  pure (⟨negative, integral, fraction, exponent⟩, cs)

/-! ### Value -/

/--
Takes digits into a significand up to the first one with which it would need more than 64 bits, and
gives the digits that are left.
-/
def takeDigits : (significand : Nat) → List Char → Nat × List Char
  | n, [] => (n, [])
  | n, c :: rest =>
    let next := 10 * n + digitValue c
    if next < 2 ^ (64 : Nat) then takeDigits next rest else (n, c :: rest)

/-- The integer of a numeral without point and exponent, if 64 bits hold it. -/
def integer? (n : Numeral) : Option Number :=
  if !n.fraction.isEmpty || n.exponent.isSome then none
  else
    let value := digitsValue n.integral
    if n.negative && value = 0 then none
    else Number.ofInt? (if n.negative then -(value : Int) else value)

/--
The binary64 number of a numeral. Each digit before the point that the significand has no room for
raises the scale; digits after the point are tried again, and those without room do not count.
-/
def float? (n : Numeral) : Option Binary64 :=
  let (upper, left) := takeDigits 0 n.integral
  let (significand, unread) := takeDigits upper n.fraction
  let places := n.fraction.length - unread.length
  Binary64.ofScaled? n.negative significand (n.exponent.getD 0 + left.length - places)

/-- The number that a numeral denotes. -/
def number? (n : Numeral) : Option Number := n.integer? <|> n.float?.map .float

end Numeral

end WarmPool.Json
