import WarmPool.Text.Blank
import WarmPool.Number.Decimal

/-!
# Durations

A duration is a number of nanoseconds whose whole seconds fit sixty-four bits; sums beyond the
greatest duration stop there. `Duration.parse?` reads texts such as `30m`, `1h30m` or `250ms`.
-/

namespace WarmPool

/-- The nanoseconds of a second. -/
def nanosPerSecond : Nat := 1000000000

/-- A number of nanoseconds whose whole seconds are below `2 ^ 64`. -/
structure Duration where
  nanos : Nat
  nanos_lt : nanos < 2 ^ (64 : Nat) * nanosPerSecond
deriving DecidableEq, Repr

namespace Duration

/-- No time at all. -/
def zero : Duration := ⟨0, by decide⟩

/-- The greatest duration, one nanosecond short of `2 ^ 64` seconds. -/
def max : Duration := ⟨2 ^ (64 : Nat) * nanosPerSecond - 1, by decide⟩

instance : Inhabited Duration := ⟨zero⟩

/-- The duration of this many nanoseconds, the greatest one if they are too many. -/
def ofNanos (n : Nat) : Duration :=
  if h : n < 2 ^ (64 : Nat) * nanosPerSecond then ⟨n, h⟩ else max

/-- The duration of this many nanoseconds, if there is one. -/
def ofNanos? (n : Nat) : Option Duration :=
  if h : n < 2 ^ (64 : Nat) * nanosPerSecond then some ⟨n, h⟩ else none

/-- The duration of this many seconds, at most `2 ^ 64 - 1` of them. -/
def ofSeconds (n : Nat) : Duration :=
  ⟨min n (2 ^ (64 : Nat) - 1) * nanosPerSecond, by simp only [nanosPerSecond]; omega⟩

/-- The duration of this many milliseconds. -/
def ofMillis (n : Nat) : Duration := ofNanos (n * 1000000)

/-- The whole seconds. -/
def seconds (d : Duration) : Nat := d.nanos / nanosPerSecond

/-- The nanoseconds beyond the whole seconds. -/
def subsecond (d : Duration) : Nat := d.nanos % nanosPerSecond

/-- The whole milliseconds, a begun one counting. -/
def ceilMillis (d : Duration) : Nat := (d.nanos + 999999) / 1000000

/-- The sum, stopping at the greatest duration. -/
def add (a b : Duration) : Duration := ofNanos (a.nanos + b.nanos)

instance : Add Duration := ⟨add⟩
instance : LE Duration := ⟨fun a b => a.nanos ≤ b.nanos⟩
instance : LT Duration := ⟨fun a b => a.nanos < b.nanos⟩
instance (a b : Duration) : Decidable (a ≤ b) :=
  inferInstanceAs (Decidable (a.nanos ≤ b.nanos))
instance (a b : Duration) : Decidable (a < b) :=
  inferInstanceAs (Decidable (a.nanos < b.nanos))

instance : Min Duration := ⟨fun a b => if a ≤ b then a else b⟩

/-- The longest time that a timer runs: thirty years of 365 days. -/
def longestTimer : Duration := ofSeconds 946080000

/-- The time after which a timer goes off that is set to a duration. -/
def timer (d : Duration) : Duration := min d longestTimer

/-! ### Texts -/

/-- A unit of time in a duration text. -/
inductive TimeUnit where
  | hours | minutes | seconds | millis
deriving DecidableEq, Repr

/-- The unit that a word names. -/
def TimeUnit.ofWord? : List Char → Option TimeUnit
  | ['h'] => some .hours
  | ['m'] => some .minutes
  | ['s'] => some .seconds
  | ['m', 's'] => some .millis
  | _ => none

/-- The duration of `count` units; seconds stop at `2 ^ 64 - 1`. -/
def TimeUnit.times (unit : TimeUnit) (count : Nat) : Duration :=
  match unit with
  | hours => ofSeconds (count * 3600)
  | minutes => ofSeconds (count * 60)
  | seconds => ofSeconds count
  | millis => ofMillis count

/-- The number that decimal digits denote, if it is below `2 ^ 64`. -/
def countOf? (digits : List Char) : Option Nat :=
  let n := digits.foldl (fun n c => 10 * n + (c.toNat - '0'.toNat)) 0
  if n < 2 ^ (64 : Nat) then some n else none

/--
The sum of the groups in a text, each one a count of ASCII digits and a unit of ASCII letters, added
to `total`. Every group takes at least one character, so as many groups as characters are enough.
-/
def sumGroups? : (fuel : Nat) → (total : Duration) → List Char → Option Duration
  | _, total, [] => some total
  | 0, _, _ :: _ => none
  | fuel + 1, total, cs => do
    let digits := cs.takeWhile Char.isDigit
    let rest := cs.dropWhile Char.isDigit
    if digits.isEmpty then none
    else
      let count ← countOf? digits
      let unit ← TimeUnit.ofWord? (rest.takeWhile Char.isAlpha)
      sumGroups? fuel (total + unit.times count) (rest.dropWhile Char.isAlpha)

/--
The duration that a text denotes: groups of a count and one of the units `h`, `m`, `s`, `ms`, or a
bare `0`; blanks around the text do not count.
-/
def parseChars? (cs : List Char) : Option Duration :=
  match Text.trimChars cs with
  | [] => none
  | ['0'] => some zero
  | cs => sumGroups? cs.length zero cs

/-- The duration that a text denotes. -/
def parse? (text : String) : Option Duration := parseChars? text.toList

/-- What is wrong with a text that denotes no duration. -/
def invalidMessage (text : String) : String := "invalid duration '" ++ text ++ "'"

end Duration

end WarmPool
