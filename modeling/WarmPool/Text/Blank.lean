/-!
# Blank characters

The characters with the property White_Space, and trimming by them.
-/

namespace WarmPool.Text

/-- Whether a character has the property White_Space. -/
def isBlank (c : Char) : Bool :=
  let n := c.toNat
  (9 ≤ n && n ≤ 13) || n = 0x20 || n = 0x85 || n = 0xA0 || n = 0x1680 || (0x2000 ≤ n && n ≤ 0x200A)
    || n = 0x2028 || n = 0x2029 || n = 0x202F || n = 0x205F || n = 0x3000

/-- Drops blanks in front. -/
def trimFront (cs : List Char) : List Char := cs.dropWhile isBlank

/-- Drops blanks on both sides. -/
def trimChars (cs : List Char) : List Char := (trimFront (trimFront cs).reverse).reverse

/-- Drops blanks on both sides. -/
def trim (s : String) : String := String.ofList (trimChars s.toList)

end WarmPool.Text
