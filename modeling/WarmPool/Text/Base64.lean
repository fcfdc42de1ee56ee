/-!
# Base64

Which texts are bytes in base64: groups of four characters of the alphabet, the last one padded with
up to two equals signs, with no bits left over in front of the padding.
-/

namespace WarmPool.Text

/-- The six bits that a character stands for. -/
def base64Value? (c : Char) : Option Nat :=
  if 'A' ≤ c && c ≤ 'Z' then some (c.toNat - 'A'.toNat)
  else if 'a' ≤ c && c ≤ 'z' then some (c.toNat - 'a'.toNat + 26)
  else if '0' ≤ c && c ≤ '9' then some (c.toNat - '0'.toNat + 52)
  else if c = '+' then some 62
  else if c = '/' then some 63
  else none

/-- Whether a character is in the alphabet and its `unused` lowest bits are zero. -/
def isBase64Char (unused : Nat) (c : Char) : Bool :=
  match base64Value? c with
  | some n => n % 2 ^ unused = 0
  | none => false

/-- Whether some characters are bytes in base64. -/
def isBase64 : List Char → Bool
  | [] => true
  | [a, b, '=', '='] => isBase64Char 0 a && isBase64Char 4 b
  | [a, b, c, '='] => isBase64Char 0 a && isBase64Char 0 b && isBase64Char 2 c
  | a :: b :: c :: d :: rest =>
    isBase64Char 0 a && isBase64Char 0 b && isBase64Char 0 c && isBase64Char 0 d && isBase64 rest
  | _ => false

end WarmPool.Text
