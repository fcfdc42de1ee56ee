import WarmPool.Text.Printable

/-!
# Quoted text for messages

A text in double quotes on one line: quotes and backslashes get a backslash, the usual controls
their letter, and any other character that would not be shown its code point in hexadecimal.
-/

namespace WarmPool.Text

/-- The hexadecimal numeral of a number, in lower case and in front of `rest`. -/
def hexDigits : (fuel : Nat) → Nat → (rest : List Char) → List Char
  | 0, _, rest => rest
  | fuel + 1, n, rest =>
    let d := n % 16
    let c := if d < 10 then Char.ofNat ('0'.toNat + d) else Char.ofNat ('a'.toNat + (d - 10))
    if n < 16 then c :: rest else hexDigits fuel (n / 16) (c :: rest)

/-- A character inside quotes. -/
def quotedChar (c : Char) : List Char :=
  if c = '\x00' then ['\\', '0']
  else if c = '\t' then ['\\', 't']
  else if c = '\r' then ['\\', 'r']
  else if c = '\n' then ['\\', 'n']
  else if c = '\\' then ['\\', '\\']
  else if c = '"' then ['\\', '"']
  else if isPrintable c then [c]
  else '\\' :: 'u' :: '\x7b' :: hexDigits 8 c.toNat ['\x7d']

/-- The text in quotes. -/
def quoted (s : String) : String :=
  String.ofList ('"' :: (s.toList.flatMap quotedChar ++ ['"']))

end WarmPool.Text
