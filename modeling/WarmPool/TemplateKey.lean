import WarmPool.Template
import WarmPool.Json.Canonical
import WarmPool.Digest.Sha256

/-!
# Template keys

The key of a value is the start of the digest of its canonical text, so values with one canonical
form share it and no spelling matters.
-/

namespace WarmPool

/-- The number of bytes of the digest that a key keeps. -/
def keyBytes : Nat := 16

/-- Two hexadecimal digits in lower case for each byte. -/
def hexText (bytes : List UInt8) : String :=
  String.ofList <| bytes.flatMap fun b =>
    [Json.hexDigit (b.toNat / 16), Json.hexDigit (b.toNat % 16)]

/-- The key of a text: the first half of its SHA-256 digest in hexadecimal. -/
def textKey (text : String) : String :=
  hexText ((Sha256.digest text.toUTF8.toList).take keyBytes)

/-- The key of a JSON value. -/
def Json.key (v : Json) : String := textKey v.canonicalText

/-- The key of a template. -/
def Template.key (t : Template) : String := t.encode.key

end WarmPool
