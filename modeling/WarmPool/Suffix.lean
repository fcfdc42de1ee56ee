/-!
# Random name parts

The random part at the end of a generated name: characters drawn from an alphabet of lower-case
consonants and digits without those that are easily mistaken for one another.
-/

namespace WarmPool.Suffix

/-- The characters to draw from. -/
def alphabet : Vector Char 27 :=
  #v['b', 'c', 'd', 'f', 'g', 'h', 'j', 'k', 'l', 'm', 'n', 'p', 'q', 'r', 's', 't', 'v', 'w', 'x',
    'z', '2', '4', '5', '6', '7', '8', '9']

/-- A draw of one character. -/
abbrev Draw := Fin 27

/-- The text of these draws. -/
def text (draws : List Draw) : String := String.ofList (draws.map fun d => alphabet[d])

end WarmPool.Suffix
