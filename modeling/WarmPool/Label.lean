/-!
# DNS labels

`Label.fault?` names what is wrong with a name that has to be a DNS label: one to sixty-three
lower-case letters, digits and hyphens, a hyphen at neither end.
-/

namespace WarmPool.Label

/-- The greatest length of a label. -/
def maxLength : Nat := 63

/-- Why a name is not a label; the first that applies counts. -/
inductive Fault where
  | empty
  | tooLong
  | badCharacter
  | hyphenAtEnd
deriving DecidableEq, Repr

/-- A lower-case letter, a digit or a hyphen. -/
def isLabelChar (c : Char) : Bool := c.isLower || c.isDigit || c = '-'

/-- What is wrong with a name, if anything. -/
def fault? (name : String) : Option Fault :=
  let cs := name.toList
  if cs.isEmpty then some .empty
  else if maxLength < name.utf8ByteSize then some .tooLong
  else if !cs.all isLabelChar then some .badCharacter
  else if cs.head? = some '-' || cs.getLast? = some '-' then some .hyphenAtEnd
  else none

/-- The wording of a fault. -/
def Fault.message (name : String) : Fault → String
  | empty => "name cannot be empty"
  | tooLong => "name '" ++ name ++ "' exceeds 63 characters"
  | badCharacter => "name '" ++ name ++ "' must be lowercase alphanumeric with hyphens"
  | hyphenAtEnd => "name '" ++ name ++ "' must start and end with an alphanumeric character"

/-- Names that are DNS labels. -/
def IsLabel (name : String) : Prop :=
  name ≠ "" ∧ name.utf8ByteSize ≤ maxLength ∧ (∀ c ∈ name.toList, isLabelChar c = true) ∧
    name.toList.head? ≠ some '-' ∧ name.toList.getLast? ≠ some '-'

end WarmPool.Label
