import WarmPool.Number.Decimal

/-!
# JSON values

A JSON value with its numbers kept exactly: an integer of 64 bits, signed or unsigned, or a finite
binary64 number. An object is the list of its fields; `Json.WellFormed` says that no key occurs
twice at any depth, which is what the parser delivers.
-/

namespace WarmPool

/-- A JSON number: an integer of 64 bits, signed or unsigned, or a finite binary64 number. -/
inductive Number where
  | integer (value : Int) (ge : -2 ^ (63 : Nat) ≤ value) (lt : value < 2 ^ (64 : Nat))
  | float (value : Binary64)
deriving DecidableEq, Repr

namespace Number

/-- The number of an integer in the range of 64 bits, signed or unsigned. -/
def ofInt? (i : Int) : Option Number :=
  if h : -2 ^ (63 : Nat) ≤ i ∧ i < 2 ^ (64 : Nat) then some (integer i h.1 h.2) else none

/-- The numerator and the denominator of the value. -/
def ratio : Number → Int × Nat
  | integer i _ _ => (i, 1)
  | float x =>
    let (num, den) := x.magnitude
    (if x.negative then -(num : Int) else num, den)

/-- Whether two numbers denote the same rational. -/
def SameValue (a b : Number) : Prop :=
  a.ratio.1 * b.ratio.2 = b.ratio.1 * a.ratio.2

instance (a b : Number) : Decidable (SameValue a b) :=
  inferInstanceAs (Decidable (_ = _))

end Number

/-- A JSON value. -/
inductive Json where
  | null
  | bool (value : Bool)
  | number (value : Number)
  | string (value : String)
  | array (items : List Json)
  | object (fields : List (String × Json))
deriving Repr, Inhabited

namespace Json

/-! ### Decidable equality -/

mutual

/-- Decides equality of two values. -/
def decEq : (a b : Json) → Decidable (a = b)
  | .null, .null => .isTrue rfl
  | .bool a, .bool b => decidable_of_iff (a = b) (by simp)
  | .number a, .number b => decidable_of_iff (a = b) (by simp)
  | .string a, .string b => decidable_of_iff (a = b) (by simp)
  | .array a, .array b =>
    match decEqItems a b with
    | .isTrue h => .isTrue (by simp [h])
    | .isFalse h => .isFalse (by simp [h])
  | .object a, .object b =>
    match decEqFields a b with
    | .isTrue h => .isTrue (by simp [h])
    | .isFalse h => .isFalse (by simp [h])
  | .null, .bool _ | .null, .number _ | .null, .string _ | .null, .array _ | .null, .object _
  | .bool _, .null | .bool _, .number _ | .bool _, .string _ | .bool _, .array _
  | .bool _, .object _ | .number _, .null | .number _, .bool _ | .number _, .string _
  | .number _, .array _ | .number _, .object _ | .string _, .null | .string _, .bool _
  | .string _, .number _ | .string _, .array _ | .string _, .object _ | .array _, .null
  | .array _, .bool _ | .array _, .number _ | .array _, .string _ | .array _, .object _
  | .object _, .null | .object _, .bool _ | .object _, .number _ | .object _, .string _
  | .object _, .array _ => .isFalse (by simp)

/-- Decides equality of two lists of values. -/
def decEqItems : (a b : List Json) → Decidable (a = b)
  | [], [] => .isTrue rfl
  | [], _ :: _ | _ :: _, [] => .isFalse (by simp)
  | x :: a, y :: b =>
    match decEq x y, decEqItems a b with
    | .isTrue h, .isTrue g => .isTrue (by simp [h, g])
    | .isFalse h, _ => .isFalse (by simp [h])
    | _, .isFalse g => .isFalse (by simp [g])

/-- Decides equality of two lists of fields. -/
def decEqFields : (a b : List (String × Json)) → Decidable (a = b)
  | [], [] => .isTrue rfl
  | [], _ :: _ | _ :: _, [] => .isFalse (by simp)
  | (k, x) :: a, (l, y) :: b =>
    match decEq x y, decEqFields a b with
    | .isTrue h, .isTrue g =>
      if e : k = l then .isTrue (by simp [h, g, e]) else .isFalse (by simp [e])
    | .isFalse h, _ => .isFalse (by simp [h])
    | _, .isFalse g => .isFalse (by simp [g])

end

instance : DecidableEq Json := decEq

/-! ### Objects -/

/-- The value of a key in a list of fields. -/
def lookup? (key : String) : List (String × Json) → Option Json
  | [] => none
  | (k, v) :: rest => if k = key then some v else lookup? key rest

/-- Sets the value of a key, in its place if it is there and else at the end. -/
def setField (key : String) (value : Json) : List (String × Json) → List (String × Json)
  | [] => [(key, value)]
  | (k, v) :: rest => if k = key then (k, value) :: rest else (k, v) :: setField key value rest

/-- Removes a key. -/
def removeField (key : String) (fields : List (String × Json)) : List (String × Json) :=
  fields.filter fun f => f.1 ≠ key

/-- The value of a key, if this is an object that has it. -/
def get? (key : String) : Json → Option Json
  | .object fields => lookup? key fields
  | _ => none

mutual

/-- No key occurs twice in an object, at any depth. -/
def WellFormed : Json → Prop
  | .array items => WellFormedItems items
  | .object fields => (fields.map Prod.fst).Nodup ∧ WellFormedFields fields
  | _ => True

/-- Every element is well formed. -/
def WellFormedItems : List Json → Prop
  | [] => True
  | v :: rest => v.WellFormed ∧ WellFormedItems rest

/-- The value of every field is well formed. -/
def WellFormedFields : List (String × Json) → Prop
  | [] => True
  | (_, v) :: rest => v.WellFormed ∧ WellFormedFields rest

end

/-! ### Building values -/

/-- An integer as a JSON number; beyond 64 bits, the nearest binary64 number or null. -/
def ofInt (i : Int) : Json :=
  match Number.ofInt? i with
  | some n => .number n
  | none =>
    match Binary64.ofRatio? (decide (i < 0)) i.natAbs 1 with
    | some x => .number (.float x)
    | none => .null

/-- A natural number as a JSON number. -/
def ofNat (n : Nat) : Json := ofInt n

/-- A string, or null where there is none. -/
def ofString? : Option String → Json
  | some s => .string s
  | none => .null

/-- An array of strings. -/
def ofStrings (items : List String) : Json := .array (items.map .string)

end Json

end WarmPool
