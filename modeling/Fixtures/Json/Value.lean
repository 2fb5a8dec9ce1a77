import Fixtures.Decimal.Binary64
import Fixtures.Table

/-! # JSON values

The fields of an object are a table, in the order of their names.
-/

namespace Fixtures

/-- A number is kept as an integer if it is written as one and fits into 64
bits, with or without a sign. -/
inductive Number
  | int (n : Int)
  | real (x : Binary64)
  deriving DecidableEq, Repr

inductive Json
  | null
  | bool (b : Bool)
  | num (n : Number)
  | str (s : Text)
  | arr (items : List Json)
  | obj (fields : List (Text × Json))
  deriving Repr, BEq, Inhabited

namespace Number

/-- Whether an integer fits into 64 bits, with or without a sign. -/
def inRange (n : Int) : Bool := -Int.pow 2 63 ≤ n && n < Int.pow 2 64

end Number

namespace Json

/-- What a value is called in messages. -/
def kindName : Json → String
  | .null => "null"
  | .bool _ => "a boolean"
  | .num _ => "a number"
  | .str _ => "a string"
  | .arr _ => "an array"
  | .obj _ => "an object"

def isContainer : Json → Bool
  | .arr _ => true
  | .obj _ => true
  | _ => false

mutual

def depth : Json → Nat
  | .arr items => depthItems items + 1
  | .obj fields => depthFields fields + 1
  | _ => 0

def depthItems : List Json → Nat
  | [] => 0
  | v :: rest => max (depth v) (depthItems rest)

def depthFields : List (Text × Json) → Nat
  | [] => 0
  | (_, v) :: rest => max (depth v) (depthFields rest)

end

mutual

/-- A value as a reader leaves it: integers fit into 64 bits, and the fields of
every object are in order. -/
def WellFormed : Json → Prop
  | .num (.int n) => Number.inRange n = true
  | .arr items => WellFormedItems items
  | .obj fields => Table.Sorted fields ∧ WellFormedFields fields
  | _ => True

def WellFormedItems : List Json → Prop
  | [] => True
  | v :: rest => WellFormed v ∧ WellFormedItems rest

def WellFormedFields : List (Text × Json) → Prop
  | [] => True
  | (_, v) :: rest => WellFormed v ∧ WellFormedFields rest

end

end Json

end Fixtures
