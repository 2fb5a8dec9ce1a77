import Fixtures.Json.Reader

/-! # Records in JSON

A record is an object with known fields in any order, or an array of the same
values in a fixed order. Unknown fields of an object are passed over; a known
field that comes twice, and an array that is too long, are refused.
-/

namespace Fixtures.Json

def texts (ts : List Text) : Json := .arr (ts.map .str)

def nat (n : Nat) : Json := .num (.int n)

def orNull {α : Type} (f : α → Json) : Option α → Json
  | some a => f a
  | none => .null

/-- Where records are within a value. -/
inductive Shape
  | any
  | list (item : Shape)
  | record (fields : List (String × Shape))

namespace Shape

def names : Shape → List String
  | .record fields => fields.map (·.1)
  | _ => []

def field? (name : Text) : Shape → Option Shape
  | .record fields => (fields.find? (·.1.toList == name)).map (·.2)
  | _ => some .any

def item (n : Nat) : Shape → Shape
  | .any => .any
  | .list s => s
  | .record fields => (fields[n]?.map (·.2)).getD .any

/-- The shape of the value that comes next in open containers, outermost first,
unless it is in an unknown field. -/
def inside? : Shape → List Frame → Option Shape
  | s, [] => some s
  | s, .array items :: rest => (s.item items.length).inside? rest
  | s, .object _ key :: rest => (s.field? key).bind (·.inside? rest)

/-- All fields of an object are kept, in the order of the text, and of the unknown
fields of records only the form counts. -/
def policy (s : Shape) : Policy :=
  ⟨fun k v fields => fields ++ [(k, v)], fun frames => (s.inside? frames.reverse).isNone⟩

end Shape

/-- The value of a text with records, in which fields may come twice. -/
def parseAs (s : Shape) (t : Text) : Except SyntaxError Json := Reader.read s.policy t

/-- The only field with a name, if there is one; nothing if there are several. -/
def only? (name : Text) (fields : List (Text × Json)) : Option (Option Json) :=
  match fields.filter (·.1 == name) with
  | [] => some none
  | [f] => some (some f.2)
  | _ => none

/-- The values of the known fields of a record, in the order of their names. -/
def fields? (s : Shape) : Json → Option (List (Option Json))
  | .obj fields => s.names.mapM fun n => only? n.toList fields
  | .arr items =>
    if items.length ≤ s.names.length then
      some (items.map some ++ List.replicate (s.names.length - items.length) none)
    else none
  | _ => none

/-! ## Values of fields -/

def text? : Json → Option Text
  | .str s => some s
  | _ => none

def nat? : Json → Option Nat
  | .num (.int (.ofNat n)) => if n < Nat.pow 2 64 then some n else none
  | _ => none

def list? {α : Type} (f : Json → Option α) : Json → Option (List α)
  | .arr items => items.mapM f
  | _ => none

def table? {α : Type} (f : Json → Option α) : Json → Option (Table α)
  | .obj fields => (fields.mapM fun e => (f e.2).map fun a => (e.1, a)).map Table.ofList
  | _ => none

def nullable? {α : Type} (f : Json → Option α) : Json → Option (Option α)
  | .null => some none
  | v => (f v).map some

def orDefault? {α : Type} (default : α) (f : Json → Option α) : Option Json → Option α
  | none => some default
  | some v => f v

end Fixtures.Json
