import Fixtures.Json.Value
import Fixtures.Path.Basic

/-! # Nodes of a document

`Json.get?` reads the node that segments lead to, and `Json.modify?` changes
it. New nodes are put, and nodes removed, through the parent.
-/

namespace Fixtures

/-- The item at a position changed by `f`; nothing if there is none or `f`
refuses it. -/
def modifyItem? {α : Type} (f : α → Option α) : Nat → List α → Option (List α)
  | _, [] => none
  | 0, a :: as => (f a).map (· :: as)
  | i + 1, a :: as => (modifyItem? f i as).map (a :: ·)

namespace Segment

def get? : Segment → Json → Option Json
  | .field k, .obj fields => Table.get? k fields
  | .index i, .arr items => items[i]?
  | _, _ => none

def modify? (f : Json → Option Json) : Segment → Json → Option Json
  | .field k, .obj fields => (Table.modify? k f fields).map .obj
  | .index i, .arr items => (modifyItem? f i items).map .arr
  | _, _ => none

/-- A container with a value put at a segment: a field is replaced if it is
there, an item is inserted at a position up to the end. -/
def put? (v : Json) : Segment → Json → Option Json
  | .field k, .obj fields => some (.obj (Table.insert k v fields))
  | .index i, .arr items =>
    if i ≤ items.length then some (.arr (items.insertIdx i v)) else none
  | _, _ => none

/-- A container without the node at a segment; an object need not have it. -/
def remove? : Segment → Json → Option Json
  | .field k, .obj fields => some (.obj (Table.erase k fields))
  | .index i, .arr items => if i < items.length then some (.arr (items.eraseIdx i)) else none
  | _, _ => none

end Segment

namespace Json

def get? : Json → List Segment → Option Json
  | v, [] => some v
  | v, s :: rest => (s.get? v).bind (get? · rest)

def modify? (f : Json → Option Json) : Json → List Segment → Option Json
  | v, [] => f v
  | v, s :: rest => s.modify? (modify? f · rest) v

def set? (root : Json) (path : List Segment) (v : Json) : Option Json :=
  root.modify? (fun _ => some v) path

/-- The document with a value put under its parent; the root has no parent. -/
def put? (root : Json) (path : List Segment) (v : Json) : Option Json :=
  match path.getLast? with
  | none => none
  | some s => root.modify? (s.put? v) path.dropLast

/-- The document without a node, if its parent can hold such a node. -/
def remove? (root : Json) (path : List Segment) : Option Json :=
  match path.getLast? with
  | none => none
  | some s => root.modify? s.remove? path.dropLast

end Json

end Fixtures
