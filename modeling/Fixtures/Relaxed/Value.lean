import Fixtures.Relaxed.Node
import Fixtures.Relaxed.Scalar

/-! # Values of relaxed texts

A relaxed text is JSON in a freer notation. Its nodes become JSON values: keys
become names, a tag of the document's own becomes an object with one field, and
an alias becomes a copy of the node with its anchor. How deep nodes nest and how
often aliases are followed is limited.
-/

namespace Fixtures.Relaxed

/-! ## Anchors -/

/-- Anchors and aliases by number. An anchor's number says how many other names
were known before it; an alias has the number last given to its name. An alias
before its anchor is refused. -/
def numbered? (known : Table Nat) : List Token → Option (List Token)
  | [] => some []
  | .anchor name :: rest =>
    let n := known.length
    (numbered? (Table.insert name n known) rest).map (.anchor (Decimal.digits n) :: ·)
  | .alias name :: rest =>
    match Table.get? name known with
    | some n => (numbered? known rest).map (.alias (Decimal.digits n) :: ·)
    | none => none
  | t :: rest => (numbered? known rest).map (t :: ·)

namespace Node

def anchorsBy (p : Properties) (n : Node) : List (Text × Node) :=
  match p.anchor with
  | some a => [(a, n)]
  | none => []

mutual

/-- The nodes with anchors, in the order in which they start. -/
def anchored : Node → List (Text × Node)
  | .alias _ => []
  | .scalar p plain t => anchorsBy p (.scalar p plain t)
  | .sequence p items => anchorsBy p (.sequence p items) ++ anchoredItems items
  | .mapping p entries => anchorsBy p (.mapping p entries) ++ anchoredEntries entries

def anchoredItems : List Node → List (Text × Node)
  | [] => []
  | n :: rest => anchored n ++ anchoredItems rest

def anchoredEntries : List (Node × Node) → List (Text × Node)
  | [] => []
  | (k, v) :: rest => anchored k ++ anchored v ++ anchoredEntries rest

end

mutual

/-- How much is written: a collection counts once for its start and once for its
end. -/
def size : Node → Nat
  | .sequence _ items => sizeItems items + 2
  | .mapping _ entries => sizeEntries entries + 2
  | _ => 1

def sizeItems : List Node → Nat
  | [] => 0
  | n :: rest => size n + sizeItems rest

def sizeEntries : List (Node × Node) → Nat
  | [] => 0
  | (k, v) :: rest => size k + size v + sizeEntries rest

end

/-! ## Values -/

/-- A value together with how many more aliases may be followed. -/
abbrev Reading (α : Type) := Option (α × Nat)

/-- The node that a node stands for. If there are several with the anchor of an
alias, it is the last one. -/
def target? (anchors : List (Text × Node)) (left : Nat) : Node → Reading Node
  | .alias name =>
    match left with
    | 0 => none
    | left + 1 => (anchors.reverse.lookup name).map (·, left)
  | n => some (n, left)

def wrap (tag : Text) (v : Json) : Json := .obj [('!' :: tag, v)]

def wrapIn (tag : Option Text) (v : Json) : Json :=
  match tag with
  | some tag => wrap tag v
  | none => v

/-- A key, which must be a scalar without a tag of the document's own. -/
def key? (anchors : List (Text × Node)) (n : Node) (left : Nat) : Reading Scalar :=
  match target? anchors left n with
  | some (.scalar p plain t, left) =>
    if p.ownTag?.isSome then none else (Scalar.ofTagged? p.tag plain t).map (·, left)
  | _ => none

def readItems (read : Node → Nat → Reading Json) : List Node → Nat → Reading (List Json)
  | [], left => some ([], left)
  | n :: rest, left =>
    match read n left with
    | none => none
    | some (v, left) => (readItems read rest left).map fun r => (v :: r.1, r.2)

/-- The fields of an object. No key comes twice; of different keys with one name
the last one counts. -/
def readEntries (key : Node → Nat → Reading Scalar) (read : Node → Nat → Reading Json) :
    (seen : List Scalar) → Table Json → List (Node × Node) → Nat → Reading (Table Json)
  | _, fields, [], left => some (fields, left)
  | seen, fields, (k, v) :: rest, left =>
    match key k left with
    | none => none
    | some (k, left) =>
      match k.name?, read v left with
      | some name, some (v, left) =>
        if seen.any k.same then none
        else readEntries key read (k :: seen) (Table.insert name v fields) rest left
      | _, _ => none

/-- The value of a node, inside which collections nest less than `depth` deep. -/
def json? (anchors : List (Text × Node)) : (depth : Nat) → Node → Nat → Reading Json
  | 0, _, _ => none
  | depth + 1, n, left =>
    match target? anchors left n with
    | some (.scalar p plain t, left) =>
      (Scalar.ofTagged? p.tag plain t).map fun v => (wrapIn p.ownTag? v.json, left)
    | some (.sequence p items, left) =>
      if depth = 0 then none
      else
        (readItems (json? anchors depth) items left).map fun r =>
          (wrapIn p.ownTag? (.arr r.1), r.2)
    | some (.mapping p entries, left) =>
      if depth = 0 then none
      else
        (readEntries (key? anchors) (json? anchors depth) [] [] entries left).map fun r =>
          (wrapIn p.ownTag? (.obj r.1), r.2)
    | _ => none

/-- Collections nest at most this deep. -/
def depthLimit : Nat := 128

/-- The value of a root. Aliases are followed at most a hundred times for each
part of what is written. -/
def toJson? (root : Node) : Option Json :=
  (json? root.anchored (depthLimit + 1) root (100 * root.size)).map (·.1)

end Node

def parse? (t : Text) : Option Json :=
  (prepare t).bind fun t =>
    (tokens? t).bind fun tokens =>
      (numbered? [] tokens).bind fun tokens => (Node.ofTokens? tokens).bind Node.toJson?

end Fixtures.Relaxed
