import Fixtures.Decimal.Natural
import Fixtures.Text.Blank

/-! # Paths

A path leads from the root of a document to a node: `items[1].id`,
`$['odd.name']`. It is a list of segments together with its text. The parent of
a path is written down in one fixed spelling.
-/

namespace Fixtures

inductive Segment
  | field (name : Text)
  | index (n : Nat)
  deriving DecidableEq, Repr

structure Path where
  text : Text
  segments : List Segment
  deriving DecidableEq, Repr

inductive PathError
  | unclosedBracket (path : Text)
  | invalidIndex (path index : Text)
  deriving DecidableEq, Repr

def PathError.message : PathError → String
  | .unclosedBracket p => "unclosed '[' in path '" ++ String.ofList p ++ "'"
  | .invalidIndex p i =>
    "invalid array index '" ++ String.ofList i ++ "' in path '" ++ String.ofList p ++ "'"

namespace Segment

/-- A segment on its own: a name as it is, an index in brackets. -/
def text : Segment → Text
  | .field name => name
  | .index n => '[' :: (Decimal.digits n ++ [']'])

/-- A segment after a root marker. Names with a dot or a bracket are quoted. -/
def spelling : Segment → Text
  | .field name =>
    if name.any (fun c => c == '.' || c == '[' || c == ']') then
      ['[', '\''] ++ name ++ ['\'', ']']
    else '.' :: name
  | .index n => '[' :: (Decimal.digits n ++ [']'])

/-- What stands between quotes `q` and nothing else. -/
def unquote? (q : Char) (t : Text) : Option Text :=
  (Text.after? [q] t).bind (Text.before? [q])

/-- The segment between brackets: a quoted name, or an index of 64 bits. -/
def ofBracket (path inner : Text) : Except PathError Segment :=
  match (unquote? '\'' inner).or (unquote? '"' inner) with
  | some name => .ok (.field name)
  | none =>
    match Decimal.unsigned64? inner with
    | some n => .ok (.index n)
    | none => .error (.invalidIndex path inner)

end Segment

namespace Path

/-- Where a path is being read; texts so far are backwards. -/
inductive Place
  | name (seen : Text)
  /-- between brackets, perhaps inside a quote -/
  | bracket (inner : Text) (quote : Option Char)

/-- A name that has ended; dots in a row leave no names between them. -/
def nameSegment (seen : Text) : List Segment :=
  if seen.isEmpty then [] else [.field seen.reverse]

/-- A quote opens only at the start of a bracket, and ends at its like. -/
def quoteAfter (inner : Text) (quote : Option Char) (c : Char) : Option Char :=
  match quote with
  | none => if (c = '\'' ∨ c = '"') ∧ inner.all Text.isBlank then some c else none
  | some q => if c = q then none else some q

def segmentsFrom (path : Text) : Place → Text → Except PathError (List Segment)
  | .name seen, [] => .ok (nameSegment seen)
  | .bracket _ _, [] => .error (.unclosedBracket path)
  | .name seen, c :: cs =>
    if c = '.' then (segmentsFrom path (.name []) cs).map (nameSegment seen ++ ·)
    else if c = '[' then
      (segmentsFrom path (.bracket [] none) cs).map (nameSegment seen ++ ·)
    else segmentsFrom path (.name (c :: seen)) cs
  | .bracket inner quote, c :: cs =>
    if quote = none ∧ c = ']' then
      match Segment.ofBracket path (Text.trim inner.reverse) with
      | .error e => .error e
      | .ok s => (segmentsFrom path (.name []) cs).map (s :: ·)
    else segmentsFrom path (.bracket (c :: inner) (quoteAfter inner quote c)) cs

/-- The path without its root marker. In `$schema` and `@type` the sign belongs
to the name. -/
def body (t : Text) : Text :=
  match t with
  | c :: rest =>
    if (c = '$' ∨ c = '@') ∧ (rest = [] ∨ rest.head? = some '.' ∨ rest.head? = some '[') then rest
    else t
  | [] => []

def parse (t : Text) : Except PathError Path :=
  let path := Text.trim t
  (segmentsFrom path (.name []) (body path)).map fun segments => ⟨path, segments⟩

def isRoot (p : Path) : Bool := p.segments.isEmpty

def last? (p : Path) : Option Segment := p.segments.getLast?

/-- The path to some segments, in the fixed spelling. -/
def ofSegments (segments : List Segment) : Path :=
  ⟨'$' :: segments.flatMap Segment.spelling, segments⟩

def parent? (p : Path) : Option Path :=
  if p.isRoot then none else some (ofSegments p.segments.dropLast)

end Path

end Fixtures
