import Fixtures.Json.Record
import Fixtures.Step.Basic

/-! # Steps as JSON

`toJson` writes a record with all its fields. `ofJson?` reads a record in either
form; fields with a default may be left out.
-/

namespace Fixtures

namespace Row

def shape : Json.Shape := .record [("comments", .any), ("cells", .any), ("line", .any)]

def toJson (r : Row) : Json :=
  .obj (Table.ofList
    [("comments".toList, Json.texts r.comments), ("cells".toList, Json.texts r.cells),
     ("line".toList, Json.orNull Json.nat r.line)])

def ofJson? (v : Json) : Option Row :=
  match v.fields? shape with
  | some [comments, cells, line] => do
    let comments ← Json.orDefault? [] (Json.list? Json.text?) comments
    let cells ← cells.bind (Json.list? Json.text?)
    let line ← Json.orDefault? none (Json.nullable? Json.nat?) line
    return ⟨comments, cells, line⟩
  | _ => none

end Row

namespace DocBlock

def shape : Json.Shape := .record [("contentType", .any), ("content", .any), ("line", .any)]

def toJson (d : DocBlock) : Json :=
  .obj (Table.ofList
    [("contentType".toList, Json.orNull .str d.contentType), ("content".toList, .str d.content),
     ("line".toList, Json.nat d.line)])

def ofJson? (v : Json) : Option DocBlock :=
  match v.fields? shape with
  | some [contentType, content, line] => do
    let contentType ← Json.orDefault? none (Json.nullable? Json.text?) contentType
    let content ← content.bind Json.text?
    let line ← line.bind Json.nat?
    return ⟨contentType, content, line⟩
  | _ => none

end DocBlock

namespace Step

def shape : Json.Shape :=
  .record [("keyword", .any), ("text", .any), ("line", .any), ("comments", .any),
    ("rows", .list Row.shape), ("docString", DocBlock.shape)]

def toJson (s : Step) : Json :=
  .obj (Table.ofList
    [("keyword".toList, .str s.keyword), ("text".toList, .str s.text),
     ("line".toList, Json.nat s.line), ("comments".toList, Json.texts s.comments),
     ("rows".toList, Json.orNull (fun rows => .arr (rows.map Row.toJson)) s.rows),
     ("docString".toList, Json.orNull DocBlock.toJson s.docBlock)])

def ofJson? (v : Json) : Option Step :=
  match v.fields? shape with
  | some [keyword, text, line, comments, rows, docBlock] => do
    let keyword ← keyword.bind Json.text?
    let text ← text.bind Json.text?
    let line ← line.bind Json.nat?
    let comments ← Json.orDefault? [] (Json.list? Json.text?) comments
    let rows ← Json.orDefault? none (Json.nullable? (Json.list? Row.ofJson?)) rows
    let docBlock ← Json.orDefault? none (Json.nullable? DocBlock.ofJson?) docBlock
    return ⟨keyword, text, line, comments, rows, docBlock⟩
  | _ => none

def parse? (t : Text) : Option Step :=
  match Json.parseAs shape t with
  | .ok v => ofJson? v
  | .error _ => none

end Step

namespace Argument

def shape : Json.Shape := .record [("offset", .any), ("value", .any)]

def toJson (a : Argument) : Json :=
  .obj (Table.ofList
    [("offset".toList, Json.nat a.offset), ("value".toList, Json.orNull .str a.value)])

/-- An object may leave the value out, an array may not. -/
def ofJson? (v : Json) : Option Argument :=
  match v, v.fields? shape with
  | .arr _, some [_, none] => none
  | _, some [offset, value] => do
    let offset ← offset.bind Json.nat?
    let value ← Json.orDefault? none (Json.nullable? Json.text?) value
    return ⟨offset, value⟩
  | _, _ => none

end Argument

end Fixtures
