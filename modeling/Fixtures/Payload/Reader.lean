import Fixtures.Json.Reader
import Fixtures.Payload.Basic
import Fixtures.Relaxed.Value

/-! # Reading payloads

A document is read as JSON and, if it is none, as a relaxed text; its root must
be an object or an array. A resource is a file below a directory. A document
that is loaded as text is rendered, so that all its spellings give one text.
-/

namespace Fixtures

namespace Json

def parseEither? (t : Text) : Option Json :=
  match parse t with
  | .ok v => some v
  | .error _ => Relaxed.parse? t

def isRelaxed (t : Text) : Bool :=
  match parse t with
  | .ok _ => false
  | .error _ => true

/-- The document that a named text is. -/
def document (name t : Text) : Except LoadError Json :=
  match parseEither? t with
  | none => .error (.invalidDocument name .malformed)
  | some v => if v.isContainer then .ok v else .error (.invalidDocument name (.notContainer v))

end Json

namespace Payload

def ofText (name : Text) (kind : PayloadKind) (t : Text) : Except LoadError Payload :=
  match kind with
  | .string => .ok (.raw t)
  | .json => (Json.document name t).map .document

/-- The name of a text that is not a resource. -/
def inlineName : Text := "<inline>".toList

def parse (kind : PayloadKind) (t : Text) : Except LoadError Payload := ofText inlineName kind t

end Payload

structure Resources where
  read : FileReader
  directory : Text

namespace Resources

def readText (r : Resources) (name : Text) : Except LoadError Text :=
  match r.read (Files.join r.directory name) with
  | .ok t => .ok t
  | .error .notFound => .error (.notFound name)
  | .error e => .error (.unreadable name e)

/-- The text of a resource; a document is rendered. -/
def load (r : Resources) (name : Text) (kind : PayloadKind) : Except LoadError Text :=
  match r.readText name with
  | .error e => .error e
  | .ok t => (Payload.ofText name kind t).map Payload.render

def payload (r : Resources) (name : Text) (kind : PayloadKind) : Except LoadError Payload :=
  match r.load name kind with
  | .error e => .error e
  | .ok t => Payload.ofText name kind t

end Resources

end Fixtures
