import Fixtures.Json.Printer
import Fixtures.Json.Reader
import Fixtures.Path.Lookup

/-! # Registries

A registry keeps values under keys during a run. A value may be captured from a
JSON text: a string as it is, any other node as its JSON text.
-/

namespace Fixtures

abbrev Registry := Table Text

inductive CaptureError
  | invalidJson (error : Json.SyntaxError)
  | invalidPath (error : PathError)
  | pathNotFound (path : Text)
  deriving DecidableEq, Repr

def CaptureError.message : CaptureError → String
  | .invalidJson e => "Failed to parse JSON document: " ++ e.message
  | .invalidPath e => e.message
  | .pathNotFound p => "Path '" ++ String.ofList p ++ "' not found in JSON document"

structure Captured where
  path : Path
  value : Text
  deriving DecidableEq, Repr

def Captured.ofText (json path : Text) : Except CaptureError Captured :=
  match Json.parse json with
  | .error e => .error (.invalidJson e)
  | .ok document =>
    match Path.parse path with
    | .error e => .error (.invalidPath e)
    | .ok p =>
      match document.get? p.segments with
      | none => .error (.pathNotFound p.text)
      | some v => .ok ⟨p, v.toText⟩

/-- The captured text, and the registry with it stored under a key. -/
def Registry.capture (json path key : Text) (r : Registry) :
    Except CaptureError (Text × Registry) :=
  (Captured.ofText json path).map fun c => (c.value, Table.insert key c.value r)

end Fixtures
