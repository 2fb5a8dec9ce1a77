import Fixtures.Files.Basic
import Fixtures.Json.Printer

/-! # Payloads

A payload is what edits are applied to: a raw text, or a JSON document.
-/

namespace Fixtures

inductive PayloadKind
  | string
  | json
  deriving DecidableEq, Repr

inductive Payload
  | raw (t : Text)
  | document (v : Json)
  deriving Repr

/-- Why a text is not taken as a document. -/
inductive DocumentFault
  | malformed
  /-- a value that is neither an object nor an array -/
  | notContainer (found : Json)
  deriving Repr

inductive LoadError
  | notFound (name : Text)
  | unreadable (name : Text) (error : FileError)
  | invalidDocument (name : Text) (fault : DocumentFault)
  | unknownKind (kind : Text)
  deriving Repr

def DocumentFault.message : DocumentFault → String
  | .malformed => ""
  | .notContainer v => " expected an object or array, found " ++ v.kindName

def LoadError.message : LoadError → String
  | .notFound n => "File does not exist: " ++ String.ofList n
  | .unreadable n e => "Failed to read " ++ String.ofList n ++ ": " ++ e.message
  | .invalidDocument n f => "Failed to parse " ++ String.ofList n ++ " as JSON:" ++ f.message
  | .unknownKind k =>
    "Unknown payload kind '" ++ String.ofList k ++ "', expected 'string' or 'json'"

namespace PayloadKind

def all : List PayloadKind := [.string, .json]

def name : PayloadKind → String
  | .string => "string"
  | .json => "json"

/-- Names are matched exactly. -/
def ofName (t : Text) : Except LoadError PayloadKind :=
  match all.find? fun k => k.name.toList == t with
  | some k => .ok k
  | none => .error (.unknownKind t)

end PayloadKind

namespace Payload

def kind : Payload → PayloadKind
  | .raw _ => .string
  | .document _ => .json

def render : Payload → Text
  | .raw t => t
  | .document v => v.render

end Payload

end Fixtures
