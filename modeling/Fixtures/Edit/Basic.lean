import Fixtures.Path.Basic

/-! # Edits

An edit is a locator, an operation and an argument, usually a row of a table.
It is made in place (`InPlace`).
-/

namespace Fixtures

inductive Operation
  | add
  | delete
  | update
  | append
  | prepend
  | replace
  deriving DecidableEq, Repr

inductive EditError
  | unknownOperation (name : Text)
  | invalidRow (cells : Nat)
  | invalidLocator (locator : Text) (error : PathError)
  | pathNotFound (path : Text)
  | notAString (locator : Text)
  | invalidReplacement (argument : Text)
  deriving DecidableEq, Repr

def EditError.message : EditError → String
  | .unknownOperation n => "Modification type does not exist: " ++ String.ofList n
  | .invalidRow n =>
    "Mutation row must have exactly 3 fields (locator, operation, argument), got " ++ toString n
  | .invalidLocator l e => "Invalid locator '" ++ String.ofList l ++ "': " ++ e.message
  | .pathNotFound p => "Path not found in payload: " ++ String.ofList p
  | .notAString l => "Value at '" ++ String.ofList l ++ "' is not a string"
  | .invalidReplacement a =>
    "Replacement must have the form 'needle->replacement', got '" ++ String.ofList a ++ "'"

/-- A change made in place. What it leaves stands beside the error, too, if it fails. -/
abbrev InPlace (σ : Type) : Type → Type := EStateM EditError σ

namespace InPlace

variable {σ τ : Type}

/-- The change made to the part that a larger state holds. -/
def inside (wrap : σ → τ) (change : InPlace σ Unit) (s : σ) : EStateM.Result EditError τ Unit :=
  match change s with
  | .ok _ left => .ok () (wrap left)
  | .error e left => .error e (wrap left)

/-- What the change makes of a state if it succeeds. -/
def result (change : InPlace σ Unit) (s : σ) : Except EditError σ :=
  match change s with
  | .ok _ left => .ok left
  | .error e _ => .error e

end InPlace

namespace Operation

def all : List Operation := [.add, .delete, .update, .append, .prepend, .replace]

def name : Operation → String
  | .add => "ADD"
  | .delete => "DELETE"
  | .update => "UPDATE"
  | .append => "APPEND"
  | .prepend => "PREPEND"
  | .replace => "REPLACE"

/-- Names are matched exactly. -/
def ofName (t : Text) : Except EditError Operation :=
  match all.find? fun o => o.name.toList == t with
  | some o => .ok o
  | none => .error (.unknownOperation t)

end Operation

structure Edit where
  locator : Text
  operation : Operation
  argument : Text
  deriving DecidableEq, Repr

namespace Edit

def ofRow : List Text → Except EditError Edit
  | [locator, operation, argument] =>
    (Operation.ofName operation).map fun o => ⟨locator, o, argument⟩
  | cells => .error (.invalidRow cells.length)

def toRow (e : Edit) : List Text := [e.locator, e.operation.name.toList, e.argument]

def text (e : Edit) : String :=
  e.operation.name ++ " " ++ String.ofList e.locator ++ " '" ++ String.ofList e.argument ++ "'"

/-- The two sides of the first arrow in the argument. -/
def replacement (e : Edit) : Except EditError (Text × Text) :=
  match Text.cut? ['-', '>'] e.argument with
  | some sides => .ok sides
  | none => .error (.invalidReplacement e.argument)

end Edit

end Fixtures
