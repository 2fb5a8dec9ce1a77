import Fixtures.Edit.Basic
import Fixtures.Json.Reader
import Fixtures.Path.Lookup

/-! # Edits of a document

The locator is a path. An edit changes the node that the path leads to and no
other; taking away a node that is not there changes nothing.
-/

namespace Fixtures

/-- An argument is JSON if it reads as JSON, and otherwise a string. -/
def Edit.value (e : Edit) : Json :=
  match Json.parse e.argument with
  | .ok v => v
  | .error _ => .str e.argument

namespace Edit

def deleteNode (p : Path) : InPlace Json Unit :=
  modify fun root => (root.remove? p.segments).getD root

def addNode (p : Path) (v : Json) : InPlace Json Unit := do
  match (← get).put? p.segments v with
  | some root => set root
  | none => throw (.pathNotFound p.text)

/-- Makes the node that a path leads to a string. -/
def updateNode (e : Edit) (p : Path) : InPlace Json Unit := do
  match (← get).set? p.segments (.str e.argument) with
  | some root => set root
  | none => throw (.pathNotFound e.locator)

def rewordNode (e : Edit) (p : Path) (f : Text → Text) : InPlace Json Unit := do
  let root ← get
  match root.get? p.segments with
  | none => throw (.pathNotFound e.locator)
  | some (.str s) => set ((root.set? p.segments (.str (f s))).getD root)
  | some _ => throw (.notAString e.locator)

def editDocument (e : Edit) : InPlace Json Unit :=
  match Path.parse e.locator with
  | .error error => throw (.invalidLocator e.locator error)
  | .ok p =>
    match e.operation with
    | .delete => deleteNode p
    | .add => addNode p e.value
    | .update => e.updateNode p
    | .append => e.rewordNode p (· ++ e.argument)
    | .prepend => e.rewordNode p (e.argument ++ ·)
    | .replace =>
      match e.replacement with
      | .error error => throw error
      | .ok (needle, r) => e.rewordNode p (Text.replaceFirst needle r)

def onDocument (e : Edit) (root : Json) : Except EditError Json := e.editDocument.result root

/-- The path at which an edit that takes a node away finds nothing to take it from. -/
def missed? (e : Edit) (root : Json) : Option Path :=
  match e.operation, Path.parse e.locator with
  | .delete, .ok p =>
    if p.isRoot || (root.remove? p.segments).isSome then none else some p
  | _, _ => none

end Edit

end Fixtures
