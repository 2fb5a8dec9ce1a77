import Fixtures.Edit.Basic
import Fixtures.Text.Position

/-! # Edits of a raw text

The locator is a piece of the text, and its first occurrence is edited. Where
it does not occur, nothing changes. A replacement has its own pattern, in front
of the arrow in the argument.
-/

namespace Fixtures

namespace Edit

/-- Edits a text where the locator first starts and ends. -/
def atLocator (e : Edit) (f : (start stop : Nat) → Text → Text) (t : Text) : Text :=
  match Text.find? e.locator t with
  | some start => f start (start + Text.byteSize e.locator) t
  | none => t

def editText (e : Edit) : InPlace Text Unit :=
  match e.operation with
  | .add => modify (· ++ e.argument)
  | .delete => modify (e.atLocator fun start stop => Text.replaceRange start stop [])
  | .update => modify (e.atLocator fun start stop => Text.replaceRange start stop e.argument)
  | .prepend => modify (e.atLocator fun start _ => Text.insertAt start e.argument)
  | .append => modify (e.atLocator fun _ stop => Text.insertAt stop e.argument)
  | .replace =>
    match e.replacement with
    | .error error => throw error
    | .ok (needle, r) => modify (Text.replaceFirst needle r)

def onText (e : Edit) (t : Text) : Except EditError Text := e.editText.result t

end Edit

end Fixtures
