import Fixtures.Edit.Document
import Fixtures.Edit.Text
import Fixtures.Payload.Basic

/-! # Sequences of edits

Edits are made one after another in one payload. A sequence stops at the first
edit that fails, with the payload as that one leaves it. A row is read only when
its turn comes.
-/

namespace Fixtures

structure EditFailure where
  index : Nat
  /-- the payload that is left -/
  reached : Payload
  error : EditError
  deriving Repr

def EditFailure.message (f : EditFailure) : String := f.error.message

/-- The same failure in a longer sequence, after `n` more edits. -/
def EditFailure.after (n : Nat) (f : EditFailure) : EditFailure := { f with index := f.index + n }

namespace Edit

def editPayload (e : Edit) : InPlace Payload Unit
  | .raw t => e.editText.inside .raw t
  | .document v => e.editDocument.inside .document v

def apply (e : Edit) (p : Payload) : Except EditError Payload := e.editPayload.result p

def applyRow (row : List Text) : InPlace Payload Unit :=
  match ofRow row with
  | .ok e => e.editPayload
  | .error error => throw error

def applyEach {α : Type} (f : α → InPlace Payload Unit) :
    List α → Payload → Except EditFailure Payload
  | [], p => .ok p
  | a :: rest, p =>
    match f a p with
    | .error error left => .error ⟨0, left, error⟩
    | .ok _ q => (applyEach f rest q).mapError (EditFailure.after 1)

def applyAll (edits : List Edit) (p : Payload) : Except EditFailure Payload :=
  applyEach editPayload edits p

def applyRows (rows : List (List Text)) (p : Payload) : Except EditFailure Payload :=
  applyEach applyRow rows p

end Edit

end Fixtures
