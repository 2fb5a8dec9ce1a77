import Fixtures.Edit.Sequence
import Fixtures.Proofs.Except

/-!
# A failing edit changes nothing

What a change writes stays, also if it fails later. But every operation on a text or a
document finds out whether it can be made before it writes, so where it fails it has
left everything as it was (`InPlace.Atomic`), and so have edits of payloads and rows.
-/

namespace Fixtures

/-! ## Changes -/

namespace InPlace

variable {σ τ : Type} {change : InPlace σ Unit}

/-- Where the change fails, everything is left as it was. -/
def Atomic (change : InPlace σ Unit) : Prop :=
  ∀ s error left, change s = .error error left → left = s

theorem atomic_throw (error : EditError) : Atomic (throw error : InPlace σ Unit) := by
  intro s error' left h
  cases h
  rfl

theorem atomic_set (s : σ) : Atomic (set s : InPlace σ Unit) := by
  intro s' error left h
  cases h

theorem atomic_modify (f : σ → σ) : Atomic (modify f : InPlace σ Unit) := by
  intro s error left h
  cases h

/-- Nothing has been written yet when the state has been read. -/
theorem atomic_get_bind {next : σ → InPlace σ Unit} (hnext : ∀ s, (next s).Atomic) :
    Atomic (get >>= next) :=
  fun s => hnext s s

example : (set 1 >>= fun _ => throw (.invalidRow 0) : InPlace Nat Unit) 0 =
    .error (.invalidRow 0) 1 := rfl

theorem Atomic.left_of_inside (hchange : change.Atomic) {wrap : σ → τ} {s : σ} {error : EditError}
    {left : τ} (h : change.inside wrap s = .error error left) : left = wrap s := by
  unfold inside at h
  cases hs : change s with
  | ok _ left' =>
    rw [hs] at h
    cases h
  | error error' left' =>
    rw [hs] at h
    cases h
    rw [hchange s error left' hs]

theorem result_throw (error : EditError) (s : σ) : result (throw error) s = .error error := rfl

theorem result_set (s' s : σ) : result (set s') s = .ok s' := rfl

theorem result_get_bind (next : σ → InPlace σ Unit) (s : σ) :
    result (get >>= next) s = result (next s) s := rfl

end InPlace

namespace Edit

open InPlace

/-! ## Operations on a document -/

section
variable (e : Edit) (p : Path) (v root : Json) (f : Text → Text)

theorem atomic_deleteNode : (deleteNode p).Atomic := atomic_modify _

theorem atomic_addNode : (addNode p v).Atomic := by
  apply atomic_get_bind
  intro root
  split
  · exact atomic_set _
  · exact atomic_throw _

theorem atomic_updateNode : (e.updateNode p).Atomic := by
  apply atomic_get_bind
  intro root
  split
  · exact atomic_set _
  · exact atomic_throw _

theorem atomic_rewordNode : (e.rewordNode p f).Atomic := by
  apply atomic_get_bind
  intro root
  split
  · exact atomic_throw _
  · exact atomic_set _
  · exact atomic_throw _

theorem result_deleteNode :
    (deleteNode p).result root = .ok ((root.remove? p.segments).getD root) := rfl

theorem result_addNode :
    (addNode p v).result root =
      match root.put? p.segments v with
      | some root' => .ok root'
      | none => .error (.pathNotFound p.text) := by
  rw [addNode, result_get_bind]
  cases root.put? p.segments v with
  | some root' => exact result_set root' root
  | none => exact result_throw _ root

theorem result_updateNode :
    (e.updateNode p).result root =
      match root.set? p.segments (.str e.argument) with
      | some root' => .ok root'
      | none => .error (.pathNotFound e.locator) := by
  rw [updateNode, result_get_bind]
  cases root.set? p.segments (.str e.argument) with
  | some root' => exact result_set root' root
  | none => exact result_throw _ root

theorem result_rewordNode :
    (e.rewordNode p f).result root =
      match root.get? p.segments with
      | none => .error (.pathNotFound e.locator)
      | some (.str s) => .ok ((root.set? p.segments (.str (f s))).getD root)
      | some _ => .error (.notAString e.locator) := by
  rw [rewordNode, result_get_bind]
  cases root.get? p.segments with
  | none => exact result_throw _ root
  | some v =>
    cases v with
    | str s => exact result_set _ root
    | _ => exact result_throw _ root

end

theorem atomic_editDocument (e : Edit) : e.editDocument.Atomic := by
  unfold editDocument
  cases Path.parse e.locator with
  | error error => exact atomic_throw _
  | ok p =>
    cases e.operation with
    | delete => exact atomic_deleteNode p
    | add => exact atomic_addNode p e.value
    | update => exact e.atomic_updateNode p
    | append => exact e.atomic_rewordNode p _
    | prepend => exact e.atomic_rewordNode p _
    | replace =>
      -- the argument is looked at before the node
      cases e.replacement with
      | error error => exact atomic_throw error
      | ok sides => exact e.atomic_rewordNode p _

/-! ## Payloads -/

theorem atomic_editText (e : Edit) : e.editText.Atomic := by
  unfold editText
  cases e.operation with
  | add => exact atomic_modify _
  | delete => exact atomic_modify _
  | update => exact atomic_modify _
  | prepend => exact atomic_modify _
  | append => exact atomic_modify _
  | replace =>
    cases e.replacement with
    | error error => exact atomic_throw error
    | ok sides => exact atomic_modify _

theorem atomic_editPayload (e : Edit) : e.editPayload.Atomic := by
  intro p error left h
  cases p with
  | raw t => exact e.atomic_editText.left_of_inside h
  | document root => exact e.atomic_editDocument.left_of_inside h

theorem atomic_applyRow (row : List Text) : (applyRow row).Atomic := by
  unfold applyRow
  cases ofRow row with
  | ok e => exact e.atomic_editPayload
  | error error => exact atomic_throw error

theorem apply_raw (e : Edit) (t : Text) : e.apply (.raw t) = (e.onText t).map .raw := by
  simp only [apply, onText, result, editPayload, inside]
  cases e.editText t with
  | ok _ left => rfl
  | error error left => rfl

theorem apply_document (e : Edit) (root : Json) :
    e.apply (.document root) = (e.onDocument root).map .document := by
  simp only [apply, onDocument, result, editPayload, inside]
  cases e.editDocument root with
  | ok _ left => rfl
  | error error left => rfl

theorem apply_document_ok {e : Edit} {root : Json} {p : Payload}
    (h : e.apply (.document root) = .ok p) :
    ∃ root', e.onDocument root = .ok root' ∧ p = .document root' := by
  rw [apply_document, Except.map_eq_ok_iff] at h
  obtain ⟨root', hd, rfl⟩ := h
  exact ⟨root', hd, rfl⟩

end Edit

end Fixtures
