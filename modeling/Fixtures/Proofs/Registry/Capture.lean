import Fixtures.Proofs.Edit.Siblings
import Fixtures.Proofs.Json.Recoverable
import Fixtures.Proofs.Shared
import Fixtures.Proofs.Table.Sorted
import Fixtures.Session.Action

/-!
# Capturing from a rendered document

A capture reads a text and an edit changes a document, and both find nodes by
their paths. A document that is read back from its text is captured from as if it
were looked into, so what an update has written is what a capture finds. A capture
that fails has not come to the registry yet.
-/

namespace Fixtures

open Json (Recoverable)

variable {s : Session} {handle json path key value : Text} {p : Path} {v root root' : Json}

theorem Captured.ofText_render (hv : v.Recoverable) (hp : Path.parse path = .ok p) :
    Captured.ofText v.render path =
      match v.get? p.segments with
      | none => .error (.pathNotFound p.text)
      | some w => .ok ⟨p, w.toText⟩ := by
  cases hw : v.get? p.segments with
  | none => simp only [Captured.ofText, hv.parse_render, hp, hw]
  | some w => simp only [Captured.ofText, hv.parse_render, hp, hw]

/-! ## Captures in a session -/

namespace Session

/-- A capture that gives a value and stores it under a key, and under no other. -/
structure Captures (s : Session) (handle json path key value : Text) : Prop where
  outcome : (s.capture handle json path key).outcome = .text value
  stored : ∀ k, Table.get? k ((s.capture handle json path key).session.registry handle) =
    if k = key then some value else Table.get? k (s.registry handle)

theorem capture_of_error {e : CaptureError} (h : Captured.ofText json path = .error e) :
    s.capture handle json path key = s.answer (.failed (.capture e)) := by
  rw [capture, Registry.capture, h]
  rfl

theorem capture_of_ok {c : Captured} (h : Captured.ofText json path = .ok c) :
    s.capture handle json path key =
      ⟨{ s with registries := s.registries.modify handle fun _ =>
          Table.insert key c.value (s.registry handle) },
        Registry.captureNotes json path key, .text c.value⟩ := by
  rw [capture, Registry.capture, h]
  rfl

theorem captures_of_ok (hs : (s.registries.get? handle).isSome = true) {c : Captured}
    (h : Captured.ofText json path = .ok c) : s.Captures handle json path key c.value := by
  refine ⟨by rw [capture_of_ok h], fun k => ?_⟩
  obtain ⟨r, hr⟩ := Option.isSome_iff_exists.mp hs
  rw [capture_of_ok h]
  simp only [registry, Shared.get?_modify_self, hr, Option.map_some, Option.getD_some]
  split
  · rename_i hk
    rw [hk, Table.get?_insert_self]
  · rename_i hk
    exact Table.get?_insert_ne hk c.value r

theorem session_capture_of_failed {f : Failure}
    (h : (s.capture handle json path key).outcome = .failed f) :
    (s.capture handle json path key).session = s := by
  cases hc : Captured.ofText json path with
  | error e => rw [capture_of_error hc, answer]
  | ok c =>
    rw [capture_of_ok hc] at h
    cases h

/-- **Capturing from a rendered document.** A capture gives and stores the text of
the node that the path leads to in the document, or fails if there is none; a
capture that fails, of whatever text, changes nothing. What an update has written
is captured at its locator. -/
theorem capture_render (hs : (s.registries.get? handle).isSome = true) :
    (∀ (v : Json) (path key : Text) (p : Path), v.Recoverable → Path.parse path = .ok p →
      match v.get? p.segments with
      | some w => s.Captures handle (Payload.document v).render path key w.toText
      | none => s.capture handle (Payload.document v).render path key =
          s.answer (.failed (.capture (.pathNotFound p.text)))) ∧
    (∀ json path key f, (s.capture handle json path key).outcome = .failed f →
      (s.capture handle json path key).session = s) ∧
    ∀ (e : Edit) (root root' : Json), e.operation = .update →
      e.apply (.document root) = .ok (.document root') →
      (root.Recoverable → root'.Recoverable) ∧
        (root'.Recoverable → ∀ key,
          s.Captures handle (Payload.document root').render e.locator key e.argument) := by
  refine ⟨?_, fun json path key f => session_capture_of_failed, ?_⟩
  · intro v path key p hv hp
    have hcaptured := Captured.ofText_render hv hp
    cases hw : v.get? p.segments with
    | none =>
      rw [hw] at hcaptured
      exact capture_of_error hcaptured
    | some w =>
      rw [hw] at hcaptured
      exact captures_of_ok hs hcaptured
  · intro e root root' ho h
    obtain ⟨_, hd, hroot⟩ := Edit.apply_document_ok h
    cases hroot
    obtain ⟨p, hp, hset⟩ := Edit.onDocument_update ho hd
    refine ⟨fun hroot => hroot.set?_str hset, fun hroot' key => ?_⟩
    obtain ⟨_, w, -, hw, hget⟩ := Json.get?_of_modify? hset
    cases hw
    have hcaptured := Captured.ofText_render hroot' hp
    rw [hget] at hcaptured
    exact captures_of_ok hs hcaptured

def keeping : Session where
  properties := ⟨[], []⟩
  interfaces := []
  limit := 1
  registries := (Shared.start []).create ['m'] [(['k'], ['o'])]
  logs := Shared.start []
  settings := ⟨['r'], 1, []⟩
  files := fun _ => .error .notFound

def replyDoc : Json := .obj [(['a'], .arr [.obj [(['b'], .null)], .num (.int (-7))])]

def replyEdit : Edit := ⟨['a', '[', '0', ']', '.', 'b'], .update, ['"', '\n']⟩

def editedReply : Json :=
  .obj [(['a'], .arr [.obj [(['b'], .str ['"', '\n'])], .num (.int (-7))])]

theorem captures_editedReply :
    keeping.Captures ['m'] editedReply.render ['a', '[', '0', ']', '.', 'b'] ['t'] ['"', '\n'] ∧
      keeping.Captures ['m'] editedReply.render ['a', '[', '1', ']'] ['t'] ['-', '7'] ∧
      (keeping.capture ['m'] editedReply.render ['z'] ['k']).session = keeping := by
  have hs : (keeping.registries.get? ['m']).isSome = true := by decide
  have hreply : replyDoc.Recoverable := by
    refine ⟨?_, rfl, by decide⟩
    simp [replyDoc, Json.WellFormed, Json.WellFormedItems, Json.WellFormedFields, Table.Sorted,
      Table.keys, Number.inRange_iff]
  have hedit : replyEdit.apply (.document replyDoc) = .ok (.document editedReply) := rfl
  obtain ⟨hdocument, hfailed, hupdate⟩ := capture_render hs
  obtain ⟨hkept, hcaptures⟩ := hupdate replyEdit replyDoc editedReply rfl hedit
  have hitem : Path.parse ['a', '[', '1', ']'] = .ok ⟨['a', '[', '1', ']'], [.field ['a'], .index 1]⟩ :=
    rfl
  have hmissing : Path.parse ['z'] = .ok ⟨['z'], [.field ['z']]⟩ := rfl
  refine ⟨hcaptures (hkept hreply) ['t'], hdocument editedReply _ ['t'] _ (hkept hreply) hitem, ?_⟩
  have hz := hdocument editedReply _ ['k'] _ (hkept hreply) hmissing
  exact hfailed _ _ _ _ (congrArg Performed.outcome hz)

end Session

end Fixtures
