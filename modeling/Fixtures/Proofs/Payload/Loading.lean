import Fixtures.Payload.Reader
import Fixtures.Proofs.Json.RoundTrip
import Fixtures.Proofs.Relaxed.WellFormed

/-!
# Loading documents as text

A document that is loaded is read, written and read again. The written text is
JSON whatever notation the resource was in, so it is read by the JSON reader,
which takes it back to the document. In both notations a document that has been
read is well-formed.
-/

namespace Fixtures

namespace Json

variable {name t : Text} {v : Json}

theorem document_eq_ok_iff :
    document name t = .ok v ↔ parseEither? t = some v ∧ v.isContainer = true := by
  unfold document
  cases parseEither? t with
  | none => exact ⟨nofun, fun h => nomatch h.1⟩
  | some w =>
    simp only [Option.some.injEq]
    cases hw : w.isContainer with
    | true =>
      rw [if_pos rfl, Except.ok.injEq]
      refine ⟨?_, And.left⟩
      rintro rfl
      exact ⟨rfl, hw⟩
    | false =>
      rw [if_neg Bool.false_ne_true]
      refine ⟨nofun, ?_⟩
      rintro ⟨rfl, h⟩
      rw [hw] at h
      cases h

theorem wellFormed_of_parseEither? (h : parseEither? t = some v) : v.WellFormed := by
  unfold parseEither? at h
  split at h
  · rename_i hp
    cases h
    exact wellFormed_of_parse hp
  · exact Relaxed.wellFormed_of_parse? h

theorem parseEither?_render (hv : v.WellFormed) (hi : v.isIntegral = true) (hd : v.depth ≤ 127) :
    parseEither? v.render = some v := by
  rw [parseEither?, parse_render hv hi hd]

theorem document_render (name : Text) (hv : v.WellFormed) (hc : v.isContainer = true)
    (hi : v.isIntegral = true) (hd : v.depth ≤ 127) : document name v.render = .ok v :=
  document_eq_ok_iff.mpr ⟨parseEither?_render hv hi hd, hc⟩

end Json

theorem Payload.parse_json_eq_ok_iff {t : Text} {v : Json} :
    parse .json t = .ok (.document v) ↔ Json.document inlineName t = .ok v := by
  unfold parse ofText
  cases Json.document inlineName t with
  | error e => exact ⟨nofun, nofun⟩
  | ok w =>
    constructor
    · rintro ⟨⟩
      rfl
    · rintro ⟨⟩
      rfl

/-- **Loading a document as text loses nothing.** A document of integers, nested
at most 127 deep, is read back from its text. A resource that is such a document,
in either notation, is loaded as that document, and the text it is loaded as is
the one that is written after reading it. -/
theorem document_of_loaded_text :
    (∀ (name : Text) (v : Json), v.WellFormed → v.isContainer = true → v.isIntegral = true →
      v.depth ≤ 127 → Json.document name v.render = .ok v) ∧
    ∀ (r : Resources) (name t : Text) (v : Json),
      r.read (Files.join r.directory name) = .ok t →
      Payload.parse .json t = .ok (.document v) → v.isIntegral = true → v.depth ≤ 127 →
        r.payload name .json = .ok (.document v) ∧
        ∃ s, r.load name .json = .ok s ∧ (Payload.parse .json s).map Payload.render = .ok s := by
  refine ⟨fun name v hv hc hi hd => Json.document_render name hv hc hi hd, ?_⟩
  intro r name t v hread hparse hi hd
  obtain ⟨ht, hc⟩ := Json.document_eq_ok_iff.mp (Payload.parse_json_eq_ok_iff.mp hparse)
  have hv : v.WellFormed := Json.wellFormed_of_parseEither? ht
  have hload : r.load name .json = .ok v.render := by
    have htext : r.readText name = .ok t := by rw [Resources.readText, hread]
    have hdoc : Json.document name t = .ok v := Json.document_eq_ok_iff.mpr ⟨ht, hc⟩
    rw [Resources.load, htext]
    simp only [Payload.ofText, hdoc]
    rfl
  refine ⟨?_, v.render, hload, ?_⟩
  · rw [Resources.payload, hload]
    simp only [Payload.ofText, Json.document_render name hv hc hi hd]
    rfl
  · rw [Payload.parse_json_eq_ok_iff.mpr (Json.document_render _ hv hc hi hd)]
    rfl

def looseText : Text := "# loose\n\x7bb: [-2, 18446744073709551615], a: 'x\ty'\x7d".toList

def looseResources : Resources := ⟨fun _ => .ok looseText, []⟩

theorem document_of_looseText :
    ∃ v, v.render = "\x7b\"a\":\"x\\ty\",\"b\":[-2,18446744073709551615]\x7d".toList ∧
      looseResources.payload ['f'] .json = .ok (.document v) ∧
      ∃ s, looseResources.load ['f'] .json = .ok s ∧
        (Payload.parse .json s).map Payload.render = .ok s := by
  have h : ((Json.parseEither? looseText).map fun v =>
      (v.render, v.isContainer, v.isIntegral, decide (v.depth ≤ 127))) =
      some ("\x7b\"a\":\"x\\ty\",\"b\":[-2,18446744073709551615]\x7d".toList, true, true, true) := by
    decide +kernel
  obtain ⟨v, hv, hfacts⟩ := Option.map_eq_some_iff.mp h
  simp only [Prod.mk.injEq, decide_eq_true_eq] at hfacts
  obtain ⟨htext, hc, hi, hd⟩ := hfacts
  have hparse : Payload.parse .json looseText = .ok (.document v) :=
    Payload.parse_json_eq_ok_iff.mpr (Json.document_eq_ok_iff.mpr ⟨hv, hc⟩)
  exact ⟨v, htext, document_of_loaded_text.2 looseResources ['f'] looseText v rfl hparse hi hd⟩

end Fixtures
