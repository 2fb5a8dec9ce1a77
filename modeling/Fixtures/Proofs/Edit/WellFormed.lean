import Fixtures.Proofs.Edit.Siblings
import Fixtures.Proofs.Payload.Loading

/-!
# Edits keep documents well-formed

What an edit enters into a document is a string, or has been read from its
argument. So every document that edits lead to is well-formed, also the one that a
sequence has reached where it stops.
-/

namespace Fixtures

/-! ## Changes -/

def Json.Keeps (f : Json → Option Json) : Prop :=
  ∀ v v', v.WellFormed → f v = some v' → v'.WellFormed

namespace Segment

open Json (Keeps wellFormed_arr wellFormed_obj wellFormed_obj_insert)

theorem keeps_modify? {f : Json → Option Json} (hf : Keeps f) (s : Segment) :
    Keeps (s.modify? f) := by
  intro v v' hv h
  rcases modify?_cases h with ⟨k, t, t', rfl, rfl, rfl, hm⟩ | ⟨i, l, l', rfl, rfl, rfl, hm⟩
  · rw [wellFormed_obj] at hv ⊢
    refine ⟨Table.sorted_modify? hv.1 hm, ?_⟩
    intro e he
    rcases Table.mem_of_mem_modify? hm he with he | ⟨w, hw, hfw⟩
    · exact hv.2 e he
    · exact hf w e.2 (hv.2 _ hw) hfw
  · rw [wellFormed_arr] at hv ⊢
    intro w' hw'
    rcases mem_of_mem_modifyItem? hm hw' with hw' | ⟨w, hw, hfw⟩
    · exact hv w' hw'
    · exact hf w w' (hv w hw) hfw

theorem keeps_put? {w : Json} (hw : w.WellFormed) (s : Segment) : Keeps (s.put? w) := by
  intro v v' hv h
  rcases put?_cases h with ⟨k, t, rfl, rfl, rfl⟩ | ⟨i, l, rfl, hi, rfl, rfl⟩
  · exact wellFormed_obj_insert k hv hw
  · rw [wellFormed_arr] at hv ⊢
    intro u hu
    rcases (List.mem_insertIdx hi).mp hu with rfl | hu
    · exact hw
    · exact hv u hu

theorem keeps_remove? (s : Segment) : Keeps s.remove? := by
  intro v v' hv h
  rcases remove?_cases h with ⟨k, t, rfl, rfl, rfl⟩ | ⟨i, l, rfl, hi, rfl, rfl⟩
  · rw [wellFormed_obj] at hv ⊢
    exact ⟨Table.sorted_erase hv.1 k, fun e he => hv.2 e (Table.mem_of_mem_erase he)⟩
  · rw [wellFormed_arr] at hv ⊢
    exact fun u hu => hv u (List.mem_of_mem_eraseIdx hu)

end Segment

namespace Json

theorem keeps_modify? {f : Json → Option Json} (hf : Keeps f) (path : List Segment) :
    Keeps (·.modify? f path) := by
  induction path with
  | nil => exact hf
  | cons s path ih => exact s.keeps_modify? ih

theorem keeps_set? {w : Json} (hw : w.WellFormed) (path : List Segment) : Keeps (·.set? path w) := by
  apply keeps_modify?
  intro v v' _ h
  cases h
  exact hw

theorem keeps_put? {w : Json} (hw : w.WellFormed) (path : List Segment) : Keeps (·.put? path w) := by
  intro v v' hv h
  obtain ⟨c, s, -, h⟩ := put?_eq_some_iff.mp h
  exact keeps_modify? (s.keeps_put? hw) c v v' hv h

theorem keeps_remove? (path : List Segment) : Keeps (·.remove? path) := by
  intro v v' hv h
  obtain ⟨c, s, -, h⟩ := remove?_eq_some_iff.mp h
  exact keeps_modify? s.keeps_remove? c v v' hv h

end Json

/-! ## Edits -/

/-- A payload whose document, if it is one, is well-formed. -/
def Payload.WellFormed : Payload → Prop
  | .raw _ => True
  | .document v => v.WellFormed

theorem Payload.wellFormed_of_parse {kind : PayloadKind} {t : Text} {p : Payload}
    (h : parse kind t = .ok p) : p.WellFormed := by
  cases p with
  | raw u => trivial
  | document v =>
    cases kind with
    | string => cases h
    | json =>
      have hd := Json.document_eq_ok_iff.mp (Payload.parse_json_eq_ok_iff.mp h)
      exact Json.wellFormed_of_parseEither? hd.1

namespace Edit

theorem wellFormed_value (e : Edit) : e.value.WellFormed := by
  unfold value
  split
  · rename_i v hv
    exact Json.wellFormed_of_parse hv
  · trivial

theorem wellFormed_onDocument {e : Edit} {root root' : Json} (hroot : root.WellFormed)
    (h : e.onDocument root = .ok root') : root'.WellFormed := by
  obtain ⟨p, -, ⟨-, rfl⟩ | ⟨-, hput⟩ | ⟨t, hset⟩⟩ := onDocument_ok h
  · cases hr : root.remove? p.segments with
    | none => exact hroot
    | some v => exact Json.keeps_remove? p.segments root v hroot hr
  · exact Json.keeps_put? e.wellFormed_value p.segments root root' hroot hput
  · have ht : (Json.str t).WellFormed := trivial
    exact Json.keeps_set? ht p.segments root root' hroot hset

theorem wellFormed_apply {e : Edit} {p q : Payload} (hp : p.WellFormed) (h : e.apply p = .ok q) :
    q.WellFormed := by
  cases p with
  | raw t =>
    rw [apply_raw, Except.map_eq_ok_iff] at h
    obtain ⟨u, -, rfl⟩ := h
    trivial
  | document root =>
    obtain ⟨root', hd, rfl⟩ := apply_document_ok h
    exact wellFormed_onDocument hp hd

theorem wellFormed_applyRow {row : List Text} {p q : Payload} (hp : p.WellFormed)
    (h : (applyRow row).result p = .ok q) : q.WellFormed := by
  unfold applyRow at h
  split at h
  · exact wellFormed_apply hp h
  · cases h

section
variable {α : Type} {f : α → InPlace Payload Unit} {p : Payload} {items : List α}
  (hf : ∀ a p q, p.WellFormed → (f a).result p = .ok q → q.WellFormed) (hp : p.WellFormed)
include hf hp

theorem wellFormed_applyEach {q : Payload} (h : applyEach f items p = .ok q) : q.WellFormed := by
  induction items generalizing p with
  | nil =>
    cases h
    exact hp
  | cons a rest ih =>
    obtain ⟨r, ha, hr⟩ := applyEach_cons_ok.mp h
    exact ih (hf a p r hp ha) hr

theorem wellFormed_reached {e : EditFailure} (hatomic : ∀ a, (f a).Atomic)
    (h : applyEach f items p = .error e) : e.reached.WellFormed :=
  wellFormed_applyEach hf hp (stopsAt_of_error hatomic h).before

end

/-- **Every document is well-formed** that a payload becomes which has been read and
edited, whether the rows run through or stop. -/
theorem wellFormed_applyRows {kind : PayloadKind} {t : Text} {p : Payload} {rows : List (List Text)}
    (h : Payload.parse kind t = .ok p) :
    (∀ q, applyRows rows p = .ok q → q.WellFormed) ∧
      ∀ e, applyRows rows p = .error e → e.reached.WellFormed := by
  have hp := Payload.wellFormed_of_parse h
  have hrow : ∀ row p q, p.WellFormed → (applyRow row).result p = .ok q → q.WellFormed :=
    fun _ _ _ => wellFormed_applyRow
  exact ⟨fun _ => wellFormed_applyEach hrow hp, fun _ => wellFormed_reached hrow hp atomic_applyRow⟩

end Edit

end Fixtures
