import Fixtures.Proofs.Edit.Sequence

/-!
# Rows are read in time

A row is read only when its turn comes. That is no different from reading rows ahead up
to the first one that is no edit, applying the edits, and reporting that row only then:
an edit that fails in front of it is the failure of the sequence.
-/

namespace Fixtures

namespace Edit

variable {rows : List (List Text)} {row : List Text} {edits : List Edit} {p q : Payload}

theorem ofRow_toRow (e : Edit) : ofRow e.toRow = .ok e := by
  have hname : Operation.ofName e.operation.name.toList = .ok e.operation := by
    cases e.operation <;> rfl
  rw [toRow, ofRow, hname]
  rfl

def isRejected (row : List Text) : Bool :=
  match ofRow row with
  | .ok _ => false
  | .error _ => true

/-- The position of the first row that is no edit; the number of rows if all are. -/
def firstRejected (rows : List (List Text)) : Nat := rows.findIdx isRejected

theorem exists_ofRow_of_not_rejected (h : isRejected row = false) : ∃ e, ofRow row = .ok e := by
  unfold isRejected at h
  cases hrow : ofRow row with
  | ok e => exact ⟨e, rfl⟩
  | error error =>
    rw [hrow] at h
    cases h

theorem exists_ofRow_of_rejected (h : isRejected row = true) :
    ∃ error, ofRow row = .error error := by
  unfold isRejected at h
  cases hrow : ofRow row with
  | ok e =>
    rw [hrow] at h
    cases h
  | error error => exact ⟨error, rfl⟩

theorem isRejected_firstRejected (h : firstRejected rows < rows.length) :
    isRejected rows[firstRejected rows] = true :=
  List.findIdx_getElem

theorem exists_edits (h : ∀ row ∈ rows, isRejected row = false) :
    ∃ edits : List Edit, rows.map ofRow = edits.map Except.ok := by
  induction rows with
  | nil => exact ⟨[], rfl⟩
  | cons row rows ih =>
    rw [List.forall_mem_cons] at h
    obtain ⟨e, he⟩ := exists_ofRow_of_not_rejected h.1
    obtain ⟨edits, hedits⟩ := ih h.2
    exact ⟨e :: edits, by simp only [List.map_cons, he, hedits]⟩

theorem exists_edits_ahead (rows : List (List Text)) :
    ∃ edits : List Edit, (rows.take (firstRejected rows)).map ofRow = edits.map Except.ok := by
  apply exists_edits
  intro row hrow
  obtain ⟨i, hi, rfl⟩ := List.mem_iff_getElem.mp hrow
  have hlt : i < rows.findIdx isRejected := by
    rw [List.length_take] at hi
    exact Nat.lt_of_lt_of_le hi (Nat.min_le_left _ _)
  rw [List.getElem_take]
  exact List.not_of_lt_findIdx hlt

theorem applyRows_of_map (h : rows.map ofRow = edits.map Except.ok) (p : Payload) :
    applyRows rows p = applyAll edits p := by
  induction rows generalizing edits p with
  | nil =>
    cases edits with
    | nil => rfl
    | cons e edits => cases h
  | cons row rows ih =>
    cases edits with
    | nil => cases h
    | cons e edits =>
      obtain ⟨hrow, hrows⟩ := List.cons.inj h
      have hstep : applyRow row = e.editPayload := by simp only [applyRow, hrow]
      have hrest (q : Payload) : applyEach applyRow rows q = applyEach editPayload edits q :=
        ih hrows q
      rw [applyRows, applyAll, applyEach, applyEach, hstep]
      cases e.editPayload p with
      | error error left => rfl
      | ok _ q => simp only [hrest]

theorem applyRows_rejected {error : EditError} (h : ofRow row = .error error)
    (rest : List (List Text)) (q : Payload) :
    applyRows (row :: rest) q = .error ⟨0, q, error⟩ := by
  have hstep : applyRow row q = .error error q := by
    simp only [applyRow, h]
    rfl
  unfold applyRows
  rw [applyEach, hstep]

theorem applyRows_append_of_map {front : List (List Text)}
    (h : front.map ofRow = edits.map Except.ok) (rest : List (List Text)) (p : Payload) :
    (∀ f, applyAll edits p = .error f → applyRows (front ++ rest) p = .error f) ∧
      ∀ q, applyAll edits p = .ok q → applyRows (front ++ rest) p =
        (applyRows rest q).mapError (EditFailure.after front.length) := by
  have happend := applyEach_append applyRow front rest p
  rw [← applyRows_of_map h p]
  unfold applyRows
  constructor
  · intro f hf
    rw [happend, hf]
  · intro q hq
    rw [happend, hq]

/-- **Reading rows in time and ahead agree.** With the edits of all rows in front of the
first one that is no edit: their failure is that of the rows, and if they run through,
the first row that is no edit is, where they have led to. -/
theorem applyRows_ahead (p : Payload) :
    (∀ rows, ∃ edits : List Edit,
      (rows.take (firstRejected rows)).map ofRow = edits.map Except.ok ∧
      (∀ f, applyAll edits p = .error f → applyRows rows p = .error f) ∧
      (∀ q, applyAll edits p = .ok q →
        (∀ h : firstRejected rows < rows.length, ∃ error,
          ofRow rows[firstRejected rows] = .error error ∧
          applyRows rows p = .error ⟨firstRejected rows, q, error⟩) ∧
        (firstRejected rows = rows.length → applyRows rows p = .ok q))) ∧
    ∀ edits : List Edit, applyRows (edits.map toRow) p = applyAll edits p := by
  refine ⟨fun rows => ?_, fun edits => ?_⟩
  · -- the rows go on, behind those that are edits, from where these have led to
    obtain ⟨edits, hedits⟩ := exists_edits_ahead rows
    have hsplit := applyRows_append_of_map hedits (rows.drop (firstRejected rows)) p
    rw [List.take_append_drop] at hsplit
    refine ⟨edits, hedits, hsplit.1, fun q hq => ⟨fun h => ?_, fun h => ?_⟩⟩
    · obtain ⟨error, herror⟩ := exists_ofRow_of_rejected (isRejected_firstRejected h)
      have hlen : (rows.take (firstRejected rows)).length = firstRejected rows := by
        rw [List.length_take]
        omega
      refine ⟨error, herror, ?_⟩
      rw [hsplit.2 q hq, List.drop_eq_getElem_cons h, applyRows_rejected herror, hlen]
      exact congrArg Except.error (EditFailure.after_index ⟨_, q, error⟩)
    · rw [hsplit.2 q hq, h, List.drop_length]
      rfl
  · apply applyRows_of_map
    rw [List.map_map]
    exact List.map_congr_left fun e _ => ofRow_toRow e

end Edit

end Fixtures
