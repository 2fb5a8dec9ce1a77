import Fixtures.Proofs.Edit.Addressed
import Mathlib.Data.List.InsertIdx

/-!
# Items of an array

An item that is added to an array moves the items behind it one place on, and an
item that is deleted lets them move up again. Both are one relation between the
shorter document and the longer one, read in either direction (`Json.OneMore`).
-/

namespace Fixtures

namespace Json

variable {c : List Segment} {i : Nat} {items : List Json} {shorter longer root v : Json}

/-- The array at `c` has one more item in `longer`, at position `i`. The other items
are the same, with all that is below them, and so is what is apart from the array. -/
structure OneMore (c : List Segment) (i : Nat) (shorter longer : Json) : Prop where
  length : ∃ l l', shorter.get? c = some (.arr l) ∧ longer.get? c = some (.arr l') ∧
    l'.length = l.length + 1
  before : ∀ j r, j < i → longer.get? (c ++ .index j :: r) = shorter.get? (c ++ .index j :: r)
  behind : ∀ j r, i ≤ j →
    longer.get? (c ++ .index (j + 1) :: r) = shorter.get? (c ++ .index j :: r)
  apart : ∀ q, Path.Apart c q → longer.get? q = shorter.get? q

theorem get?_item (h : root.get? c = some (.arr items)) (j : Nat) (r : List Segment) :
    root.get? (c ++ .index j :: r) = items[j]?.bind (get? · r) := by
  rw [get?_append, h, Option.bind_some]
  rfl

theorem oneMore_of_insertIdx (hshorter : shorter.get? c = some (.arr items))
    (hlonger : longer.get? c = some (.arr (items.insertIdx i v))) (hi : i ≤ items.length)
    (hapart : ∀ q, Path.Apart c q → longer.get? q = shorter.get? q) :
    OneMore c i shorter longer where
  length := ⟨_, _, hshorter, hlonger, List.length_insertIdx_of_le_length hi v⟩
  before j r hj := by
    rw [get?_item hlonger, get?_item hshorter, List.getElem?_insertIdx_of_lt hj]
  behind j r hj := by
    have hj' : i < j + 1 := Nat.lt_succ_of_le hj
    rw [get?_item hlonger, get?_item hshorter, List.getElem?_insertIdx_of_gt hj',
      Nat.add_sub_cancel]
  apart := hapart

theorem exists_put?_item (h : root.get? c = some (.arr items)) (hi : i ≤ items.length) (v : Json) :
    ∃ root', root.put? (c ++ [.index i]) v = some root' ∧ OneMore c i root root' := by
  have hput : (Segment.index i).put? v (.arr items) = some (.arr (items.insertIdx i v)) :=
    if_pos hi
  obtain ⟨root', hroot, hget, hapart⟩ := exists_modify? h hput
  rw [put?_concat]
  exact ⟨root', hroot, oneMore_of_insertIdx h hget hi hapart⟩

theorem exists_remove?_item (h : root.get? c = some (.arr items)) (hi : i < items.length) :
    ∃ root', root.remove? (c ++ [.index i]) = some root' ∧ OneMore c i root' root := by
  have hremove : (Segment.index i).remove? (.arr items) = some (.arr (items.eraseIdx i)) :=
    if_pos hi
  obtain ⟨root', hroot, hget, hapart⟩ := exists_modify? h hremove
  -- the array was the one that is left, with the item put in again
  rw [← List.insertIdx_eraseIdx_getElem hi] at h
  have hle : i ≤ (items.eraseIdx i).length := by
    rw [List.length_eraseIdx_of_lt hi]
    omega
  rw [remove?_concat]
  exact ⟨root', hroot, oneMore_of_insertIdx hget h hle fun q hq => (hapart q hq).symm⟩

theorem put?_item_eq_none (h : root.get? c = some (.arr items)) (hi : items.length < i) (v : Json) :
    root.put? (c ++ [.index i]) v = none := by
  rw [put?_concat, modify?_eq_none_iff, h, Option.bind_some]
  exact if_neg (Nat.not_le_of_lt hi)

theorem remove?_item_eq_none (h : root.get? c = some (.arr items)) (hi : items.length ≤ i) :
    root.remove? (c ++ [.index i]) = none := by
  rw [remove?_concat, modify?_eq_none_iff, h, Option.bind_some]
  exact if_neg (Nat.not_lt_of_le hi)

end Json

namespace Edit

theorem applyAll_singleton (e : Edit) (root : Json) :
    applyAll [e] (.document root) =
      match e.onDocument root with
      | .error error => .error ⟨0, .document root, error⟩
      | .ok root' => .ok (.document root') := by
  rw [applyAll, applyEach_singleton atomic_editPayload, ← apply, apply_document]
  cases e.onDocument root with
  | error error => rfl
  | ok root' => rfl

/-- **Items move and nothing else.** An item is added at any position up to the end
of an array and deleted at any position before it. All other items are kept, in
their order, with what is below them, and so is what is apart from the array. At
positions beyond an addition fails and a deletion changes nothing. -/
theorem applyAll_item {e : Edit} {p : Path} {c : List Segment} {i : Nat} {root : Json}
    {items : List Json} (hp : Path.parse e.locator = .ok p) (hc : p.segments = c ++ [.index i])
    (hitems : root.get? c = some (.arr items)) :
    (e.operation = .add →
      (i ≤ items.length → ∃ root', applyAll [e] (.document root) = .ok (.document root') ∧
        Json.OneMore c i root root' ∧ root'.get? p.segments = some e.value) ∧
      (items.length < i →
        applyAll [e] (.document root) = .error ⟨0, .document root, .pathNotFound p.text⟩)) ∧
    (e.operation = .delete →
      (i < items.length → ∃ root', applyAll [e] (.document root) = .ok (.document root') ∧
        Json.OneMore c i root' root) ∧
      (items.length ≤ i → applyAll [e] (.document root) = .ok (.document root))) := by
  refine ⟨fun ho => ⟨fun hi => ?_, fun hi => ?_⟩, fun ho => ⟨fun hi => ?_, fun hi => ?_⟩⟩
  · obtain ⟨root', hput, hmore⟩ := Json.exists_put?_item hitems hi e.value
    rw [← hc] at hput
    refine ⟨root', ?_, hmore, Json.get?_put? hput⟩
    rw [applyAll_singleton, onDocument_add_of_some hp ho hput]
  · have hput := Json.put?_item_eq_none hitems hi e.value
    rw [← hc] at hput
    rw [applyAll_singleton, onDocument_add_of_none hp ho hput]
  · obtain ⟨root', hremove, hmore⟩ := Json.exists_remove?_item hitems hi
    rw [← hc] at hremove
    refine ⟨root', ?_, hmore⟩
    rw [applyAll_singleton, onDocument_delete ho hp, hremove]
    rfl
  · have hremove := Json.remove?_item_eq_none hitems hi
    rw [← hc] at hremove
    rw [applyAll_singleton, onDocument_delete ho hp, hremove]
    rfl

def nestedDocument : Json := .obj [(['a'], .arr [.bool true, .arr [.null]])]

def itemAdded : Edit := ⟨['a', '[', '1', ']'], .add, ['0']⟩

def itemDeleted : Edit := ⟨['a', '[', '0', ']'], .delete, []⟩

theorem applyAll_item_nested :
    (∃ root', applyAll [itemAdded] (.document nestedDocument) = .ok (.document root') ∧
        root'.get? [.field ['a'], .index 2, .index 0] = some .null) ∧
      ∃ root', applyAll [itemDeleted] (.document nestedDocument) = .ok (.document root') ∧
        root'.get? [.field ['a'], .index 0, .index 0] = some .null := by
  have hitems : nestedDocument.get? [.field ['a']] = some (.arr [.bool true, .arr [.null]]) := rfl
  have hadded : Path.parse itemAdded.locator =
      .ok ⟨itemAdded.locator, [.field ['a'], .index 1]⟩ := rfl
  have hdeleted : Path.parse itemDeleted.locator =
      .ok ⟨itemDeleted.locator, [.field ['a'], .index 0]⟩ := rfl
  obtain ⟨root₁, h₁, hmore₁, -⟩ := ((applyAll_item hadded rfl hitems).1 rfl).1 (by decide)
  obtain ⟨root₂, h₂, hmore₂⟩ := ((applyAll_item hdeleted rfl hitems).2 rfl).1 (by decide)
  exact ⟨⟨root₁, h₁, hmore₁.behind 1 [.index 0] (by decide)⟩,
    root₂, h₂, (hmore₂.behind 0 [.index 0] (by decide)).symm⟩

end Edit

end Fixtures
