import Fixtures.Proofs.Edit.Commute
import Fixtures.Proofs.Edit.Items
import Fixtures.Proofs.Json.Recoverable

/-!
# Adding and deleting undo each other

An addition and a deletion at one path change the same container, one after the
other, so together they are one change of it (`Json.modify?_bind`). Where that
leaves the container it leaves the document. What a deletion has taken away is
added again from its text, if the text says everything about it.
-/

namespace Fixtures

/-! ## Containers -/

namespace Segment

variable {s : Segment} {v v' w : Json}

theorem remove?_put? (h : s.put? w v = some v')
    (hnew : (∃ i, s = .index i) ∨ s.get? v = none) : s.remove? v' = some v := by
  rcases put?_cases h with ⟨k, t, rfl, rfl, rfl⟩ | ⟨i, l, rfl, hi, rfl, rfl⟩
  · have hk : Table.get? k t = none := by
      rcases hnew with ⟨i, hi⟩ | hk
      · cases hi
      · exact hk
    rw [remove?, Table.erase_insert hk]
  · have hlt : i < (l.insertIdx i w).length := by
      rw [List.length_insertIdx_of_le_length hi]
      exact Nat.lt_succ_of_le hi
    rw [remove?_index, if_pos hlt, List.eraseIdx_insertIdx_self]

theorem put?_remove? (hv : v.InOrder) (h : s.get? v = some w) :
    ∃ v', s.remove? v = some v' ∧ s.put? w v' = some v := by
  cases s with
  | field k =>
    cases v with
    | obj t =>
      refine ⟨.obj (Table.erase k t), rfl, ?_⟩
      rw [put?, Table.insert_erase hv h]
    | _ => cases h
  | index i =>
    cases v with
    | arr l =>
      obtain ⟨hi, rfl⟩ := List.getElem?_eq_some_iff.mp h
      have hle : i ≤ (l.eraseIdx i).length := by
        rw [List.length_eraseIdx_of_lt hi]
        omega
      refine ⟨.arr (l.eraseIdx i), if_pos hi, ?_⟩
      rw [put?, if_pos hle, List.insertIdx_eraseIdx_getElem hi]
    | _ => cases h

end Segment

/-! ## Documents -/

namespace Json

variable {path c : List Segment} {f g : Json → Option Json} {root root' v w w' : Json}

theorem modify?_undo (hroot : root.modify? f c = some root') (hw : root.get? c = some w)
    (hf : f w = some w') (hg : g w' = some w) : root'.modify? g c = some root := by
  have hsame : (f w).bind g = some w := by rw [hf, Option.bind_some, hg]
  calc
    root'.modify? g c = (root.modify? f c).bind (modify? g · c) := by
      rw [hroot, Option.bind_some]
    _ = root.modify? (fun u => (f u).bind g) c := modify?_bind f g c root
    _ = some root := modify?_eq_self hw hsame

theorem remove?_put? (h : root.put? path v = some root')
    (hnew : (∃ i, path.getLast? = some (.index i)) ∨ root.get? path = none) :
    root'.remove? path = some root := by
  obtain ⟨c, s, rfl, hroot⟩ := put?_eq_some_iff.mp h
  obtain ⟨w, w', hw, hput, -⟩ := get?_of_modify? hroot
  rw [List.getLast?_concat, get?_concat, hw, Option.bind_some] at hnew
  rw [remove?_concat]
  apply modify?_undo hroot hw hput
  apply Segment.remove?_put? hput
  rcases hnew with ⟨i, hi⟩ | hnone
  · exact .inl ⟨i, Option.some.inj hi⟩
  · exact .inr hnone

theorem put?_remove? (hroot : root.WellFormed) (hne : path ≠ []) (hv : root.get? path = some v) :
    ∃ root', root.remove? path = some root' ∧ root'.put? path v = some root := by
  obtain ⟨c, s, rfl⟩ := (List.eq_nil_or_concat path).resolve_left hne
  rw [List.concat_eq_append] at hv ⊢
  rw [get?_concat, Option.bind_eq_some_iff] at hv
  obtain ⟨w, hw, hv⟩ := hv
  obtain ⟨w', hremove, hput⟩ := Segment.put?_remove? (hroot.get? hw).inOrder hv
  obtain ⟨root', hroot'⟩ := modify?_isSome hw hremove
  rw [remove?_concat]
  refine ⟨root', hroot', ?_⟩
  rw [put?_concat]
  exact modify?_undo hroot' hw hremove hput

end Json

/-! ## Edits -/

namespace Edit

variable {e add delete : Edit} {p q : Path} {root v : Json}

theorem change?_add (ho : e.operation = .add) (path : List Segment) (root : Json) :
    e.change? path root = root.put? path e.value := by
  rw [change?, ho]

theorem change?_delete (ho : e.operation = .delete) (path : List Segment) (root : Json) :
    e.change? path root = some ((root.remove? path).getD root) := by
  rw [change?, ho]
  rfl

theorem value_of_render (hv : v.Recoverable) (h : e.argument = v.render) : e.value = v := by
  apply value_of_parse
  rw [h, hv.parse_render]

/-- **Adding and deleting undo each other.** An item that has been added, or a field
that was not there before, is deleted again and the document is as it was. A node
that has been deleted is added again from its text. -/
theorem applyAll_undo (ha : add.operation = .add) (hd : delete.operation = .delete)
    (hp : Path.parse add.locator = .ok p) (hq : Path.parse delete.locator = .ok q)
    (hpq : q.segments = p.segments) :
    (add.outcome (.document root) = .ok () →
      (∃ i, p.last? = some (.index i)) ∨ root.get? p.segments = none →
        applyAll [add, delete] (.document root) = .ok (.document root)) ∧
      ∀ v, root.WellFormed → p.isRoot = false → root.get? p.segments = some v → v.Within 127 →
        add.argument = v.render →
          applyAll [delete, add] (.document root) = .ok (.document root) := by
  rw [applyAll_pair hp hq, applyAll_pair hq hp, hpq]
  constructor
  · intro hout hnew
    rw [outcome_eq hp, change?_add ha] at hout
    cases hput : root.put? p.segments add.value with
    | none =>
      rw [hput] at hout
      cases hout
    | some root' =>
      rw [change?_add ha, hput, Option.bind_some, change?_delete hd, Json.remove?_put? hput hnew,
        Option.getD_some]
  · intro v hroot hne hv hwithin harg
    have hpath : p.segments ≠ [] := List.isEmpty_eq_false_iff.mp hne
    have hvalue : add.value = v := value_of_render ⟨hroot.get? hv, hwithin.1, hwithin.2⟩ harg
    obtain ⟨root', hremove, hput⟩ := Json.put?_remove? hroot hpath hv
    rw [change?_delete hd, hremove, Option.getD_some, Option.bind_some, change?_add ha, hvalue,
      hput]

def itemPut : Edit := ⟨['$', '.', 'a', '[', '0', ']'], .add, ['{', '"', 'k', '"', ':', '1', '}']⟩

def itemTaken : Edit := ⟨['a', '[', '0', ']'], .delete, []⟩

def undoneDocument : Json := .obj [(['a'], .arr [.obj [(['k'], .num (.int 1))], .null])]

theorem applyAll_undo_item :
    applyAll [itemPut, itemTaken] (.document undoneDocument) = .ok (.document undoneDocument) ∧
      applyAll [itemTaken, itemPut] (.document undoneDocument) =
        .ok (.document undoneDocument) := by
  have hput : Path.parse itemPut.locator = .ok ⟨itemPut.locator, [.field ['a'], .index 0]⟩ := rfl
  have htaken : Path.parse itemTaken.locator =
      .ok ⟨itemTaken.locator, [.field ['a'], .index 0]⟩ := rfl
  have hdocument : undoneDocument.WellFormed := by
    simp [undoneDocument, Json.WellFormed, Json.WellFormedFields, Json.WellFormedItems,
      Table.Sorted, Table.keys, Number.inRange_iff]
  have hnode : undoneDocument.get? [.field ['a'], .index 0] =
      some (.obj [(['k'], .num (.int 1))]) := rfl
  obtain ⟨hadded, hdeleted⟩ := applyAll_undo rfl rfl hput htaken rfl
  exact ⟨hadded rfl (.inl ⟨0, rfl⟩), hdeleted _ hdocument rfl hnode ⟨rfl, by decide⟩ rfl⟩

end Edit

end Fixtures
