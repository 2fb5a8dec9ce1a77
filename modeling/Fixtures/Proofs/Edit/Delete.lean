import Fixtures.Proofs.Edit.Text
import Fixtures.Proofs.Edit.WellFormed
import Fixtures.Proofs.Path.Independent

/-!
# Deleting again

A deletion takes away one thing: the first occurrence of its locator in a text,
the node at its path in a document. Done again it changes nothing, unless
something else has come into that place. In a text that is another occurrence,
which may stand where the two sides of the first one meet. In an array it is the
next item. Nothing comes into the place of a field.
-/

namespace Fixtures

/-! ## Containers -/

namespace Segment

variable {s : Segment} {v v' : Json} {i : Nat} {l : List Json}

/-- The segment leads to an item of an array that has another one behind it. -/
def HasNext : Segment → Json → Prop
  | .index i, .arr items => i + 1 < items.length
  | _, _ => False

theorem remove?_index :
    (index i).remove? (.arr l) = if i < l.length then some (.arr (l.eraseIdx i)) else none := rfl

theorem remove?_index_ne_self (hi : i < l.length) :
    (index i).remove? (.arr l) ≠ some (.arr l) := by
  rw [remove?_index, if_pos hi]
  intro h
  have hlen := congrArg List.length (Json.arr.inj (Option.some.inj h))
  rw [List.length_eraseIdx_of_lt hi] at hlen
  omega

theorem remove?_isSome_of_hasNext (h : s.HasNext v) : (s.remove? v).isSome = true := by
  cases s with
  | field k => cases h
  | index i =>
    cases v with
    | arr l =>
      have hi : i + 1 < l.length := h
      rw [remove?_index, if_pos (by omega)]
      rfl
    | _ => cases h

theorem remove?_again_iff (hv : v.InOrder) (h : s.remove? v = some v') :
    s.remove? v' = none ∨ s.remove? v' = some v' ↔ ¬ s.HasNext v := by
  rcases remove?_cases h with ⟨k, t, rfl, rfl, rfl⟩ | ⟨i, l, rfl, hlt, rfl, rfl⟩
  · have hgone : Table.erase k (Table.erase k t) = Table.erase k t :=
      Table.erase_eq_self_iff.mpr (Table.get?_erase_self hv k)
    simp [remove?, hgone, HasNext]
  · -- the next item has moved up to where the deleted one was
    have hlen : (l.eraseIdx i).length = l.length - 1 := List.length_eraseIdx_of_lt hlt
    simp only [HasNext]
    by_cases hi : i < (l.eraseIdx i).length
    · have hne := remove?_index_ne_self hi
      simp only [hne, or_false]
      rw [remove?_index, if_pos hi]
      simp only [reduceCtorEq, false_iff, Decidable.not_not]
      omega
    · rw [remove?_index, if_neg hi]
      simp only [true_or, true_iff]
      omega

end Segment

namespace Json

variable {f : Json → Option Json} {root v : Json} {c : List Segment}

theorem remove?_nil (root : Json) : root.remove? [] = none := rfl

theorem getD_modify?_eq_self_iff (hv : root.get? c = some v) :
    (root.modify? f c).getD root = root ↔ f v = none ∨ f v = some v := by
  cases hf : f v with
  | none =>
    have hnone : root.modify? f c = none := by
      rw [modify?_eq_none_iff, hv, Option.bind_some, hf]
    simp [hnone]
  | some w =>
    obtain ⟨root', hroot⟩ := modify?_isSome hv hf
    rw [hroot, Option.getD_some]
    constructor
    · rintro rfl
      obtain ⟨u, u', hu, hu', hroot'⟩ := get?_of_modify? hroot
      rw [hv] at hu hroot'
      cases hu
      cases hroot'
      exact .inr (hf.symm.trans hu')
    · rintro (h | h)
      · cases h
      · cases h
        rw [modify?_eq_self hv hf] at hroot
        exact (Option.some.inj hroot).symm

end Json

/-! ## Deletions -/

namespace Edit

/-- When a deletion has been made, something else is in the place of what it took away. -/
def Refills (e : Edit) : Payload → Prop
  | .raw t => e.locator ≠ [] ∧ ∃ a b, Text.cut? e.locator t = some (a, b) ∧ e.locator <:+: a ++ b
  | .document root => ∃ p c s v, Path.parse e.locator = .ok p ∧ p.segments = c ++ [s] ∧
      root.get? c = some v ∧ s.HasNext v

variable {e : Edit} {p q : Payload}

theorem onDocument_delete (ho : e.operation = .delete) {p : Path}
    (hp : Path.parse e.locator = .ok p) (root : Json) :
    e.onDocument root = .ok ((root.remove? p.segments).getD root) := by
  simp only [onDocument, editDocument, hp, ho, result_deleteNode]

theorem apply_raw_delete (ho : e.operation = .delete) (t : Text) :
    e.apply (.raw t) = .ok (.raw (Text.replaceFirst e.locator [] t)) :=
  apply_raw_of_substitute (by simp only [substitute?, ho]) t

theorem apply_document_delete (ho : e.operation = .delete) {p : Path}
    (hp : Path.parse e.locator = .ok p) (root : Json) :
    e.apply (.document root) = .ok (.document ((root.remove? p.segments).getD root)) := by
  rw [apply_document, onDocument_delete ho hp]
  rfl

theorem replaceFirst_again_iff (e : Edit) (t : Text) :
    Text.replaceFirst e.locator [] (Text.replaceFirst e.locator [] t) =
      Text.replaceFirst e.locator [] t ↔ ¬ e.Refills (.raw t) := by
  rw [Text.replaceFirst_nil_eq_self_iff]
  cases hcut : Text.cut? e.locator t with
  | none =>
    have hno : ¬ e.locator <:+: t := Text.cut?_eq_none_iff.mp hcut
    simp [Refills, hcut, Text.replaceFirst_of_absent hno, hno]
  | some sides =>
    obtain ⟨a, b⟩ := sides
    have hrefills : e.Refills (.raw t) ↔ e.locator ≠ [] ∧ e.locator <:+: a ++ b := by
      simp [Refills, hcut, and_assoc]
    rw [Text.replaceFirst_of_cut? hcut, List.append_nil, hrefills]
    simp only [ne_eq, not_and, Decidable.or_iff_not_imp_left]

theorem refills_document_iff {path : Path} (hp : Path.parse e.locator = .ok path)
    {c : List Segment} {s : Segment} (hsegments : path.segments = c ++ [s]) (root : Json) :
    e.Refills (.document root) ↔ ∃ v, root.get? c = some v ∧ s.HasNext v := by
  constructor
  · rintro ⟨p, c', s', v, hparse, hc, hv, hnext⟩
    rw [hp] at hparse
    cases hparse
    obtain ⟨rfl, hs⟩ := List.append_inj' (hsegments.symm.trans hc) rfl
    cases hs
    exact ⟨v, hv, hnext⟩
  · rintro ⟨v, hv, hnext⟩
    exact ⟨path, c, s, v, hp, hsegments, hv, hnext⟩

theorem remove?_again_iff {path : Path} {root root' : Json} (hroot : root.WellFormed)
    (hp : Path.parse e.locator = .ok path) (h : (root.remove? path.segments).getD root = root') :
    (root'.remove? path.segments).getD root' = root' ↔ ¬ e.Refills (.document root) := by
  rcases List.eq_nil_or_concat path.segments with hnil | ⟨c, s, hsegments⟩
  · simp [Refills, hp, hnil, Json.remove?_nil]
  rw [List.concat_eq_append] at hsegments
  rw [refills_document_iff hp hsegments]
  rw [hsegments, Json.remove?_concat] at h ⊢
  cases hr : root.modify? s.remove? c with
  | none =>
    -- where nothing could be deleted there is no item, and none behind it
    rw [hr, Option.getD_none] at h
    subst h
    rw [hr, Option.getD_none, eq_self_iff_true, true_iff]
    rintro ⟨v, hv, hnext⟩
    rw [Json.modify?_eq_none_iff, hv, Option.bind_some] at hr
    have hsome := Segment.remove?_isSome_of_hasNext hnext
    rw [hr] at hsome
    cases hsome
  | some root₁ =>
    rw [hr, Option.getD_some] at h
    subst h
    obtain ⟨v, v', hv, hs, hv'⟩ := Json.get?_of_modify? hr
    rw [Json.getD_modify?_eq_self_iff hv', Segment.remove?_again_iff (hroot.get? hv).inOrder hs, hv]
    simp only [Option.some.injEq, exists_eq_left']

/-- **Deleting again.** A deletion that can be made can be made again, and then
changes nothing exactly if nothing else has come into the place of what was deleted. -/
theorem applyAll_delete_again (hp : p.WellFormed) (ho : e.operation = .delete)
    (h : applyAll [e] p = .ok q) :
    ∃ r, applyAll [e, e] p = .ok r ∧ (r = q ↔ ¬ e.Refills p) := by
  obtain ⟨q', hq, h⟩ := applyAll_cons_ok.mp h
  cases h
  cases p with
  | raw t =>
    rw [apply_raw_delete ho] at hq
    cases hq
    refine ⟨_, applyAll_cons_ok.mpr ⟨_, apply_raw_delete ho t,
      applyAll_cons_ok.mpr ⟨_, apply_raw_delete ho _, rfl⟩⟩, ?_⟩
    rw [Payload.raw.injEq, replaceFirst_again_iff]
  | document root =>
    obtain ⟨root', hd, rfl⟩ := apply_document_ok hq
    obtain ⟨path, hpath, -⟩ := onDocument_ok hd
    rw [onDocument_delete ho hpath] at hd
    refine ⟨_, applyAll_cons_ok.mpr ⟨_, hq,
      applyAll_cons_ok.mpr ⟨_, apply_document_delete ho hpath root', rfl⟩⟩, ?_⟩
    rw [Payload.document.injEq, remove?_again_iff hp hpath (Except.ok.inj hd)]

def itemKeyDeleted : Edit := ⟨['[', '0', ']', '.', 'k'], .delete, []⟩

def itemDoc : Json := .arr [.obj [(['k'], .null)], .null]

theorem applyAll_itemKeyDeleted_again :
    applyAll [itemKeyDeleted, itemKeyDeleted] (.document itemDoc) =
      .ok (.document (.arr [.obj [], .null])) := by
  have hdoc : itemDoc.WellFormed := by
    simp [itemDoc, Json.WellFormed, Json.WellFormedItems, Json.WellFormedFields, Table.Sorted,
      Table.keys]
  have honce : applyAll [itemKeyDeleted] (.document itemDoc) =
      .ok (.document (.arr [.obj [], .null])) := rfl
  have hno : ¬ itemKeyDeleted.Refills (.document itemDoc) := by
    rw [refills_document_iff (c := [.index 0]) (s := .field ['k']) rfl rfl]
    rintro ⟨v, -, hnext⟩
    cases hnext
  obtain ⟨r, hr, hsame⟩ := applyAll_delete_again (p := .document itemDoc) hdoc rfl honce
  rw [hr, hsame.mpr hno]

theorem applyAll_delete_refilled :
    applyAll [⟨['a', 'b'], .delete, []⟩] (.raw ['a', 'a', 'b', 'b']) = .ok (.raw ['a', 'b']) ∧
      applyAll [⟨['a', 'b'], .delete, []⟩, ⟨['a', 'b'], .delete, []⟩] (.raw ['a', 'a', 'b', 'b']) =
        .ok (.raw []) ∧
      applyAll [⟨['[', '0', ']'], .delete, []⟩] (.document (.arr [.null, .bool true])) =
        .ok (.document (.arr [.bool true])) ∧
      applyAll [⟨['[', '0', ']'], .delete, []⟩, ⟨['[', '0', ']'], .delete, []⟩]
        (.document (.arr [.null, .bool true])) = .ok (.document (.arr [])) :=
  ⟨rfl, rfl, rfl, rfl⟩

end Edit

end Fixtures
