import Fixtures.Proofs.Json.WellFormed
import Fixtures.Relaxed.Value

/-!
# Values of relaxed texts

The value of a relaxed text is well-formed: scalars keep only integers of 64
bits, and the fields of a mapping are entered in order.
-/

namespace Fixtures.Relaxed

namespace Scalar

variable {t : Text} {s : Scalar}

theorem wellFormed_real? (h : real? t = some s) : s.json.WellFormed := by
  unfold real? at h
  extract_lets body doubleSign at h
  split at h
  · cases h
  split at h
  · cases h; trivial
  split at h
  · cases h; trivial
  split at h
  · obtain ⟨x, -, rfl⟩ := Option.map_eq_some_iff.mp h
    trivial
  · cases h

theorem wellFormed_real?_getD (t : Text) : ((real? t).getD (.text t)).json.WellFormed := by
  cases h : real? t with
  | none => trivial
  | some s => exact wellFormed_real? h

theorem wellFormed_ofPlain? (h : ofPlain? t = some s) : s.json.WellFormed := by
  unfold ofPlain? at h
  split at h
  · cases h; trivial
  split at h
  · cases h; trivial
  · split at h
    · rename_i hn
      cases h
      exact hn
    split at h
    · cases h
    · cases h; exact wellFormed_real?_getD t
  · cases h
    split
    · trivial
    · exact wellFormed_real?_getD t

theorem wellFormed_untagged? {plain : Bool} (h : untagged? plain t = some s) :
    s.json.WellFormed := by
  unfold untagged? at h
  split at h
  · exact wellFormed_ofPlain? h
  · cases h; trivial

theorem wellFormed_ofCore? {type : CoreType} (h : ofCore? type t = some s) :
    s.json.WellFormed := by
  cases type with
  | bool =>
    obtain ⟨b, -, rfl⟩ := Option.map_eq_some_iff.mp h
    trivial
  | int =>
    obtain ⟨n, hn, rfl⟩ := Option.map_eq_some_iff.mp h
    exact (Option.filter_eq_some_iff.mp hn).2
  | float => exact wellFormed_real? h
  | null =>
    simp only [ofCore?] at h
    split at h
    · cases h; trivial
    · cases h

theorem wellFormed_ofTagged? {tag : Option Tag} {plain : Bool}
    (h : ofTagged? tag plain t = some s) : s.json.WellFormed := by
  unfold ofTagged? at h
  split at h
  · exact wellFormed_untagged? h
  · exact wellFormed_untagged? h
  · exact wellFormed_untagged? h
  · exact wellFormed_ofCore? h
  · cases h; trivial

end Scalar

namespace Node

def Sound (read : Node → Nat → Reading Json) : Prop :=
  ∀ n left r, read n left = some r → r.1.WellFormed

theorem wellFormed_wrapIn {v : Json} (h : v.WellFormed) (tag : Option Text) :
    (wrapIn tag v).WellFormed := by
  cases tag with
  | none => exact h
  | some tag =>
    have hnil : (Json.obj []).WellFormed := ⟨Table.sorted_nil, trivial⟩
    exact Json.wellFormed_obj_insert ('!' :: tag) hnil h

section
variable {read : Node → Nat → Reading Json} (hread : Sound read)
include hread

theorem wellFormed_readItems {items : List Node} {left : Nat} {r : List Json × Nat}
    (h : readItems read items left = some r) : (Json.arr r.1).WellFormed := by
  rw [Json.wellFormed_arr]
  induction items generalizing left r with
  | nil => cases h; exact nofun
  | cons n rest ih =>
    rw [readItems] at h
    split at h
    · cases h
    · rename_i v left' hv
      obtain ⟨r', hr, rfl⟩ := Option.map_eq_some_iff.mp h
      exact List.forall_mem_cons.mpr ⟨hread n left _ hv, ih hr⟩

theorem wellFormed_readEntries {key : Node → Nat → Reading Scalar} {seen : List Scalar}
    {fields : Table Json} {entries : List (Node × Node)} {left : Nat} {r : Table Json × Nat}
    (hf : (Json.obj fields).WellFormed)
    (h : readEntries key read seen fields entries left = some r) : (Json.obj r.1).WellFormed := by
  induction entries generalizing seen fields left with
  | nil => cases h; exact hf
  | cons e rest ih =>
    obtain ⟨k, n⟩ := e
    rw [readEntries] at h
    split at h
    · cases h
    · split at h
      · rename_i name v left' hname hv
        split at h
        · cases h
        · exact ih (Json.wellFormed_obj_insert name hf (hread n _ _ hv)) h
      · cases h

end

theorem sound_json? (anchors : List (Text × Node)) (depth : Nat) :
    Sound (json? anchors depth) := by
  induction depth with
  | zero => intro n left r h; cases h
  | succ depth ih =>
    intro n left r h
    rw [json?] at h
    split at h
    · obtain ⟨s, hs, rfl⟩ := Option.map_eq_some_iff.mp h
      exact wellFormed_wrapIn (Scalar.wellFormed_ofTagged? hs) _
    · split at h
      · cases h
      obtain ⟨r, hr, rfl⟩ := Option.map_eq_some_iff.mp h
      exact wellFormed_wrapIn (wellFormed_readItems ih hr) _
    · split at h
      · cases h
      obtain ⟨r, hr, rfl⟩ := Option.map_eq_some_iff.mp h
      have hnil : (Json.obj []).WellFormed := ⟨Table.sorted_nil, trivial⟩
      exact wellFormed_wrapIn (wellFormed_readEntries ih hnil hr) _
    · cases h

end Node

theorem wellFormed_of_parse? {t : Text} {v : Json} (h : parse? t = some v) : v.WellFormed := by
  unfold parse? at h
  simp only [Option.bind_eq_some_iff] at h
  obtain ⟨-, -, -, -, -, -, root, -, h⟩ := h
  obtain ⟨r, hr, rfl⟩ := Option.map_eq_some_iff.mp h
  exact Node.sound_json? root.anchored (Node.depthLimit + 1) root _ r hr

end Fixtures.Relaxed
