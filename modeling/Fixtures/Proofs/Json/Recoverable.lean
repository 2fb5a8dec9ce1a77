import Fixtures.Proofs.Edit.WellFormed

/-!
# Documents that are read back from their text

A document of integers that is not nested too deep is read back from its text.
Where a string is put in the place of a node it stays such a document: a string
has no numbers and is not nested.
-/

namespace Fixtures

namespace Json

variable {n : Nat} {v v' root root' : Json} {items : List Json} {fields : List (Text × Json)}
  {f : Json → Option Json}

/-! ## Numbers and nesting -/

theorem areIntegral_iff : areIntegral items = true ↔ ∀ v ∈ items, v.isIntegral = true := by
  induction items with
  | nil => simp [areIntegral]
  | cons v rest ih => rw [areIntegral, Bool.and_eq_true, ih, List.forall_mem_cons]

theorem areIntegralFields_iff :
    areIntegralFields fields = true ↔ ∀ e ∈ fields, e.2.isIntegral = true := by
  induction fields with
  | nil => simp [areIntegralFields]
  | cons e rest ih => rw [areIntegralFields, Bool.and_eq_true, ih, List.forall_mem_cons]

theorem depthItems_le_iff : depthItems items ≤ n ↔ ∀ v ∈ items, v.depth ≤ n := by
  induction items with
  | nil => simp [depthItems]
  | cons v rest ih => rw [depthItems, Nat.max_le, ih, List.forall_mem_cons]

theorem depthFields_le_iff : depthFields fields ≤ n ↔ ∀ e ∈ fields, e.2.depth ≤ n := by
  induction fields with
  | nil => simp [depthFields]
  | cons e rest ih => rw [depthFields, Nat.max_le, ih, List.forall_mem_cons]

/-- All numbers are integers, and at most `n` arrays and objects are nested. -/
def Within (n : Nat) (v : Json) : Prop := v.isIntegral = true ∧ v.depth ≤ n

theorem within_arr : (arr items).Within (n + 1) ↔ ∀ v ∈ items, v.Within n := by
  simp only [Within, isIntegral, depth, areIntegral_iff, Nat.add_le_add_iff_right,
    depthItems_le_iff, forall_and]

theorem within_obj : (obj fields).Within (n + 1) ↔ ∀ e ∈ fields, e.2.Within n := by
  simp only [Within, isIntegral, depth, areIntegralFields_iff, Nat.add_le_add_iff_right,
    depthFields_le_iff, forall_and]

theorem within_str (n : Nat) (t : Text) : (str t).Within n := ⟨rfl, Nat.zero_le n⟩

theorem within_of_segment {s : Segment}
    (hf : ∀ n w w', w.Within n → f w = some w' → w'.Within n) (hv : v.Within n)
    (h : s.modify? f v = some v') : v'.Within n := by
  cases n with
  | zero =>
    have hd := hv.2
    rcases Segment.modify?_cases h with ⟨k, t, t', rfl, rfl, -⟩ | ⟨i, l, l', rfl, rfl, -⟩
    · simp [depth] at hd
    · simp [depth] at hd
  | succ n =>
    rcases Segment.modify?_cases h with ⟨k, t, t', rfl, rfl, rfl, hm⟩ | ⟨i, l, l', rfl, rfl, rfl, hm⟩
    · rw [within_obj] at hv ⊢
      intro e he
      rcases Table.mem_of_mem_modify? hm he with he | ⟨w, hw, hfw⟩
      · exact hv e he
      · exact hf n w e.2 (hv _ hw) hfw
    · rw [within_arr] at hv ⊢
      intro w' hw'
      rcases mem_of_mem_modifyItem? hm hw' with hw' | ⟨w, hw, hfw⟩
      · exact hv w' hw'
      · exact hf n w w' (hv w hw) hfw

theorem within_set?_str {path : List Segment} {t : Text} (hroot : root.Within n)
    (h : root.set? path (.str t) = some root') : root'.Within n := by
  induction path generalizing root root' n with
  | nil =>
    cases h
    exact within_str n t
  | cons s path ih => exact within_of_segment (fun _ _ _ => ih) hroot h

/-! ## Recoverable documents -/

/-- A document that its text says everything about. -/
structure Recoverable (v : Json) : Prop where
  wellFormed : v.WellFormed
  integral : v.isIntegral = true
  depth_le : v.depth ≤ 127

theorem Recoverable.parse_render (h : v.Recoverable) : parse v.render = .ok v :=
  Json.parse_render h.wellFormed h.integral h.depth_le

theorem Recoverable.set?_str {path : List Segment} {t : Text} (hroot : root.Recoverable)
    (h : root.set? path (.str t) = some root') : root'.Recoverable := by
  have hstr : (str t).WellFormed := trivial
  obtain ⟨hi, hd⟩ := within_set?_str ⟨hroot.integral, hroot.depth_le⟩ h
  exact ⟨keeps_set? hstr path root root' hroot.wellFormed h, hi, hd⟩

end Json

end Fixtures
