import Fixtures.Table

/-!
# Reading a table after a change

A change at one key leaves every other key as it was. None of this needs the
keys to be in order.
-/

namespace Fixtures

namespace Table

variable {α : Type} {k k' : Text} {v : α} {t t' : Table α} {f g : α → Option α}

theorem get?_cons (k k' : Text) (v : α) (t : Table α) :
    get? k ((k', v) :: t) = if k = k' then some v else get? k t := rfl

theorem get?_insert_ne (h : k' ≠ k) (v : α) (t : Table α) : get? k' (insert k v t) = get? k' t := by
  induction t with
  | nil => simp [insert, get?, h]
  | cons e rest ih =>
    obtain ⟨j, w⟩ := e
    by_cases hj : k = j
    · subst hj; simp [insert, get?, h]
    · simp only [insert, if_neg hj]
      split
      · simp [get?, h]
      · simp only [get?_cons, ih]

theorem get?_erase_ne (h : k' ≠ k) (t : Table α) : get? k' (erase k t) = get? k' t := by
  induction t with
  | nil => rfl
  | cons e rest ih =>
    obtain ⟨j, w⟩ := e
    by_cases hj : k = j
    · subst hj; simp [erase, get?, h]
    · simp only [erase, if_neg hj, get?_cons, ih]

theorem get?_of_modify? (h : modify? k f t = some t') :
    ∃ v v', get? k t = some v ∧ f v = some v' ∧ get? k t' = some v' := by
  induction t generalizing t' with
  | nil => cases h
  | cons e rest ih =>
    obtain ⟨j, w⟩ := e
    by_cases hj : k = j
    · simp only [modify?, if_pos hj, Option.map_eq_some_iff] at h
      obtain ⟨w', hw, rfl⟩ := h
      exact ⟨w, w', by simp [get?, hj], hw, by simp [get?, hj]⟩
    · simp only [modify?, if_neg hj, Option.map_eq_some_iff] at h
      obtain ⟨rest', hr, rfl⟩ := h
      obtain ⟨v, v', hv, hf, hv'⟩ := ih hr
      exact ⟨v, v', by simp [get?, hj, hv], hf, by simp [get?, hj, hv']⟩

theorem get?_modify?_ne (hk : k' ≠ k) (h : modify? k f t = some t') : get? k' t' = get? k' t := by
  induction t generalizing t' with
  | nil => cases h
  | cons e rest ih =>
    obtain ⟨j, w⟩ := e
    by_cases hj : k = j
    · simp only [modify?, if_pos hj, Option.map_eq_some_iff] at h
      obtain ⟨w', -, rfl⟩ := h
      have hj' : k' ≠ j := fun e => hk (e.trans hj.symm)
      simp only [get?_cons, if_neg hj']
    · simp only [modify?, if_neg hj, Option.map_eq_some_iff] at h
      obtain ⟨rest', hr, rfl⟩ := h
      simp only [get?_cons, ih hr]

theorem modify?_isSome (h : get? k t = some v) {v' : α} (hf : f v = some v') :
    ∃ t', modify? k f t = some t' := by
  induction t with
  | nil => cases h
  | cons e rest ih =>
    obtain ⟨j, w⟩ := e
    by_cases hj : k = j
    · simp only [get?_cons, if_pos hj, Option.some.injEq] at h
      subst h
      exact ⟨(j, v') :: rest, by simp [modify?, hj, hf]⟩
    · simp only [get?_cons, if_neg hj] at h
      obtain ⟨rest', hr⟩ := ih h
      exact ⟨(j, w) :: rest', by simp [modify?, hj, hr]⟩

theorem modify?_congr (h : ∀ v, get? k t = some v → f v = g v) : modify? k f t = modify? k g t := by
  induction t with
  | nil => rfl
  | cons e rest ih =>
    obtain ⟨j, w⟩ := e
    rw [modify?, modify?]
    split
    · rename_i hj
      rw [h w (by rw [get?_cons, if_pos hj])]
    · rename_i hj
      rw [ih fun v hv => h v (by rw [get?_cons, if_neg hj, hv])]

theorem modify?_some (h : get? k t = some v) : modify? k some t = some t := by
  induction t with
  | nil => cases h
  | cons e rest ih =>
    obtain ⟨j, w⟩ := e
    rw [modify?]
    split
    · rfl
    · rename_i hj
      rw [get?_cons, if_neg hj] at h
      rw [ih h]
      rfl

theorem modify?_bind (k : Text) (f g : α → Option α) (t : Table α) :
    (modify? k f t).bind (modify? k g) = modify? k (fun v => (f v).bind g) t := by
  induction t with
  | nil => rfl
  | cons e rest ih =>
    obtain ⟨j, w⟩ := e
    by_cases hj : k = j
    · simp only [modify?, if_pos hj]
      cases f w with
      | none => rfl
      | some w' => simp only [Option.map_some, Option.bind_some, modify?, if_pos hj]
    · simp only [modify?, if_neg hj]
      rw [← ih]
      cases modify? k f rest with
      | none => rfl
      | some rest' => simp only [Option.map_some, Option.bind_some, modify?, if_neg hj]

theorem mem_of_mem_modify? {e : Text × α} (h : modify? k f t = some t') (he : e ∈ t') :
    e ∈ t ∨ ∃ v, (k, v) ∈ t ∧ f v = some e.2 := by
  induction t generalizing t' with
  | nil => cases h
  | cons e' rest ih =>
    obtain ⟨j, w⟩ := e'
    rw [modify?] at h
    split at h
    · rename_i hk
      subst hk
      obtain ⟨w', hw, rfl⟩ := Option.map_eq_some_iff.mp h
      rcases List.mem_cons.mp he with rfl | he
      · exact .inr ⟨w, List.mem_cons_self, hw⟩
      · exact .inl (List.mem_cons_of_mem _ he)
    · obtain ⟨rest', hr, rfl⟩ := Option.map_eq_some_iff.mp h
      rcases List.mem_cons.mp he with rfl | he
      · exact .inl List.mem_cons_self
      · rcases ih hr he with he | ⟨v, hv, hf⟩
        · exact .inl (List.mem_cons_of_mem _ he)
        · exact .inr ⟨v, List.mem_cons_of_mem _ hv, hf⟩

theorem erase_eq_self_iff : erase k t = t ↔ get? k t = none := by
  induction t with
  | nil => exact ⟨fun _ => rfl, fun _ => rfl⟩
  | cons e rest ih =>
    obtain ⟨j, w⟩ := e
    by_cases hj : k = j
    · rw [erase, if_pos hj, get?_cons, if_pos hj]
      exact ⟨fun h => absurd h.symm (List.cons_ne_self _ rest), nofun⟩
    · rw [erase, if_neg hj, get?_cons, if_neg hj, List.cons.injEq, ih, and_iff_right rfl]

theorem erase_insert (h : get? k t = none) (v : α) : erase k (insert k v t) = t := by
  induction t with
  | nil => simp [insert, erase]
  | cons e rest ih =>
    obtain ⟨j, w⟩ := e
    by_cases hj : k = j
    · rw [get?_cons, if_pos hj] at h
      cases h
    rw [get?_cons, if_neg hj] at h
    rw [insert, if_neg hj]
    split
    · rw [erase, if_pos rfl]
    · rw [erase, if_neg hj, ih h]

end Table

end Fixtures
