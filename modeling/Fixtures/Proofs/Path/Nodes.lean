import Fixtures.Path.Lookup
import Fixtures.Proofs.Table

/-!
# Changing one node

`Json.modify?` changes the node that a path leads to and leaves apart from it
every node whose path parts from that path. Both facts go down the path one
segment at a time, so they are first said of a single segment.
-/

namespace Fixtures

/-! ## Items -/

section
variable {α : Type} {f g : α → Option α} {i j : Nat} {l l' : List α}

theorem getElem?_of_modifyItem? (h : modifyItem? f i l = some l') :
    ∃ a a', l[i]? = some a ∧ f a = some a' ∧ l'[i]? = some a' := by
  induction l generalizing i l' with
  | nil => simp [modifyItem?] at h
  | cons b rest ih =>
    cases i with
    | zero =>
      simp only [modifyItem?, Option.map_eq_some_iff] at h
      obtain ⟨b', hb, rfl⟩ := h
      exact ⟨b, b', rfl, hb, rfl⟩
    | succ i =>
      simp only [modifyItem?, Option.map_eq_some_iff] at h
      obtain ⟨rest', hr, rfl⟩ := h
      simpa using ih hr

theorem getElem?_modifyItem?_ne (hj : j ≠ i) (h : modifyItem? f i l = some l') :
    l'[j]? = l[j]? := by
  induction l generalizing i j l' with
  | nil => simp [modifyItem?] at h
  | cons b rest ih =>
    cases i with
    | zero =>
      simp only [modifyItem?, Option.map_eq_some_iff] at h
      obtain ⟨b', -, rfl⟩ := h
      obtain ⟨j, rfl⟩ := Nat.exists_eq_succ_of_ne_zero hj
      rfl
    | succ i =>
      simp only [modifyItem?, Option.map_eq_some_iff] at h
      obtain ⟨rest', hr, rfl⟩ := h
      cases j with
      | zero => rfl
      | succ j => exact ih (fun e => hj (congrArg Nat.succ e)) hr

theorem mem_of_mem_modifyItem? {a' : α} (h : modifyItem? f i l = some l') (ha : a' ∈ l') :
    a' ∈ l ∨ ∃ a ∈ l, f a = some a' := by
  induction l generalizing i l' with
  | nil => simp [modifyItem?] at h
  | cons b rest ih =>
    cases i with
    | zero =>
      obtain ⟨b', hb, rfl⟩ := Option.map_eq_some_iff.mp h
      rcases List.mem_cons.mp ha with rfl | ha
      · exact .inr ⟨b, List.mem_cons_self, hb⟩
      · exact .inl (List.mem_cons_of_mem _ ha)
    | succ i =>
      obtain ⟨rest', hr, rfl⟩ := Option.map_eq_some_iff.mp h
      rcases List.mem_cons.mp ha with rfl | ha
      · exact .inl List.mem_cons_self
      · rcases ih hr ha with ha | ⟨a, hmem, hf⟩
        · exact .inl (List.mem_cons_of_mem _ ha)
        · exact .inr ⟨a, List.mem_cons_of_mem _ hmem, hf⟩

theorem modifyItem?_isSome {a a' : α} (h : l[i]? = some a) (hf : f a = some a') :
    ∃ l', modifyItem? f i l = some l' := by
  induction l generalizing i with
  | nil => simp at h
  | cons b rest ih =>
    cases i with
    | zero =>
      simp only [List.getElem?_cons_zero, Option.some.injEq] at h
      subst h
      exact ⟨a' :: rest, by simp [modifyItem?, hf]⟩
    | succ i =>
      obtain ⟨rest', hr⟩ := ih (by simpa using h)
      exact ⟨b :: rest', by simp [modifyItem?, hr]⟩

theorem modifyItem?_congr (h : ∀ a, l[i]? = some a → f a = g a) :
    modifyItem? f i l = modifyItem? g i l := by
  induction l generalizing i with
  | nil => rw [modifyItem?, modifyItem?]
  | cons b rest ih =>
    cases i with
    | zero => rw [modifyItem?, modifyItem?, h b List.getElem?_cons_zero]
    | succ i =>
      rw [modifyItem?, modifyItem?, ih]
      intro a ha
      exact h a (by rw [List.getElem?_cons_succ, ha])

theorem modifyItem?_some {a : α} (h : l[i]? = some a) : modifyItem? some i l = some l := by
  induction l generalizing i with
  | nil => cases h
  | cons b rest ih =>
    cases i with
    | zero => rfl
    | succ i =>
      rw [List.getElem?_cons_succ] at h
      rw [modifyItem?, ih h]
      rfl

theorem modifyItem?_bind (f g : α → Option α) (i : Nat) (l : List α) :
    (modifyItem? f i l).bind (modifyItem? g i) = modifyItem? (fun a => (f a).bind g) i l := by
  induction l generalizing i with
  | nil => rw [modifyItem?, modifyItem?, Option.bind_none]
  | cons b rest ih =>
    cases i with
    | zero =>
      simp only [modifyItem?]
      cases f b with
      | none => rfl
      | some b' => rfl
    | succ i =>
      simp only [modifyItem?]
      rw [← ih]
      cases modifyItem? f i rest with
      | none => rfl
      | some rest' => rfl

end

/-! ## Segments -/

def Json.isArray : Json → Bool
  | .arr _ => true
  | _ => false

theorem Json.isArray_of_kindName {v v' : Json} (h : v'.kindName = v.kindName) :
    v'.isArray = v.isArray := by
  have hname (u : Json) : u.isArray = (u.kindName == "an array") := by
    cases u <;> simp [isArray, kindName]
  rw [hname, hname, h]

namespace Segment

variable {s s' : Segment} {f g : Json → Option Json} {v v' w : Json}

theorem modify?_cases (h : s.modify? f v = some v') :
    (∃ k t t', s = .field k ∧ v = .obj t ∧ v' = .obj t' ∧ Table.modify? k f t = some t') ∨
      ∃ i l l', s = .index i ∧ v = .arr l ∧ v' = .arr l' ∧ modifyItem? f i l = some l' := by
  cases s with
  | field k =>
    cases v with
    | obj t =>
      simp only [modify?, Option.map_eq_some_iff] at h
      obtain ⟨t', hm, rfl⟩ := h
      exact .inl ⟨k, t, t', rfl, rfl, rfl, hm⟩
    | _ => cases h
  | index i =>
    cases v with
    | arr l =>
      simp only [modify?, Option.map_eq_some_iff] at h
      obtain ⟨l', hm, rfl⟩ := h
      exact .inr ⟨i, l, l', rfl, rfl, rfl, hm⟩
    | _ => cases h

theorem put?_cases (h : s.put? w v = some v') :
    (∃ k t, s = .field k ∧ v = .obj t ∧ v' = .obj (Table.insert k w t)) ∨
      ∃ i l, s = .index i ∧ i ≤ l.length ∧ v = .arr l ∧ v' = .arr (l.insertIdx i w) := by
  cases s with
  | field k =>
    cases v with
    | obj t => cases h; exact .inl ⟨k, t, rfl, rfl, rfl⟩
    | _ => cases h
  | index i =>
    cases v with
    | arr l =>
      simp only [put?] at h
      split at h
      · rename_i hi; cases h; exact .inr ⟨i, l, rfl, hi, rfl, rfl⟩
      · cases h
    | _ => cases h

theorem remove?_cases (h : s.remove? v = some v') :
    (∃ k t, s = .field k ∧ v = .obj t ∧ v' = .obj (Table.erase k t)) ∨
      ∃ i l, s = .index i ∧ i < l.length ∧ v = .arr l ∧ v' = .arr (l.eraseIdx i) := by
  cases s with
  | field k =>
    cases v with
    | obj t => cases h; exact .inl ⟨k, t, rfl, rfl, rfl⟩
    | _ => cases h
  | index i =>
    cases v with
    | arr l =>
      simp only [remove?] at h
      split at h
      · rename_i hi; cases h; exact .inr ⟨i, l, rfl, hi, rfl, rfl⟩
      · cases h
    | _ => cases h

theorem get?_of_modify? (h : s.modify? f v = some v') :
    ∃ u u', s.get? v = some u ∧ f u = some u' ∧ s.get? v' = some u' := by
  rcases modify?_cases h with ⟨k, t, t', rfl, rfl, rfl, hm⟩ | ⟨i, l, l', rfl, rfl, rfl, hm⟩
  · exact Table.get?_of_modify? hm
  · exact getElem?_of_modifyItem? hm

theorem get?_modify?_ne (hs : s' ≠ s) (h : s.modify? f v = some v') : s'.get? v' = s'.get? v := by
  rcases modify?_cases h with ⟨k, t, t', rfl, rfl, rfl, hm⟩ | ⟨i, l, l', rfl, rfl, rfl, hm⟩
  · cases s' with
    | field k' => exact Table.get?_modify?_ne (fun e => hs (congrArg field e)) hm
    | index j => rfl
  · cases s' with
    | field k' => rfl
    | index j => exact getElem?_modifyItem?_ne (fun e => hs (congrArg index e)) hm

theorem modify?_isSome (h : s.get? v = some w) {w' : Json} (hf : f w = some w') :
    ∃ v', s.modify? f v = some v' := by
  cases s with
  | field k =>
    cases v with
    | obj t =>
      obtain ⟨t', hm⟩ := Table.modify?_isSome h hf
      exact ⟨.obj t', by simp [modify?, hm]⟩
    | _ => cases h
  | index i =>
    cases v with
    | arr l =>
      obtain ⟨l', hm⟩ := modifyItem?_isSome h hf
      exact ⟨.arr l', by simp [modify?, hm]⟩
    | _ => cases h

theorem modify?_congr (h : ∀ w, s.get? v = some w → f w = g w) : s.modify? f v = s.modify? g v := by
  cases s with
  | field k =>
    cases v with
    | obj t => exact congrArg (Option.map Json.obj) (Table.modify?_congr h)
    | _ => rfl
  | index i =>
    cases v with
    | arr l => exact congrArg (Option.map Json.arr) (modifyItem?_congr h)
    | _ => rfl

theorem modify?_some (h : s.get? v = some w) : s.modify? some v = some v := by
  cases s with
  | field k =>
    cases v with
    | obj t => exact congrArg (Option.map Json.obj) (Table.modify?_some h)
    | _ => cases h
  | index i =>
    cases v with
    | arr l => exact congrArg (Option.map Json.arr) (modifyItem?_some h)
    | _ => cases h

theorem modify?_bind (f g : Json → Option Json) (s : Segment) (v : Json) :
    (s.modify? f v).bind (s.modify? g) = s.modify? (fun w => (f w).bind g) v := by
  cases s with
  | field k =>
    cases v with
    | obj t =>
      simp only [modify?]
      rw [← Table.modify?_bind, Option.map_bind, Option.bind_map]
      rfl
    | _ => rfl
  | index i =>
    cases v with
    | arr l =>
      simp only [modify?]
      rw [← modifyItem?_bind, Option.map_bind, Option.bind_map]
      rfl
    | _ => rfl

-- New and deleted items move those behind them, so the next two leave arrays out.

theorem get?_put?_ne (hs : s' ≠ s) (ha : ∀ i j, s = .index i → s' = .index j → v.isArray = false)
    (h : s.put? w v = some v') : s'.get? v' = s'.get? v := by
  rcases put?_cases h with ⟨k, t, rfl, rfl, rfl⟩ | ⟨i, l, rfl, -, rfl, rfl⟩
  · cases s' with
    | field k' => exact Table.get?_insert_ne (fun e => hs (congrArg field e)) w t
    | index j => rfl
  · cases s' with
    | field k' => rfl
    | index j => cases ha i j rfl rfl

theorem get?_remove?_ne (hs : s' ≠ s) (ha : ∀ i j, s = .index i → s' = .index j → v.isArray = false)
    (h : s.remove? v = some v') : s'.get? v' = s'.get? v := by
  rcases remove?_cases h with ⟨k, t, rfl, rfl, rfl⟩ | ⟨i, l, rfl, -, rfl, rfl⟩
  · cases s' with
    | field k' => exact Table.get?_erase_ne (fun e => hs (congrArg field e)) t
    | index j => rfl
  · cases s' with
    | field k' => rfl
    | index j => cases ha i j rfl rfl

theorem kindName_modify? (h : s.modify? f v = some v') : v'.kindName = v.kindName := by
  rcases modify?_cases h with ⟨k, t, t', rfl, rfl, rfl, -⟩ | ⟨i, l, l', rfl, rfl, rfl, -⟩ <;> rfl

theorem kindName_put? (h : s.put? w v = some v') : v'.kindName = v.kindName := by
  rcases put?_cases h with ⟨k, t, rfl, rfl, rfl⟩ | ⟨i, l, rfl, -, rfl, rfl⟩ <;> rfl

theorem kindName_remove? (h : s.remove? v = some v') : v'.kindName = v.kindName := by
  rcases remove?_cases h with ⟨k, t, rfl, rfl, rfl⟩ | ⟨i, l, rfl, -, rfl, rfl⟩ <;> rfl

end Segment

/-! ## Paths -/

namespace Json

variable {f g : Json → Option Json} {p q : List Segment} {root root' v w : Json}

@[simp] theorem get?_nil (root : Json) : root.get? [] = some root := rfl

theorem get?_cons (root : Json) (s : Segment) (p : List Segment) :
    root.get? (s :: p) = (s.get? root).bind (get? · p) := rfl

theorem modify?_cons (root : Json) (f : Json → Option Json) (s : Segment) (p : List Segment) :
    root.modify? f (s :: p) = s.modify? (modify? f · p) root := rfl

theorem get?_append (root : Json) (p q : List Segment) :
    root.get? (p ++ q) = (root.get? p).bind (get? · q) := by
  induction p generalizing root with
  | nil => rfl
  | cons s p ih => simp only [List.cons_append, get?_cons, Option.bind_assoc, ih]

theorem get?_concat (root : Json) (p : List Segment) (s : Segment) :
    root.get? (p ++ [s]) = (root.get? p).bind s.get? := by
  simp only [get?_append, get?_cons, get?_nil, Option.bind_fun_some]

theorem modify?_append (root : Json) (f : Json → Option Json) (p q : List Segment) :
    root.modify? f (p ++ q) = root.modify? (modify? f · q) p := by
  induction p generalizing root with
  | nil => rfl
  | cons s p ih => simp only [List.cons_append, modify?_cons, ih]

@[simp] theorem put?_concat (root : Json) (p : List Segment) (s : Segment) (v : Json) :
    root.put? (p ++ [s]) v = root.modify? (s.put? v) p := by
  simp [put?]

@[simp] theorem remove?_concat (root : Json) (p : List Segment) (s : Segment) :
    root.remove? (p ++ [s]) = root.modify? s.remove? p := by
  simp [remove?]

theorem put?_eq_some_iff : root.put? p v = some root' ↔
    ∃ c s, p = c ++ [s] ∧ root.modify? (s.put? v) c = some root' := by
  constructor
  · intro h
    rcases List.eq_nil_or_concat p with rfl | ⟨c, s, rfl⟩
    · cases h
    · rw [List.concat_eq_append] at h ⊢
      exact ⟨c, s, rfl, put?_concat root c s v ▸ h⟩
  · rintro ⟨c, s, rfl, h⟩
    rw [put?_concat, h]

theorem remove?_eq_some_iff : root.remove? p = some root' ↔
    ∃ c s, p = c ++ [s] ∧ root.modify? s.remove? c = some root' := by
  constructor
  · intro h
    rcases List.eq_nil_or_concat p with rfl | ⟨c, s, rfl⟩
    · cases h
    · rw [List.concat_eq_append] at h ⊢
      exact ⟨c, s, rfl, remove?_concat root c s ▸ h⟩
  · rintro ⟨c, s, rfl, h⟩
    rw [remove?_concat, h]

theorem set?_concat (root : Json) (p : List Segment) (s : Segment) (v : Json) :
    root.set? (p ++ [s]) v = root.modify? (s.modify? fun _ => some v) p := by
  simp only [set?, modify?_append]
  rfl

theorem get?_of_modify? (h : root.modify? f p = some root') :
    ∃ v v', root.get? p = some v ∧ f v = some v' ∧ root'.get? p = some v' := by
  induction p generalizing root root' with
  | nil => exact ⟨root, root', rfl, h, rfl⟩
  | cons s p ih =>
    obtain ⟨u, u', hu, hm, hu'⟩ := Segment.get?_of_modify? h
    obtain ⟨v, v', hv, hf, hv'⟩ := ih hm
    exact ⟨v, v', by simp [get?_cons, hu, hv], hf, by simp [get?_cons, hu', hv']⟩

theorem modify?_isSome (h : root.get? p = some v) {v' : Json} (hf : f v = some v') :
    ∃ root', root.modify? f p = some root' := by
  induction p generalizing root with
  | nil => exact ⟨v', by simp_all [modify?]⟩
  | cons s p ih =>
    simp only [get?_cons, Option.bind_eq_some_iff] at h
    obtain ⟨u, hu, hv⟩ := h
    obtain ⟨u', hu'⟩ := ih hv
    exact Segment.modify?_isSome hu hu'

theorem modify?_congr (h : ∀ v, root.get? p = some v → f v = g v) :
    root.modify? f p = root.modify? g p := by
  induction p generalizing root with
  | nil => exact h root rfl
  | cons s p ih =>
    rw [modify?_cons, modify?_cons]
    apply Segment.modify?_congr
    intro w hw
    apply ih
    intro v hv
    exact h v (by rw [get?_cons, hw, Option.bind_some, hv])

theorem modify?_eq_self (h : root.get? p = some v) (hf : f v = some v) :
    root.modify? f p = some root := by
  induction p generalizing root with
  | nil =>
    cases h
    exact hf
  | cons s p ih =>
    obtain ⟨u, hu, hv⟩ := Option.bind_eq_some_iff.mp h
    have hsame : s.modify? (modify? f · p) root = s.modify? some root := by
      apply Segment.modify?_congr
      intro w hw
      rw [hu] at hw
      cases hw
      exact ih hv
    rw [modify?_cons, hsame, Segment.modify?_some hu]

theorem modify?_bind (f g : Json → Option Json) (p : List Segment) (root : Json) :
    (root.modify? f p).bind (modify? g · p) = root.modify? (fun v => (f v).bind g) p := by
  induction p generalizing root with
  | nil => rfl
  | cons s p ih =>
    simp only [modify?_cons]
    rw [Segment.modify?_bind]
    simp only [ih]

theorem set?_isSome (h : root.get? p = some v) (w : Json) : ∃ root', root.set? p w = some root' :=
  modify?_isSome h rfl

theorem get?_set? (h : root.set? p v = some root') : root'.get? p = some v := by
  obtain ⟨_, w, -, hw, hget⟩ := get?_of_modify? h
  rw [hget, ← hw]

theorem isArray_modify? (h : root.modify? f p = some root')
    (hf : ∀ v v', f v = some v' → v'.isArray = v.isArray) :
    (root'.get? p).map isArray = (root.get? p).map isArray := by
  obtain ⟨v, v', hv, hm, hv'⟩ := get?_of_modify? h
  simp [hv, hv', hf v v' hm]

end Json

/-- Neither path runs through the node of the other. -/
def Path.Apart (p q : List Segment) : Prop := ¬ p <+: q ∧ ¬ q <+: p

namespace Path

instance (p q : List Segment) : Decidable (Apart p q) := inferInstanceAs (Decidable (_ ∧ _))

theorem Apart.tail {s : Segment} {p q : List Segment} (h : Apart (s :: p) (s :: q)) : Apart p q :=
  ⟨fun ⟨r, hr⟩ => h.1 ⟨r, by simp [hr]⟩, fun ⟨r, hr⟩ => h.2 ⟨r, by simp [hr]⟩⟩

theorem Apart.init {c q : List Segment} {s : Segment} (h : Apart (c ++ [s]) q) :
    Apart c q ∨ ∃ s' r, q = c ++ s' :: r ∧ s' ≠ s := by
  by_cases hq : q <+: c
  · exact absurd (hq.trans (List.prefix_append c [s])) h.2
  by_cases hc : c <+: q
  · obtain ⟨t, rfl⟩ := hc
    cases t with
    | nil => simp at hq
    | cons s' r =>
      refine .inr ⟨s', r, rfl, fun e => h.1 ?_⟩
      subst e
      exact ⟨r, by simp⟩
  · exact .inl ⟨hc, hq⟩

end Path

/-- **Frame.** A change at a path leaves every node apart from it. -/
theorem Json.get?_modify?_apart {f : Json → Option Json} {p q : List Segment} {root root' : Json}
    (hp : Path.Apart p q) (h : root.modify? f p = some root') : root'.get? q = root.get? q := by
  induction p generalizing q root root' with
  | nil => exact absurd (List.nil_prefix) hp.1
  | cons s p ih =>
    cases q with
    | nil => exact absurd (List.nil_prefix) hp.2
    | cons s' q =>
      by_cases hs : s' = s
      · subst hs
        obtain ⟨u, u', hu, hm, hu'⟩ := Segment.get?_of_modify? h
        simp only [Json.get?_cons, hu, hu', Option.bind_some]
        exact ih hp.tail hm
      · simp only [Json.get?_cons, Segment.get?_modify?_ne hs h]

theorem Json.exists_modify? {f : Json → Option Json} {p : List Segment} {root v v' : Json}
    (h : root.get? p = some v) (hf : f v = some v') :
    ∃ root', root.modify? f p = some root' ∧ root'.get? p = some v' ∧
      ∀ q, Path.Apart p q → root'.get? q = root.get? q := by
  obtain ⟨root', hroot⟩ := modify?_isSome h hf
  obtain ⟨w, w', hw, hw', hget⟩ := get?_of_modify? hroot
  rw [h] at hw
  cases hw
  rw [hf] at hw'
  cases hw'
  exact ⟨root', hroot, hget, fun q hq => get?_modify?_apart hq hroot⟩

end Fixtures
