import Fixtures.Proofs.Table.Sorted
import Fixtures.Shared

/-!
# Handles on shared storages

A change made through one handle is seen through every handle on the same storage,
and through no other. Everything that can be done to storages and their handles is a
`Change`, so what holds after each of them holds along every run.
-/

namespace Fixtures.Shared

variable {α : Type} {handle other : Text} {s : Shared α}

theorem get?_modify (handle other : Text) (f : α → α) (s : Shared α) :
    (s.modify handle f).get? other =
      if Table.get? other s.handles = Table.get? handle s.handles then (s.get? other).map f
      else s.get? other := by
  unfold get? modify
  cases hn : Table.get? handle s.handles with
  | none =>
    cases hm : Table.get? other s.handles with
    | none => rfl
    | some m => rfl
  | some n =>
    cases hm : Table.get? other s.handles with
    | none => rfl
    | some m =>
      simp only [Option.bind_some, Option.some.injEq, List.getElem?_modify]
      by_cases h : m = n
      · simp [h]
      · simp [h, Ne.symm h]

theorem get?_modify_self (handle : Text) (f : α → α) (s : Shared α) :
    (s.modify handle f).get? handle = (s.get? handle).map f := by
  rw [get?_modify, if_pos rfl]

theorem get?_eq_of_same (h : Table.get? other s.handles = Table.get? handle s.handles) :
    s.get? other = s.get? handle := by
  rw [get?, h, get?]

def number? (handle : Text) (s : Shared α) : Option Nat := Table.get? handle s.handles

theorem get?_eq_bind (handle : Text) (s : Shared α) :
    s.get? handle = (s.number? handle).bind (s.storages[·]?) := rfl

theorem handles_modify (handle : Text) (f : α → α) (s : Shared α) :
    (s.modify handle f).handles = s.handles := by
  rw [modify]
  split <;> rfl

theorem getElem?_storages_modify (handle : Text) (f : α → α) (s : Shared α) (n : Nat) :
    (s.modify handle f).storages[n]? =
      if s.number? handle = some n then (s.storages[n]?).map f else s.storages[n]? := by
  rw [modify, number?]
  cases Table.get? handle s.handles with
  | none => rfl
  | some m =>
    simp only [List.getElem?_modify, Option.some.injEq]
    by_cases h : m = n
    · simp only [h, if_true]
      rfl
    · simp only [h, if_false, id_map']

theorem length_storages_modify (handle : Text) (f : α → α) (s : Shared α) :
    (s.modify handle f).storages.length = s.storages.length := by
  rw [modify]
  split
  · exact List.length_modify ..
  · rfl

theorem modify_getD (handle : Text) (f : α → α) (a : α) (s : Shared α) :
    s.modify handle (fun _ => f ((s.get? handle).getD a)) = s.modify handle f := by
  rw [modify, modify, get?]
  cases hn : Table.get? handle s.handles with
  | none => rfl
  | some n =>
    have hstorages : s.storages.modify n (fun _ => f ((s.storages[n]?).getD a)) =
        s.storages.modify n f := by
      apply List.ext_getElem?
      intro m
      rw [List.getElem?_modify, List.getElem?_modify]
      split
      · rename_i h
        subst h
        cases s.storages[n]? with
        | none => rfl
        | some b => rfl
      · rfl
    simp only [Option.bind_some, hstorages]

/-! ## Changes -/

inductive Change (α : Type)
  | stay
  | create (handle : Text) (a : α)
  | share (source handle : Text)
  | shareGlobal (handle : Text)
  | modify (handle : Text) (f : α → α)

def Change.apply (s : Shared α) : Change α → Shared α
  | .stay => s
  | .create handle a => s.create handle a
  | .share source handle => s.share source handle
  | .shareGlobal handle => s.shareGlobal handle
  | .modify handle f => s.modify handle f

/-- Handles that are in order, each on a storage that is there. -/
structure Orderly (s : Shared α) : Prop where
  sorted : Table.Sorted s.handles
  lt_length : ∀ handle n, s.number? handle = some n → n < s.storages.length
  length_pos : 0 < s.storages.length

theorem orderly_start (a : α) : (start a).Orderly := ⟨Table.sorted_nil, nofun, Nat.one_pos⟩

theorem Orderly.insert (h : s.Orderly) {n : Nat} {storages : List α}
    (hle : s.storages.length ≤ storages.length) (hn : n < storages.length) (handle : Text) :
    Orderly ⟨Table.insert handle n s.handles, storages⟩ := by
  refine ⟨Table.sorted_insert h.sorted _ _, ?_, Nat.lt_of_lt_of_le h.length_pos hle⟩
  intro other m hm
  by_cases he : other = handle
  · subst he
    rw [number?, Table.get?_insert_self] at hm
    cases hm
    exact hn
  · rw [number?, Table.get?_insert_ne he] at hm
    exact Nat.lt_of_lt_of_le (h.lt_length other m hm) hle

theorem Orderly.apply (h : s.Orderly) (c : Change α) : (c.apply s).Orderly := by
  cases c with
  | stay => exact h
  | create handle a =>
    refine h.insert ?_ ?_ handle
    · rw [List.length_append]
      exact Nat.le_add_right _ _
    · rw [List.length_append]
      exact Nat.lt_succ_self _
  | share source handle =>
    rw [Change.apply, share]
    cases hn : Table.get? source s.handles with
    | none => exact h
    | some n => exact h.insert (Nat.le_refl _) (h.lt_length source n hn) handle
  | shareGlobal handle => exact h.insert (Nat.le_refl _) h.length_pos handle
  | modify handle f =>
    rw [Change.apply]
    refine ⟨?_, ?_, ?_⟩
    · rw [handles_modify]
      exact h.sorted
    · intro other n hn
      rw [number?, handles_modify] at hn
      rw [length_storages_modify]
      exact h.lt_length other n hn
    · rw [length_storages_modify]
      exact h.length_pos

theorem Orderly.get?_isSome (h : s.Orderly) {n : Nat} (hn : s.number? handle = some n) :
    ∃ a, s.storages[n]? = some a ∧ s.get? handle = some a := by
  have hlt := h.lt_length handle n hn
  refine ⟨s.storages[n], List.getElem?_eq_getElem hlt, ?_⟩
  rw [get?_eq_bind, hn, Option.bind_some, List.getElem?_eq_getElem hlt]

def storage (s : Shared α) (n : Nat) (a : α) : α := (s.storages[n]?).getD a

theorem storage_eq_getD {n : Nat} (hn : s.number? handle = some n) (a : α) :
    (s.get? handle).getD a = s.storage n a := by
  rw [get?_eq_bind, hn, Option.bind_some, storage]

theorem Orderly.storage_modify (h : s.Orderly) (handle : Text) (f : α → α) (n : Nat) (a : α) :
    (s.modify handle f).storage n a =
      if s.number? handle = some n then f (s.storage n a) else s.storage n a := by
  rw [storage, getElem?_storages_modify]
  split
  · rename_i hn
    obtain ⟨b, hb, -⟩ := h.get?_isSome hn
    rw [storage, hb]
    rfl
  · rfl

theorem storage_create (handle : Text) (a : α) (s : Shared α) (n : Nat) :
    (s.create handle a).storage n a = s.storage n a := by
  rw [storage, create, List.getElem?_append]
  split
  · rfl
  · rename_i hn
    rw [storage, List.getElem?_eq_none (Nat.le_of_not_lt hn)]
    cases n - s.storages.length with
    | zero => rfl
    | succ m => rfl

theorem storage_share (source handle : Text) (s : Shared α) (n : Nat) (a : α) :
    (s.share source handle).storage n a = s.storage n a := by
  rw [share]
  split <;> rfl

theorem Orderly.mem_view_iff (h : s.Orderly) {a : α} :
    (handle, a) ∈ s.view ↔ s.get? handle = some a := by
  rw [view, List.mem_filterMap]
  constructor
  · rintro ⟨⟨other, n⟩, hmem, ha⟩
    obtain ⟨b, hb, he⟩ := Option.map_eq_some_iff.mp ha
    cases he
    rw [get?, (Table.mem_iff_get? h.sorted).mp hmem, Option.bind_some, hb]
  · intro ha
    obtain ⟨n, hn, hstorage⟩ := Option.bind_eq_some_iff.mp ha
    exact ⟨(handle, n), (Table.mem_iff_get? h.sorted).mpr hn, by rw [hstorage, Option.map_some]⟩

end Fixtures.Shared
