import Fixtures.Text.Position
import Fixtures.Proofs.Text.Cut

/-!
# Occurrences and their positions

A text is parted between two of its characters by the number of bytes in front, so
positions and cuts say the same: a pattern is cut out where its first occurrence
starts (`cut?_eq_some_iff`). What stands in front of a place does not matter for the
occurrences behind it (`firstFrom_append_iff`).
-/

namespace Fixtures

namespace Text

variable {p t x a b m : Text} {n k : Nat}

/-! ## Parting a text -/

theorem byteSize_cons (c : Char) (t : Text) : byteSize (c :: t) = c.utf8Size + byteSize t := rfl

theorem byteSize_append (x y : Text) : byteSize (x ++ y) = byteSize x + byteSize y := by
  induction x with
  | nil => exact (Nat.zero_add _).symm
  | cons c x ih => rw [List.cons_append, byteSize_cons, byteSize_cons, ih, Nat.add_assoc]

theorem byteSize_eq_zero (h : byteSize t = 0) : t = [] := by
  cases t with
  | nil => rfl
  | cons c t =>
    have hc := c.utf8Size_pos
    rw [byteSize_cons] at h
    omega

theorem splitFrom_append (x a b : Text) :
    splitFrom x (byteSize a) (a ++ b) = (x.reverse ++ a, b) := by
  induction a generalizing x with
  | nil =>
    cases b with
    | nil => simp [splitFrom]
    | cons c b =>
      have hc : ¬ c.utf8Size ≤ byteSize [] := Nat.not_le_of_lt c.utf8Size_pos
      simp [splitFrom, hc]
  | cons c a ih =>
    have hle : c.utf8Size ≤ c.utf8Size + byteSize a := Nat.le_add_right _ _
    simp only [List.cons_append, splitFrom, byteSize_cons]
    rw [if_pos hle, Nat.add_sub_cancel_left, ih, List.reverse_cons, List.append_assoc]
    rfl

theorem splitAtByte_append (a b : Text) : splitAtByte (byteSize a) (a ++ b) = (a, b) :=
  splitFrom_append [] a b

theorem replaceRange_append (a m b r : Text) :
    replaceRange (byteSize a) (byteSize a + byteSize m) r (a ++ m ++ b) = a ++ r ++ b := by
  have hstop := splitAtByte_append (a ++ m) b
  rw [byteSize_append] at hstop
  rw [replaceRange, hstop, List.append_assoc a m b, splitAtByte_append]

theorem insertAt_append (a b r : Text) : insertAt (byteSize a) r (a ++ b) = a ++ r ++ b := by
  have h := replaceRange_append a [] b r
  rwa [List.append_nil] at h

def slice (i j : Nat) (t : Text) : Text := (splitAtByte i (splitAtByte j t).1).2

theorem slice_append (a m b : Text) :
    slice (byteSize a) (byteSize a + byteSize m) (a ++ m ++ b) = m := by
  rw [slice, ← byteSize_append, splitAtByte_append, splitAtByte_append]

/-- Byte `n` is the first of a character, or follows the last one. -/
def IsBoundary (t : Text) (n : Nat) : Prop := ∃ a b, t = a ++ b ∧ byteSize a = n

theorem prefix_of_byteSize_le (ha : a <+: t) (hb : b <+: t) (h : byteSize a ≤ byteSize b) :
    a <+: b := by
  rcases List.prefix_or_prefix_of_prefix ha hb with hab | ⟨z, rfl⟩
  · exact hab
  · -- the longer one has no bytes more
    rw [byteSize_append] at h
    have hz : z = [] := byteSize_eq_zero (by omega)
    simp [hz]

/-! ## Occurrences -/

/-- The pattern stands in the text from byte `n` on. -/
def OccursAt (p t : Text) (n : Nat) : Prop := ∃ a b, t = a ++ p ++ b ∧ byteSize a = n

/-- Of the occurrences at byte `k` or behind it, the first one is at byte `n`. -/
structure FirstFrom (k : Nat) (p t : Text) (n : Nat) : Prop where
  le : k ≤ n
  occurs : OccursAt p t n
  first : ∀ i, k ≤ i → OccursAt p t i → n ≤ i

theorem exists_occursAt_iff : (∃ n, OccursAt p t n) ↔ p <:+: t := by
  constructor
  · rintro ⟨-, a, b, rfl, -⟩
    exact ⟨a, b, rfl⟩
  · rintro ⟨a, b, rfl⟩
    exact ⟨_, a, b, rfl, rfl⟩

theorem occursAt_append_iff : OccursAt p (x ++ t) (byteSize x + n) ↔ OccursAt p t n := by
  constructor
  · rintro ⟨a, b, h, hn⟩
    have hxa : x <+: a := by
      refine prefix_of_byteSize_le (t := x ++ t) ⟨t, rfl⟩ ?_ (by omega)
      exact ⟨p ++ b, by rw [h, List.append_assoc]⟩
    obtain ⟨a, rfl⟩ := hxa
    rw [List.append_assoc, List.append_assoc, List.append_cancel_left_eq] at h
    rw [byteSize_append] at hn
    exact ⟨a, b, by rw [h, List.append_assoc], by omega⟩
  · rintro ⟨a, b, rfl, rfl⟩
    exact ⟨x ++ a, b, by simp only [List.append_assoc], byteSize_append x a⟩

theorem firstFrom_append_iff :
    FirstFrom (byteSize x) p (x ++ t) (byteSize x + n) ↔ FirstFrom 0 p t n := by
  constructor
  · rintro ⟨-, hoccurs, hfirst⟩
    refine ⟨Nat.zero_le n, occursAt_append_iff.mp hoccurs, fun i _ hi => ?_⟩
    have := hfirst (byteSize x + i) (by omega) (occursAt_append_iff.mpr hi)
    omega
  · rintro ⟨-, hoccurs, hfirst⟩
    refine ⟨by omega, occursAt_append_iff.mpr hoccurs, fun i hle hi => ?_⟩
    obtain ⟨i, rfl⟩ := Nat.exists_eq_add_of_le hle
    have := hfirst i (Nat.zero_le i) (occursAt_append_iff.mp hi)
    omega

theorem FirstFrom.unique {n' : Nat} (h : FirstFrom k p t n) (h' : FirstFrom k p t n') : n = n' :=
  Nat.le_antisymm (h.first n' h'.le h'.occurs) (h'.first n h.le h.occurs)

/-! ## Cuts are made at first occurrences -/

theorem prefix_of_cut? {a' b' : Text} (h : cut? p t = some (a, b)) (ht : t = a' ++ p ++ b') :
    a <+: a' := by
  induction a' generalizing t a with
  | nil =>
    rw [ht, List.nil_append, cut?_pattern] at h
    cases h
    exact List.nil_prefix
  | cons c a' ih =>
    rw [ht, List.cons_append, List.cons_append, cut?_cons] at h
    split at h
    · cases h
      exact List.nil_prefix
    · simp only [Option.map_eq_some_iff, Prod.mk.injEq] at h
      obtain ⟨⟨u, v⟩, hu, rfl, rfl⟩ := h
      exact List.cons_prefix_cons.mpr ⟨rfl, ih hu rfl⟩

theorem firstFrom_of_cut? (h : cut? p t = some (a, b)) : FirstFrom 0 p t (byteSize a) := by
  refine ⟨Nat.zero_le _, ⟨a, b, eq_append_of_cut? h, rfl⟩, fun i _ hi => ?_⟩
  obtain ⟨a', b', ht, rfl⟩ := hi
  obtain ⟨z, rfl⟩ := prefix_of_cut? h ht
  rw [byteSize_append]
  exact Nat.le_add_right _ _

theorem cut?_eq_some_iff :
    cut? p t = some (a, b) ↔ t = a ++ p ++ b ∧ FirstFrom 0 p t (byteSize a) := by
  constructor
  · intro h
    exact ⟨eq_append_of_cut? h, firstFrom_of_cut? h⟩
  · rintro ⟨ht, hfirst⟩
    obtain ⟨a', b', hcut⟩ := exists_cut?_of_infix (p := p) (t := t) ⟨a, b, ht.symm⟩
    -- the front of the cut is an initial piece of `a`, and of the same size
    have hn : byteSize a' = byteSize a := (firstFrom_of_cut? hcut).unique hfirst
    have ha : a' <+: a := prefix_of_cut? hcut ht
    have ha' : a = a' := by
      obtain ⟨z, rfl⟩ := ha
      rw [byteSize_append] at hn
      rw [byteSize_eq_zero (t := z) (by omega), List.append_nil]
    subst ha'
    have hb : b = b' := List.append_cancel_left (ht.symm.trans (eq_append_of_cut? hcut))
    rw [hcut, hb]

theorem find?_of_cut? (h : cut? p t = some (a, b)) : find? p t = some (byteSize a) := by
  rw [find?, h]
  rfl

theorem find?_of_absent (h : ¬ p <:+: t) : find? p t = none := by
  rw [find?, cut?_eq_none_iff.mpr h]
  rfl

end Text

end Fixtures
