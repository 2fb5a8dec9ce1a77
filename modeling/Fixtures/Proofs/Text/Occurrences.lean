import Fixtures.Proofs.Text.Position

/-!
# All occurrences of a pattern

`occurrences` lists the bytes at which a pattern occurs. Where two texts meet, a
pattern of two characters arises only from the last character of the one and the
first of the other; otherwise the occurrences in the joint text are those in the
two texts (`occurrences_pair_append`).
-/

namespace Fixtures

namespace Text

variable {p t a b : Text} {n : Nat}

/-- The bytes at which a pattern occurs, in order. -/
def occurrences (p : Text) : Text → List Nat
  | [] => if p = [] then [0] else []
  | c :: t =>
    let later := (occurrences p t).map (c.utf8Size + ·)
    if p <+: c :: t then 0 :: later else later

theorem occursAt_nil_iff : OccursAt p [] n ↔ p = [] ∧ n = 0 := by
  constructor
  · rintro ⟨a, b, h, rfl⟩
    obtain ⟨hap, -⟩ := List.append_eq_nil_iff.mp h.symm
    obtain ⟨rfl, rfl⟩ := List.append_eq_nil_iff.mp hap
    exact ⟨rfl, rfl⟩
  · rintro ⟨rfl, rfl⟩
    exact ⟨[], [], rfl, rfl⟩

theorem occursAt_cons_iff {c : Char} :
    OccursAt p (c :: t) n ↔ (p <+: c :: t ∧ n = 0) ∨ ∃ k, OccursAt p t k ∧ c.utf8Size + k = n := by
  constructor
  · rintro ⟨a, b, h, rfl⟩
    cases a with
    | nil => exact .inl ⟨⟨b, h.symm⟩, rfl⟩
    | cons e a =>
      obtain ⟨rfl, ht⟩ := List.cons.inj h
      exact .inr ⟨_, ⟨a, b, ht, rfl⟩, rfl⟩
  · rintro (⟨⟨b, hb⟩, rfl⟩ | ⟨k, ⟨a, b, rfl, rfl⟩, rfl⟩)
    · exact ⟨[], b, hb.symm, rfl⟩
    · exact ⟨c :: a, b, rfl, rfl⟩

theorem mem_occurrences_iff : n ∈ occurrences p t ↔ OccursAt p t n := by
  induction t generalizing n with
  | nil =>
    rw [occursAt_nil_iff, occurrences]
    by_cases hp : p = []
    · simp [hp]
    · simp [hp]
  | cons c t ih =>
    rw [occursAt_cons_iff, occurrences]
    by_cases hp : p <+: c :: t
    · simp [hp, ih]
    · simp [hp, ih]

theorem occurrences_eq_nil_iff : occurrences p t = [] ↔ ¬ p <:+: t := by
  rw [← exists_occursAt_iff, List.eq_nil_iff_forall_not_mem, not_exists]
  simp only [mem_occurrences_iff]

theorem length_occurrences_pos_iff : 0 < (occurrences p t).length ↔ p <:+: t := by
  rw [List.length_pos_iff, Ne, occurrences_eq_nil_iff, not_not]

theorem occursAt_front_iff (b : Text) :
    OccursAt p a n ↔ n + byteSize p ≤ byteSize a ∧ OccursAt p (a ++ b) n := by
  constructor
  · rintro ⟨x, y, rfl, rfl⟩
    refine ⟨?_, x, y ++ b, by simp only [List.append_assoc], rfl⟩
    simp only [byteSize_append]
    omega
  · rintro ⟨hn, x, y, h, rfl⟩
    have hx : x ++ p <+: a := by
      refine prefix_of_byteSize_le (t := a ++ b) ⟨y, h.symm⟩ ⟨b, rfl⟩ ?_
      rwa [byteSize_append]
    obtain ⟨z, rfl⟩ := hx
    exact ⟨x, z, rfl, rfl⟩

section
variable {x y c : Char}

theorem not_starts_pair (h : c = x → t.head? ≠ some y) : ¬ [x, y] <+: c :: t := by
  rw [← after?_isSome_iff, after?_pair_cons h]
  nofun

theorem occurrences_pair_append (hs : a.getLast? = some x → b.head? ≠ some y) :
    occurrences [x, y] (a ++ b) =
      occurrences [x, y] a ++ (occurrences [x, y] b).map (byteSize a + ·) := by
  induction a with
  | nil =>
    have hzero : (byteSize [] + ·) = (id : Nat → Nat) := funext Nat.zero_add
    rw [hzero, List.map_id]
    rfl
  | cons c a ih =>
    -- whether the pattern stands at the start is seen in `c :: a` already
    have hhere : [x, y] <+: c :: (a ++ b) ↔ [x, y] <+: c :: a := by
      cases a with
      | nil =>
        refine iff_of_false (not_starts_pair fun hc => ?_) (not_starts_pair fun _ => nofun)
        exact hs (congrArg some hc)
      | cons e a => simp [List.cons_prefix_cons]
    have hs' : a.getLast? = some x → b.head? ≠ some y :=
      fun hl => hs (List.mem_getLast?_cons hl)
    have hlater : (occurrences [x, y] (a ++ b)).map (c.utf8Size + ·) =
        (occurrences [x, y] a).map (c.utf8Size + ·) ++
          (occurrences [x, y] b).map (byteSize (c :: a) + ·) := by
      rw [ih hs', List.map_append, List.map_map]
      simp only [Function.comp_def, byteSize_cons, Nat.add_assoc]
    simp only [List.cons_append, occurrences, hhere, hlater]
    split
    · rfl
    · rfl

end

end Text

end Fixtures
