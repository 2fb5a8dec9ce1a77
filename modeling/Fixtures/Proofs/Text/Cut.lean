import Fixtures.Text.Basic
import Mathlib.Data.List.Infix

/-!
# Where a pattern occurs

`Text.cut?` cuts at an occurrence exactly if there is one, and a single
character is found where it first stands. What follows a text does not change
where it is cut, and a pattern that goes on is found where its beginning is.
-/

namespace Fixtures

namespace Text

theorem after?_isSome_iff {p t : Text} : (after? p t).isSome = true ↔ p <+: t := by
  constructor
  · intro h
    obtain ⟨r, hr⟩ := Option.isSome_iff_exists.mp h
    exact ⟨r, (eq_append_of_after? hr).symm⟩
  · rintro ⟨r, rfl⟩
    rw [after?_append]
    rfl

theorem before?_eq_some_iff {p t a : Text} : before? p t = some a ↔ t = a ++ p := by
  rw [before?, Option.map_eq_some_iff]
  constructor
  · rintro ⟨r, hr, rfl⟩
    have h := congrArg List.reverse (eq_append_of_after? hr)
    rwa [List.reverse_reverse, List.reverse_append, List.reverse_reverse] at h
  · rintro rfl
    refine ⟨a.reverse, ?_, List.reverse_reverse a⟩
    rw [List.reverse_append, after?_append]

theorem has_iff_infix {p t : Text} : has p t = true ↔ p <:+: t := by
  unfold has
  induction t with
  | nil =>
    rw [cut?_nil, Option.isSome_map, after?_isSome_iff, List.infix_nil, List.prefix_nil]
  | cons c cs ih =>
    rw [cut?_cons, List.infix_cons_iff, ← after?_isSome_iff, ← ih]
    split
    · rename_i h; simp [h]
    · rename_i h; simp [h]

theorem cut?_eq_none_iff {p t : Text} : cut? p t = none ↔ ¬ p <:+: t := by
  rw [← has_iff_infix, has, Option.not_isSome_iff_eq_none]

theorem cut?_singleton_eq_none_iff {c : Char} {t : Text} : cut? [c] t = none ↔ c ∉ t := by
  rw [cut?_eq_none_iff, List.singleton_infix_iff]

theorem cut?_singleton {c : Char} {a : Text} (h : c ∉ a) (b : Text) :
    cut? [c] (a ++ c :: b) = some (a, b) := by
  induction a with
  | nil => rw [List.nil_append, cut?_cons]; simp [after?]
  | cons e a ih =>
    simp only [List.mem_cons, not_or] at h
    rw [List.cons_append, cut?_cons]
    simp [after?, h.1, ih h.2]

theorem not_mem_of_cut?_singleton {c : Char} {t a b : Text} (h : cut? [c] t = some (a, b)) :
    c ∉ a := by
  induction t generalizing a with
  | nil => cases h
  | cons e t ih =>
    rw [cut?_cons] at h
    split at h
    · cases h; exact List.not_mem_nil
    · rename_i he
      simp only [Option.map_eq_some_iff, Prod.mk.injEq] at h
      obtain ⟨⟨x, y⟩, hx, rfl, rfl⟩ := h
      have hce : c ≠ e := by
        rintro rfl
        simp [after?] at he
      simp only [List.mem_cons, not_or]
      exact ⟨hce, ih hx⟩

theorem cut?_append {p t a b : Text} (h : cut? p t = some (a, b)) (z : Text) :
    cut? p (t ++ z) = some (a, b ++ z) := by
  induction t generalizing a with
  | nil =>
    simp only [cut?_nil, Option.map_eq_some_iff, Prod.mk.injEq] at h
    obtain ⟨r, hr, rfl, rfl⟩ := h
    have hp := eq_append_of_after? hr
    rw [List.nil_eq, List.append_eq_nil_iff] at hp
    obtain ⟨rfl, rfl⟩ := hp
    cases z <;> rfl
  | cons c t ih =>
    rw [cut?_cons] at h
    rw [List.cons_append, cut?_cons]
    split at h
    · rename_i r hr
      cases h
      rw [← List.cons_append, eq_append_of_after? hr, List.append_assoc, after?_append]
    · rename_i hn
      simp only [Option.map_eq_some_iff, Prod.mk.injEq] at h
      obtain ⟨⟨x, y⟩, hx, rfl, rfl⟩ := h
      -- an earlier occurrence would end before the one that is there
      have hno : after? p (c :: (t ++ z)) = none := by
        rw [← Option.not_isSome_iff_eq_none, after?_isSome_iff]
        intro hp
        have hlen : p.length ≤ (c :: t).length := by
          rw [eq_append_of_cut? hx]
          simp only [List.length_cons, List.length_append]
          omega
        have hpt : p <+: c :: t := List.prefix_of_prefix_length_le hp (List.prefix_append _ z) hlen
        rw [← after?_isSome_iff, hn] at hpt
        cases hpt
      rw [hno]
      simp [ih hx]

theorem after?_append_pattern (p q t : Text) :
    after? (p ++ q) t = (after? p t).bind (after? q) := by
  induction p generalizing t with
  | nil => rfl
  | cons c p ih =>
    cases t with
    | nil => rfl
    | cons e t =>
      simp only [List.cons_append, after?]
      split
      · exact ih t
      · rfl

theorem cut?_append_pattern {p q t a b : Text} (h : cut? p t = some (a, q ++ b)) :
    cut? (p ++ q) t = some (a, b) := by
  induction t generalizing a with
  | nil =>
    simp only [cut?_nil, Option.map_eq_some_iff, Prod.mk.injEq] at h
    obtain ⟨r, hr, rfl, rfl⟩ := h
    rw [cut?_nil, after?_append_pattern, hr, Option.bind_some, after?_append]
    rfl
  | cons c t ih =>
    rw [cut?_cons] at h
    rw [cut?_cons, after?_append_pattern]
    split at h
    · rename_i r hr
      cases h
      rw [hr, Option.bind_some, after?_append]
    · rename_i hn
      simp only [Option.map_eq_some_iff, Prod.mk.injEq] at h
      obtain ⟨⟨x, y⟩, hx, rfl, rfl⟩ := h
      rw [hn, Option.bind_none, ih hx]
      rfl

theorem cut?_pattern (p b : Text) : cut? p (p ++ b) = some ([], b) := by
  cases h : p ++ b with
  | nil =>
    obtain ⟨rfl, rfl⟩ := List.append_eq_nil_iff.mp h
    rfl
  | cons c t => rw [cut?_cons, ← h, after?_append]

/-! ## Patterns of two characters -/

section
variable {x y c : Char} {a b t : Text}

theorem after?_pair_cons (h : c = x → t.head? ≠ some y) : after? [x, y] (c :: t) = none := by
  simp only [after?]
  split
  · rename_i hc
    cases t with
    | nil => rfl
    | cons c' t =>
      have hy : y ≠ c' := fun e => h hc.symm (congrArg some e.symm)
      simp only [after?, if_neg hy]
  · rfl

/-- A search passes over `a` if the pattern does not arise where the texts meet. -/
theorem cut?_pair_append (hs : a.getLast? = some x → b.head? ≠ some y)
    (ha : cut? [x, y] a = none) :
    cut? [x, y] (a ++ b) = (cut? [x, y] b).map fun h => (a ++ h.1, h.2) := by
  induction a with
  | nil => exact Option.map_id'.symm
  | cons c a ih =>
    rw [cut?_cons] at ha
    split at ha
    · cases ha
    · rename_i hc
      have hseam : c = x → (a ++ b).head? ≠ some y := by
        rintro rfl
        cases a with
        | nil => exact hs rfl
        | cons c' a =>
          intro he
          simp only [List.cons_append, List.head?_cons, Option.some.injEq] at he
          subst he
          simp [after?] at hc
      have hs' : a.getLast? = some x → b.head? ≠ some y :=
        fun hl => hs (List.mem_getLast?_cons hl)
      rw [List.cons_append, cut?_cons, after?_pair_cons hseam, ih hs' (by simpa using ha)]
      simp [Function.comp_def]

end

/-! ## Replacing the first occurrence -/

section
variable {p r t a b : Text}

theorem replaceFirst_of_cut? (h : cut? p t = some (a, b)) : replaceFirst p r t = a ++ r ++ b := by
  simp only [replaceFirst, h]

theorem replaceFirst_of_absent (h : ¬ p <:+: t) : replaceFirst p r t = t := by
  simp only [replaceFirst, cut?_eq_none_iff.mpr h]

theorem exists_cut?_of_infix (h : p <:+: t) : ∃ a b, cut? p t = some (a, b) := by
  have hhas : has p t = true := has_iff_infix.mpr h
  obtain ⟨⟨a, b⟩, hcut⟩ := Option.isSome_iff_exists.mp hhas
  exact ⟨a, b, hcut⟩

theorem replaceFirst_nil_eq_self_iff : replaceFirst p [] t = t ↔ p = [] ∨ ¬ p <:+: t := by
  by_cases hp : p <:+: t
  · obtain ⟨a, b, hcut⟩ := exists_cut?_of_infix hp
    have ht := eq_append_of_cut? hcut
    rw [replaceFirst_of_cut? hcut, List.append_nil]
    constructor
    · intro h
      have hlen := congrArg List.length (h.trans ht)
      simp only [List.length_append] at hlen
      exact .inl (List.eq_nil_of_length_eq_zero (by omega))
    · rintro (rfl | hno)
      · simpa using ht.symm
      · exact absurd hp hno
  · simp only [replaceFirst_of_absent hp, hp, not_false_eq_true, or_true]

end

end Text

end Fixtures
