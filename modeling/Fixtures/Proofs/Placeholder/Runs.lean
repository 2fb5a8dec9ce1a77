import Fixtures.Placeholder.Resolution
import Mathlib.Data.List.Forall2

/-!
# Runs

A run of several parts succeeds if all of them do, and fails as the first one that does
not (`Run.result_each_eq_ok_iff`, `Run.result_each_eq_error_iff`). Its lookups and its
failure do not depend on how the parts are grouped (`Run.effect_each_flatMap`).
-/

namespace Fixtures

namespace Run

variable {α β γ δ : Type} {r : Run α} {g : α → Run β} {a : α} {as : List α} {b : β} {bs : List β}
  {e : ResolutionError}

theorem ok_andThen (a : α) (f : α → Run β) : (ok a).andThen f = f a := by
  simp [ok, andThen]

theorem andThen_assoc (r : Run α) (f : α → Run β) (g : β → Run γ) :
    (r.andThen f).andThen g = r.andThen fun a => (f a).andThen g := by
  obtain ⟨ls, a | e⟩ := r
  · rfl
  · simp only [andThen]
    split <;> simp

theorem result_andThen_eq_ok_iff :
    (r.andThen g).result = .ok b ↔ ∃ a, r.result = .ok a ∧ (g a).result = .ok b := by
  unfold andThen
  cases r.result with
  | ok a => simp
  | error e => simp

theorem result_andThen_eq_error_iff :
    (r.andThen g).result = .error e ↔
      r.result = .error e ∨ ∃ a, r.result = .ok a ∧ (g a).result = .error e := by
  unfold andThen
  cases r.result with
  | ok a => simp
  | error e => simp

theorem result_map_eq_ok_iff {h : α → β} :
    (r.map h).result = .ok b ↔ ∃ a, r.result = .ok a ∧ h a = b := by
  have hmap : (r.map h).result = r.result.map h := rfl
  rw [hmap]
  constructor
  · intro hb
    cases hr : r.result with
    | ok a =>
      rw [hr] at hb
      cases hb
      exact ⟨a, rfl, rfl⟩
    | error e =>
      rw [hr] at hb
      cases hb
  · rintro ⟨a, hr, rfl⟩
    rw [hr]
    rfl

theorem result_map_eq_error_iff {h : α → β} :
    (r.map h).result = .error e ↔ r.result = .error e := by
  have hmap : (r.map h).result = r.result.map h := rfl
  rw [hmap]
  cases r.result with
  | ok a =>
    constructor
    · intro he
      cases he
    · intro he
      cases he
  | error e' =>
    constructor
    · intro he
      cases he
      rfl
    · intro he
      cases he
      rfl

/-! ## Runs over lists -/

theorem result_each_eq_ok_iff :
    (each g as).result = .ok bs ↔ List.Forall₂ (fun a b => (g a).result = .ok b) as bs := by
  induction as generalizing bs with
  | nil => cases bs <;> simp [each, ok]
  | cons a as ih =>
    rw [each, result_andThen_eq_ok_iff, List.forall₂_cons_left_iff]
    simp only [result_map_eq_ok_iff, ih]
    constructor
    · rintro ⟨b, hb, bs, hbs, rfl⟩
      exact ⟨b, bs, hb, hbs, rfl⟩
    · rintro ⟨b, bs, hb, hbs, rfl⟩
      exact ⟨b, hb, bs, hbs, rfl⟩

theorem each_of_forall {g : α → Run α} (h : ∀ a ∈ as, g a = ok a) : each g as = ok as := by
  induction as with
  | nil => rfl
  | cons a as ih =>
    rw [List.forall_mem_cons] at h
    rw [each, h.1, ok_andThen, ih h.2]
    rfl

theorem exists_result_each_iff :
    (∃ bs, (each g as).result = .ok bs) ↔ ∀ a ∈ as, ∃ b, (g a).result = .ok b := by
  simp only [result_each_eq_ok_iff]
  induction as with
  | nil => simp
  | cons a as ih =>
    rw [List.forall_mem_cons, ← ih]
    simp only [List.forall₂_cons_left_iff]
    constructor
    · rintro ⟨-, b, bs, hb, hbs, -⟩
      exact ⟨⟨b, hb⟩, bs, hbs⟩
    · rintro ⟨⟨b, hb⟩, bs, hbs⟩
      exact ⟨b :: bs, b, bs, hb, hbs, rfl⟩

/-- The first item of a list on which `g` fails is one on which it fails with `e`. -/
def FailsFirst (g : α → Run β) (as : List α) (e : ResolutionError) : Prop :=
  ∃ front a rest, as = front ++ a :: rest ∧ (∀ x ∈ front, ∃ b, (g x).result = .ok b) ∧
    (g a).result = .error e

theorem failsFirst_cons_iff :
    FailsFirst g (a :: as) e ↔
      (g a).result = .error e ∨ ∃ b, (g a).result = .ok b ∧ FailsFirst g as e := by
  constructor
  · rintro ⟨front, a', rest, heq, hfront, herror⟩
    cases front with
    | nil =>
      obtain ⟨rfl, rfl⟩ := List.cons.inj heq
      exact .inl herror
    | cons x front =>
      obtain ⟨rfl, rfl⟩ := List.cons.inj heq
      obtain ⟨⟨b, hb⟩, hfront⟩ := List.forall_mem_cons.mp hfront
      exact .inr ⟨b, hb, front, a', rest, rfl, hfront, herror⟩
  · rintro (herror | ⟨b, hb, front, a', rest, rfl, hfront, herror⟩)
    · exact ⟨[], a, as, rfl, by simp, herror⟩
    · exact ⟨a :: front, a', rest, rfl, List.forall_mem_cons.mpr ⟨⟨b, hb⟩, hfront⟩, herror⟩

theorem result_each_eq_error_iff : (each g as).result = .error e ↔ FailsFirst g as e := by
  induction as with
  | nil => simp [each, ok, FailsFirst]
  | cons a as ih =>
    rw [each, result_andThen_eq_error_iff, failsFirst_cons_iff]
    simp only [result_map_eq_error_iff, ih]

/-! ## Runs without their values -/

/-- What a run does besides its value: its lookups, and its failure. -/
def effect (r : Run α) : Run Unit := r.map fun _ => ()

theorem result_effect_eq_ok_iff : r.effect.result = .ok () ↔ ∃ a, r.result = .ok a := by
  rw [effect, result_map_eq_ok_iff]
  simp

theorem result_effect_eq_error_iff : r.effect.result = .error e ↔ r.result = .error e :=
  result_map_eq_error_iff

theorem effect_map (h : α → β) (r : Run α) : (r.map h).effect = r.effect := by
  have heffect : (r.map h).effect = ⟨r.lookups, (r.result.map h).map fun _ => ()⟩ := rfl
  have heffect' : r.effect = ⟨r.lookups, r.result.map fun _ => ()⟩ := rfl
  rw [heffect, heffect']
  cases r.result with
  | ok a => rfl
  | error e => rfl

theorem effect_andThen {u : Run Unit} (h : ∀ a, (g a).effect = u) :
    (r.andThen g).effect = r.effect.andThen fun _ => u := by
  obtain ⟨lookups, result⟩ := r
  cases result with
  | ok a =>
    -- the value decides how it goes on, but not what is seen of that
    rw [← h a]
    rfl
  | error e => rfl

theorem effect_each_cons (g : α → Run β) (a : α) (as : List α) :
    (each g (a :: as)).effect = (g a).effect.andThen fun _ => (each g as).effect := by
  rw [each]
  exact effect_andThen fun b => effect_map _ _

theorem effect_each_append (g : α → Run β) (as as' : List α) :
    (each g (as ++ as')).effect = (each g as).effect.andThen fun _ => (each g as').effect := by
  induction as with
  | nil => rfl
  | cons a as ih => rw [List.cons_append, effect_each_cons, effect_each_cons, ih, andThen_assoc]

theorem effect_each_flatMap {f : δ → Run γ} {items : δ → List α}
    (h : ∀ d, (f d).effect = (each g (items d)).effect) (ds : List δ) :
    (each f ds).effect = (each g (ds.flatMap items)).effect := by
  induction ds with
  | nil => rfl
  | cons d ds ih => rw [effect_each_cons, List.flatMap_cons, effect_each_append, h, ih]

end Run

end Fixtures
