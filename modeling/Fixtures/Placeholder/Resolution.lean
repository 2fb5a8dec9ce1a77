import Fixtures.Placeholder.Occurrence
import Fixtures.Placeholder.Sources

/-! # Resolution

A text is resolved in rounds. A round makes a pass for each domain, in their
fixed order, and a pass replaces the first placeholder of its domain until none
is left. Rounds go on until the text holds no marker. Each replacement costs one
lookup, and the number of lookups is limited.
-/

namespace Fixtures

/-- One placeholder that was looked up, and what came of it. -/
structure Lookup where
  placeholder : Placeholder
  answer : Except ResolutionError Text

/-- The lookups that a resolution made, in order, and its result. -/
structure Run (α : Type) where
  lookups : List Lookup
  result : Except ResolutionError α

namespace Run

def ok {α : Type} (a : α) : Run α := ⟨[], .ok a⟩

def fail {α : Type} (e : ResolutionError) : Run α := ⟨[], .error e⟩

/-- Goes on with the result, if there is one. -/
def andThen {α β : Type} (r : Run α) (f : α → Run β) : Run β :=
  match r.result with
  | .ok a => ⟨r.lookups ++ (f a).lookups, (f a).result⟩
  | .error e => ⟨r.lookups, .error e⟩

def map {α β : Type} (f : α → β) (r : Run α) : Run β := ⟨r.lookups, r.result.map f⟩

def each {α β : Type} (f : α → Run β) : List α → Run (List β)
  | [] => ok []
  | a :: as => (f a).andThen fun b => (each f as).map (b :: ·)

end Run

namespace Sources

/-- A pass for one domain, with `left` of the `limit` lookups left. Its result is
what is left then, and the text. -/
def pass (s : Sources) (limit : Nat) (d : Domain) : (left : Nat) → Text → Run (Nat × Text)
  | left, t =>
    match Occurrence.first? d t with
    | .error e => .fail e
    | .ok none => .ok (left, t)
    | .ok (some o) =>
      match left with
      | 0 => .fail (.limitExceeded limit)
      | left + 1 =>
        match s.lookup o.placeholder with
        | .error e => ⟨[⟨o.placeholder, .error e⟩], .error e⟩
        | .ok v =>
          let r := pass s limit d left (o.replaceBy v)
          ⟨⟨o.placeholder, .ok v⟩ :: r.lookups, r.result⟩

def passes (s : Sources) (limit : Nat) : List Domain → (left : Nat) → Text → Run (Nat × Text)
  | [], left, t => .ok (left, t)
  | d :: ds, left, t => (s.pass limit d left t).andThen fun p => passes s limit ds p.1 p.2

def round (s : Sources) (limit left : Nat) (t : Text) : Run (Nat × Text) :=
  s.passes limit Domain.all left t

/-! ## Rounds come to an end -/

variable {s : Sources} {limit left left' : Nat} {t t' : Text} {d : Domain} {ds : List Domain}

/-- A pass that spends nothing has found nothing. -/
theorem pass_left (h : (s.pass limit d left t).result = .ok (left', t')) :
    left' ≤ left ∧ (left' = left → t' = t ∧ Text.has d.marker t = false) := by
  induction left generalizing t with
  | zero =>
    unfold pass at h
    split at h
    · cases h
    · rename_i hf
      cases h
      exact ⟨Nat.le_refl _, fun _ => ⟨rfl, Occurrence.first?_eq_none.mp hf⟩⟩
    · cases h
  | succ left ih =>
    unfold pass at h
    split at h
    · cases h
    · rename_i hf
      cases h
      exact ⟨Nat.le_refl _, fun _ => ⟨rfl, Occurrence.first?_eq_none.mp hf⟩⟩
    · simp only at h
      split at h
      · cases h
      · have := (ih h).1
        exact ⟨by omega, fun e => by omega⟩

theorem passes_left (h : (s.passes limit ds left t).result = .ok (left', t')) :
    left' ≤ left ∧ (left' = left → t' = t ∧ ∀ d ∈ ds, Text.has d.marker t = false) := by
  induction ds generalizing left t with
  | nil => cases h; exact ⟨Nat.le_refl _, fun _ => ⟨rfl, by simp⟩⟩
  | cons d ds ih =>
    simp only [passes, Run.andThen] at h
    split at h
    · rename_i p hp
      obtain ⟨h₁, h₂⟩ := pass_left hp
      obtain ⟨h₃, h₄⟩ := ih h
      refine ⟨Nat.le_trans h₃ h₁, fun e => ?_⟩
      have hl : p.1 = left := by omega
      obtain ⟨ht, hd⟩ := h₂ hl
      obtain ⟨ht', hds⟩ := h₄ (e.trans hl.symm)
      rw [ht] at ht' hds
      exact ⟨ht', List.forall_mem_cons.mpr ⟨hd, hds⟩⟩
    · cases h

/-- A round of a text that holds a marker spends a lookup, or fails. -/
theorem round_left_lt (hm : hasMarker t = true)
    (h : (s.round limit left t).result = .ok (left', t')) : left' < left := by
  obtain ⟨hle, heq⟩ := passes_left h
  refine Nat.lt_of_le_of_ne hle fun e => ?_
  simp only [hasMarker, List.any_eq_true] at hm
  obtain ⟨d, hd, hm⟩ := hm
  rw [(heq e).2 d hd] at hm
  cases hm

/-! ## All rounds -/

/-- Rounds until the text holds no marker. -/
def rounds (s : Sources) (limit left : Nat) (t : Text) : Run Text :=
  if hm : hasMarker t = true then
    match hr : s.round limit left t with
    | ⟨lookups, .error e⟩ => ⟨lookups, .error e⟩
    | ⟨lookups, .ok (left', t')⟩ =>
      have : left' < left := round_left_lt hm (congrArg Run.result hr)
      let r := rounds s limit left' t'
      ⟨lookups ++ r.lookups, r.result⟩
  else .ok t
termination_by left

theorem rounds_eq (s : Sources) (limit left : Nat) (t : Text) :
    s.rounds limit left t =
      if hasMarker t then (s.round limit left t).andThen fun p => s.rounds limit p.1 p.2
      else .ok t := by
  rw [rounds]
  split
  · split
    · rename_i hr
      simp only [hr, Run.andThen]
    · rename_i hr
      simp only [hr, Run.andThen]
  · rfl

def resolve (s : Sources) (limit : Nat) (t : Text) : Run Text := s.rounds limit limit t

end Sources

end Fixtures
