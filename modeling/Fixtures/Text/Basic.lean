/-! # Texts

A text is the list of its characters, so that cutting and joining texts are
list operations. `cut?` finds the first occurrence of a pattern; everything
that searches or splits a text is defined by it.
-/

namespace Fixtures

abbrev Text := List Char

namespace Text

/-- The number of bytes of a text in UTF-8. -/
def byteSize (t : Text) : Nat := t.foldr (fun c n => c.utf8Size + n) 0

/-- What follows `p` in a text that starts with `p`. -/
def after? : Text → Text → Option Text
  | [], t => some t
  | _ :: _, [] => none
  | p :: ps, c :: cs => if p = c then after? ps cs else none

/-- What precedes `p` in a text that ends with `p`. -/
def before? (p t : Text) : Option Text :=
  (after? p.reverse t.reverse).map List.reverse

/-- A cut of a text in front of which other characters have been seen; they are
kept backwards. -/
def cutFrom? (p : Text) : (seen : Text) → Text → Option (Text × Text)
  | seen, [] => (after? p []).map (seen.reverse, ·)
  | seen, c :: cs =>
    match after? p (c :: cs) with
    | some rest => some (seen.reverse, rest)
    | none => cutFrom? p (c :: seen) cs

/-- The parts of a text before and after the first occurrence of `p`. -/
def cut? (p t : Text) : Option (Text × Text) := cutFrom? p [] t

def has (p t : Text) : Bool := (cut? p t).isSome

/-- The text with the first occurrence of `p` replaced by `r`. -/
def replaceFirst (p r t : Text) : Text :=
  match cut? p t with
  | some (a, b) => a ++ r ++ b
  | none => t

/-- The pieces of a text between separators, cut at the first `n` of them. -/
def pieces (sep : Text) : Nat → Text → List Text
  | 0, t => [t]
  | n + 1, t =>
    match cut? sep t with
    | some (a, b) => a :: pieces sep n b
    | none => [t]

/-! ## What a cut means -/

theorem eq_append_of_after? : ∀ {p t r : Text}, after? p t = some r → t = p ++ r
  | [], _, _, h => by simpa [after?] using h
  | _ :: _, [], _, h => by simp [after?] at h
  | p :: ps, c :: cs, r, h => by
    simp only [after?] at h
    split at h
    · rename_i e; subst e; simp [eq_append_of_after? h]
    · simp at h

theorem after?_append : ∀ (p r : Text), after? p (p ++ r) = some r
  | [], _ => rfl
  | p :: ps, r => by simp [after?, after?_append ps r]

theorem cutFrom?_eq (p seen t : Text) :
    cutFrom? p seen t = (cut? p t).map fun h => (seen.reverse ++ h.1, h.2) := by
  induction t generalizing seen with
  | nil => simp [cut?, cutFrom?, Function.comp_def]
  | cons c cs ih =>
    simp only [cut?, cutFrom?]
    split
    · simp
    · rw [ih (c :: seen), ih [c]]; simp [Function.comp_def]

theorem cut?_nil (p : Text) : cut? p [] = (after? p []).map ([], ·) := rfl

theorem cut?_cons (p : Text) (c : Char) (cs : Text) :
    cut? p (c :: cs) =
      match after? p (c :: cs) with
      | some rest => some ([], rest)
      | none => (cut? p cs).map fun h => (c :: h.1, h.2) := by
  simp only [cut?, cutFrom?]
  split
  · rfl
  · rw [cutFrom?_eq]; rfl

/-- A cut loses nothing but the pattern. -/
theorem eq_append_of_cut? {p t a b : Text} (h : cut? p t = some (a, b)) : t = a ++ p ++ b := by
  induction t generalizing a with
  | nil =>
    simp only [cut?_nil, Option.map_eq_some_iff, Prod.mk.injEq] at h
    obtain ⟨r, hr, rfl, rfl⟩ := h
    simpa using eq_append_of_after? hr
  | cons c cs ih =>
    rw [cut?_cons] at h
    split at h
    · rename_i r hr
      simp only [Option.some.injEq, Prod.mk.injEq] at h
      obtain ⟨rfl, rfl⟩ := h
      simpa using eq_append_of_after? hr
    · simp only [Option.map_eq_some_iff, Prod.mk.injEq] at h
      obtain ⟨⟨u, v⟩, hu, rfl, rfl⟩ := h
      simp [ih hu]

end Text

end Fixtures
