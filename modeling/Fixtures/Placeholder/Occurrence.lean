import Fixtures.Placeholder.Error

/-! # Reading placeholders

`Placeholder.ofInterior` reads what stands between the braces, `Placeholder.parse`
a text that is one placeholder, and `Occurrence.first?` finds the first
placeholder of a domain inside a longer text.
-/

namespace Fixtures

/-- Properties split at the first dot if there is one, capabilities must have
one, and keys are taken whole. -/
def Placeholder.ofInterior (d : Domain) (t : Text) : Except ResolutionError Placeholder :=
  match d with
  | .property =>
    match Text.cut? ['.'] t with
    | some (name, m) => .ok ⟨d, name, some m⟩
    | none => .ok ⟨d, t, none⟩
  | .stored => .ok ⟨d, t, none⟩
  | .code =>
    match Text.cut? ['.'] t with
    | some (name, m) => .ok ⟨d, name, some m⟩
    | none => .error (.missingArgument (d.marker ++ t ++ ['}']))

/-- A whole placeholder: a marker, an interior, and a brace at the very end. -/
def Placeholder.parse (t : Text) : Except ResolutionError Placeholder :=
  match t with
  | c :: '{' :: rest =>
    match Domain.ofSigil? c with
    | none => .error (.unknownDomain t)
    | some d =>
      match Text.before? ['}'] rest with
      | none => .error (.unterminated d t)
      | some interior => Placeholder.ofInterior d interior
  | _ => .error (.unknownDomain t)

/-- A placeholder inside a text, with what stands on either side. -/
structure Occurrence where
  before : Text
  placeholder : Placeholder
  after : Text
  deriving DecidableEq, Repr

namespace Occurrence

def start (o : Occurrence) : Nat := o.before.byteSize

def stop (o : Occurrence) : Nat := o.start + o.placeholder.text.byteSize

def replaceBy (o : Occurrence) (value : Text) : Text := o.before ++ (value ++ o.after)

/-- A placeholder right at the start of a text: what stands between its braces, and
what follows it. -/
def match? (d : Domain) (t : Text) : Option (Text × Text) :=
  (Text.after? d.marker t).bind (Text.cut? ['}'])

/-- The first placeholder of a text, behind characters that have been seen; they are
kept backwards. -/
def search? (d : Domain) : (seen : Text) → Text → Option (Text × Text × Text)
  | _, [] => none
  | seen, c :: cs =>
    match match? d (c :: cs) with
    | some (interior, after) => some (seen.reverse, interior, after)
    | none => search? d (c :: seen) cs

/-- The first placeholder of a domain, searched for from its first marker on. -/
def first? (d : Domain) (t : Text) : Except ResolutionError (Option Occurrence) :=
  match Text.cut? d.marker t with
  | none => .ok none
  | some (before, tail) =>
    match search? d before.reverse (d.marker ++ tail) with
    | none => .error (.unterminated d t)
    | some (before, interior, after) =>
      match Placeholder.ofInterior d interior with
      | .ok p => .ok (some ⟨before, p, after⟩)
      | .error e => .error e

theorem first?_eq_none {d : Domain} {t : Text} :
    first? d t = .ok none ↔ Text.has d.marker t = false := by
  unfold first? Text.has
  split
  · rename_i h; simp [h]
  · rename_i h
    simp only [h, Option.isSome_some, Bool.true_eq_false, iff_false]
    split
    · simp
    · split <;> simp

end Occurrence

end Fixtures
