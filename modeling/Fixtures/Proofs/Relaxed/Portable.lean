import Fixtures.Proofs.Json.Written
import Fixtures.Relaxed.Value

/-!
# Portable JSON

The relaxed notation is not quite a superset of JSON. A document must keep clear of
what the two read differently. Portable strings and names have no surrogate pairs,
nothing that line folding would touch, and their colons near. The document around
them is admissible if its characters are printable and indentation has no tabs. It
is unambiguous if names come once and real numbers are rounded alike.
-/

namespace Fixtures

namespace Relaxed

/-- The characters of a JSON string that end a line in the relaxed notation and stay in the text. -/
def isSeparator (c : Char) : Bool := c == '\u2028' || c == '\u2029'

/-- No line of a text ends or starts with a space, or starts with a document marker. -/
def Steady (t : Text) : Prop :=
  ∀ (a : Text) (x : Char) (b : Text), t = a ++ x :: b → isSeparator x = true →
    a.getLast? ≠ some ' ' ∧ b.head? ≠ some ' ' ∧ isDocumentMarker b = false

theorem steady_of_forall {t : Text} (h : ∀ c ∈ t, isSeparator c = false) : Steady t := by
  intro a x b ht hx
  have hmem : x ∈ t := by
    rw [ht]
    exact List.mem_append_right _ List.mem_cons_self
  exact Bool.noConfusion ((h x hmem).symm.trans hx)

/-- Whether a text is a decimal with a point or an exponent whose digits and power of ten are both
exact as numbers. -/
def Scalar.isShort (t : Text) : Bool :=
  (Scalar.integer? t).isNone &&
    match Scalar.decimal? t with
    | some (_, n, e) => n < Nat.pow 2 53 && -22 ≤ e && e ≤ 22
    | none => false

end Relaxed

namespace Json

open Relaxed (Scalar Steady isSeparator isPrintable)

/-- A string without surrogate pairs, of which folding its lines leaves every character. -/
structure PortableString (ps : List Piece) : Prop where
  noPair : ∀ p ∈ ps, p.isPair = false
  noNextLine : '\u0085' ∉ bodyOf ps
  steady : Steady (bodyOf ps ++ ['"'])

def WrittenName.span (k : WrittenName) : Text := '"' :: (bodyOf k.name ++ '"' :: k.beforeColon.text)

def isLineEnd (c : Char) : Bool := c == '\n' || c == '\r' || c == '\u0085' || isSeparator c

/-- A name without surrogate pairs whose colon is on its line, at most 1024 bytes away. -/
structure PortableName (k : WrittenName) : Prop where
  noPair : ∀ p ∈ k.name, p.isPair = false
  oneLine : ∀ c ∈ k.span, isLineEnd c = false
  short : Text.byteSize k.span ≤ 1024

theorem isSeparator_of_isLineEnd {c : Char} (h : isLineEnd c = false) : isSeparator c = false :=
  (Bool.or_eq_false_iff.mp h).2

theorem PortableName.string {k : WrittenName} (hk : PortableName k) : PortableString k.name := by
  have hbody : ∀ c ∈ bodyOf k.name ++ ['"'], isLineEnd c = false := by
    intro c hc
    refine hk.oneLine c (List.mem_cons_of_mem _ ?_)
    rw [List.mem_append, List.mem_singleton] at hc
    rw [List.mem_append, List.mem_cons]
    exact hc.imp_right Or.inl
  refine ⟨hk.noPair, fun h => ?_, ?_⟩
  · cases hbody _ (List.mem_append_left _ h)
  · exact Relaxed.steady_of_forall fun c hc => isSeparator_of_isLineEnd (hbody c hc)

mutual

def Written.Portable : Written → Prop
  | .string ps => PortableString ps
  | .array items => items.Portable
  | .object fields => fields.Portable
  | _ => True

def WrittenItems.Portable : WrittenItems → Prop
  | .last _ v _ => v.Portable
  | .cons _ v _ rest => v.Portable ∧ rest.Portable

def WrittenFields.Portable : WrittenFields → Prop
  | .last k v _ => PortableName k ∧ v.Portable
  | .cons k v _ rest => PortableName k ∧ v.Portable ∧ rest.Portable

end

/-- A numeral that is no real, or is short, or else happens to be rounded to the same number. -/
def WrittenNumber.Unambiguous (n : WrittenNumber) : Prop :=
  ∀ x, n.number = .real x →
    Scalar.isShort n.text = true ∨ Scalar.ofPlain? n.text = some (.real x)

mutual

/-- All numerals of a value are unambiguous, and no name comes twice in an object. -/
def Written.Unambiguous : Written → Prop
  | .number n => n.Unambiguous
  | .array items => items.Unambiguous
  | .object fields => fields.names.Nodup ∧ fields.Unambiguous
  | _ => True

def WrittenItems.Unambiguous : WrittenItems → Prop
  | .last _ v _ => v.Unambiguous
  | .cons _ v _ rest => v.Unambiguous ∧ rest.Unambiguous

def WrittenFields.Unambiguous : WrittenFields → Prop
  | .last _ v _ => v.Unambiguous
  | .cons _ v _ rest => v.Unambiguous ∧ rest.Unambiguous

end

/-- A document of printable characters, with no tab before the root and none after the end of its
line. -/
structure WrittenDocument.Admissible (d : WrittenDocument) : Prop where
  printable : ∀ c ∈ d.text, isPrintable c = true
  before : '\t' ∉ d.before.text
  after : '\t' ∉ d.after.text.dropWhile (!isLineEnd ·)

end Json

end Fixtures
