import Fixtures.Text.Basic
import Fixtures.Text.CaseTable

/-! # Case folding

Whole texts in lower or upper case. A character may become several, and a
capital sigma that ends a word becomes a final sigma.
-/

namespace Fixtures.Text

def CaseRun.covers (r : CaseRun) (n : Nat) : Bool :=
  r.first ≤ n && n ≤ r.last && (n - r.first) % r.stride == 0

/-- The image of one character under a table of long and of simple mappings. -/
def mapCase (long : List (Nat × List Nat)) (runs : List CaseRun) (c : Char) : Text :=
  match long.lookup c.toNat with
  | some ns => ns.map Char.ofNat
  | none =>
    match runs.find? (·.covers c.toNat) with
    | some r => [Char.ofNat (Int.toNat (c.toNat + r.offset))]
    | none => [c]

def lowerChar : Char → Text := mapCase CaseTable.loweredLong CaseTable.lowered

def upperChar : Char → Text := mapCase CaseTable.raisedLong CaseTable.raised

def inRanges (ranges : List (Nat × Nat)) (c : Char) : Bool :=
  ranges.any fun r => r.1 ≤ c.toNat && c.toNat ≤ r.2

/-- Whether the first character that matters for case is a cased one. -/
def leadsCased (t : Text) : Bool :=
  match t.dropWhile (inRanges CaseTable.ignorable) with
  | [] => false
  | c :: _ => inRanges CaseTable.cased c

/-- A sigma is final after a cased character and before none. -/
def lowerSigma (seen rest : Text) : Char :=
  if leadsCased seen && !leadsCased rest then 'ς' else 'σ'

/-- Lower case of a text that stands after `seen`, which is given backwards. -/
def lowerAfter (seen : Text) : Text → Text
  | [] => []
  | c :: cs =>
    (if c = 'Σ' then [lowerSigma seen cs] else lowerChar c) ++ lowerAfter (c :: seen) cs

def lower (t : Text) : Text := lowerAfter [] t

def upper (t : Text) : Text := t.flatMap upperChar

end Fixtures.Text
