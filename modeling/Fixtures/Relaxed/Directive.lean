import Fixtures.Relaxed.Tag

/-! # Directives

The lines before a document that start with a percent sign. They give the version
of the notation or say what a tag handle stands for; any other is refused.
-/

namespace Fixtures.Relaxed

/-- A number of at most nine digits. -/
def versionNumber? (t : Text) : Option (Nat × Text) :=
  let ds := t.takeWhile Char.isDigit
  if ds.length ≤ 9 then (Decimal.nat? ds).map fun n => (n, t.dropWhile Char.isDigit) else none

def versionDirective? (t : Text) : Option (Token × Text) :=
  match versionNumber? (t.dropWhile isBlank) with
  | some (major, '.' :: rest) =>
    (versionNumber? rest).map fun r => (.version major r.1, r.2)
  | _ => none

def tagDirective? (t : Text) : Option (Token × Text) :=
  match t.dropWhile isBlank with
  | '!' :: rest =>
    let (h, rest) := handle ('!' :: rest)
    if (isHandle h || h = ['!']) && rest.head?.any isBlank then
      match tagRest? true false (rest.dropWhile isBlank) with
      | some (lead, rest) => if endsWord rest then some (.tagDirective h lead, rest) else none
      | none => none
    else none
  | _ => none

def directive? (t : Text) : Option (Token × Text) :=
  let name := t.takeWhile isName
  let rest := t.dropWhile isName
  if !endsWord rest then none
  else
    let read :=
      if name = "YAML".toList then versionDirective? rest
      else if name = "TAG".toList then tagDirective? rest
      else none
    match read with
    | none => none
    | some (token, rest) =>
      let rest := rest.dropWhile isBlank
      let rest := if rest.head? = some '#' then rest.dropWhile (!isBreak ·) else rest
      if endsLine rest then some (token, rest.drop 1) else none

end Fixtures.Relaxed
