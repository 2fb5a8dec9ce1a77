import Fixtures.Relaxed.Character

/-! # Block scalars

After `|` a scalar keeps its line ends, after `>` its lines are folded unless
they start with white space. A header may say how the last line ends are
treated and how far the lines are indented.
-/

namespace Fixtures.Relaxed

inductive Chomping
  | strip
  | clip
  | keep
  deriving DecidableEq

structure BlockHeader where
  chomping : Chomping
  /-- the indentation that the header gives, if it does -/
  indent : Option Nat

namespace BlockHeader

def chomping? : Text → Option (Chomping × Text)
  | '+' :: rest => some (.keep, rest)
  | '-' :: rest => some (.strip, rest)
  | _ => none

/-- The rest of a header line after white space and a comment, without its line end. -/
def endLine? (t : Text) : Option Text :=
  let t := t.dropWhile isBlank
  let t := if t.head? = some '#' then t.dropWhile (!isBreak ·) else t
  match t with
  | [] => some []
  | c :: rest => if isBreak c then some rest else none

/-- A digit that says how far the lines are indented; zero is refused. -/
def indent? : Text → Option (Option Nat × Text)
  | [] => some (none, [])
  | c :: rest =>
    if c = '0' then none
    else if c.isDigit then some (some (Decimal.digitValue c), rest)
    else some (none, c :: rest)

/-- A header and the lines after it. The two indicators come in either order. -/
def read? (t : Text) : Option (BlockHeader × Text) :=
  match chomping? t with
  | some (c, rest) =>
    match indent? rest with
    | none => none
    | some (n, rest) => (endLine? rest).map fun rest => (⟨c, n⟩, rest)
  | none =>
    match indent? t with
    | none => none
    | some (none, rest) => (endLine? rest).map fun rest => (⟨.clip, none⟩, rest)
    | some (some n, rest) =>
      let (c, rest) := (chomping? rest).getD (.clip, rest)
      (endLine? rest).map fun rest => (⟨c, some n⟩, rest)

end BlockHeader

namespace Block

/-- The widest indentation up to the first line with content; a tab in the
indentation is refused. -/
def indentation? : (column widest : Nat) → Text → Option Nat
  | column, widest, [] => some (max column widest)
  | column, widest, c :: cs =>
    if c = ' ' then indentation? (column + 1) widest cs
    else if c = '\t' then none
    else if isBreak c then indentation? 0 (max column widest) cs
    else some (max column widest)

end Block

structure Block where
  /-- the text so far, backwards -/
  text : Text
  /-- the line end after the last line -/
  lead : Option Char
  /-- the line ends after it, backwards -/
  more : Text
  /-- whether the last line started with white space -/
  blank : Bool
  /-- the column within the indentation, or nothing within a line -/
  column : Option Nat

namespace Block

def start : Block := ⟨[], none, [], false, some 0⟩

/-- The line ends before a line, backwards; a single one between two lines with
content is folded to a space. -/
def joint (literal : Bool) (b : Block) (blank : Bool) : Text :=
  match b.lead with
  | some '\n' =>
    if !literal && !b.blank && !blank then if b.more.isEmpty then [' '] else b.more
    else b.more ++ ['\n']
  | some c => b.more ++ [c]
  | none => b.more

def finish (chomping : Chomping) (b : Block) : Text :=
  let lead := if chomping = .strip then [] else b.lead.toList
  let more := if chomping = .keep then b.more else []
  (more ++ lead ++ b.text).reverse

def read (literal : Bool) (chomping : Chomping) (indent : Nat) :
    Block → Text → Option (Text × Text)
  | b, [] => some (b.finish chomping, [])
  | b, c :: cs =>
    match b.column with
    | some column =>
      if c = ' ' && column < indent then
        read literal chomping indent { b with column := some (column + 1) } cs
      else if c = '\t' && column < indent then none
      else if isBreak c then
        read literal chomping indent { b with more := c :: b.more, column := some 0 } cs
      else if column < indent then some (b.finish chomping, c :: cs)
      else
        read literal chomping indent
          ⟨c :: (b.joint literal (isBlank c) ++ b.text), none, [], isBlank c, none⟩ cs
    | none =>
      if isBreak c then
        read literal chomping indent { b with lead := some c, column := some 0 } cs
      else read literal chomping indent { b with text := c :: b.text } cs

end Block

/-- A block scalar, from after its indicator, inside lines indented by `outer`. -/
def block? (literal : Bool) (outer : Int) (t : Text) : Option (Text × Text) :=
  match BlockHeader.read? t with
  | none => none
  | some (header, lines) =>
    match header.indent with
    | some n => Block.read literal header.chomping (max outer 0 + Int.ofNat n).toNat .start lines
    | none =>
      match Block.indentation? 0 0 lines with
      | none => none
      | some n =>
        Block.read literal header.chomping (max n (max (outer + 1) 1).toNat) .start lines

end Fixtures.Relaxed
