import Fixtures.Relaxed.Layout
import Fixtures.Table

/-! # Nodes

The tree that tokens describe. Each node may have an anchor and a tag, and an
alias stands for the node with its anchor. `Node.ofTokens?` reads exactly one
document.
-/

namespace Fixtures.Relaxed

structure Properties where
  anchor : Option Text
  tag : Option Tag
  deriving DecidableEq, Repr

/-- The tag of the document's own that a node has. -/
def Properties.ownTag? (p : Properties) : Option Text := p.tag.bind Tag.name?

inductive Node
  | alias (name : Text)
  | scalar (props : Properties) (plain : Bool) (text : Text)
  | sequence (props : Properties) (items : List Node)
  | mapping (props : Properties) (entries : List (Node × Node))

/-- What each tag handle of a document stands for. -/
abbrev Handles := Table (List UInt8)

namespace Node

def empty : Node := .scalar ⟨none, none⟩ true []

/-! ## Tags and anchors -/

def knownHandles : Handles := [(['!'], asciiBytes ['!']), (['!', '!'], Tag.coreLead)]

/-- A tag with its handle replaced. Without a handle it is complete. -/
def fullTag? (handles : Handles) (handle : Text) (suffix : List UInt8) : Option Tag :=
  if handle.isEmpty then some (.ofBytes suffix)
  else (Table.get? handle handles).map fun lead => .ofBytes (lead ++ suffix)

/-- An anchor and a tag in either order, each at most once, and what follows. -/
def properties? (handles : Handles) : List Token → Option (Properties × List Token)
  | .anchor a :: .tag h s :: rest => (fullTag? handles h s).map fun t => (⟨some a, some t⟩, rest)
  | .tag h s :: .anchor a :: rest => (fullTag? handles h s).map fun t => (⟨some a, some t⟩, rest)
  | .anchor a :: rest => some (⟨some a, none⟩, rest)
  | .tag h s :: rest => (fullTag? handles h s).map fun t => (⟨none, some t⟩, rest)
  | rest => some (⟨none, none⟩, rest)

/-- A node whose properties alone are written. -/
def ofProperties? (p : Properties) (rest : List Token) : Option (Node × List Token) :=
  if p.anchor.isSome || p.tag.isSome then some (.scalar p true [], rest) else none

/-! ## Reading a node -/

/-- Where a node stands, which decides what block collections it may be. -/
inductive Place
  /-- between brackets, where there are no blocks -/
  | flow
  | block
  /-- after a key or value indicator, where the items of a sequence need not be
  indented -/
  | entry

/-- Puts an item in front of the further items that a reader has found. -/
def consFound {α : Type} (a : α) (r : Option (List α × List Token)) :
    Option (List α × List Token) :=
  r.map fun r => (a :: r.1, r.2)

mutual

/-- A node, with the tokens after it. The functions of this group call each other
at most four times for each token, which bounds their steps. -/
def node? (handles : Handles) (steps : Nat) (place : Place) (tokens : List Token) :
    Option (Node × List Token) :=
  match steps, tokens with
  | 0, _ => none
  | _ + 1, .alias name :: rest => some (.alias name, rest)
  | steps + 1, tokens =>
    match properties? handles tokens with
    | none => none
    | some (p, .scalar plain text :: rest) => some (.scalar p plain text, rest)
    | some (p, .openBracket :: rest) =>
      (flowItems? handles steps rest).map fun r => (.sequence p r.1, r.2)
    | some (p, .openBrace :: rest) =>
      (flowEntries? handles steps rest).map fun r => (.mapping p r.1, r.2)
    | some (p, tokens) =>
      match place, tokens with
      | .flow, _ => ofProperties? p tokens
      | .entry, .dash :: _ =>
        (looseItems? handles steps tokens).map fun r => (.sequence p r.1, r.2)
      | _, .blockSequence :: rest =>
        (items? handles steps rest).map fun r => (.sequence p r.1, r.2)
      | _, .blockMapping :: rest =>
        (entries? handles steps rest).map fun r => (.mapping p r.1, r.2)
      | _, _ => ofProperties? p tokens

/-- A node, which is empty right before one of certain tokens. -/
def nodeBefore? (handles : Handles) (steps : Nat) (place : Place) (stops tokens : List Token) :
    Option (Node × List Token) :=
  match steps, tokens with
  | 0, _ => none
  | _ + 1, [] => none
  | steps + 1, t :: rest =>
    if stops.elem t then some (empty, t :: rest) else node? handles steps place (t :: rest)

/-- The value after a key; without an indicator it is empty. -/
def value? (handles : Handles) (steps : Nat) (place : Place) (stops tokens : List Token) :
    Option (Node × List Token) :=
  match steps, tokens with
  | 0, _ => none
  | steps + 1, .value :: rest => nodeBefore? handles steps place stops rest
  | _ + 1, tokens => some (empty, tokens)

def items? (handles : Handles) (steps : Nat) (tokens : List Token) :
    Option (List Node × List Token) :=
  match steps, tokens with
  | steps + 1, .dash :: rest =>
    match nodeBefore? handles steps .block [.dash, .blockEnd] rest with
    | some (n, rest) => consFound n (items? handles steps rest)
    | none => none
  | _ + 1, .blockEnd :: rest => some ([], rest)
  | _, _ => none

/-- The items of a sequence that is not indented, which ends where no dash follows. -/
def looseItems? (handles : Handles) (steps : Nat) (tokens : List Token) :
    Option (List Node × List Token) :=
  match steps, tokens with
  | 0, _ => none
  | steps + 1, .dash :: rest =>
    match nodeBefore? handles steps .block [.dash, .key, .value, .blockEnd] rest with
    | some (n, rest) => consFound n (looseItems? handles steps rest)
    | none => none
  | _ + 1, tokens => some ([], tokens)

def entries? (handles : Handles) (steps : Nat) (tokens : List Token) :
    Option (List (Node × Node) × List Token) :=
  match steps, tokens with
  | steps + 1, .key :: rest =>
    match nodeBefore? handles steps .entry [.key, .value, .blockEnd] rest with
    | some (k, rest) =>
      match value? handles steps .entry [.key, .value, .blockEnd] rest with
      | some (v, rest) => consFound (k, v) (entries? handles steps rest)
      | none => none
    | none => none
  | _ + 1, .blockEnd :: rest => some ([], rest)
  | _, _ => none

/-- The items between brackets, from where one may start. An item with a key is a
mapping of one entry; if nothing of its key is written, the token after the
indicator is passed over. -/
def flowItems? (handles : Handles) (steps : Nat) (tokens : List Token) :
    Option (List Node × List Token) :=
  match steps, tokens with
  | 0, _ => none
  | _ + 1, .closeBracket :: rest => some ([], rest)
  | steps + 1, .key :: rest =>
    match nodeBefore? handles steps .flow [.value, .comma, .closeBracket] rest with
    | some (k, left) =>
      let left := if left.length = rest.length then rest.drop 1 else left
      match value? handles steps .flow [.comma, .closeBracket] left with
      | some (v, rest) =>
        consFound (.mapping ⟨none, none⟩ [(k, v)]) (moreFlowItems? handles steps rest)
      | none => none
    | none => none
  | steps + 1, tokens =>
    match node? handles steps .flow tokens with
    | some (n, rest) => consFound n (moreFlowItems? handles steps rest)
    | none => none

def moreFlowItems? (handles : Handles) (steps : Nat) (tokens : List Token) :
    Option (List Node × List Token) :=
  match steps, tokens with
  | steps + 1, .comma :: rest => flowItems? handles steps rest
  | _ + 1, .closeBracket :: rest => some ([], rest)
  | _, _ => none

def flowEntries? (handles : Handles) (steps : Nat) (tokens : List Token) :
    Option (List (Node × Node) × List Token) :=
  match steps, tokens with
  | 0, _ => none
  | _ + 1, .closeBrace :: rest => some ([], rest)
  | steps + 1, .key :: rest =>
    match nodeBefore? handles steps .flow [.value, .comma, .closeBrace] rest with
    | some (k, rest) =>
      match value? handles steps .flow [.comma, .closeBrace] rest with
      | some (v, rest) => consFound (k, v) (moreFlowEntries? handles steps rest)
      | none => none
    | none => none
  | steps + 1, tokens =>
    match node? handles steps .flow tokens with
    | some (k, rest) => consFound (k, empty) (moreFlowEntries? handles steps rest)
    | none => none

def moreFlowEntries? (handles : Handles) (steps : Nat) (tokens : List Token) :
    Option (List (Node × Node) × List Token) :=
  match steps, tokens with
  | steps + 1, .comma :: rest => flowEntries? handles steps rest
  | _ + 1, .closeBrace :: rest => some ([], rest)
  | _, _ => none

end

/-! ## Reading a document -/

/-- The directives before a document: at most one version, 1.1 or 1.2, and each
handle at most once. -/
def directives? : (versioned : Bool) → Handles → List Token → Option (Handles × List Token)
  | versioned, handles, .version major minor :: rest =>
    if versioned || major ≠ 1 || (minor ≠ 1 && minor ≠ 2) then none
    else directives? true handles rest
  | versioned, handles, .tagDirective handle lead :: rest =>
    if Table.contains handle handles then none
    else directives? versioned (Table.insert handle lead handles) rest
  | _, handles, rest => some (handles, rest)

/-- Whether a document is over before anything is written in it. -/
def isOver : List Token → Bool
  | [] => true
  | t :: _ =>
    match t with
    | .version _ _ => true
    | .tagDirective _ _ => true
    | .documentStart => true
    | .documentEnd => true
    | _ => false

def root? (handles : Handles) (tokens : List Token) : Option (Node × List Token) :=
  node? (Table.merge knownHandles handles) (4 * tokens.length + 4) .block tokens

/-- The root of a document. Directives need the indicator that starts a document
after them. -/
def document? (tokens : List Token) : Option (Node × List Token) :=
  let starts :=
    match tokens with
    | .documentEnd :: _ => false
    | _ => isOver tokens
  if starts then
    match directives? false [] tokens with
    | some (handles, .documentStart :: rest) =>
      if isOver rest then some (empty, rest) else root? handles rest
    | _ => none
  else root? [] tokens

def ofTokens? (tokens : List Token) : Option Node :=
  if tokens.isEmpty then some empty
  else
    match document? tokens with
    | some (n, rest) => if rest.all (· == .documentEnd) then some n else none
    | none => none

end Node

end Fixtures.Relaxed
