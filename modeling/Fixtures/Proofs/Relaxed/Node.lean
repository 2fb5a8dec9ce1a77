import Fixtures.Proofs.Relaxed.Real
import Fixtures.Proofs.Relaxed.Tokens
import Fixtures.Proofs.Table.Sorted

/-!
# The nodes and values of portable JSON

The tokens of a document describe a tree of its own shape: there are no anchors,
aliases or tags. Every step of the tree's reader takes its share of the tokens,
so the steps it is given are enough. What the tree is read as follows the structure
of the document too, and it is the document's value just if that is unambiguous.
-/

namespace Fixtures

namespace Json

open Relaxed (Node Scalar)

mutual

def Written.node : Written → Node
  | .null => .scalar ⟨none, none⟩ true Written.null.text
  | .bool b => .scalar ⟨none, none⟩ true (Written.bool b).text
  | .number n => .scalar ⟨none, none⟩ true n.text
  | .string ps => .scalar ⟨none, none⟩ false (stringOf ps)
  | .emptyArray _ => .sequence ⟨none, none⟩ []
  | .array items => .sequence ⟨none, none⟩ items.nodes
  | .emptyObject _ => .mapping ⟨none, none⟩ []
  | .object fields => .mapping ⟨none, none⟩ fields.entries

def WrittenItems.nodes : WrittenItems → List Node
  | .last _ v _ => [v.node]
  | .cons _ v _ rest => v.node :: rest.nodes

def WrittenFields.entries : WrittenFields → List (Node × Node)
  | .last k v _ => [(.scalar ⟨none, none⟩ false (stringOf k.name), v.node)]
  | .cons k v _ rest => (.scalar ⟨none, none⟩ false (stringOf k.name), v.node) :: rest.entries

end

mutual

/-- What the relaxed notation reads: numerals in its own way, and objects if no name comes twice. -/
def Written.relaxed? : Written → Option Json
  | .null => some .null
  | .bool b => some (.bool b)
  | .number n => (Scalar.ofPlain? n.text).map Scalar.json
  | .string ps => some (.str (stringOf ps))
  | .emptyArray _ => some (.arr [])
  | .array items => items.relaxed?.map .arr
  | .emptyObject _ => some (.obj [])
  | .object fields =>
    if fields.names.Nodup then fields.relaxed?.map fun ps => .obj (Table.ofList ps) else none

def WrittenItems.relaxed? : WrittenItems → Option (List Json)
  | .last _ v _ => v.relaxed?.map fun x => [x]
  | .cons _ v _ rest => v.relaxed?.bind fun x => rest.relaxed?.map (x :: ·)

def WrittenFields.relaxed? : WrittenFields → Option (List (Text × Json))
  | .last k v _ => v.relaxed?.map fun x => [(stringOf k.name, x)]
  | .cons k v _ rest =>
    v.relaxed?.bind fun x => rest.relaxed?.map ((stringOf k.name, x) :: ·)

end

end Json

namespace Relaxed

open Json (Written WrittenItems WrittenFields stringOf)

namespace Node

variable {handles : Handles} {rest : List Token}

/-! ## From tokens to nodes -/

def isValueStart : Token → Bool
  | .scalar _ _ => true
  | .openBracket => true
  | .openBrace => true
  | _ => false

theorem exists_tokens_eq_cons (v : Written) :
    ∃ t ts, v.tokens = t :: ts ∧ isValueStart t = true := by
  cases v with
  | _ => exact ⟨_, _, rfl, rfl⟩

theorem nodeBefore?_start {steps : Nat} {place : Place} {stops : List Token}
    (hstops : ∀ t ∈ stops, isValueStart t = false) (v : Written) :
    nodeBefore? handles (steps + 1) place stops (v.tokens ++ rest) =
      node? handles steps place (v.tokens ++ rest) := by
  obtain ⟨t, ts, hv, ht⟩ := exists_tokens_eq_cons v
  have hno : stops.elem t = false := by
    rw [Bool.eq_false_iff]
    intro h
    exact Bool.noConfusion (ht.symm.trans (hstops t (List.elem_iff.mp h)))
  rw [hv, List.cons_append, nodeBefore?, if_neg (by rw [hno]; nofun)]

theorem flowItems?_start {steps : Nat} (v : Written) :
    flowItems? handles (steps + 1) (v.tokens ++ rest) =
      match node? handles steps .flow (v.tokens ++ rest) with
      | some (n, rest) => consFound n (moreFlowItems? handles steps rest)
      | none => none := by
  obtain ⟨t, ts, hv, ht⟩ := exists_tokens_eq_cons v
  rw [hv, List.cons_append]
  cases t with
  | scalar plain text => rfl
  | openBracket => rfl
  | openBrace => rfl
  | _ => cases ht

theorem flowEntries?_key {steps : Nat} (k : Text) (v : Written) :
    flowEntries? handles (steps + 3) (.key :: .scalar false k :: .value :: (v.tokens ++ rest)) =
      match node? handles steps .flow (v.tokens ++ rest) with
      | some (n, rest) =>
        consFound (.scalar ⟨none, none⟩ false k, n) (moreFlowEntries? handles (steps + 2) rest)
      | none => none := by
  have hkey : nodeBefore? handles (steps + 2) .flow [.value, .comma, .closeBrace]
      (.scalar false k :: .value :: (v.tokens ++ rest)) =
        some (.scalar ⟨none, none⟩ false k, .value :: (v.tokens ++ rest)) := rfl
  have hvalue : value? handles (steps + 2) .flow [.comma, .closeBrace]
      (.value :: (v.tokens ++ rest)) = node? handles steps .flow (v.tokens ++ rest) :=
    nodeBefore?_start (by decide) v
  rcases hn : node? handles steps .flow (v.tokens ++ rest) with _ | ⟨n, rest⟩ <;>
    simp only [flowEntries?, hkey, hvalue, hn]

mutual

theorem node?_tokens : ∀ (v : Written) (steps : Nat) (place : Place) (rest : List Token),
    4 * v.tokens.length ≤ steps → node? handles steps place (v.tokens ++ rest) = some (v.node, rest)
  | .null, _ + 1, _, _, _ => rfl
  | .bool b, _ + 1, _, _, _ => rfl
  | .number n, _ + 1, _, _, _ => rfl
  | .string ps, _ + 1, _, _, _ => rfl
  | .emptyArray inside, _ + 2, _, _, _ => rfl
  | .emptyObject inside, _ + 2, _, _, _ => rfl
  | .array items, steps + 1, place, rest, h => by
    have hlen : (Written.array items).tokens.length = items.tokens.length + 2 := by
      simp [Written.tokens]
    have hstep : node? handles (steps + 1) place ((Written.array items).tokens ++ rest) =
        (flowItems? handles steps (items.tokens ++ [.closeBracket] ++ rest)).map fun r =>
          (.sequence ⟨none, none⟩ r.1, r.2) := rfl
    rw [hstep, List.append_assoc, List.singleton_append,
      flowItems?_tokens items steps rest (by omega)]
    rfl
  | .object fields, steps + 1, place, rest, h => by
    have hlen : (Written.object fields).tokens.length = fields.tokens.length + 2 := by
      simp [Written.tokens]
    have hstep : node? handles (steps + 1) place ((Written.object fields).tokens ++ rest) =
        (flowEntries? handles steps (fields.tokens ++ [.closeBrace] ++ rest)).map fun r =>
          (.mapping ⟨none, none⟩ r.1, r.2) := rfl
    rw [hstep, List.append_assoc, List.singleton_append,
      flowEntries?_tokens fields steps rest (by omega)]
    rfl

theorem flowItems?_tokens : ∀ (items : WrittenItems) (steps : Nat) (rest : List Token),
    4 * items.tokens.length + 2 ≤ steps →
      flowItems? handles steps (items.tokens ++ .closeBracket :: rest) = some (items.nodes, rest)
  | .last before v after, steps + 2, rest, h => by
    simp only [WrittenItems.tokens] at h ⊢
    rw [flowItems?_start, node?_tokens v (steps + 1) .flow _ (by omega)]
    rfl
  | .cons before v after items, steps + 2, rest, h => by
    simp only [WrittenItems.tokens, List.length_append, List.length_cons] at h
    have hmore : moreFlowItems? handles (steps + 1)
        (.comma :: (items.tokens ++ .closeBracket :: rest)) = some (items.nodes, rest) :=
      flowItems?_tokens items steps rest (by omega)
    rw [WrittenItems.tokens, List.append_assoc, flowItems?_start,
      node?_tokens v (steps + 1) .flow _ (by omega)]
    simp only [List.cons_append, hmore]
    rfl

theorem flowEntries?_tokens : ∀ (fields : WrittenFields) (steps : Nat) (rest : List Token),
    4 * fields.tokens.length + 2 ≤ steps →
      flowEntries? handles steps (fields.tokens ++ .closeBrace :: rest) =
        some (fields.entries, rest)
  | .last k v after, steps + 3, rest, h => by
    simp only [WrittenFields.tokens, List.length_cons] at h
    simp only [WrittenFields.tokens, List.cons_append]
    rw [flowEntries?_key, node?_tokens v steps .flow _ (by omega)]
    rfl
  | .cons k v after fields, steps + 3, rest, h => by
    simp only [WrittenFields.tokens, List.length_cons, List.length_append] at h
    have hmore : moreFlowEntries? handles (steps + 2)
        (.comma :: (fields.tokens ++ .closeBrace :: rest)) = some (fields.entries, rest) :=
      flowEntries?_tokens fields (steps + 1) rest (by omega)
    simp only [WrittenFields.tokens, List.cons_append, List.append_assoc]
    rw [flowEntries?_key, node?_tokens v steps .flow _ (by omega)]
    simp only [hmore]
    rfl

end

theorem ofTokens?_tokens {v : Written} (hc : v.isContainer = true) :
    ofTokens? v.tokens = some v.node := by
  have hroot : root? [] v.tokens = some (v.node, []) := by
    have h : node? (Table.merge knownHandles []) (4 * v.tokens.length + 4) .block (v.tokens ++ []) =
        some (v.node, []) := node?_tokens v _ .block [] (by omega)
    rw [List.append_nil] at h
    exact h
  have hstart : v.tokens.isEmpty = false ∧ document? v.tokens = root? [] v.tokens := by
    cases v with
    | emptyArray inside => exact ⟨rfl, rfl⟩
    | array items => exact ⟨rfl, rfl⟩
    | emptyObject inside => exact ⟨rfl, rfl⟩
    | object fields => exact ⟨rfl, rfl⟩
    | _ => cases hc
  rw [ofTokens?, hstart.1, hstart.2, hroot]
  rfl

/-! ## Anchors and aliases -/

def isNamed : Token → Bool
  | .alias _ => true
  | .anchor _ => true
  | _ => false

theorem numbered?_eq {known : Table Nat} {ts : List Token} (h : ∀ t ∈ ts, isNamed t = false) :
    numbered? known ts = some ts := by
  induction ts with
  | nil => rfl
  | cons t ts ih =>
    obtain ⟨ht, hts⟩ := List.forall_mem_cons.mp h
    cases t with
    | «alias» name => cases ht
    | anchor name => cases ht
    | _ =>
      rw [numbered?, ih hts]
      · rfl
      · nofun
      · nofun

mutual

theorem not_named_tokens : ∀ v : Written, ∀ t ∈ v.tokens, isNamed t = false
  | .null => by simp [Written.tokens, isNamed]
  | .bool _ => by simp [Written.tokens, isNamed]
  | .number _ => by simp [Written.tokens, isNamed]
  | .string _ => by simp [Written.tokens, isNamed]
  | .emptyArray _ => by simp [Written.tokens, isNamed]
  | .emptyObject _ => by simp [Written.tokens, isNamed]
  | .array items => by
    simp only [Written.tokens, List.forall_mem_cons, List.forall_mem_append]
    exact ⟨rfl, not_named_items items, rfl, nofun⟩
  | .object fields => by
    simp only [Written.tokens, List.forall_mem_cons, List.forall_mem_append]
    exact ⟨rfl, not_named_fields fields, rfl, nofun⟩

theorem not_named_items : ∀ items : WrittenItems, ∀ t ∈ items.tokens, isNamed t = false
  | .last _ v _ => not_named_tokens v
  | .cons _ v _ rest => by
    simp only [WrittenItems.tokens, List.forall_mem_append, List.forall_mem_cons]
    exact ⟨not_named_tokens v, rfl, not_named_items rest⟩

theorem not_named_fields : ∀ fields : WrittenFields, ∀ t ∈ fields.tokens, isNamed t = false
  | .last _ v _ => by
    simp only [WrittenFields.tokens, List.forall_mem_cons]
    exact ⟨rfl, rfl, rfl, not_named_tokens v⟩
  | .cons _ v _ rest => by
    simp only [WrittenFields.tokens, List.forall_mem_append, List.forall_mem_cons]
    exact ⟨rfl, rfl, rfl, not_named_tokens v, rfl, not_named_fields rest⟩

end

/-! ## From nodes to values -/

section
variable {anchors : List (Text × Node)}

theorem json?_number (n : Json.WrittenNumber) (depth left : Nat) :
    json? anchors (depth + 1) (.scalar ⟨none, none⟩ true n.text) left =
      (Written.number n).relaxed?.map (·, left) := by
  have htagged : Scalar.ofTagged? none true n.text = Scalar.ofPlain? n.text := rfl
  simp only [json?, target?, htagged, Written.relaxed?, Option.map_map]
  rfl

theorem key?_name (k : Text) (left : Nat) :
    key? anchors (.scalar ⟨none, none⟩ false k) left = some (.text k, left) := rfl

theorem any_same_text (seen : List Text) (k : Text) :
    (seen.map Scalar.text).any (Scalar.same (.text k)) = decide (k ∈ seen) := by
  induction seen with
  | nil => rfl
  | cons j seen ih =>
    have hsame : Scalar.same (.text k) (.text j) = decide (k = j) := by
      rw [Bool.eq_iff_iff]
      simp [Scalar.same]
    rw [List.map_cons, List.any_cons, ih, hsame]
    simp

theorem readEntries_cons {read : Node → Nat → Reading Json} (seen : List Text) (k : Text) {n : Node}
    {v : Option Json} {left : Nat} (hv : read n left = v.map (·, left)) (table : Table Json)
    (entries : List (Node × Node)) :
    readEntries (key? anchors) read (seen.map .text) table
        ((.scalar ⟨none, none⟩ false k, n) :: entries) left =
      v.bind fun x =>
        if k ∈ seen then none
        else
          readEntries (key? anchors) read ((k :: seen).map .text) (Table.insert k x table) entries
            left := by
  rw [readEntries, key?_name]
  simp only [Scalar.name?, hv, any_same_text, decide_eq_true_eq]
  cases v with
  | none => rfl
  | some x => rfl

theorem fresh_cons {seen names : List Text} {k : Text} :
    ((k :: names).Nodup ∧ ∀ j ∈ seen, j ∉ k :: names) ↔
      k ∉ seen ∧ names.Nodup ∧ ∀ j ∈ k :: seen, j ∉ names := by
  rw [List.nodup_cons, List.forall_mem_cons]
  constructor
  · rintro ⟨⟨hk, hnames⟩, hseen⟩
    exact ⟨fun h => hseen k h List.mem_cons_self, hnames, hk,
      fun j hj => List.not_mem_of_not_mem_cons (hseen j hj)⟩
  · rintro ⟨hk, hnames, hknames, hseen⟩
    refine ⟨⟨hknames, hnames⟩, fun j hj hmem => ?_⟩
    rcases List.mem_cons.mp hmem with rfl | hmem
    · exact hk hj
    · exact hseen j hj hmem

mutual

theorem json?_node : ∀ (v : Written) (depth left : Nat), v.depth ≤ depth →
    json? anchors (depth + 1) v.node left = v.relaxed?.map (·, left)
  | .null, depth, left, _ => rfl
  | .bool true, depth, left, _ => rfl
  | .bool false, depth, left, _ => rfl
  | .number n, depth, left, _ => json?_number n depth left
  | .string ps, depth, left, _ => rfl
  | .emptyArray inside, depth + 1, left, _ => rfl
  | .emptyObject inside, depth + 1, left, _ => rfl
  | .array items, depth + 1, left, hd => by
    have hitems := readItems_nodes items depth left (Nat.le_of_succ_le_succ hd)
    have hstep : json? anchors (depth + 1 + 1) (Written.array items).node left =
        (readItems (json? anchors (depth + 1)) items.nodes left).map fun r => (.arr r.1, r.2) := rfl
    rw [hstep, hitems, Written.relaxed?, Option.map_map, Option.map_map]
    rfl
  | .object fields, depth + 1, left, hd => by
    have hfields : readEntries (key? anchors) (json? anchors (depth + 1)) [] [] fields.entries left =
        if fields.names.Nodup ∧ ∀ k ∈ ([] : List Text), k ∉ fields.names then
          fields.relaxed?.map fun ps => (Table.ofList ps, left)
        else none :=
      readEntries_entries fields depth left (Nat.le_of_succ_le_succ hd) [] []
    have hstep : json? anchors (depth + 1 + 1) (Written.object fields).node left =
        (readEntries (key? anchors) (json? anchors (depth + 1)) [] [] fields.entries left).map
          fun r => (.obj r.1, r.2) := rfl
    rw [hstep, hfields, Written.relaxed?]
    by_cases hnodup : fields.names.Nodup
    · rw [if_pos ⟨hnodup, nofun⟩, if_pos hnodup, Option.map_map, Option.map_map]
      rfl
    · rw [if_neg fun h => hnodup h.1, if_neg hnodup]
      rfl

theorem readItems_nodes : ∀ (items : WrittenItems) (depth left : Nat), items.depth ≤ depth →
    readItems (json? anchors (depth + 1)) items.nodes left = items.relaxed?.map (·, left)
  | .last before v after, depth, left, hd => by
    simp only [WrittenItems.nodes, readItems, json?_node v depth left hd]
    rw [WrittenItems.relaxed?]
    cases v.relaxed? with
    | none => rfl
    | some x => rfl
  | .cons before v after items, depth, left, hd => by
    rw [WrittenItems.depth] at hd
    simp only [WrittenItems.nodes, readItems, json?_node v depth left (by omega)]
    rw [WrittenItems.relaxed?]
    cases v.relaxed? with
    | none => rfl
    | some x =>
      simp only [Option.map_some, Option.bind_some, readItems_nodes items depth left (by omega),
        Option.map_map]
      rfl

theorem readEntries_entries : ∀ (fields : WrittenFields) (depth left : Nat), fields.depth ≤ depth →
    ∀ (seen : List Text) (table : Table Json),
      readEntries (key? anchors) (json? anchors (depth + 1)) (seen.map .text) table fields.entries
          left =
        if fields.names.Nodup ∧ ∀ k ∈ seen, k ∉ fields.names then
          fields.relaxed?.map fun ps => (Table.merge table ps, left)
        else none
  | .last k v after, depth, left, hd, seen, table => by
    rw [WrittenFields.entries, readEntries_cons seen _ (json?_node v depth left hd),
      WrittenFields.relaxed?, WrittenFields.names]
    cases v.relaxed? with
    | none => simp
    | some x =>
      by_cases hk : stringOf k.name ∈ seen
      · simp [hk]
      · simp [hk, readEntries, Table.merge]
  | .cons k v after fields, depth, left, hd, seen, table => by
    rw [WrittenFields.depth] at hd
    rw [WrittenFields.entries, readEntries_cons seen _ (json?_node v depth left (by omega)),
      WrittenFields.relaxed?, WrittenFields.names]
    cases v.relaxed? with
    | none => simp
    | some x =>
      rw [Option.bind_some, Option.bind_some, readEntries_entries fields depth left (by omega)]
      by_cases hk : stringOf k.name ∈ seen
      · simp only [fresh_cons, hk, not_true_eq_false, false_and, if_true, if_false]
      · simp only [fresh_cons, hk, not_false_eq_true, true_and, if_false, Option.map_map]
        rfl

end

end

theorem toJson?_node {v : Written} (hd : v.depth ≤ Json.Reader.depthLimit) :
    toJson? v.node = v.relaxed? := by
  have hdepth : v.depth ≤ depthLimit := Nat.le_trans hd (by decide)
  rw [toJson?, json?_node v depthLimit _ hdepth, Option.map_map]
  exact Option.map_id'

end Node

end Relaxed

/-! ## What is read of an unambiguous document -/

namespace Json

open Relaxed (Scalar)

theorem WrittenNumber.relaxed?_eq_some_iff (n : WrittenNumber) :
    (Scalar.ofPlain? n.text).map Scalar.json = some (.num n.number) ↔ n.Unambiguous := by
  cases hn : n.number with
  | int k =>
    have hplain := Scalar.ofPlain?_of_read? (n.reads.trans (congrArg some hn))
    exact iff_of_true (congrArg (Option.map Scalar.json) hplain) fun x hx => by cases hn.symm.trans hx
  | real x =>
    have hread := n.reads.trans (congrArg some hn)
    constructor
    · intro h y hy
      cases hn.symm.trans hy
      obtain ⟨s, hs, hjson⟩ := Option.map_eq_some_iff.mp h
      cases s with
      | real z =>
        cases hjson
        exact .inr hs
      | _ => cases hjson
    · intro h
      have hplain : Scalar.ofPlain? n.text = some (.real x) :=
        (h x hn).elim (Scalar.ofPlain?_of_isShort hread) id
      exact congrArg (Option.map Scalar.json) hplain

def WrittenFields.pairs : WrittenFields → List (Text × Json)
  | .last k v _ => [(stringOf k.name, v.value)]
  | .cons k v _ rest => (stringOf k.name, v.value) :: rest.pairs

theorem WrittenFields.enter_eq_merge : ∀ (fields : WrittenFields) (table : Table Json),
    fields.enter table = Table.merge table fields.pairs
  | .last _ _ _, _ => rfl
  | .cons _ _ _ rest, _ => rest.enter_eq_merge _

theorem WrittenFields.keys_pairs : ∀ fields : WrittenFields,
    Table.keys fields.pairs = fields.names
  | .last _ _ _ => rfl
  | .cons _ _ _ rest => congrArg (_ :: ·) rest.keys_pairs

theorem WrittenFields.keys_relaxed? : ∀ {fields : WrittenFields} {ps : List (Text × Json)},
    fields.relaxed? = some ps → Table.keys ps = fields.names
  | .last k v _, ps, h => by
    obtain ⟨x, -, rfl⟩ := Option.map_eq_some_iff.mp h
    rfl
  | .cons k v _ rest, ps, h => by
    obtain ⟨x, -, h⟩ := Option.bind_eq_some_iff.mp h
    obtain ⟨qs, hqs, rfl⟩ := Option.map_eq_some_iff.mp h
    exact congrArg (_ :: ·) (keys_relaxed? hqs)

mutual

theorem Written.relaxed?_eq_some_iff : ∀ v : Written, v.relaxed? = some v.value ↔ v.Unambiguous
  | .null => iff_of_true rfl trivial
  | .bool _ => iff_of_true rfl trivial
  | .number n => n.relaxed?_eq_some_iff
  | .string _ => iff_of_true rfl trivial
  | .emptyArray _ => iff_of_true rfl trivial
  | .array items => by
    rw [Written.relaxed?, Written.value, Written.Unambiguous, ← items.relaxed?_eq_some_iff]
    simp
  | .emptyObject _ => iff_of_true rfl trivial
  | .object fields => by
    rw [Written.relaxed?, Written.value, Written.Unambiguous, ← fields.relaxed?_eq_some_iff]
    by_cases hnodup : fields.names.Nodup
    · rw [if_pos hnodup, and_iff_right hnodup, fields.enter_eq_merge, Option.map_eq_some_iff]
      constructor
      · rintro ⟨ps, hps, h⟩
        have hkeys : Table.keys ps = Table.keys fields.pairs :=
          (WrittenFields.keys_relaxed? hps).trans fields.keys_pairs.symm
        have hps' : (Table.keys ps).Nodup := by
          rw [WrittenFields.keys_relaxed? hps]
          exact hnodup
        rw [hps, Table.merge_inj hkeys hps' (Json.obj.inj h)]
      · exact fun h => ⟨_, h, rfl⟩
    · rw [if_neg hnodup]
      exact iff_of_false nofun fun h => hnodup h.1

theorem WrittenItems.relaxed?_eq_some_iff : ∀ items : WrittenItems,
    items.relaxed? = some items.values ↔ items.Unambiguous
  | .last _ v _ => by
    rw [WrittenItems.relaxed?, WrittenItems.values, WrittenItems.Unambiguous,
      ← v.relaxed?_eq_some_iff]
    simp
  | .cons _ v _ rest => by
    rw [WrittenItems.relaxed?, WrittenItems.values, WrittenItems.Unambiguous,
      ← v.relaxed?_eq_some_iff, ← rest.relaxed?_eq_some_iff]
    simp [Option.bind_eq_some_iff]

theorem WrittenFields.relaxed?_eq_some_iff : ∀ fields : WrittenFields,
    fields.relaxed? = some fields.pairs ↔ fields.Unambiguous
  | .last _ v _ => by
    rw [WrittenFields.relaxed?, WrittenFields.pairs, WrittenFields.Unambiguous,
      ← v.relaxed?_eq_some_iff]
    simp
  | .cons _ v _ rest => by
    rw [WrittenFields.relaxed?, WrittenFields.pairs, WrittenFields.Unambiguous,
      ← v.relaxed?_eq_some_iff, ← rest.relaxed?_eq_some_iff]
    simp [Option.bind_eq_some_iff]

end

end Json

end Fixtures
