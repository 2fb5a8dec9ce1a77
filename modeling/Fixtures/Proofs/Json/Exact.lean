import Fixtures.Proofs.Json.Shaped

/-!
# Every document as it is written is read

The other direction of the grammar: the machine gets through the text of any
document, to its value. So the texts that are read are those of documents, and
the document of a text has the value that is read. Nothing is passed over, so this
is a reading of no particular shape, in which a later field replaces an earlier one.
-/

namespace Fixtures.Json

theorem Shape.inside?_any (frames : List Frame) : Shape.any.inside? frames = some .any := by
  induction frames with
  | nil => rfl
  | cons f frames ih =>
    cases f with
    | array items => exact ih
    | object fields key => exact ih

theorem Reader.knows_plain : Knows .plain .any := by
  intro frames
  rw [Shape.inside?_any]
  rfl

mutual

theorem Written.readAs_any : ∀ v : Written, v.readAs Policy.plain.enter (some .any) = v.value
  | .null => rfl
  | .bool _ => rfl
  | .number _ => rfl
  | .string ps => by rw [Written.readAs, Option.isSome_some, stringAs_true, Written.value]
  | .emptyArray _ => rfl
  | .array items => by rw [Written.readAs, WrittenItems.readAs_any items, Written.value]
  | .emptyObject _ => rfl
  | .object fields => by rw [Written.readAs, WrittenFields.readAs_any [] fields, Written.value]

theorem WrittenItems.readAs_any : ∀ (items : WrittenItems) (n : Nat),
    items.readAs Policy.plain.enter (some .any) n = items.values
  | .last _ v _, n => congrArg (fun u => [u]) v.readAs_any
  | .cons _ v _ rest, n => by
    have hv : v.readAs Policy.plain.enter ((some Shape.any).map (·.item n)) = v.value :=
      v.readAs_any
    rw [WrittenItems.readAs, hv, rest.readAs_any, WrittenItems.values]

theorem WrittenFields.readAs_any : ∀ (fields : Table Json) (fs : WrittenFields),
    fs.readAs Policy.plain.enter (some .any) fields = fs.enter fields
  | fields, .last k v _ => by
    have hv : v.readAs Policy.plain.enter
        ((some Shape.any).bind (·.field? (stringOf k.name))) = v.value := v.readAs_any
    rw [WrittenFields.readAs, Option.isSome_some, stringAs_true, hv]
    rfl
  | fields, .cons k v _ rest => by
    have hv : v.readAs Policy.plain.enter
        ((some Shape.any).bind (·.field? (stringOf k.name))) = v.value := v.readAs_any
    rw [WrittenFields.readAs, Option.isSome_some, stringAs_true, hv, rest.readAs_any]
    rfl

end

mutual

theorem Written.depthIn_any : ∀ v : Written, v.depthIn .any = v.depth
  | .null => rfl
  | .bool _ => rfl
  | .number _ => rfl
  | .string _ => rfl
  | .emptyArray _ => rfl
  | .array items => congrArg (· + 1) (WrittenItems.depthIn_any items 0)
  | .emptyObject _ => rfl
  | .object fields => congrArg (· + 1) (WrittenFields.depthIn_any fields)

theorem WrittenItems.depthIn_any : ∀ (items : WrittenItems) (n : Nat),
    items.depthIn .any n = items.depth
  | .last _ v _, _ => v.depthIn_any
  | .cons _ v _ rest, n => by
    have hv : v.depthIn (Shape.any.item n) = v.depth := v.depthIn_any
    rw [WrittenItems.depthIn, hv, rest.depthIn_any, WrittenItems.depth]

theorem WrittenFields.depthIn_any : ∀ fs : WrittenFields, fs.depthIn .any = fs.depth
  | .last _ v _ => v.depthIn_any
  | .cons k v _ rest => by
    have hv : (Shape.any.field? (stringOf k.name)).elim 0 (v.depthIn ·) = v.depth := v.depthIn_any
    rw [WrittenFields.depthIn, hv, rest.depthIn_any, WrittenFields.depth]

end

theorem parse_text (d : WrittenDocument) : parse d.text = .ok d.value := by
  have hd : d.root.depthIn .any ≤ Reader.depthLimit := by
    rw [Written.depthIn_any]
    exact d.shallow
  have hrun : Reader.run .plain Reader.start d.text = .ok d.value := by
    rw [WrittenDocument.value, ← Written.readAs_any]
    exact Reader.run_text Reader.knows_plain hd d.before d.after
  rw [parse, Reader.read, hrun]

/-- **The texts that are read are those of documents, with the values that are read.** -/
theorem parse_eq_ok_iff {t : Text} {v : Json} :
    parse t = .ok v ↔ ∃ d : WrittenDocument, d.text = t ∧ d.value = v := by
  refine ⟨exists_written_of_parse, ?_⟩
  rintro ⟨d, rfl, rfl⟩
  exact parse_text d

end Fixtures.Json
