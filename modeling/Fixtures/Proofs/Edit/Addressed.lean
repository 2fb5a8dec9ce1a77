import Fixtures.Proofs.Edit.Delete
import Fixtures.Proofs.Path.Parent

/-!
# Edits and the nodes they address

Whether an edit of a document succeeds, how it fails and what it leaves is told by
the node at its path or, where it adds a node, by the node at the parent
(`Edit.Addressed`). So reading the paths of a document is enough to know what an
edit will do to it.
-/

namespace Fixtures

/-! ## Containers -/

namespace Segment

variable {s : Segment} {v v' w : Json}

/-- A new node can be put at the segment: into an object at any name, into an array
at any position up to its end. -/
def Admits : Segment → Json → Prop
  | .field _, .obj _ => True
  | .index i, .arr items => i ≤ items.length
  | _, _ => False

theorem exists_put?_iff : (∃ v', s.put? w v = some v') ↔ s.Admits v := by
  cases s with
  | field k =>
    cases v with
    | obj t => exact ⟨fun _ => trivial, fun _ => ⟨_, rfl⟩⟩
    | _ => simp [put?, Admits]
  | index i =>
    cases v with
    | arr l =>
      simp only [put?, Admits]
      split <;> simp [*]
    | _ => simp [put?, Admits]

theorem get?_put?_self (h : s.put? w v = some v') : s.get? v' = some w := by
  rcases put?_cases h with ⟨k, t, rfl, rfl, rfl⟩ | ⟨i, l, rfl, hi, rfl, rfl⟩
  · exact Table.get?_insert_self k w t
  · rw [get?, List.getElem?_insertIdx_self, if_pos hi]

theorem remove?_eq_self_iff : s.remove? v = none ∨ s.remove? v = some v ↔ s.get? v = none := by
  cases s with
  | field k =>
    cases v with
    | obj t => simp [remove?, get?, Table.erase_eq_self_iff]
    | _ => exact ⟨fun _ => rfl, fun _ => .inl rfl⟩
  | index i =>
    cases v with
    | arr l =>
      rw [get?, List.getElem?_eq_none_iff]
      by_cases hi : i < l.length
      · have hne := remove?_index_ne_self hi
        rw [remove?_index, if_pos hi] at hne ⊢
        simp [hne, hi]
      · rw [remove?_index, if_neg hi]
        simp [Nat.le_of_not_lt hi]
    | _ => exact ⟨fun _ => rfl, fun _ => .inl rfl⟩

end Segment

/-! ## Paths -/

namespace Json

variable {path c : List Segment} {s : Segment} {root root' v : Json}

theorem exists_put?_iff :
    (∃ root', root.put? path v = some root') ↔
      ∃ c s w, path = c ++ [s] ∧ root.get? c = some w ∧ s.Admits w := by
  constructor
  · rintro ⟨root', h⟩
    obtain ⟨c, s, hpath, h⟩ := put?_eq_some_iff.mp h
    obtain ⟨w, w', hw, hput, -⟩ := get?_of_modify? h
    exact ⟨c, s, w, hpath, hw, Segment.exists_put?_iff.mp ⟨w', hput⟩⟩
  · rintro ⟨c, s, w, hpath, hw, hadmits⟩
    obtain ⟨w', hput⟩ := Segment.exists_put?_iff.mpr hadmits
    obtain ⟨root', hroot⟩ := modify?_isSome hw hput
    exact ⟨root', put?_eq_some_iff.mpr ⟨c, s, hpath, hroot⟩⟩

theorem get?_put? (h : root.put? path v = some root') : root'.get? path = some v := by
  obtain ⟨c, s, rfl, hroot⟩ := put?_eq_some_iff.mp h
  obtain ⟨w, w', -, hput, hw'⟩ := get?_of_modify? hroot
  rw [get?_concat, hw', Option.bind_some, Segment.get?_put?_self hput]

theorem getD_remove?_eq_self_iff :
    (root.remove? path).getD root = root ↔ path = [] ∨ root.get? path = none := by
  rcases List.eq_nil_or_concat path with rfl | ⟨c, s, rfl⟩
  · simp [remove?_nil]
  rw [List.concat_eq_append, remove?_concat, get?_concat]
  cases hv : root.get? c with
  | none =>
    have hnone : root.modify? s.remove? c = none := by
      rw [modify?_eq_none_iff, hv, Option.bind_none]
    simp [hnone]
  | some v =>
    rw [getD_modify?_eq_self_iff hv, Segment.remove?_eq_self_iff, Option.bind_some]
    simp

end Json

def Path.HasRoom (p : Path) (root : Json) : Prop :=
  ∃ parent s v, p.parent? = some parent ∧ p.last? = some s ∧
    root.get? parent.segments = some v ∧ s.Admits v

theorem Path.hasRoom_iff {p : Path} {root : Json} (w : Json) :
    p.HasRoom root ↔ ∃ root', root.put? p.segments w = some root' := by
  rw [Json.exists_put?_iff]
  constructor
  · rintro ⟨parent, s, v, hparent, hlast, hv, hs⟩
    obtain ⟨-, rfl⟩ := Path.parent?_eq_some_iff.mp hparent
    obtain ⟨c, hc⟩ := List.getLast?_eq_some_iff.mp hlast
    refine ⟨c, s, v, hc, ?_, hs⟩
    rw [Path.ofSegments, hc, List.dropLast_concat] at hv
    exact hv
  · rintro ⟨c, s, v, hc, hv, hs⟩
    refine ⟨Path.ofSegments c, s, v, Path.parent?_eq_some_iff.mpr ⟨?_, ?_⟩, ?_, hv, hs⟩
    · rw [hc]
      exact List.append_ne_nil_of_right_ne_nil c (List.cons_ne_nil s [])
    · rw [hc, List.dropLast_concat]
    · rw [Path.last?, hc, List.getLast?_concat]

/-! ## Edits -/

namespace Edit

variable {e : Edit} {p : Path} {root root' v : Json} {f : Text → Text} {t : Text}

def Leaves (e : Edit) (p : Path) (root v : Json) : Prop :=
  ∃ root', e.onDocument root = .ok root' ∧ root'.get? p.segments = some v

/-- What becomes of an edit whose locator is the path `p`. -/
structure Addressed (e : Edit) (p : Path) (root : Json) : Prop where
  delete : e.operation = .delete → ∃ root', e.onDocument root = .ok root' ∧
    (root' ≠ root ↔ p.isRoot = false ∧ ∃ v, root.get? p.segments = some v)
  add : e.operation = .add →
    (p.HasRoom root →
      (∀ v, Json.parse e.argument = .ok v → e.Leaves p root v) ∧
        ∀ error, Json.parse e.argument = .error error → e.Leaves p root (.str e.argument)) ∧
      (¬ p.HasRoom root → e.onDocument root = .error (.pathNotFound p.text))
  update : e.operation = .update →
    (∀ v, root.get? p.segments = some v → e.Leaves p root (.str e.argument)) ∧
      (root.get? p.segments = none → e.onDocument root = .error (.pathNotFound e.locator))
  reword : ∀ f, e.rewording? = some f →
    (∀ t, root.get? p.segments = some (.str t) → e.Leaves p root (.str (f t))) ∧
      (∀ v, root.get? p.segments = some v → (∀ t, v ≠ .str t) →
        e.onDocument root = .error (.notAString e.locator)) ∧
      (root.get? p.segments = none → e.onDocument root = .error (.pathNotFound e.locator))
  arrowless : e.operation = .replace → Text.has ['-', '>'] e.argument = false →
    e.onDocument root = .error (.invalidReplacement e.argument)
  apart : ∀ root' q, e.onDocument root = .ok root' → Path.Apart p.segments q →
    ¬ e.Shifts root q → root'.get? q = root.get? q

theorem value_of_parse (h : Json.parse e.argument = .ok v) : e.value = v := by
  rw [value, h]

theorem value_of_parse_error {error : Json.SyntaxError} (h : Json.parse e.argument = .error error) :
    e.value = .str e.argument := by
  rw [value, h]

theorem rewordNode_ne_invalidLocator (l : Text) (error : PathError) :
    (e.rewordNode p f).result root ≠ .error (.invalidLocator l error) := by
  rw [result_rewordNode]
  split <;> nofun

theorem invalidLocator_iff {l : Text} {error : PathError} :
    e.onDocument root = .error (.invalidLocator l error) ↔
      l = e.locator ∧ Path.parse e.locator = .error error := by
  unfold onDocument editDocument
  cases hp : Path.parse e.locator with
  | error error' => simp [InPlace.result_throw, eq_comm]
  | ok p =>
    refine ⟨fun h => ?_, nofun⟩
    cases ho : e.operation with
    | delete =>
      simp only [ho, result_deleteNode] at h
      cases h
    | add =>
      simp only [ho, result_addNode] at h
      split at h <;> cases h
    | update =>
      simp only [ho, result_updateNode] at h
      split at h <;> cases h
    | append =>
      simp only [ho] at h
      exact absurd h (rewordNode_ne_invalidLocator l error)
    | prepend =>
      simp only [ho] at h
      exact absurd h (rewordNode_ne_invalidLocator l error)
    | replace =>
      simp only [ho, replacement] at h
      cases hcut : Text.cut? ['-', '>'] e.argument with
      | none =>
        simp only [hcut] at h
        cases h
      | some sides =>
        simp only [hcut] at h
        exact absurd h (rewordNode_ne_invalidLocator l error)

section
variable (hp : Path.parse e.locator = .ok p)
include hp

theorem onDocument_add_of_some (ho : e.operation = .add)
    (h : root.put? p.segments e.value = some root') : e.onDocument root = .ok root' := by
  simp only [onDocument, editDocument, hp, ho, result_addNode, h]

theorem onDocument_add_of_none (ho : e.operation = .add)
    (h : root.put? p.segments e.value = none) :
    e.onDocument root = .error (.pathNotFound p.text) := by
  simp only [onDocument, editDocument, hp, ho, result_addNode, h]

theorem leaves_of_string (hf : e.rewording? = some f)
    (ht : root.get? p.segments = some (.str t)) : e.Leaves p root (.str (f t)) := by
  obtain ⟨root', hset⟩ := Json.set?_isSome ht (.str (f t))
  refine ⟨root', ?_, Json.get?_set? hset⟩
  rw [onDocument_of_rewording hp hf, result_rewordNode, ht]
  simp only [hset, Option.getD_some]

theorem notAString_of_other (hf : e.rewording? = some f) (hv : root.get? p.segments = some v)
    (hstr : ∀ t, v ≠ .str t) : e.onDocument root = .error (.notAString e.locator) := by
  rw [onDocument_of_rewording hp hf, result_rewordNode, hv]
  cases v with
  | str t => exact absurd rfl (hstr t)
  | _ => rfl

theorem pathNotFound_of_missing (hf : e.rewording? = some f) (hv : root.get? p.segments = none) :
    e.onDocument root = .error (.pathNotFound e.locator) := by
  rw [onDocument_of_rewording hp hf, result_rewordNode, hv]

theorem addressed_of_parse (root : Json) : e.Addressed p root where
  delete ho := by
    refine ⟨_, onDocument_delete ho hp root, ?_⟩
    rw [ne_eq, Json.getD_remove?_eq_self_iff, not_or, Path.isRoot, List.isEmpty_eq_false_iff,
      ← Option.ne_none_iff_exists']
  add ho := by
    constructor
    · intro hroom
      obtain ⟨root', hput⟩ := (Path.hasRoom_iff e.value).mp hroom
      have hleaves : e.Leaves p root e.value :=
        ⟨root', onDocument_add_of_some hp ho hput, Json.get?_put? hput⟩
      exact ⟨fun v hv => value_of_parse hv ▸ hleaves,
        fun error herror => value_of_parse_error herror ▸ hleaves⟩
    · intro hroom
      apply onDocument_add_of_none hp ho
      rw [Option.eq_none_iff_forall_ne_some]
      exact fun root' h => hroom ((Path.hasRoom_iff e.value).mpr ⟨root', h⟩)
  update ho := by
    constructor
    · intro v hv
      obtain ⟨root', hset⟩ := Json.set?_isSome hv (.str e.argument)
      refine ⟨root', ?_, Json.get?_set? hset⟩
      simp only [onDocument, editDocument, hp, ho, result_updateNode, hset]
    · intro hv
      have hset : root.set? p.segments (.str e.argument) = none := by
        rw [Json.set?, Json.modify?_eq_none_iff, hv, Option.bind_none]
      simp only [onDocument, editDocument, hp, ho, result_updateNode, hset]
  reword f hf :=
    ⟨fun _ => leaves_of_string hp hf, fun _ => notAString_of_other hp hf,
      pathNotFound_of_missing hp hf⟩
  arrowless ho harrow := by
    have hcut : Text.cut? ['-', '>'] e.argument = none := by
      rw [Text.has, Option.isSome_eq_false_iff, Option.isNone_iff_eq_none] at harrow
      exact harrow
    simp only [onDocument, editDocument, hp, ho, replacement, hcut, InPlace.result_throw]
  apart root' q h hq hshift := by
    refine (sameAlong_onDocument h ?_ hshift).1
    intro p' hp'
    rw [hp] at hp'
    cases hp'
    exact hq

end

/-- **Edits do what their path asks.** An edit of a document is refused for its
locator exactly if that is no path. Otherwise the nodes at the path and at its
parent tell whether it succeeds, how it fails and what it leaves. -/
theorem onDocument_addressed (e : Edit) (root : Json) :
    (∀ l error, e.onDocument root = .error (.invalidLocator l error) ↔
      l = e.locator ∧ Path.parse e.locator = .error error) ∧
      ∀ p, Path.parse e.locator = .ok p → e.Addressed p root :=
  ⟨fun _ _ => invalidLocator_iff, fun _ hp => addressed_of_parse hp root⟩

def itemDocument : Json := .obj [(['a'], .arr [.str ['x', 'y']])]

def itemReplaced : Edit := ⟨['a', '[', '0', ']'], .replace, ['y', '-', '>', 'z']⟩

def itemBeyond : Edit := ⟨[' ', 'a', '[', '2', ']'], .add, ['1']⟩

def listBehind : Edit := ⟨['a', '[', '1', ']'], .add, ['[', ']']⟩

theorem onDocument_addressed_items :
    (∃ root', itemReplaced.onDocument itemDocument = .ok root' ∧
        root'.get? [.field ['a'], .index 0] = some (.str ['x', 'z'])) ∧
      itemBeyond.onDocument itemDocument = .error (.pathNotFound ['a', '[', '2', ']']) ∧
      ∃ root', listBehind.onDocument itemDocument = .ok root' ∧
        root'.get? [.field ['a'], .index 1] = some (.arr []) := by
  have hreplaced := (onDocument_addressed itemReplaced itemDocument).2
    ⟨['a', '[', '0', ']'], [.field ['a'], .index 0]⟩ rfl
  have hbeyond := (onDocument_addressed itemBeyond itemDocument).2
    ⟨['a', '[', '2', ']'], [.field ['a'], .index 2]⟩ rfl
  have hbehind := (onDocument_addressed listBehind itemDocument).2
    ⟨['a', '[', '1', ']'], [.field ['a'], .index 1]⟩ rfl
  refine ⟨(hreplaced.reword _ rfl).1 _ rfl, (hbeyond.add rfl).2 ?_, ?_⟩
  · rintro ⟨parent, s, v, hparent, hlast, hv, hs⟩
    cases hparent
    cases hlast
    cases hv
    exact Nat.not_succ_le_self 1 hs
  · have hroom : Path.HasRoom ⟨['a', '[', '1', ']'], [.field ['a'], .index 1]⟩ itemDocument :=
      (Path.hasRoom_iff .null).mpr ⟨_, rfl⟩
    exact ((hbehind.add rfl).1 hroom).1 (.arr []) rfl

end Edit

end Fixtures
