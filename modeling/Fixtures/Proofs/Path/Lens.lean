import Fixtures.Proofs.Path.Independent
import Fixtures.Proofs.Path.Parent

/-!
# Reading and changing the node at a path

Reading and changing go down a path separately. They meet in one node: a change is
possible where a node is read, it is made to the node that is read there, and it leaves
all the rest of the document in its place.
-/

namespace Fixtures

/-! ## One entry -/

theorem modifyItem?_eq_some_iff {α : Type} {f : α → Option α} {i : Nat} {l l' : List α} :
    modifyItem? f i l = some l' ↔
      ∃ a w w' b, a.length = i ∧ l = a ++ w :: b ∧ l' = a ++ w' :: b ∧ f w = some w' := by
  constructor
  · intro h
    induction l generalizing i l' with
    | nil => simp [modifyItem?] at h
    | cons v l ih =>
      cases i with
      | zero =>
        obtain ⟨v', hv, rfl⟩ := Option.map_eq_some_iff.mp h
        exact ⟨[], v, v', l, rfl, rfl, rfl, hv⟩
      | succ i =>
        obtain ⟨rest, hr, rfl⟩ := Option.map_eq_some_iff.mp h
        obtain ⟨a, w, w', b, rfl, rfl, rfl, hf⟩ := ih hr
        exact ⟨v :: a, w, w', b, rfl, rfl, rfl, hf⟩
  · rintro ⟨a, w, w', b, rfl, rfl, rfl, hf⟩
    induction a with
    | nil => simp only [List.nil_append, List.length_nil, modifyItem?, hf, Option.map_some]
    | cons v a ih =>
      simp only [List.cons_append, List.length_cons, modifyItem?, ih, Option.map_some]

theorem Table.modify?_eq_some_iff {α : Type} {f : α → Option α} {k : Text} {t t' : Table α} :
    modify? k f t = some t' ↔
      ∃ a w w' b, k ∉ keys a ∧ t = a ++ (k, w) :: b ∧ t' = a ++ (k, w') :: b ∧ f w = some w' := by
  constructor
  · intro h
    induction t generalizing t' with
    | nil => cases h
    | cons e t ih =>
      obtain ⟨j, v⟩ := e
      rw [modify?] at h
      split at h
      · rename_i hj
        subst hj
        obtain ⟨v', hv, rfl⟩ := Option.map_eq_some_iff.mp h
        exact ⟨[], v, v', t, List.not_mem_nil, rfl, rfl, hv⟩
      · rename_i hj
        obtain ⟨rest, hr, rfl⟩ := Option.map_eq_some_iff.mp h
        obtain ⟨a, w, w', b, ha, rfl, rfl, hf⟩ := ih hr
        refine ⟨(j, v) :: a, w, w', b, ?_, rfl, rfl, hf⟩
        rw [keys, List.map_cons, List.mem_cons, not_or]
        exact ⟨hj, ha⟩
  · rintro ⟨a, w, w', b, ha, rfl, rfl, hf⟩
    induction a with
    | nil => simp only [List.nil_append, modify?, if_true, hf, Option.map_some]
    | cons e a ih =>
      obtain ⟨j, v⟩ := e
      rw [keys, List.map_cons, List.mem_cons, not_or] at ha
      simp only [List.cons_append, modify?, if_neg ha.1, ih ha.2, Option.map_some]

namespace Json

/-- Two documents that differ in the node at a path, which is `v` in the second. Of several
fields with one name the first is meant. -/
inductive ReplacedAt (v : Json) : List Segment → Json → Json → Prop
  | root (w : Json) : ReplacedAt v [] w v
  | field {k : Text} {p : List Segment} {w w' : Json} (a b : List (Text × Json))
      (hk : k ∉ Table.keys a) (h : ReplacedAt v p w w') :
      ReplacedAt v (.field k :: p) (.obj (a ++ (k, w) :: b)) (.obj (a ++ (k, w') :: b))
  | item {p : List Segment} {w w' : Json} (a b : List Json) (h : ReplacedAt v p w w') :
      ReplacedAt v (.index a.length :: p) (.arr (a ++ w :: b)) (.arr (a ++ w' :: b))

variable {f : Json → Option Json} {p : List Segment} {root root' v w c : Json}

theorem set?_cons (root : Json) (s : Segment) (p : List Segment) (v : Json) :
    root.set? (s :: p) v = s.modify? (set? · p v) root := rfl

theorem set?_eq_some_iff : root.set? p v = some root' ↔ ReplacedAt v p root root' := by
  constructor
  · intro h
    induction p generalizing root root' with
    | nil =>
      cases h
      exact .root root
    | cons s p ih =>
      rw [set?_cons] at h
      rcases Segment.modify?_cases h with ⟨k, t, t', rfl, rfl, rfl, hm⟩ | ⟨i, l, l', rfl, rfl, rfl, hm⟩
      · obtain ⟨a, w, w', b, ha, rfl, rfl, hw⟩ := Table.modify?_eq_some_iff.mp hm
        exact .field a b ha (ih hw)
      · obtain ⟨a, w, w', b, rfl, rfl, rfl, hw⟩ := modifyItem?_eq_some_iff.mp hm
        exact .item a b (ih hw)
  · intro h
    induction h with
    | root w => rfl
    | @field k p w w' a b ha _ ih =>
      have hm : Table.modify? k (set? · p v) (a ++ (k, w) :: b) = some (a ++ (k, w') :: b) :=
        Table.modify?_eq_some_iff.mpr ⟨a, w, w', b, ha, rfl, rfl, ih⟩
      rw [set?_cons, Segment.modify?, hm, Option.map_some]
    | @item p w w' a b _ ih =>
      have hm : modifyItem? (set? · p v) a.length (a ++ w :: b) = some (a ++ w' :: b) :=
        modifyItem?_eq_some_iff.mpr ⟨a, w, w', b, rfl, rfl, rfl, ih⟩
      rw [set?_cons, Segment.modify?, hm, Option.map_some]

theorem modify?_eq_bind (root : Json) (f : Json → Option Json) (p : List Segment) :
    root.modify? f p = (root.get? p).bind fun v => (f v).bind (root.set? p) := by
  cases hv : root.get? p with
  | none =>
    have hnone : (root.get? p).bind f = none := by rw [hv, Option.bind_none]
    rw [modify?_eq_none_iff.mpr hnone, Option.bind_none]
  | some v =>
    rw [Option.bind_some]
    cases hf : f v with
    | none =>
      have hnone : (root.get? p).bind f = none := by rw [hv, Option.bind_some, hf]
      rw [modify?_eq_none_iff.mpr hnone, Option.bind_none]
    | some w =>
      rw [Option.bind_some, set?]
      apply modify?_congr
      intro u hu
      rw [hv] at hu
      cases hu
      exact hf

theorem isSome_set? (root : Json) (p : List Segment) (v : Json) :
    (root.set? p v).isSome = (root.get? p).isSome := by
  cases hv : root.get? p with
  | none =>
    have hnone : (root.get? p).bind (fun _ => some v) = none := by rw [hv, Option.bind_none]
    rw [set?, modify?_eq_none_iff.mpr hnone]
  | some u =>
    obtain ⟨root', h⟩ := set?_isSome hv v
    rw [h, Option.isSome_some, Option.isSome_some]

theorem set?_set? (h : root.set? p v = some root') (w : Json) : root'.set? p w = root.set? p w := by
  have htwice := modify?_bind (fun _ => some v) (fun _ => some w) p root
  rw [set?] at h
  rwa [h] at htwice

theorem isContainer_of_segment {s : Segment} (h : s.get? c = some v) : c.isContainer = true := by
  cases s with
  | field k =>
    cases c with
    | obj t => rfl
    | _ => cases h
  | index i =>
    cases c with
    | arr l => rfl
    | _ => cases h

theorem exists_parent {p : Path} (hp : p.isRoot = false) (h : root.get? p.segments = some v) :
    ∃ q s c, p.parent? = some q ∧ p.last? = some s ∧ root.get? q.segments = some c ∧
      c.isContainer = true ∧ s.get? c = some v := by
  obtain ⟨text, segments⟩ := p
  rcases List.eq_nil_or_concat segments with rfl | ⟨init, s, rfl⟩
  · cases hp
  rw [List.concat_eq_append] at h ⊢
  obtain ⟨c, hc, hs⟩ := Option.bind_eq_some_iff.mp ((get?_concat root init s).symm.trans h)
  have hparent : Path.parent? ⟨text, init ++ [s]⟩ = some (Path.ofSegments init) := by
    refine Path.parent?_eq_some_iff.mpr ⟨?_, ?_⟩
    · exact List.append_ne_nil_of_right_ne_nil init (List.cons_ne_nil s [])
    · rw [List.dropLast_concat]
  exact ⟨_, s, c, hparent, List.getLast?_concat, hc, isContainer_of_segment hs, hs⟩

/-- **Reading and changing a node are a lens.** A change is made to the node that is read,
and only if there is one. What has been written is read; it stands where the node stood in
an otherwise equal document; a second write makes the first one undone, and writing what
was read does nothing. A path in two pieces is followed one piece after the other, so
above every node stands the container that holds it. -/
theorem lens_at_path (root : Json) (p : Path) :
    (∀ f, root.modify? f p.segments =
      (root.get? p.segments).bind fun v => (f v).bind (root.set? p.segments)) ∧
    (∀ v, (root.set? p.segments v).isSome = (root.get? p.segments).isSome) ∧
    (∀ v root', root.set? p.segments v = some root' →
      root'.get? p.segments = some v ∧ ReplacedAt v p.segments root root' ∧
        ∀ w, root'.set? p.segments w = root.set? p.segments w) ∧
    (∀ v, root.get? p.segments = some v → root.set? p.segments v = some root) ∧
    (∀ q r, p.segments = q ++ r → root.get? p.segments = (root.get? q).bind (get? · r)) ∧
    ∀ v, p.isRoot = false → root.get? p.segments = some v →
      ∃ q s c, p.parent? = some q ∧ p.last? = some s ∧ root.get? q.segments = some c ∧
        c.isContainer = true ∧ s.get? c = some v := by
  refine ⟨fun f => modify?_eq_bind root f _, isSome_set? root _, ?_, ?_, ?_, ?_⟩
  · intro v root' h
    exact ⟨get?_set? h, set?_eq_some_iff.mp h, set?_set? h⟩
  · intro v h
    exact modify?_eq_self h rfl
  · intro q r h
    rw [h, get?_append]
  · intro v hp h
    exact exists_parent hp h

def shelves : Json := .obj [(['a'], .arr [.null, .obj [(['b'], .str ['x']), (['c'], .null)]])]

def shelfPath : Path := ⟨['a', '[', '1', ']', '.', 'b'], [.field ['a'], .index 1, .field ['b']]⟩

theorem lens_at_path_nested :
    (∃ root', shelves.set? shelfPath.segments .null = some root' ∧
      root'.get? shelfPath.segments = some .null ∧
      root'.set? shelfPath.segments (.str ['x']) = some shelves) ∧
    shelves.get? shelfPath.segments =
      (shelves.get? [.field ['a']]).bind (get? · [.index 1, .field ['b']]) ∧
    ∃ q c, shelfPath.parent? = some q ∧ shelves.get? q.segments = some c ∧
      Segment.get? (.field ['b']) c = some (.str ['x']) := by
  obtain ⟨-, -, hset, hsame, hsplit, hparent⟩ := lens_at_path shelves shelfPath
  have hread : shelves.get? shelfPath.segments = some (.str ['x']) := rfl
  obtain ⟨hget, -, hagain⟩ := hset .null _ rfl
  obtain ⟨q, s, c, hq, hs, hc, -, hv⟩ := hparent _ rfl hread
  cases hs
  exact ⟨⟨_, rfl, hget, (hagain _).trans (hsame _ hread)⟩, hsplit _ _ rfl, q, c, hq, hc, hv⟩

end Json

end Fixtures
