import Fixtures.Proofs.Json.WellFormed
import Fixtures.Proofs.Path.Nodes

/-!
# Changes beside one another

Whatever a change does at one segment of a container is known from what it makes
of the node there (`Segment.ActsAt`): it leaves the other nodes, the kind of the
container and the order of its fields alone. Two changes at different segments
therefore see nothing of each other, and can be made in either order. Changes
whose paths part do so in the container where the paths part.
-/

namespace Fixtures

/-- Two changes of `a` that can be made in either order: neither makes the other
possible or impossible, and the result is the same. -/
structure Independent {α : Type} (f g : α → Option α) (a : α) : Prop where
  left : ∀ b, f a = some b → (g b).isSome = (g a).isSome
  right : ∀ b, g a = some b → (f b).isSome = (f a).isSome
  comm : (f a).bind g = (g a).bind f

/-- A change that leaves everything as it is where it is not possible. -/
def orSame {α : Type} (f : α → Option α) (a : α) : Option α := some ((f a).getD a)

namespace Independent

variable {α : Type} {f g : α → Option α} {a : α}

theorem symm (h : Independent f g a) : Independent g f a := ⟨h.right, h.left, h.comm.symm⟩

theorem some_left (g : α → Option α) (a : α) : Independent some g a := by
  refine ⟨?_, fun _ _ => rfl, ?_⟩
  · rintro b ⟨⟩
    rfl
  · rw [Option.bind_some]
    cases g a with
    | none => rfl
    | some b => rfl

theorem orSame_left (h : Independent f g a) : Independent (orSame f) g a := by
  refine ⟨?_, fun _ _ => rfl, ?_⟩
  · intro b hb
    cases hf : f a with
    | none =>
      rw [orSame, hf] at hb
      cases hb
      rfl
    | some b' =>
      rw [orSame, hf] at hb
      cases hb
      exact h.left b' hf
  · cases hf : f a with
    | none =>
      rw [orSame, hf, Option.getD_none, Option.bind_some]
      cases hg : g a with
      | none => rfl
      | some c =>
        have hc := h.right c hg
        rw [hf, Option.isSome_none, Option.isSome_eq_false_iff, Option.isNone_iff_eq_none] at hc
        rw [Option.bind_some, orSame, hc, Option.getD_none]
    | some b =>
      have hcomm := h.comm
      rw [hf, Option.bind_some] at hcomm
      rw [orSame, hf, Option.getD_some, Option.bind_some, hcomm]
      cases hg : g a with
      | none => rfl
      | some c =>
        have hc := h.right c hg
        rw [hf, Option.isSome_some] at hc
        obtain ⟨d, hd⟩ := Option.isSome_iff_exists.mp hc
        rw [Option.bind_some, Option.bind_some, orSame, hd, Option.getD_some]

end Independent

/-! ## One segment -/

def Json.InOrder : Json → Prop
  | .obj fields => Table.Sorted fields
  | _ => True

theorem Json.WellFormed.inOrder {v : Json} (h : v.WellFormed) : v.InOrder := by
  cases v with
  | obj fields => exact (wellFormed_obj.mp h).1
  | _ => trivial

namespace Segment

variable {s s' : Segment} {v v' w : Json} {a b : Json → Option Json}
  {φ ψ : Option Json → Option (Option Json)}

def fits : Segment → Json → Bool
  | .field _, .obj _ => true
  | .index _, .arr _ => true
  | _, _ => false

theorem fits_of_kindName (s : Segment) (h : v'.kindName = v.kindName) : s.fits v' = s.fits v := by
  cases s with
  | field k =>
    have hname (u : Json) : (field k).fits u = (u.kindName == "an object") := by
      cases u <;> simp [fits, Json.kindName]
    rw [hname, hname, h]
  | index i =>
    have hname (u : Json) : (index i).fits u = u.isArray := by cases u <;> rfl
    rw [hname, hname, Json.isArray_of_kindName h]

theorem ext_of_get? (hs : s.fits v = true) (hs' : s.fits w = true) (hv : v.InOrder) (hw : w.InOrder)
    (h : ∀ j : Segment, j.get? v = j.get? w) : v = w := by
  cases s with
  | field k =>
    cases v with
    | obj t =>
      cases w with
      | obj t' => exact congrArg Json.obj (Table.ext hv hw fun j => h (.field j))
      | _ => cases hs'
    | _ => cases hs
  | index i =>
    cases v with
    | arr l =>
      cases w with
      | arr l' => exact congrArg Json.arr (List.ext_getElem? fun j => h (.index j))
      | _ => cases hs'
    | _ => cases hs

/-- A change of containers at one segment. `φ` says what it makes of the node
there, where nothing stands for no node. -/
structure ActsAt (s : Segment) (φ : Option Json → Option (Option Json))
    (a : Json → Option Json) : Prop where
  isSome : ∀ v, (a v).isSome = (s.fits v && (φ (s.get? v)).isSome)
  node : ∀ {v v'}, v.InOrder → a v = some v' → φ (s.get? v) = some (s.get? v')
  others : ∀ {v v' s'}, s' ≠ s → a v = some v' → s'.get? v' = s'.get? v
  fits : ∀ {v v'}, a v = some v' → ∀ s' : Segment, s'.fits v' = s'.fits v
  inOrder : ∀ {v v'}, v.InOrder → a v = some v' → v'.InOrder

def onNode (f : Json → Option Json) (node : Option Json) : Option (Option Json) :=
  node.bind fun v => (f v).map some

theorem fits_of_get? (h : s.get? v = some w) : s.fits v = true := by
  cases s with
  | field k =>
    cases v with
    | obj t => rfl
    | _ => cases h
  | index i =>
    cases v with
    | arr l => rfl
    | _ => cases h

theorem modify?_isSome_eq (s : Segment) (f : Json → Option Json) (v : Json) :
    (s.modify? f v).isSome = ((s.get? v).bind f).isSome := by
  rw [Bool.eq_iff_iff, Option.isSome_iff_exists, Option.isSome_iff_exists]
  constructor
  · rintro ⟨v', h⟩
    obtain ⟨u, u', hu, hf, -⟩ := get?_of_modify? h
    exact ⟨u', by rw [hu, Option.bind_some, hf]⟩
  · rintro ⟨u', h⟩
    obtain ⟨u, hu, hf⟩ := Option.bind_eq_some_iff.mp h
    exact modify?_isSome hu hf

theorem actsAt_modify? (s : Segment) (f : Json → Option Json) :
    s.ActsAt (onNode f) (s.modify? f) where
  isSome v := by
    rw [modify?_isSome_eq, onNode]
    cases hu : s.get? v with
    | none => simp
    | some u =>
      rw [Option.bind_some, Option.bind_some, Option.isSome_map, fits_of_get? hu, Bool.true_and]
  node _ h := by
    obtain ⟨u, u', hu, hf, hu'⟩ := get?_of_modify? h
    rw [onNode, hu, hu', Option.bind_some, hf]
    rfl
  others hs h := get?_modify?_ne hs h
  fits h s' := fits_of_kindName s' (kindName_modify? h)
  inOrder hv h := by
    rcases modify?_cases h with ⟨k, t, t', rfl, rfl, rfl, hm⟩ | ⟨i, l, l', rfl, rfl, rfl, -⟩
    · exact Table.sorted_modify? hv hm
    · trivial

theorem actsAt_put?_field (k : Text) (w : Json) :
    (field k).ActsAt (fun _ => some (some w)) ((field k).put? w) where
  isSome v := by cases v <;> rfl
  node _ h := by
    rcases put?_cases h with ⟨k', t, hk, rfl, rfl⟩ | ⟨i, l, hk, -⟩
    · cases hk
      exact congrArg some (Table.get?_insert_self k w t).symm
    · cases hk
  others hs h := get?_put?_ne hs nofun h
  fits h s' := fits_of_kindName s' (kindName_put? h)
  inOrder hv h := by
    rcases put?_cases h with ⟨k', t, hk, rfl, rfl⟩ | ⟨i, l, hk, -⟩
    · exact Table.sorted_insert hv k' w
    · cases hk

theorem actsAt_remove?_field (k : Text) :
    (field k).ActsAt (fun _ => some none) (field k).remove? where
  isSome v := by cases v <;> rfl
  node hv h := by
    rcases remove?_cases h with ⟨k', t, hk, rfl, rfl⟩ | ⟨i, l, hk, -⟩
    · cases hk
      exact congrArg some (Table.get?_erase_self hv k).symm
    · cases hk
  others hs h := get?_remove?_ne hs nofun h
  fits h s' := fits_of_kindName s' (kindName_remove? h)
  inOrder hv h := by
    rcases remove?_cases h with ⟨k', t, hk, rfl, rfl⟩ | ⟨i, l, hk, -⟩
    · exact Table.sorted_erase hv k'
    · cases hk

def effect (s : Segment) (φ : Option Json → Option (Option Json)) (j : Segment)
    (node : Option Json) : Option (Option Json) :=
  if j = s then φ node else some node

theorem effect_of_ne {j : Segment} (h : j ≠ s) : effect s φ j = some := by
  funext node
  exact if_neg h

theorem independent_effect (hnode : s = s' → Independent φ ψ (s.get? v)) (j : Segment) :
    Independent (effect s φ j) (effect s' ψ j) (j.get? v) := by
  by_cases hj : j = s
  · by_cases hj' : j = s'
    · subst hj
      subst hj'
      have hφ : effect j φ j = φ := funext fun _ => if_pos rfl
      have hψ : effect j ψ j = ψ := funext fun _ => if_pos rfl
      rw [hφ, hψ]
      exact hnode rfl
    · rw [effect_of_ne hj']
      exact (Independent.some_left _ _).symm
  · rw [effect_of_ne hj]
    exact Independent.some_left _ _

theorem ActsAt.effect_eq (ha : s.ActsAt φ a) (hv : v.InOrder) (h : a v = some v') (j : Segment) :
    effect s φ j (j.get? v) = some (j.get? v') := by
  unfold effect
  split
  · rename_i hj
    subst hj
    exact ha.node hv h
  · rename_i hj
    rw [ha.others hj h]

theorem ActsAt.fits_of_eq (ha : s.ActsAt φ a) (h : a v = some v') : s.fits v = true := by
  have hsome := ha.isSome v
  rw [h, Option.isSome_some] at hsome
  exact (Bool.and_eq_true_iff.mp hsome.symm).1

theorem ActsAt.isSome_after (ha : s.ActsAt φ a) (hb : s'.ActsAt ψ b) (hv : v.InOrder)
    (hnode : s = s' → Independent φ ψ (s.get? v)) (h : a v = some v') :
    (b v').isSome = (b v).isSome := by
  rw [hb.isSome, hb.isSome, ha.fits h]
  by_cases hs : s' = s
  · subst hs
    rw [(hnode rfl).left _ (ha.node hv h)]
  · rw [ha.others hs h]

/-- **Two changes of one container.** At different segments they are
independent, and at the same segment if they are so for the node there. -/
theorem ActsAt.independent (ha : s.ActsAt φ a) (hb : s'.ActsAt ψ b) (hv : v.InOrder)
    (hnode : s = s' → Independent φ ψ (s.get? v)) : Independent a b v := by
  have hnode' : s' = s → Independent ψ φ (s'.get? v) := by
    rintro rfl
    exact (hnode rfl).symm
  have hleft : ∀ w, a v = some w → (b w).isSome = (b v).isSome :=
    fun _ h => ha.isSome_after hb hv hnode h
  have hright : ∀ w, b v = some w → (a w).isSome = (a v).isSome :=
    fun _ h => hb.isSome_after ha hv hnode' h
  refine ⟨hleft, hright, ?_⟩
  cases hav : a v with
  | none =>
    cases hbv : b v with
    | none => rfl
    | some w =>
      have hw := hright w hbv
      rw [hav, Option.isSome_none, Option.isSome_eq_false_iff, Option.isNone_iff_eq_none] at hw
      rw [Option.bind_none, Option.bind_some, hw]
  | some v₁ =>
    have hv₁ := hleft v₁ hav
    cases hbv : b v with
    | none =>
      rw [hbv, Option.isSome_none, Option.isSome_eq_false_iff, Option.isNone_iff_eq_none] at hv₁
      rw [Option.bind_none, Option.bind_some, hv₁]
    | some v₂ =>
      have hv₂ := hright v₂ hbv
      rw [hbv, Option.isSome_some] at hv₁
      rw [hav, Option.isSome_some] at hv₂
      obtain ⟨w₁, hw₁⟩ := Option.isSome_iff_exists.mp hv₁
      obtain ⟨w₂, hw₂⟩ := Option.isSome_iff_exists.mp hv₂
      rw [Option.bind_some, Option.bind_some, hw₁, hw₂]
      refine congrArg some (ext_of_get? (s := s) ?_ ?_ ?_ ?_ ?_)
      · rw [hb.fits hw₁, ha.fits hav, ha.fits_of_eq hav]
      · rw [ha.fits hw₂, hb.fits hbv, ha.fits_of_eq hav]
      · exact hb.inOrder (ha.inOrder hv hav) hw₁
      · exact ha.inOrder (hb.inOrder hv hbv) hw₂
      · -- at every segment the two effects can be taken in either order
        intro j
        have hcomm := (independent_effect hnode j).comm
        rw [ha.effect_eq hv hav, hb.effect_eq hv hbv, Option.bind_some, Option.bind_some,
          hb.effect_eq (ha.inOrder hv hav) hw₁, ha.effect_eq (hb.inOrder hv hbv) hw₂] at hcomm
        exact Option.some.inj hcomm

end Segment

/-! ## Paths -/

namespace Json

variable {f g F G : Json → Option Json} {p q : List Segment} {root : Json}

theorem modify?_eq_none_iff : root.modify? f p = none ↔ (root.get? p).bind f = none := by
  constructor
  · intro h
    apply Option.eq_none_iff_forall_ne_some.mpr
    intro u' hu'
    obtain ⟨u, hu, hf⟩ := Option.bind_eq_some_iff.mp hu'
    obtain ⟨root', hr⟩ := modify?_isSome hu hf
    rw [h] at hr
    cases hr
  · intro h
    apply Option.eq_none_iff_forall_ne_some.mpr
    intro root' hr
    obtain ⟨u, u', hu, hf, -⟩ := get?_of_modify? hr
    rw [hu, Option.bind_some, hf] at h
    cases h

theorem onNode_some (f : Json → Option Json) (v : Json) :
    Segment.onNode f (some v) = (f v).map some := rfl

theorem onNode_onNode (f g : Json → Option Json) (v : Json) :
    (Segment.onNode f (some v)).bind (Segment.onNode g) = ((f v).bind g).map some := by
  rw [onNode_some]
  cases f v with
  | none => rfl
  | some w => rfl

theorem isSome_onNode_after {v : Json} (h : ∀ w, f v = some w → (g w).isSome = (g v).isSome)
    (node : Option Json) (hf : Segment.onNode f (some v) = some node) :
    (Segment.onNode g node).isSome = (Segment.onNode g (some v)).isSome := by
  rw [onNode_some, Option.map_eq_some_iff] at hf
  obtain ⟨w, hw, rfl⟩ := hf
  rw [onNode_some, onNode_some, Option.isSome_map, Option.isSome_map, h w hw]

theorem independent_onNode {node : Option Json}
    (h : ∀ v, node = some v → Independent f g v) :
    Independent (Segment.onNode f) (Segment.onNode g) node := by
  cases node with
  | none => exact ⟨nofun, nofun, rfl⟩
  | some v =>
    have hv := h v rfl
    refine ⟨isSome_onNode_after hv.left, isSome_onNode_after hv.right, ?_⟩
    rw [onNode_onNode, onNode_onNode, hv.comm]

theorem independent_modify? (h : root.WellFormed)
    (hnode : ∀ v, root.get? p = some v → Independent f g v) :
    Independent (modify? f · p) (modify? g · p) root := by
  induction p generalizing root with
  | nil => exact hnode root rfl
  | cons s p ih =>
    apply (s.actsAt_modify? (modify? f · p)).independent (s.actsAt_modify? _) h.inOrder
    intro _
    apply independent_onNode
    intro v hv
    apply ih (h.segment hv)
    intro w hw
    apply hnode
    rw [get?_cons, hv, Option.bind_some, hw]

/-- A change made along a path, seen from any segment of that path. -/
def ChangesAlong (p : List Segment) (F : Json → Option Json) : Prop :=
  ∀ c s r, p = c ++ s :: r →
    ∃ φ a, s.ActsAt φ a ∧ ∀ root : Json, F root = root.modify? a c

theorem changesAlong_modify? (p : List Segment) (f : Json → Option Json) :
    ChangesAlong p (modify? f · p) := by
  rintro c s r rfl
  exact ⟨_, _, s.actsAt_modify? (modify? f · r), fun root => modify?_append root f c (s :: r)⟩

theorem changesAlong_concat {s : Segment} {φ : Option Json → Option (Option Json)}
    {a : Json → Option Json} (ha : s.ActsAt φ a) (c : List Segment) :
    ChangesAlong (c ++ [s]) (modify? a · c) := by
  intro c' s' r h
  rcases List.eq_nil_or_concat r with rfl | ⟨r, t, rfl⟩
  · obtain ⟨rfl, hs⟩ := List.append_inj' h rfl
    cases hs
    exact ⟨φ, a, ha, fun _ => rfl⟩
  · rw [List.concat_eq_append, ← List.cons_append, ← List.append_assoc] at h
    obtain ⟨rfl, -⟩ := List.append_inj' h rfl
    exact changesAlong_modify? (c' ++ s' :: r) a c' s' r rfl

end Json

theorem Path.Apart.split {p q : List Segment} (h : Path.Apart p q) :
    ∃ c s s' r r', p = c ++ s :: r ∧ q = c ++ s' :: r' ∧ s ≠ s' := by
  induction p generalizing q with
  | nil => exact absurd List.nil_prefix h.1
  | cons s p ih =>
    cases q with
    | nil => exact absurd List.nil_prefix h.2
    | cons s' q =>
      by_cases hs : s = s'
      · subst hs
        obtain ⟨c, t, t', r, r', rfl, rfl, ht⟩ := ih h.tail
        exact ⟨s :: c, t, t', r, r', rfl, rfl, ht⟩
      · exact ⟨[], s, s', p, q, rfl, rfl, hs⟩

/-- **Changes along paths that part are independent.** -/
theorem Json.independent_apart {p q : List Segment} {F G : Json → Option Json} {root : Json}
    (hroot : root.WellFormed) (hpq : Path.Apart p q) (hF : ChangesAlong p F)
    (hG : ChangesAlong q G) : Independent F G root := by
  obtain ⟨c, s, s', r, r', hp, hq, hs⟩ := hpq.split
  obtain ⟨φ, a, ha, hFa⟩ := hF c s r hp
  obtain ⟨ψ, b, hb, hGb⟩ := hG c s' r' hq
  obtain rfl : F = (modify? a · c) := funext hFa
  obtain rfl : G = (modify? b · c) := funext hGb
  apply independent_modify? hroot
  intro v hv
  exact ha.independent hb (hroot.get? hv).inOrder fun h => absurd h hs

end Fixtures
