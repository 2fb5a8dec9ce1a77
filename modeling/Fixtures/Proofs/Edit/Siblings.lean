import Fixtures.Proofs.Edit.Sequence
import Fixtures.Proofs.Path.Nodes

/-!
# Edits leave all other nodes alone

Every edit of a document changes one container: the parent of the node that its
locator leads to. A path apart from the locator either parts from the path of
that container or leaves the container by another segment. An edit that adds or
deletes an item moves the items behind it, so a path through the same array is
set aside (`Edit.Shifts`). Whether a node is an array does not change along such
a path, so the condition may be read off the document before the first edit.
-/

namespace Fixtures

namespace Edit

/-- The edit adds or deletes an item of an array that `q` runs through. -/
def Shifts (e : Edit) (root : Json) (q : List Segment) : Prop :=
  (e.operation = .add ∨ e.operation = .delete) ∧
    ∃ p c i j r items, Path.parse e.locator = .ok p ∧ p.segments = c ++ [.index i] ∧
      q = c ++ .index j :: r ∧ root.get? c = some (.arr items)

/-! ## What an edit does -/

def rewording? (e : Edit) : Option (Text → Text) :=
  match e.operation with
  | .append => some (· ++ e.argument)
  | .prepend => some (e.argument ++ ·)
  | .replace =>
    (Text.cut? ['-', '>'] e.argument).map fun sides => Text.replaceFirst sides.1 sides.2
  | _ => none

section
variable {e : Edit} {p : Path} {f : Text → Text} {root root' : Json}

theorem rewordNode_ok (h : (e.rewordNode p f).result root = .ok root') :
    ∃ t, root.get? p.segments = some (.str t) ∧
      root.set? p.segments (.str (f t)) = some root' := by
  rw [result_rewordNode] at h
  split at h
  · cases h
  · rename_i s hs
    obtain ⟨r, hr⟩ := Json.set?_isSome hs (.str (f s))
    simp only [hr, Option.getD_some, Except.ok.injEq] at h
    subst h
    exact ⟨s, hs, hr⟩
  · cases h

theorem onDocument_of_rewording (hp : Path.parse e.locator = .ok p) (hf : e.rewording? = some f)
    (root : Json) : e.onDocument root = (e.rewordNode p f).result root := by
  unfold rewording? at hf
  unfold onDocument editDocument
  rw [hp]
  cases ho : e.operation with
  | append =>
    simp only [ho, Option.some.injEq] at hf
    subst hf
    rfl
  | prepend =>
    simp only [ho, Option.some.injEq] at hf
    subst hf
    rfl
  | replace =>
    simp only [ho, Option.map_eq_some_iff] at hf
    obtain ⟨sides, hcut, rfl⟩ := hf
    simp only [replacement, hcut]
  | _ => simp only [ho, reduceCtorEq] at hf

/-- An edit takes a node away, puts a node, makes a node a string or rewords a string. -/
theorem onDocument_cases (h : e.onDocument root = .ok root') :
    ∃ p, Path.parse e.locator = .ok p ∧
      (e.operation = .delete ∧ root' = (root.remove? p.segments).getD root ∨
        e.operation = .add ∧ root.put? p.segments e.value = some root' ∨
          e.operation = .update ∧ root.set? p.segments (.str e.argument) = some root' ∨
            ∃ f t, e.rewording? = some f ∧ root.get? p.segments = some (.str t) ∧
              root.set? p.segments (.str (f t)) = some root') := by
  cases hp : Path.parse e.locator with
  | error error =>
    rw [onDocument, editDocument, hp] at h
    cases h
  | ok p =>
    refine ⟨p, rfl, ?_⟩
    cases hf : e.rewording? with
    | some f =>
      rw [onDocument_of_rewording hp hf] at h
      obtain ⟨t, ht, hset⟩ := rewordNode_ok h
      exact .inr (.inr (.inr ⟨f, t, rfl, ht, hset⟩))
    | none =>
      unfold onDocument editDocument at h
      rw [hp] at h
      cases ho : e.operation with
      | delete =>
        simp only [ho, result_deleteNode, Except.ok.injEq] at h
        exact .inl ⟨rfl, h.symm⟩
      | add =>
        simp only [ho, result_addNode] at h
        split at h
        · rename_i v hv
          cases h
          exact .inr (.inl ⟨rfl, hv⟩)
        · cases h
      | update =>
        simp only [ho, result_updateNode] at h
        split at h
        · rename_i v hv
          cases h
          exact .inr (.inr (.inl ⟨rfl, hv⟩))
        · cases h
      | append => simp only [rewording?, ho, reduceCtorEq] at hf
      | prepend => simp only [rewording?, ho, reduceCtorEq] at hf
      | replace =>
        -- without an arrow a replacement is refused
        simp only [rewording?, ho, Option.map_eq_none_iff] at hf
        simp only [ho, replacement, hf, InPlace.result_throw, reduceCtorEq] at h

theorem onDocument_update (ho : e.operation = .update) (h : e.onDocument root = .ok root') :
    ∃ p, Path.parse e.locator = .ok p ∧ root.set? p.segments (.str e.argument) = some root' := by
  obtain ⟨p, hp, hcases⟩ := onDocument_cases h
  simp only [ho, reduceCtorEq, false_and, false_or, true_and] at hcases
  rcases hcases with hset | ⟨f, t, hf, -⟩
  · exact ⟨p, hp, hset⟩
  · simp only [rewording?, ho, reduceCtorEq] at hf

theorem onDocument_ok (h : e.onDocument root = .ok root') :
    ∃ p, Path.parse e.locator = .ok p ∧
      (e.operation = .delete ∧ root' = (root.remove? p.segments).getD root ∨
        e.operation = .add ∧ root.put? p.segments e.value = some root' ∨
          ∃ t, root.set? p.segments (.str t) = some root') := by
  obtain ⟨p, hp, hdelete | hadd | ⟨-, hset⟩ | ⟨f, t, -, -, hset⟩⟩ := onDocument_cases h
  · exact ⟨p, hp, .inl hdelete⟩
  · exact ⟨p, hp, .inr (.inl hadd)⟩
  · exact ⟨p, hp, .inr (.inr ⟨_, hset⟩)⟩
  · exact ⟨p, hp, .inr (.inr ⟨_, hset⟩)⟩

end

end Edit

/-! ## A change of one container -/

namespace Json

variable {g : Json → Option Json} {c q : List Segment} {s : Segment} {root root' : Json}

/-- The node at `q` is the same, and what lies above it has kept its kind. -/
def SameAlong (q : List Segment) (root root' : Json) : Prop :=
  root'.get? q = root.get? q ∧
    ∀ c, c <+: q → c ≠ q → (root'.get? c).map isArray = (root.get? c).map isArray

theorem SameAlong.refl (q : List Segment) (root : Json) : SameAlong q root root :=
  ⟨rfl, fun _ _ _ => rfl⟩

theorem get?_modify?_beside (ha : Path.Apart (c ++ [s]) q) (h : root.modify? g c = some root')
    (hk : ∀ s' r w w', q = c ++ s' :: r → s' ≠ s → root.get? c = some w → g w = some w' →
      s'.get? w' = s'.get? w) :
    root'.get? q = root.get? q := by
  rcases ha.init with hc | ⟨s', r, rfl, hs⟩
  · exact get?_modify?_apart hc h
  · obtain ⟨w, w', hw, hg, hw'⟩ := get?_of_modify? h
    simp only [get?_append, hw, hw', Option.bind_some, get?_cons, hk s' r w w' rfl hs hw hg]

theorem sameAlong_modify? (ha : Path.Apart (c ++ [s]) q) (h : root.modify? g c = some root')
    (hg : ∀ w w', g w = some w' → w'.kindName = w.kindName)
    (hk : ∀ s' r w w', q = c ++ s' :: r → s' ≠ s → root.get? c = some w → g w = some w' →
      s'.get? w' = s'.get? w) :
    SameAlong q root root' := by
  refine ⟨get?_modify?_beside ha h hk, ?_⟩
  intro c' hc' _
  by_cases hcc : c' <+: c
  · -- above the container, the change is one of a single segment
    obtain ⟨t, rfl⟩ := hcc
    rw [modify?_append] at h
    refine isArray_modify? h fun v v' hv => isArray_of_kindName ?_
    cases t with
    | nil => exact hg v v' hv
    | cons s₁ t => exact Segment.kindName_modify? hv
  · obtain ⟨t, rfl⟩ := hc'
    have hp : Path.Apart (c ++ [s]) c' := by
      refine ⟨fun hp => ha.1 (hp.trans (List.prefix_append c' t)), fun hp => ?_⟩
      rcases List.prefix_concat_iff.mp hp with rfl | hp
      · exact ha.1 (List.prefix_append _ t)
      · exact hcc hp
    have hq := get?_modify?_beside hp h fun s' r w w' hr => hk s' (r ++ t) w w' (by simp [hr])
    rw [hq]

theorem SameAlong.shifts {e : Edit} (h : SameAlong q root root') (hs : e.Shifts root' q) :
    e.Shifts root q := by
  obtain ⟨ho, p, c, i, j, r, items, hp, hc, rfl, hi⟩ := hs
  have hk := h.2 c (List.prefix_append c _) (by simp)
  cases hn : root.get? c with
  | none => simp [hi, hn] at hk
  | some v =>
    cases v with
    | arr items' => exact ⟨ho, p, c, i, j, r, items', hp, hc, rfl, hn⟩
    | _ => simp [hi, hn, isArray] at hk

end Json

/-! ## Runs of edits -/

namespace Edit

theorem sameAlong_onDocument {e : Edit} {root root' : Json} {q : List Segment}
    (h : e.onDocument root = .ok root')
    (ha : ∀ p, Path.parse e.locator = .ok p → Path.Apart p.segments q) (hs : ¬ e.Shifts root q) :
    Json.SameAlong q root root' := by
  obtain ⟨p, hp, hcases⟩ := onDocument_ok h
  have hq := ha p hp
  rcases List.eq_nil_or_concat p.segments with hn | ⟨c, s, hc⟩
  · exact absurd (hn ▸ List.nil_prefix) hq.1
  rw [List.concat_eq_append] at hc
  rw [hc] at hq hcases
  -- an array is changed by position only where the edit shifts items
  have hno : (e.operation = .add ∨ e.operation = .delete) → ∀ s' r w, q = c ++ s' :: r →
      root.get? c = some w → ∀ i j, s = .index i → s' = .index j → w.isArray = false := by
    intro ho s' r w hr hw i j hi hj
    subst hi hj
    cases w with
    | arr items => exact absurd ⟨ho, p, c, i, j, r, items, hp, hc, hr, hw⟩ hs
    | _ => rfl
  rcases hcases with ⟨ho, rfl⟩ | ⟨ho, hput⟩ | ⟨t, hset⟩
  · rw [Json.remove?_concat]
    cases hm : root.modify? s.remove? c with
    | none => exact .refl q root
    | some root₁ =>
      exact Json.sameAlong_modify? hq hm (fun _ _ => Segment.kindName_remove?)
        fun s' r w w' hr hne hw => Segment.get?_remove?_ne hne (hno (.inr ho) s' r w hr hw)
  · rw [Json.put?_concat] at hput
    exact Json.sameAlong_modify? hq hput (fun _ _ => Segment.kindName_put?)
      fun s' r w w' hr hne hw => Segment.get?_put?_ne hne (hno (.inl ho) s' r w hr hw)
  · rw [Json.set?_concat] at hset
    exact Json.sameAlong_modify? hq hset (fun _ _ => Segment.kindName_modify?)
      fun _ _ _ _ _ hne _ => Segment.get?_modify?_ne hne

/-- **Siblings stay.** A run of edits leaves the node at every path that is
apart from all its locators and from the items that it moves. -/
theorem get?_applyAll_apart {edits : List Edit} {root : Json} {after : Payload} {q : List Segment}
    (h : applyAll edits (.document root) = .ok after)
    (ha : ∀ e ∈ edits, ∀ p, Path.parse e.locator = .ok p → Path.Apart p.segments q)
    (hs : ∀ e ∈ edits, ¬ e.Shifts root q) :
    ∃ root', after = .document root' ∧ root'.get? q = root.get? q := by
  induction edits generalizing root with
  | nil => cases h; exact ⟨root, rfl, rfl⟩
  | cons e edits ih =>
    obtain ⟨p₁, he, hr⟩ := applyAll_cons_ok.mp h
    obtain ⟨root₁, hd, rfl⟩ := apply_document_ok he
    have hsame := sameAlong_onDocument hd (ha e List.mem_cons_self) (hs e List.mem_cons_self)
    obtain ⟨root', rfl, hq⟩ := ih hr (fun e' he' => ha e' (List.mem_cons_of_mem e he'))
      fun e' he' hsh => hs e' (List.mem_cons_of_mem e he') (hsame.shifts hsh)
    exact ⟨root', rfl, hq.trans hsame.1⟩

def besideDoc : Json :=
  .obj [(['a'], .arr [.obj [(['b'], .str ['x']), (['k'], .null)], .null]), (['d'], .arr [.null])]

def besideEdits : List Edit :=
  [⟨['a', '[', '1', ']'], .update, ['n']⟩, ⟨['a', '[', '0', ']', '.', 'k'], .delete, []⟩,
    ⟨['d', '[', '0', ']'], .delete, []⟩]

theorem get?_after_edits_beside :
    ∃ root', applyAll besideEdits (.document besideDoc) = .ok (.document root') ∧
      root'.get? [.field ['a'], .index 0, .field ['b']] = some (.str ['x']) := by
  have ha : ∀ e ∈ besideEdits, ∀ p, Path.parse e.locator = .ok p →
      Path.Apart p.segments [.field ['a'], .index 0, .field ['b']] := by
    intro e he p hp
    simp only [besideEdits, List.mem_cons, List.not_mem_nil, or_false] at he
    rcases he with rfl | rfl | rfl <;> (obtain rfl := Except.ok.inj hp; decide)
  have hs : ∀ e ∈ besideEdits, ¬ e.Shifts besideDoc [.field ['a'], .index 0, .field ['b']] := by
    rintro e he ⟨ho, p, c, i, j, r, items, hp, hc, hq, -⟩
    simp only [besideEdits, List.mem_cons, List.not_mem_nil, or_false] at he
    rcases he with rfl | rfl | rfl
    · simp at ho
    · have hseg : [.field ['a'], .index 0, .field ['k']] = p.segments :=
        congrArg Path.segments (Except.ok.inj hp)
      have hl := congrArg List.getLast? (hseg.trans hc)
      simp at hl
    · have hseg : [.field ['d'], .index 0] = p.segments := congrArg Path.segments (Except.ok.inj hp)
      have hd := congrArg List.dropLast (hseg.trans hc)
      rw [List.dropLast_concat] at hd
      subst hd
      simp at hq
  have h : applyAll besideEdits (.document besideDoc) =
      .ok (.document (.obj [(['a'], .arr [.obj [(['b'], .str ['x'])], .str ['n']]),
        (['d'], .arr [])])) := rfl
  obtain ⟨root', hr, hq⟩ := get?_applyAll_apart h ha hs
  exact ⟨root', hr ▸ h, hq⟩

end Edit

end Fixtures
