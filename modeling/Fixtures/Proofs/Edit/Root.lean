import Fixtures.Proofs.Edit.Siblings
import Fixtures.Proofs.Path.Parent
import Fixtures.Proofs.Payload.Loading

/-!
# The root of a document

A change below the root keeps the kind of the root, and so does every edit of the
root itself but one: an update makes the whole document a string, whatever it was.
No later edit makes anything else of that string, since there is nothing below it.
A locator leads to the root if nothing but dots is left of it without white space
and root marker.
-/

namespace Fixtures

/-! ## Locators of the root -/

namespace Path

variable {path t seen inner : Text}

theorem segmentsFrom_bracket_ne_nil (quote : Option Char) :
    segmentsFrom path (.bracket inner quote) t ≠ .ok [] := by
  intro h
  induction t generalizing inner quote with
  | nil => cases h
  | cons c t ih =>
    rw [segmentsFrom] at h
    split at h
    · split at h
      · cases h
      · obtain ⟨segments, -, hs⟩ := Except.map_eq_ok_iff.mp h
        cases hs
    · exact ih _ h

theorem nameSegment_eq_nil_iff : nameSegment seen = [] ↔ seen = [] := by
  cases seen with
  | nil => exact ⟨fun _ => rfl, fun _ => rfl⟩
  | cons c seen => exact ⟨nofun, nofun⟩

theorem segmentsFrom_eq_nil_iff :
    segmentsFrom path (.name seen) t = .ok [] ↔ seen = [] ∧ ∀ c ∈ t, c = '.' := by
  induction t generalizing seen with
  | nil =>
    rw [segmentsFrom, Except.ok.injEq, nameSegment_eq_nil_iff]
    exact ⟨fun h => ⟨h, List.forall_mem_nil _⟩, fun h => h.1⟩
  | cons c t ih =>
    rw [segmentsFrom, List.forall_mem_cons]
    split
    · rename_i hc
      constructor
      · intro h
        obtain ⟨segments, hsegments, hnil⟩ := Except.map_eq_ok_iff.mp h
        obtain ⟨hseen, rfl⟩ := List.append_eq_nil_iff.mp hnil
        exact ⟨nameSegment_eq_nil_iff.mp hseen, hc, (ih.mp hsegments).2⟩
      · rintro ⟨rfl, -, ht⟩
        rw [ih.mpr ⟨rfl, ht⟩]
        rfl
    split
    · rename_i hdot hopen
      refine ⟨fun h => ?_, fun h => absurd h.2.1 hdot⟩
      obtain ⟨segments, hsegments, hnil⟩ := Except.map_eq_ok_iff.mp h
      obtain ⟨-, rfl⟩ := List.append_eq_nil_iff.mp hnil
      exact absurd hsegments (segmentsFrom_bracket_ne_nil none)
    · rename_i hdot hopen
      rw [ih]
      exact ⟨fun h => absurd h.1 (List.cons_ne_nil c seen), fun h => absurd h.2.1 hdot⟩

theorem parse_isRoot_iff :
    (∃ p, parse t = .ok p ∧ p.isRoot = true) ↔ ∀ c ∈ body (Text.trim t), c = '.' := by
  have h : segmentsFrom (Text.trim t) (.name []) (body (Text.trim t)) = .ok [] ↔
      [] = [] ∧ ∀ c ∈ body (Text.trim t), c = '.' := segmentsFrom_eq_nil_iff
  constructor
  · rintro ⟨p, hp, hroot⟩
    obtain ⟨segments, hsegments, rfl⟩ := Except.map_eq_ok_iff.mp hp
    have hnil : segments = [] := List.isEmpty_iff.mp hroot
    subst hnil
    exact (h.mp hsegments).2
  · intro hdots
    refine ⟨⟨Text.trim t, []⟩, ?_, rfl⟩
    rw [parse, h.mpr ⟨rfl, hdots⟩]
    rfl

end Path

/-! ## Changes below the root -/

namespace Json

variable {f : Json → Option Json} {path : List Segment} {root root' v v' w : Json}

theorem kindName_modify? (hf : ∀ v v', root.get? path = some v → f v = some v' →
    v'.kindName = v.kindName) (h : root.modify? f path = some root') :
    root'.kindName = root.kindName := by
  cases path with
  | nil => exact hf root root' rfl h
  | cons s path => exact Segment.kindName_modify? h

theorem kindName_put? (h : root.put? path w = some root') : root'.kindName = root.kindName := by
  obtain ⟨c, s, -, h⟩ := put?_eq_some_iff.mp h
  exact kindName_modify? (fun _ _ _ => Segment.kindName_put?) h

theorem kindName_remove? (h : root.remove? path = some root') :
    root'.kindName = root.kindName := by
  obtain ⟨c, s, -, h⟩ := remove?_eq_some_iff.mp h
  exact kindName_modify? (fun _ _ _ => Segment.kindName_remove?) h

inductive SameContainer : Json → Json → Prop
  | arr (items items' : List Json) : SameContainer (.arr items) (.arr items')
  | obj (fields fields' : List (Text × Json)) : SameContainer (.obj fields) (.obj fields')

theorem SameContainer.isContainer (h : SameContainer v v') : v'.isContainer = true := by
  cases h <;> rfl

theorem sameContainer_of_kindName (hv : v.isContainer = true) (h : v'.kindName = v.kindName) :
    SameContainer v v' := by
  cases v with
  | arr items =>
    cases v' with
    | arr items' => exact .arr items items'
    | _ => simp [kindName] at h
  | obj fields =>
    cases v' with
    | obj fields' => exact .obj fields fields'
    | _ => simp [kindName] at h
  | _ => cases hv

theorem exists_str_of_kindName (h : v.kindName = "a string") : ∃ t, v = .str t := by
  cases v with
  | str t => exact ⟨t, rfl⟩
  | _ => simp [kindName] at h

end Json

/-! ## Edits -/

namespace Edit

variable {e : Edit} {edits : List Edit} {t : Text} {p q : Payload} {root root' : Json}

/-- The edit makes the whole document a string. -/
def Overwrites (e : Edit) : Prop :=
  e.operation = .update ∧ ∃ path, Path.parse e.locator = .ok path ∧ path.isRoot = true

theorem kindName_onDocument (hno : ¬ e.Overwrites) (h : e.onDocument root = .ok root') :
    root'.kindName = root.kindName := by
  obtain ⟨p, hp, ⟨-, rfl⟩ | ⟨-, hput⟩ | ⟨ho, hset⟩ | ⟨f, t, -, ht, hset⟩⟩ := onDocument_cases h
  · cases hr : root.remove? p.segments with
    | none => rfl
    | some root₁ => exact Json.kindName_remove? hr
  · exact Json.kindName_put? hput
  · -- an update that does not overwrite the root has a segment to go down
    cases hsegments : p.segments with
    | nil => exact absurd ⟨ho, p, hp, List.isEmpty_iff.mpr hsegments⟩ hno
    | cons s path =>
      rw [hsegments] at hset
      exact Segment.kindName_modify? hset
  · refine Json.kindName_modify? ?_ hset
    rintro v v' hv ⟨⟩
    rw [ht] at hv
    cases hv
    rfl

theorem eq_str_of_overwrites (he : e.Overwrites) (h : e.onDocument root = .ok root') :
    root' = .str e.argument := by
  obtain ⟨ho, p, hp, hroot⟩ := he
  obtain ⟨p', hp', hset⟩ := onDocument_update ho h
  rw [hp] at hp'
  cases hp'
  rw [List.isEmpty_iff.mp hroot] at hset
  exact (Option.some.inj hset).symm

theorem kindName_applyAll (h : applyAll edits (.document root) = .ok q) :
    ∃ root', q = .document root' ∧
      ((∀ e ∈ edits, ¬ e.Overwrites) → root'.kindName = root.kindName) ∧
        ((∃ e ∈ edits, e.Overwrites) → root'.kindName = "a string") := by
  induction edits generalizing root with
  | nil =>
    cases h
    refine ⟨root, rfl, fun _ => rfl, ?_⟩
    rintro ⟨e, he, -⟩
    cases he
  | cons e edits ih =>
    obtain ⟨p₁, he, hrest⟩ := applyAll_cons_ok.mp h
    obtain ⟨root₁, hd, rfl⟩ := apply_document_ok he
    obtain ⟨root', rfl, hkeep, hstr⟩ := ih hrest
    refine ⟨root', rfl, ?_, ?_⟩
    · intro hno
      obtain ⟨hno₁, hno⟩ := List.forall_mem_cons.mp hno
      exact (hkeep hno).trans (kindName_onDocument hno₁ hd)
    · intro hsome
      by_cases hlater : ∃ e ∈ edits, e.Overwrites
      · exact hstr hlater
      · -- the first edit is then the last one that overwrites
        have hfirst : e.Overwrites := by
          obtain ⟨e', he', hover⟩ := hsome
          rcases List.mem_cons.mp he' with rfl | he'
          · exact hover
          · exact absurd ⟨e', he', hover⟩ hlater
        obtain rfl := eq_str_of_overwrites hfirst hd
        exact hkeep fun e' he' hover => hlater ⟨e', he', hover⟩

/-- **The root keeps its kind.** A document that has been read is an array or an
object, and it stays one under every run of edits that does not overwrite it; after
a run that does it is a string. -/
theorem applyAll_root (hp : Payload.parse .json t = .ok p) (h : applyAll edits p = .ok q) :
    ∃ root root', p = .document root ∧ q = .document root' ∧
      ((∀ e ∈ edits, ¬ e.Overwrites) → Json.SameContainer root root') ∧
        ((∃ e ∈ edits, e.Overwrites) → ∃ s, root' = .str s) ∧
          (root'.isContainer = false → ∃ e ∈ edits, e.Overwrites) := by
  obtain ⟨root, hdoc, rfl⟩ := Except.map_eq_ok_iff.mp hp
  obtain ⟨-, hcontainer⟩ := Json.document_eq_ok_iff.mp hdoc
  obtain ⟨root', rfl, hkeep, hstr⟩ := kindName_applyAll h
  have hsame (hno : ∀ e ∈ edits, ¬ e.Overwrites) : Json.SameContainer root root' :=
    Json.sameContainer_of_kindName hcontainer (hkeep hno)
  refine ⟨root, root', rfl, rfl, hsame, fun hsome => Json.exists_str_of_kindName (hstr hsome), ?_⟩
  intro hlost
  apply Classical.byContradiction
  intro hno
  have hkept := (hsame fun e he hover => hno ⟨e, he, hover⟩).isContainer
  rw [hlost] at hkept
  cases hkept

def rootKept : List Edit := [⟨[' ', '$', '.', '.'], .delete, []⟩, ⟨['[', '0', ']'], .update, ['x']⟩]

def rootOverwritten : List Edit :=
  rootKept ++ [⟨['@', '.'], .update, ['y']⟩, ⟨[], .append, ['z']⟩]

theorem applyAll_root_spelled :
    ∃ p root root', Payload.parse .json ['[', 't', 'r', 'u', 'e', ']'] = .ok p ∧
      applyAll rootKept p = .ok (.document root) ∧
        applyAll rootOverwritten p = .ok (.document root') ∧
          Json.SameContainer (.arr [.bool true]) root ∧ ∃ s, root' = .str s := by
  have hp : Payload.parse .json ['[', 't', 'r', 'u', 'e', ']'] =
      .ok (.document (.arr [.bool true])) := rfl
  have hkept : applyAll rootKept (.document (.arr [.bool true])) =
      .ok (.document (.arr [.str ['x']])) := rfl
  have hover : applyAll rootOverwritten (.document (.arr [.bool true])) =
      .ok (.document (.str ['y', 'z'])) := rfl
  have hno : ∀ e ∈ rootKept, ¬ e.Overwrites := by
    simp only [rootKept, List.mem_cons, List.not_mem_nil, or_false]
    rintro e (rfl | rfl) ⟨ho, hroot⟩
    · cases ho
    · have hdots := Path.parse_isRoot_iff.mp hroot
      cases hdots '[' List.mem_cons_self
  obtain ⟨_, _, hd, hr, hsame, -⟩ := applyAll_root hp hkept
  cases hd
  cases hr
  obtain ⟨_, _, hd, hr, -, hstr, -⟩ := applyAll_root hp hover
  cases hd
  cases hr
  have hsome : ∃ e ∈ rootOverwritten, e.Overwrites :=
    ⟨⟨['@', '.'], .update, ['y']⟩, by simp [rootOverwritten], rfl,
      Path.parse_isRoot_iff.mpr fun c hc => List.mem_singleton.mp hc⟩
  exact ⟨_, _, _, hp, hkept, hover, hsame hno, hstr hsome⟩

end Edit

end Fixtures
