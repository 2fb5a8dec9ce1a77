import Fixtures.Proofs.Edit.Siblings
import Fixtures.Proofs.Path.Independent

/-!
# Edits of different nodes commute

An edit of a document is a change along its path (`Edit.change?`), and where the
change is not possible the edit is refused for a reason that depends only on the
node at the path. Edits whose paths part are independent changes and leave each
other's node alone, so neither sees whether the other has been made. Edits that
add or delete an item of an array move other items, and are left out.
-/

namespace Fixtures

namespace Json

def mapString? (f : Text → Text) : Json → Option Json
  | .str s => some (.str (f s))
  | _ => none

end Json

namespace Edit

/-- What an edit does to a document, where that is possible. -/
def change? (e : Edit) (path : List Segment) : Json → Option Json :=
  match e.operation with
  | .delete => orSame (·.remove? path)
  | .add => (·.put? path e.value)
  | .update => (·.set? path (.str e.argument))
  | .append => (·.modify? (Json.mapString? (· ++ e.argument)) path)
  | .prepend => (·.modify? (Json.mapString? (e.argument ++ ·)) path)
  | .replace =>
    match e.replacement with
    | .ok (needle, r) => (·.modify? (Json.mapString? (Text.replaceFirst needle r)) path)
    | .error _ => fun _ => none

def noString (e : Edit) (node : Option Json) : EditError :=
  if node.isSome then .notAString e.locator else .pathNotFound e.locator

/-- Why an edit is not possible, by the node at its path. -/
def refusal (e : Edit) (p : Path) (node : Option Json) : EditError :=
  match e.operation with
  | .delete => .pathNotFound e.locator
  | .add => .pathNotFound p.text
  | .update => .pathNotFound e.locator
  | .append => e.noString node
  | .prepend => e.noString node
  | .replace =>
    match e.replacement with
    | .ok _ => e.noString node
    | .error error => error

theorem result_rewordNode_eq (e : Edit) (p : Path) (f : Text → Text) (root : Json) :
    (e.rewordNode p f).result root =
      match root.modify? (Json.mapString? f) p.segments with
      | some v => .ok v
      | none => .error (e.noString (root.get? p.segments)) := by
  have hno : (root.get? p.segments).bind (Json.mapString? f) = none →
      root.modify? (Json.mapString? f) p.segments = none := Json.modify?_eq_none_iff.mpr
  rw [result_rewordNode]
  unfold noString
  cases hn : root.get? p.segments with
  | none =>
    rw [hn] at hno
    rw [hno rfl]
    rfl
  | some v =>
    rw [hn] at hno
    cases v with
    | str s =>
      have hset : root.modify? (Json.mapString? f) p.segments =
          root.set? p.segments (.str (f s)) := by
        apply Json.modify?_congr
        intro w hw
        rw [hn] at hw
        cases hw
        rfl
      obtain ⟨root', hroot⟩ := Json.set?_isSome hn (.str (f s))
      rw [hset]
      simp only [hroot]
      rfl
    | _ =>
      rw [hno rfl]
      rfl

theorem onDocument_eq {e : Edit} {p : Path} (hp : Path.parse e.locator = .ok p) (root : Json) :
    e.onDocument root =
      match e.change? p.segments root with
      | some v => .ok v
      | none => .error (e.refusal p (root.get? p.segments)) := by
  unfold onDocument editDocument change? refusal
  rw [hp]
  cases e.operation with
  | delete => rfl
  | add => exact result_addNode p e.value root
  | update => exact e.result_updateNode p root
  | append => exact e.result_rewordNode_eq p _ root
  | prepend => exact e.result_rewordNode_eq p _ root
  | replace =>
    cases e.replacement with
    | error error => rfl
    | ok sides => exact e.result_rewordNode_eq p _ root

/-- An edit that adds or deletes a node does so in an object. -/
def AtField (e : Edit) (p : Path) : Prop :=
  e.operation = .add ∨ e.operation = .delete → ∃ k, p.last? = some (.field k)

def outcome (e : Edit) (p : Payload) : Except EditError Unit := (e.apply p).map fun _ => ()

section
variable {e : Edit} {p : Path} (hp : Path.parse e.locator = .ok p)
include hp

theorem onDocument_eq_ok_iff {root root' : Json} :
    e.onDocument root = .ok root' ↔ e.change? p.segments root = some root' := by
  rw [onDocument_eq hp]
  cases e.change? p.segments root with
  | none => exact ⟨nofun, nofun⟩
  | some v => rw [Except.ok.injEq, Option.some.injEq]

theorem apply_document_eq_ok_iff {root : Json} {q : Payload} :
    e.apply (.document root) = .ok q ↔
      ∃ root', e.change? p.segments root = some root' ∧ q = .document root' := by
  constructor
  · intro h
    obtain ⟨root', hd, rfl⟩ := apply_document_ok h
    exact ⟨root', (onDocument_eq_ok_iff hp).mp hd, rfl⟩
  · rintro ⟨root', hc, rfl⟩
    rw [apply_document, (onDocument_eq_ok_iff hp).mpr hc]
    rfl

theorem outcome_eq (root : Json) :
    e.outcome (.document root) =
      if (e.change? p.segments root).isSome then .ok ()
      else .error (e.refusal p (root.get? p.segments)) := by
  rw [outcome, apply_document, onDocument_eq hp]
  cases e.change? p.segments root with
  | none => rfl
  | some v => rfl

end

theorem exists_changesAlong {e : Edit} {p : Path} (hf : e.AtField p) :
    ∃ F, Json.ChangesAlong p.segments F ∧
      (e.change? p.segments = F ∨ e.change? p.segments = orSame F) := by
  have hmodify : ∀ f, Json.ChangesAlong p.segments (Json.modify? f · p.segments) :=
    Json.changesAlong_modify? p.segments
  unfold change?
  cases ho : e.operation with
  | add =>
    obtain ⟨k, hk⟩ := hf (.inl ho)
    obtain ⟨c, hc⟩ := List.getLast?_eq_some_iff.mp hk
    rw [hc]
    refine ⟨_, Json.changesAlong_concat (Segment.actsAt_put?_field k e.value) c, .inl ?_⟩
    exact funext fun root => Json.put?_concat root c (.field k) e.value
  | delete =>
    obtain ⟨k, hk⟩ := hf (.inr ho)
    obtain ⟨c, hc⟩ := List.getLast?_eq_some_iff.mp hk
    rw [hc]
    refine ⟨_, Json.changesAlong_concat (Segment.actsAt_remove?_field k) c, .inr ?_⟩
    exact congrArg orSame (funext fun root => Json.remove?_concat root c (.field k))
  | update => exact ⟨_, hmodify _, .inl rfl⟩
  | append => exact ⟨_, hmodify _, .inl rfl⟩
  | prepend => exact ⟨_, hmodify _, .inl rfl⟩
  | replace =>
    cases e.replacement with
    | ok sides => exact ⟨_, hmodify _, .inl rfl⟩
    | error _ =>
      refine ⟨_, hmodify fun _ => none, .inl (funext fun root => ?_)⟩
      have hnone : (root.get? p.segments).bind (fun _ => (none : Option Json)) = none := by
        rw [Option.bind_fun_none]
      exact (Json.modify?_eq_none_iff.mpr hnone).symm

section
variable {e₁ e₂ : Edit} {p₁ p₂ : Path} {root : Json} (hroot : root.WellFormed)
  (h₁ : Path.parse e₁.locator = .ok p₁) (h₂ : Path.parse e₂.locator = .ok p₂)
  (hp : Path.Apart p₁.segments p₂.segments) (hf₁ : e₁.AtField p₁) (hf₂ : e₂.AtField p₂)

include hroot hp hf₁ hf₂ in
theorem independent_change? :
    Independent (e₁.change? p₁.segments) (e₂.change? p₂.segments) root := by
  obtain ⟨F, hF, hF₁⟩ := exists_changesAlong hf₁
  obtain ⟨G, hG, hG₂⟩ := exists_changesAlong hf₂
  have hFG : Independent F G root := Json.independent_apart hroot hp hF hG
  have hF' : Independent (e₁.change? p₁.segments) G root := by
    rcases hF₁ with h | h
    · rw [h]; exact hFG
    · rw [h]; exact hFG.orSame_left
  rcases hG₂ with h | h
  · rw [h]; exact hF'
  · rw [h]; exact hF'.symm.orSame_left.symm

include h₂ hp hf₂ in
theorem get?_onDocument_apart {root₂ : Json} (h : e₂.onDocument root = .ok root₂) :
    root₂.get? p₁.segments = root.get? p₁.segments := by
  have hno : ¬ e₂.Shifts root p₁.segments := by
    rintro ⟨ho, p, c, i, j, r, items, hparse, hc, -⟩
    obtain ⟨k, hk⟩ := hf₂ ho
    rw [h₂] at hparse
    cases hparse
    rw [Path.last?, hc, List.getLast?_concat] at hk
    cases hk
  refine (sameAlong_onDocument h ?_ hno).1
  intro p hparse
  rw [h₂] at hparse
  cases hparse
  exact ⟨hp.2, hp.1⟩

include hroot h₁ h₂ hp hf₁ hf₂ in
theorem outcome_after {q : Payload} (h : e₂.apply (.document root) = .ok q) :
    e₁.outcome q = e₁.outcome (.document root) := by
  obtain ⟨root₂, hd, rfl⟩ := apply_document_ok h
  have hnode := get?_onDocument_apart h₂ hp hf₂ hd
  rw [onDocument_eq_ok_iff h₂] at hd
  have hind := independent_change? hroot hp hf₁ hf₂
  rw [outcome_eq h₁, outcome_eq h₁, hind.right root₂ hd, hnode]

end

theorem applyAll_pair {e₁ e₂ : Edit} {p₁ p₂ : Path} (h₁ : Path.parse e₁.locator = .ok p₁)
    (h₂ : Path.parse e₂.locator = .ok p₂) {root v : Json} :
    applyAll [e₁, e₂] (.document root) = .ok (.document v) ↔
      (e₁.change? p₁.segments root).bind (e₂.change? p₂.segments) = some v := by
  rw [Option.bind_eq_some_iff]
  constructor
  · intro h
    obtain ⟨q, hq, h⟩ := applyAll_cons_ok.mp h
    obtain ⟨q', hq', h⟩ := applyAll_cons_ok.mp h
    cases h
    obtain ⟨root', hr, rfl⟩ := (apply_document_eq_ok_iff h₁).mp hq
    obtain ⟨root'', hr', hv⟩ := (apply_document_eq_ok_iff h₂).mp hq'
    cases hv
    exact ⟨root', hr, hr'⟩
  · rintro ⟨root', hr, hr'⟩
    have hq := (apply_document_eq_ok_iff h₁).mpr ⟨root', hr, rfl⟩
    have hq' := (apply_document_eq_ok_iff h₂).mpr ⟨v, hr', rfl⟩
    exact applyAll_cons_ok.mpr ⟨_, hq, applyAll_cons_ok.mpr ⟨_, hq', rfl⟩⟩

/-- **Edits of different nodes commute.** Whether an edit succeeds, and if not
why, is the same before and after the other; where both succeed, the result does
not depend on which of them comes first. -/
theorem applyAll_commute {e₁ e₂ : Edit} {p₁ p₂ : Path} {root : Json} (hroot : root.WellFormed)
    (h₁ : Path.parse e₁.locator = .ok p₁) (h₂ : Path.parse e₂.locator = .ok p₂)
    (hp : Path.Apart p₁.segments p₂.segments) (hf₁ : e₁.AtField p₁) (hf₂ : e₂.AtField p₂) :
    (∀ q, e₂.apply (.document root) = .ok q → e₁.outcome q = e₁.outcome (.document root)) ∧
      (∀ q, e₁.apply (.document root) = .ok q → e₂.outcome q = e₂.outcome (.document root)) ∧
      (e₁.outcome (.document root) = .ok () → e₂.outcome (.document root) = .ok () →
        ∃ v, applyAll [e₁, e₂] (.document root) = .ok (.document v) ∧
          applyAll [e₂, e₁] (.document root) = .ok (.document v)) := by
  refine ⟨fun q => outcome_after hroot h₁ h₂ hp hf₁ hf₂,
    fun q => outcome_after hroot h₂ h₁ ⟨hp.2, hp.1⟩ hf₂ hf₁, ?_⟩
  intro ho₁ ho₂
  have hind := independent_change? hroot hp hf₁ hf₂
  have hs₁ : (e₁.change? p₁.segments root).isSome = true := by
    rw [outcome_eq h₁] at ho₁
    split at ho₁
    · assumption
    · cases ho₁
  have hs₂ : (e₂.change? p₂.segments root).isSome = true := by
    rw [outcome_eq h₂] at ho₂
    split at ho₂
    · assumption
    · cases ho₂
  obtain ⟨root₁, hr₁⟩ := Option.isSome_iff_exists.mp hs₁
  rw [← hind.left root₁ hr₁] at hs₂
  obtain ⟨v, hv⟩ := Option.isSome_iff_exists.mp hs₂
  have hcomm := hind.comm
  rw [hr₁, Option.bind_some, hv] at hcomm
  refine ⟨v, (applyAll_pair h₁ h₂).mpr ?_, (applyAll_pair h₂ h₁).mpr hcomm.symm⟩
  rw [hr₁, Option.bind_some, hv]

def keyDeleted : Edit := ⟨['a', '[', '0', ']', '.', 'k'], .delete, []⟩

def besideAppended : Edit := ⟨['@', '.', 'a', '[', '0', ']', '.', 'b'], .append, ['y']⟩

theorem wellFormed_besideDoc : besideDoc.WellFormed := by
  simp [besideDoc, Json.WellFormed, Json.WellFormedFields, Json.WellFormedItems, Table.Sorted,
    Table.keys]
  exact ⟨by decide, by decide⟩

theorem applyAll_keyDeleted_besideAppended :
    besideDoc.WellFormed ∧
      applyAll [keyDeleted, besideAppended] (.document besideDoc) =
        applyAll [besideAppended, keyDeleted] (.document besideDoc) ∧
      applyAll [keyDeleted, besideAppended] (.document besideDoc) =
        .ok (.document (.obj [(['a'], .arr [.obj [(['b'], .str ['x', 'y'])], .null]),
          (['d'], .arr [.null])])) := by
  have hkey : Path.parse keyDeleted.locator =
      .ok ⟨keyDeleted.locator, [.field ['a'], .index 0, .field ['k']]⟩ := rfl
  have hbeside : Path.parse besideAppended.locator =
      .ok ⟨besideAppended.locator, [.field ['a'], .index 0, .field ['b']]⟩ := rfl
  have hf (p : Path) : besideAppended.AtField p := by
    intro ho
    rcases ho with ho | ho <;> cases ho
  obtain ⟨-, -, h⟩ := applyAll_commute wellFormed_besideDoc hkey hbeside (by decide)
    (fun _ => ⟨['k'], rfl⟩) (hf _)
  obtain ⟨v, hv, hv'⟩ := h rfl rfl
  exact ⟨wellFormed_besideDoc, hv.trans hv'.symm, rfl⟩

end Edit

end Fixtures
