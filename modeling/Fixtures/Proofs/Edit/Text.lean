import Fixtures.Proofs.Edit.InPlace
import Fixtures.Proofs.Text.Position

/-!
# Edits of a raw text are one edit

An edit goes to the first occurrence of its locator and cuts, inserts or overwrites
there. What comes of it is the same as if the locator had been replaced by a text
that the edit determines (`Edit.substitute?`). A replacement names what it replaces in
its argument, in front of the first arrow.
-/

namespace Fixtures

namespace Edit

variable {e : Edit} {t r : Text}

/-- What comes into the place of the locator. -/
def substitute? (e : Edit) : Option Text :=
  match e.operation with
  | .delete => some []
  | .update => some e.argument
  | .prepend => some (e.argument ++ e.locator)
  | .append => some (e.locator ++ e.argument)
  | _ => none

theorem atLocator_eq {f : Nat → Nat → Text → Text}
    (hf : ∀ a b, f (Text.byteSize a) (Text.byteSize a + Text.byteSize e.locator)
      (a ++ e.locator ++ b) = a ++ r ++ b) (t : Text) :
    e.atLocator f t = Text.replaceFirst e.locator r t := by
  unfold atLocator
  by_cases h : e.locator <:+: t
  · obtain ⟨a, b, hcut⟩ := Text.exists_cut?_of_infix h
    rw [Text.find?_of_cut? hcut, Text.replaceFirst_of_cut? hcut, ← hf, ← Text.eq_append_of_cut? hcut]
  · rw [Text.find?_of_absent h, Text.replaceFirst_of_absent h]

theorem onText_of_substitute (h : e.substitute? = some r) (t : Text) :
    e.onText t = .ok (Text.replaceFirst e.locator r t) := by
  unfold onText editText
  unfold substitute? at h
  cases ho : e.operation with
  | add => rw [ho] at h; cases h
  | replace => rw [ho] at h; cases h
  | delete =>
    rw [ho] at h
    cases h
    exact congrArg Except.ok (atLocator_eq (fun a b => Text.replaceRange_append a _ b []) t)
  | update =>
    rw [ho] at h
    cases h
    exact congrArg Except.ok (atLocator_eq (fun a b => Text.replaceRange_append a _ b _) t)
  | prepend =>
    rw [ho] at h
    cases h
    refine congrArg Except.ok (atLocator_eq (fun a b => ?_) t)
    rw [List.append_assoc, Text.insertAt_append]
    simp only [List.append_assoc]
  | append =>
    rw [ho] at h
    cases h
    refine congrArg Except.ok (atLocator_eq (fun a b => ?_) t)
    rw [← Text.byteSize_append, Text.insertAt_append]
    simp only [List.append_assoc]

theorem apply_raw_of_substitute (h : e.substitute? = some r) (t : Text) :
    e.apply (.raw t) = .ok (.raw (Text.replaceFirst e.locator r t)) := by
  rw [apply_raw, onText_of_substitute h]
  rfl

theorem replacement_of_not_infix {l : Text} (hl : ¬ ['-', '>'] <:+: l) (r : Text)
    (h : e.argument = l ++ ['-', '>'] ++ r) : e.replacement = .ok (l, r) := by
  have hcut : Text.cut? ['-', '>'] e.argument = some (l, r) := by
    have hseam : l.getLast? = some '-' → (['-', '>'] ++ r).head? ≠ some '>' := by simp
    rw [h, List.append_assoc, Text.cut?_pair_append hseam (Text.cut?_eq_none_iff.mpr hl),
      Text.cut?_pattern, Option.map_some, List.append_nil]
  simp only [replacement, hcut]

/-- **Edits of a raw text are one edit.** An update puts its argument into the place of
the first occurrence of its locator, and leaves a text without one. Every other edit
that does not add at the end is an update. -/
theorem apply_raw_as_update (t l a : Text) :
    (∀ pre post, t = pre ++ l ++ post → Text.FirstFrom 0 l t (Text.byteSize pre) →
      apply ⟨l, .update, a⟩ (.raw t) = .ok (.raw (pre ++ a ++ post))) ∧
    (¬ l <:+: t → apply ⟨l, .update, a⟩ (.raw t) = .ok (.raw t)) ∧
    apply ⟨l, .delete, a⟩ (.raw t) = apply ⟨l, .update, []⟩ (.raw t) ∧
    apply ⟨l, .prepend, a⟩ (.raw t) = apply ⟨l, .update, a ++ l⟩ (.raw t) ∧
    apply ⟨l, .append, a⟩ (.raw t) = apply ⟨l, .update, l ++ a⟩ (.raw t) ∧
    (¬ ['-', '>'] <:+: l → ∀ l',
      apply ⟨l', .replace, l ++ ['-', '>'] ++ a⟩ (.raw t) = apply ⟨l, .update, a⟩ (.raw t)) := by
  have hupdate (r : Text) :
      apply ⟨l, .update, r⟩ (.raw t) = .ok (.raw (Text.replaceFirst l r t)) :=
    apply_raw_of_substitute (e := ⟨l, .update, r⟩) rfl t
  refine ⟨fun pre post ht hfirst => ?_, fun hl => ?_, ?_, ?_, ?_, fun hl l' => ?_⟩
  · have hcut := Text.cut?_eq_some_iff.mpr ⟨ht, hfirst⟩
    rw [hupdate, Text.replaceFirst_of_cut? hcut]
  · rw [hupdate, Text.replaceFirst_of_absent hl]
  · rw [hupdate, apply_raw_of_substitute (e := ⟨l, .delete, a⟩) rfl]
  · rw [hupdate, apply_raw_of_substitute (e := ⟨l, .prepend, a⟩) rfl]
  · rw [hupdate, apply_raw_of_substitute (e := ⟨l, .append, a⟩) rfl]
  · rw [hupdate, apply_raw, onText, editText, replacement_of_not_infix hl a rfl]
    rfl

theorem apply_raw_as_update_dashed :
    apply ⟨['é', '-'], .update, ['→']⟩ (.raw ['a', 'é', '-', 'é', '-']) =
        .ok (.raw ['a', '→', 'é', '-']) ∧
      apply ⟨['b'], .replace, ['é', '-', '-', '>', '→']⟩ (.raw ['a', 'é', '-', 'é', '-']) =
        .ok (.raw ['a', '→', 'é', '-']) ∧
      apply ⟨['b'], .update, ['→']⟩ (.raw ['a', 'é', '-']) = .ok (.raw ['a', 'é', '-']) := by
  have hfirst := Text.firstFrom_of_cut? (p := ['é', '-']) (t := ['a', 'é', '-', 'é', '-']) rfl
  have hno : ¬ ['-', '>'] <:+: ['é', '-'] := by decide
  have hupdate := (apply_raw_as_update _ _ ['→']).1 ['a'] ['é', '-'] rfl hfirst
  have hreplace := (apply_raw_as_update ['a', 'é', '-', 'é', '-'] ['é', '-'] ['→']).2.2.2.2.2 hno ['b']
  exact ⟨hupdate, hreplace.trans hupdate,
    (apply_raw_as_update ['a', 'é', '-'] ['b'] ['→']).2.1 (by decide)⟩

end Edit

end Fixtures
