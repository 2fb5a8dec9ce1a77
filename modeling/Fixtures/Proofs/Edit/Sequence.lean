import Fixtures.Proofs.Edit.InPlace

/-!
# Where a sequence of edits stops

A sequence may be cut anywhere: it is its first part and then, on what that has
left, its second. It fails exactly where one of its items fails on what the items
before it have left. It stops with what the failing item leaves, and since that item
changes nothing (`Edit.atomic_editPayload`), this is what it has been run on. Rows and
edits are run by the same loop (`Edit.applyEach`), so both are settled there.
-/

namespace Fixtures

namespace EditFailure

theorem after_index (f : EditFailure) : after f.index ⟨0, f.reached, f.error⟩ = f := by
  simp [after]

theorem mapError_after_zero (r : Except EditFailure Payload) : r.mapError (after 0) = r := by
  cases r with
  | error _ => rfl
  | ok _ => rfl

theorem mapError_after_after (r : Except EditFailure Payload) (m n : Nat) :
    (r.mapError (after m)).mapError (after n) = r.mapError (after (m + n)) := by
  cases r with
  | error f =>
    refine congrArg Except.error ?_
    simp only [after, Nat.add_assoc]
  | ok _ => rfl

end EditFailure

namespace Edit

section
variable {α : Type}

/-- `items`, run from `p`, stop at `f`: those before its index run through and
leave what it has reached, and the one at its index, run alone, fails on that. -/
structure StopsAt (run : List α → Payload → Except EditFailure Payload) (items : List α)
    (p : Payload) (f : EditFailure) : Prop where
  index_lt : f.index < items.length
  before : run (items.take f.index) p = .ok f.reached
  alone : run [items[f.index]] f.reached = .error ⟨0, f.reached, f.error⟩

/-- A run does one item after another, and fails exactly if one of them does. -/
structure Sequential (run : List α → Payload → Except EditFailure Payload) : Prop where
  append : ∀ xs ys p, run (xs ++ ys) p =
    match run xs p with
    | .error f => .error f
    | .ok q => (run ys q).mapError (EditFailure.after xs.length)
  error_iff : ∀ items p f, run items p = .error f ↔ StopsAt run items p f

variable {f : α → InPlace Payload Unit}

theorem applyEach_cons_ok {a : α} {rest : List α} {p p' : Payload} :
    applyEach f (a :: rest) p = .ok p' ↔
      ∃ q, (f a).result p = .ok q ∧ applyEach f rest q = .ok p' := by
  rw [applyEach, InPlace.result]
  cases f a p with
  | error _ _ => simp
  | ok _ q => simp only [Except.mapError_eq_ok_iff, Except.ok.injEq, exists_eq_left']

theorem applyEach_append (f : α → InPlace Payload Unit) (xs ys : List α) (p : Payload) :
    applyEach f (xs ++ ys) p =
      match applyEach f xs p with
      | .error e => .error e
      | .ok q => (applyEach f ys q).mapError (EditFailure.after xs.length) := by
  induction xs generalizing p with
  | nil => exact (EditFailure.mapError_after_zero _).symm
  | cons x xs ih =>
    rw [List.cons_append, applyEach, applyEach]
    cases f x p with
    | error _ _ => rfl
    | ok _ q =>
      simp only [ih]
      cases applyEach f xs q with
      | error _ => rfl
      | ok q' => exact EditFailure.mapError_after_after (applyEach f ys q') xs.length 1

theorem error_of_stopsAt {items : List α} {p : Payload} {e : EditFailure}
    (h : StopsAt (applyEach f) items p e) : applyEach f items p = .error e := by
  obtain ⟨hlt, hbefore, halone⟩ := h
  have hcut : items = items.take e.index ++ ([items[e.index]] ++ items.drop (e.index + 1)) := by
    rw [List.singleton_append, ← List.drop_eq_getElem_cons hlt, List.take_append_drop]
  have hlen : (items.take e.index).length = e.index := by
    rw [List.length_take]
    omega
  rw [hcut, applyEach_append, hbefore]
  simp only [applyEach_append, halone, hlen]
  exact congrArg Except.error e.after_index

section
variable (hf : ∀ a, (f a).Atomic)
include hf

theorem applyEach_singleton (a : α) (p : Payload) :
    applyEach f [a] p =
      match (f a).result p with
      | .error e => .error ⟨0, p, e⟩
      | .ok q => .ok q := by
  rw [applyEach, InPlace.result]
  cases ha : f a p with
  | error error left => rw [hf a p error left ha]
  | ok _ q => rfl

theorem stopsAt_of_error {items : List α} {p : Payload} {e : EditFailure}
    (h : applyEach f items p = .error e) : StopsAt (applyEach f) items p e := by
  induction items generalizing p e with
  | nil => cases h
  | cons a rest ih =>
    rw [applyEach] at h
    cases ha : f a p with
    | error error left =>
      rw [ha] at h
      cases h
      -- the first item has left what it was run on
      have hleft : left = p := hf a p error left ha
      subst hleft
      exact ⟨Nat.zero_lt_succ _, rfl, by simp only [List.getElem_cons_zero, applyEach, ha]⟩
    | ok _ q =>
      rw [ha] at h
      cases hr : applyEach f rest q with
      | ok _ => simp only [hr] at h; cases h
      | error e' =>
        simp only [hr] at h
        cases h
        obtain ⟨hlt, hbefore, halone⟩ := ih hr
        have hq : (f a).result p = .ok q := by rw [InPlace.result, ha]
        exact ⟨Nat.succ_lt_succ hlt, applyEach_cons_ok.mpr ⟨q, hq, hbefore⟩, halone⟩

theorem sequential_applyEach : Sequential (applyEach f) :=
  ⟨applyEach_append f, fun _ _ _ => ⟨stopsAt_of_error hf, error_of_stopsAt⟩⟩

end

end

theorem applyAll_cons_ok {e : Edit} {rest : List Edit} {p p' : Payload} :
    applyAll (e :: rest) p = .ok p' ↔ ∃ q, e.apply p = .ok q ∧ applyAll rest q = .ok p' :=
  applyEach_cons_ok

/-- **Sequences of edits compose and fail exactly**, as rows and as edits. An edit that
fails stops its sequence with what it was run on, whatever its operation and its payload. -/
theorem sequential_applyRows_applyAll : Sequential applyRows ∧ Sequential applyAll :=
  ⟨sequential_applyEach atomic_applyRow, sequential_applyEach atomic_editPayload⟩

example : applyRows [[['a'], ['A', 'D', 'D'], ['b']], [['x']]] (.raw ['a']) =
    .error ⟨1, .raw ['a', 'b'], .invalidRow 1⟩ := rfl

end Edit

end Fixtures
