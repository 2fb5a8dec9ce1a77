import Fixtures.Placeholder.Occurrence
import Fixtures.Proofs.Text.Cut

/-!
# Searching for a marker

A marker is a sigil before an opening brace. In a text whose opening braces all
belong to markers, a search for the marker of one domain passes over everything
else: over pieces without an opening brace, and over the markers of the other
domains. `Domain.Skips` says so of a piece, whatever follows it. Any text without
the marker is passed over where no marker arises between it and what follows.
-/

namespace Fixtures

namespace Domain

variable {d e : Domain} {a b x : Text}

theorem sigil_ne_brace (d : Domain) : d.sigil ≠ '{' := by cases d <;> decide

theorem sigil_inj (h : d.sigil = e.sigil) : d = e := by
  cases d <;> cases e <;> simp_all [sigil]

theorem after?_marker_cons {c : Char} (h : c = d.sigil → x.head? ≠ some '{') :
    Text.after? d.marker (c :: x) = none :=
  Text.after?_pair_cons h

/-- A search for the marker of `d` passes over `x`, whatever comes after. What
comes after may not start with an opening brace, which would make a marker of a
sigil at the end of `x`. -/
def Skips (d : Domain) (x : Text) : Prop :=
  ∀ y : Text, y.head? ≠ some '{' → (x ++ y).head? ≠ some '{' ∧
    Text.cut? d.marker (x ++ y) = (Text.cut? d.marker y).map fun h => (x ++ h.1, h.2)

theorem skips_nil (d : Domain) : d.Skips [] := by
  intro y hy
  refine ⟨hy, ?_⟩
  simp only [List.nil_append]
  exact Option.map_id'.symm

theorem Skips.append (ha : d.Skips a) (hb : d.Skips b) : d.Skips (a ++ b) := by
  intro y hy
  obtain ⟨hby, hcut⟩ := hb y hy
  obtain ⟨haby, hcut'⟩ := ha (b ++ y) hby
  rw [List.append_assoc]
  refine ⟨haby, ?_⟩
  rw [hcut', hcut, Option.map_map]
  simp only [Function.comp_def, List.append_assoc]

theorem skips_of_no_brace (hx : '{' ∉ x) : d.Skips x := by
  induction x with
  | nil => exact d.skips_nil
  | cons c x ih =>
    simp only [List.mem_cons, not_or] at hx
    intro y hy
    obtain ⟨hxy, hcut⟩ := ih hx.2 y hy
    refine ⟨by simpa using Ne.symm hx.1, ?_⟩
    rw [List.cons_append, Text.cut?_cons, after?_marker_cons fun _ => hxy]
    simp only [hcut, Option.map_map, Function.comp_def, List.cons_append]

theorem skips_close (d : Domain) : d.Skips ['}'] := skips_of_no_brace (by decide)

theorem skips_marker (he : e ≠ d) : d.Skips e.marker := by
  intro y _
  have hs : e.sigil = d.sigil → ('{' :: y).head? ≠ some '{' := fun h => absurd (sigil_inj h) he
  have hb : '{' = d.sigil → y.head? ≠ some '{' := fun h => absurd h.symm d.sigil_ne_brace
  refine ⟨by simpa [marker] using e.sigil_ne_brace, ?_⟩
  simp only [marker, List.cons_append, List.nil_append]
  rw [Text.cut?_cons, ← marker, after?_marker_cons hs]
  simp only
  rw [Text.cut?_cons, after?_marker_cons hb]
  simp only [Option.map_map, Function.comp_def]

theorem Skips.cut?_marker (ha : d.Skips a) (x : Text) :
    Text.cut? d.marker (a ++ (d.marker ++ x)) = some (a, x) := by
  have hh : (d.marker ++ x).head? ≠ some '{' := by simpa [marker] using d.sigil_ne_brace
  rw [(ha _ hh).2, Text.cut?_pattern]
  simp

theorem Skips.cut?_eq_none (ha : d.Skips a) : Text.cut? d.marker a = none := by
  have h := (ha [] (by simp)).2
  rw [List.append_nil, Text.cut?_nil] at h
  rw [h]
  rfl

theorem cut?_marker_append (hs : a.getLast? = some d.sigil → b.head? ≠ some '{')
    (ha : Text.cut? d.marker a = none) :
    Text.cut? d.marker (a ++ b) = (Text.cut? d.marker b).map fun h => (a ++ h.1, h.2) :=
  Text.cut?_pair_append hs ha

end Domain

namespace Placeholder

variable {d : Domain} {i : Text} {p : Placeholder} {e : ResolutionError}

theorem domain_interior_ofInterior (h : ofInterior d i = .ok p) : p.domain = d ∧ p.interior = i := by
  cases d with
  | property =>
    simp only [ofInterior] at h
    split at h
    · rename_i hc
      cases h
      simp [interior, Text.eq_append_of_cut? hc]
    · cases h
      exact ⟨rfl, rfl⟩
  | stored =>
    cases h
    exact ⟨rfl, rfl⟩
  | code =>
    simp only [ofInterior] at h
    split at h
    · rename_i hc
      cases h
      simp [interior, Text.eq_append_of_cut? hc]
    · cases h

theorem text_of_ofInterior (h : ofInterior d i = .ok p) : p.text = d.marker ++ (i ++ ['}']) := by
  obtain ⟨hd, hi⟩ := domain_interior_ofInterior h
  rw [text, hd, hi, List.append_assoc]

theorem ofInterior_eq_error_iff :
    ofInterior d i = .error e ↔
      (d = .code ∧ '.' ∉ i) ∧ e = .missingArgument (d.marker ++ i ++ ['}']) := by
  rw [← Text.cut?_singleton_eq_none_iff]
  cases d with
  | property =>
    simp only [ofInterior]
    split <;> simp
  | stored => simp [ofInterior]
  | code =>
    simp only [ofInterior]
    split
    · rename_i hc
      simp [hc]
    · rename_i hc
      simp [hc, eq_comm]

end Placeholder

namespace Occurrence

variable {d : Domain} {a b i t : Text} {o : Occurrence}

theorem search?_of_cut? (h : Text.cut? ['}'] t = some (i, b)) (seen : Text) :
    search? d seen (d.marker ++ t) = some (seen.reverse, i, b) := by
  have hmatch : match? d (d.marker ++ t) = some (i, b) := by
    rw [match?, Text.after?_append, Option.bind_some, h]
  simp only [Domain.marker, List.cons_append] at hmatch ⊢
  simp only [search?, hmatch]

theorem search?_of_not_mem (h : '}' ∉ t) (seen : Text) : search? d seen t = none := by
  induction t generalizing seen with
  | nil => rfl
  | cons c t ih =>
    have hmatch : match? d (c :: t) = none := by
      rw [match?, Option.bind_eq_none_iff]
      intro rest hrest
      rw [Text.cut?_singleton_eq_none_iff]
      intro hmem
      rw [Text.eq_append_of_after? hrest] at h
      exact h (List.mem_append_right _ hmem)
    have ht : '}' ∉ t := fun hm => h (List.mem_cons_of_mem c hm)
    simp only [search?, hmatch, ih ht]

/-- The search from the first marker on succeeds there or nowhere: a placeholder goes
from the first marker to the next closing brace. -/
theorem first?_eq (d : Domain) (t : Text) :
    first? d t =
      match Text.cut? d.marker t with
      | none => .ok none
      | some (before, tail) =>
        match Text.cut? ['}'] tail with
        | none => .error (.unterminated d t)
        | some (interior, after) =>
          match Placeholder.ofInterior d interior with
          | .ok p => .ok (some ⟨before, p, after⟩)
          | .error e => .error e := by
  unfold first?
  cases Text.cut? d.marker t with
  | none => rfl
  | some sides =>
    obtain ⟨before, tail⟩ := sides
    cases hc : Text.cut? ['}'] tail with
    | none =>
      have hno : '}' ∉ d.marker ++ tail := by
        rw [Text.cut?_singleton_eq_none_iff] at hc
        cases d <;> simpa [Domain.marker, Domain.sigil] using hc
      simp only [search?_of_not_mem hno, hc]
    | some rest =>
      obtain ⟨i, after⟩ := rest
      cases hp : Placeholder.ofInterior d i with
      | ok p => simp only [search?_of_cut? hc, List.reverse_reverse, hc, hp]
      | error e => simp only [search?_of_cut? hc, List.reverse_reverse, hc, hp]

theorem first?_eq_some_iff :
    first? d t = .ok (some o) ↔ ∃ i tail, Text.cut? d.marker t = some (o.before, tail) ∧
      Text.cut? ['}'] tail = some (i, o.after) ∧ Placeholder.ofInterior d i = .ok o.placeholder := by
  constructor
  · intro h
    rw [first?_eq] at h
    split at h
    · cases h
    · rename_i hm
      split at h
      · cases h
      · rename_i hc
        split at h
        · rename_i hp
          cases h
          exact ⟨_, _, hm, hc, hp⟩
        · cases h
  · rintro ⟨i, tail, hm, hc, hp⟩
    simp only [first?_eq, hm, hc, hp]

theorem eq_append_of_first? (h : first? d t = .ok (some o)) :
    t = o.before ++ (o.placeholder.text ++ o.after) := by
  obtain ⟨i, tail, hm, hc, hp⟩ := first?_eq_some_iff.mp h
  rw [Text.eq_append_of_cut? hm, Text.eq_append_of_cut? hc, Placeholder.text_of_ofInterior hp]
  simp only [List.append_assoc]

theorem replaceFirst_text (h : first? d t = .ok (some o)) (v : Text) :
    Text.replaceFirst o.placeholder.text v t = o.replaceBy v := by
  obtain ⟨i, tail, hm, hc, hp⟩ := first?_eq_some_iff.mp h
  have htail : tail = (i ++ ['}']) ++ o.after := Text.eq_append_of_cut? hc
  rw [htail] at hm
  have hcut : Text.cut? o.placeholder.text t = some (o.before, o.after) := by
    rw [Placeholder.text_of_ofInterior hp]
    exact Text.cut?_append_pattern hm
  rw [Text.replaceFirst_of_cut? hcut, List.append_assoc, replaceBy]

theorem first?_append (h : first? d a = .ok (some o)) (b : Text) :
    first? d (a ++ b) = .ok (some { o with after := o.after ++ b }) := by
  obtain ⟨i, tail, hm, hc, hp⟩ := first?_eq_some_iff.mp h
  exact first?_eq_some_iff.mpr ⟨i, tail ++ b, Text.cut?_append hm b, Text.cut?_append hc b, hp⟩

theorem first?_append_of_none (hs : a.getLast? = some d.sigil → b.head? ≠ some '{')
    (ha : first? d a = .ok none) {r : Option Occurrence} (hb : first? d b = .ok r) :
    first? d (a ++ b) = .ok (r.map fun o => { o with before := a ++ o.before }) := by
  have hcut := Domain.cut?_marker_append hs (b := b) (by simpa [Text.has] using first?_eq_none.mp ha)
  cases r with
  | none =>
    have hno : Text.cut? d.marker b = none := by simpa [Text.has] using first?_eq_none.mp hb
    rw [hno] at hcut
    simp [first?_eq, hcut]
  | some o =>
    obtain ⟨i, tail, hm, hc, hp⟩ := first?_eq_some_iff.mp hb
    rw [hm] at hcut
    exact first?_eq_some_iff.mpr ⟨i, tail, hcut, hc, hp⟩

theorem first?_eq_error_iff {e : ResolutionError} :
    first? d t = .error e ↔ ∃ a tail, Text.cut? d.marker t = some (a, tail) ∧
      ((Text.cut? ['}'] tail = none ∧ e = .unterminated d t) ∨
        ∃ i b, Text.cut? ['}'] tail = some (i, b) ∧ Placeholder.ofInterior d i = .error e) := by
  rw [first?_eq]
  cases hm : Text.cut? d.marker t with
  | none => simp
  | some sides =>
    obtain ⟨a, tail⟩ := sides
    cases hc : Text.cut? ['}'] tail with
    | none => simp [hc, eq_comm]
    | some rest =>
      obtain ⟨i, b⟩ := rest
      cases hp : Placeholder.ofInterior d i with
      | ok p => simp [hc, hp]
      | error e' => simp [hc, hp]

theorem first?_of_cut? {tail : Text} (hm : Text.cut? d.marker t = some (a, tail))
    (hc : Text.cut? ['}'] tail = some (i, b)) :
    first? d t = (Placeholder.ofInterior d i).map fun p => some ⟨a, p, b⟩ := by
  rw [first?_eq]
  cases hp : Placeholder.ofInterior d i with
  | ok p =>
    simp only [hm, hc, hp]
    rfl
  | error e =>
    simp only [hm, hc, hp]
    rfl

theorem first?_of_skips (ha : d.Skips a) (hi : '}' ∉ i) (b : Text) :
    first? d (a ++ (d.marker ++ (i ++ '}' :: b))) =
      (Placeholder.ofInterior d i).map fun p => some ⟨a, p, b⟩ :=
  first?_of_cut? (ha.cut?_marker _) (Text.cut?_singleton hi b)

theorem first?_eq_none_of_skips (ha : d.Skips a) : first? d a = .ok none := by
  rw [first?_eq, ha.cut?_eq_none]

end Occurrence

end Fixtures
