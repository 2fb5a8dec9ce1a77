import Fixtures.Proofs.Placeholder.Located

/-!
# Placeholders and their texts

A placeholder and its text determine each other: reading takes every text that is a
marker, an interior and a brace at the very end, and writing gives it back. The search
in a longer text stops at the first brace instead, so it agrees with the reader on
exactly those placeholders whose interiors hold no brace.
-/

namespace Fixtures

theorem Domain.ofSigil?_eq_some_iff {c : Char} {d : Domain} : ofSigil? c = some d ↔ c = d.sigil := by
  constructor
  · intro h
    have hd := List.find?_some h
    exact (beq_iff_eq.mp hd).symm
  · rintro rfl
    cases d <;> rfl

namespace Placeholder

variable {d : Domain} {t i : Text} {p : Placeholder}

theorem parse_eq_ok_iff : parse t = .ok p ↔
    ∃ d i, t = d.marker ++ (i ++ ['}']) ∧ ofInterior d i = .ok p := by
  constructor
  · intro h
    unfold parse at h
    split at h
    · rename_i c rest
      split at h
      · cases h
      · rename_i d hd
        split at h
        · cases h
        · rename_i i hi
          rw [Domain.ofSigil?_eq_some_iff.mp hd, Text.before?_eq_some_iff.mp hi]
          exact ⟨d, i, rfl, h⟩
    · cases h
  · rintro ⟨d, i, rfl, h⟩
    simp only [Domain.marker, List.cons_append, List.nil_append, parse,
      Domain.ofSigil?_eq_some_iff.mpr rfl, Text.before?_eq_some_iff.mpr rfl]
    exact h

theorem text_of_parse (h : parse t = .ok p) : p.text = t := by
  obtain ⟨d, i, rfl, hp⟩ := parse_eq_ok_iff.mp h
  exact text_of_ofInterior hp

theorem parse_text (h : ofInterior d i = .ok p) : parse p.text = .ok p :=
  parse_eq_ok_iff.mpr ⟨d, i, text_of_ofInterior h, h⟩

theorem exists_ofInterior_iff : (∃ p, ofInterior d i = .ok p) ↔ (d = .code → '.' ∈ i) := by
  constructor
  · rintro ⟨p, hp⟩ hd
    by_contra hdot
    rw [ofInterior_eq_error_iff.mpr ⟨⟨hd, hdot⟩, rfl⟩] at hp
    cases hp
  · intro hdot
    cases h : ofInterior d i with
    | ok p => exact ⟨p, rfl⟩
    | error e =>
      obtain ⟨hd, hno⟩ := (ofInterior_eq_error_iff.mp h).1
      exact absurd (hdot hd) hno

/-- **A placeholder and its text determine each other.** The texts that are read are
those of a marker, an interior and a brace, where only a capability must have a dot; what
is read is written as that text, and what is written is read as that placeholder. So an
interior is never lost, wherever its dots are. -/
theorem reads_what_it_writes :
    (∀ t, (∃ p, parse t = .ok p) ↔
      ∃ (d : Domain) (i : Text), t = d.marker ++ (i ++ ['}']) ∧ (d = .code → '.' ∈ i)) ∧
    (∀ t p, parse t = .ok p → p.text = t) ∧
    (∀ d i p, ofInterior d i = .ok p → parse p.text = .ok p) ∧
    ∀ d i j p q, ofInterior d i = .ok p → ofInterior d j = .ok q → i ≠ j → p ≠ q := by
  refine ⟨fun t => ?_, fun t p => text_of_parse, fun d i p => parse_text, ?_⟩
  · constructor
    · rintro ⟨p, h⟩
      obtain ⟨d, i, ht, hp⟩ := parse_eq_ok_iff.mp h
      exact ⟨d, i, ht, exists_ofInterior_iff.mp ⟨p, hp⟩⟩
    · rintro ⟨d, i, ht, hdot⟩
      obtain ⟨p, hp⟩ := exists_ofInterior_iff.mpr hdot
      exact ⟨p, parse_eq_ok_iff.mpr ⟨d, i, ht, hp⟩⟩
  · rintro d i j p q hp hq hij rfl
    exact hij ((domain_interior_ofInterior hp).2.symm.trans (domain_interior_ofInterior hq).2)

theorem reads_what_it_writes_dotted :
    parse (text ⟨.property, [], some ['.', 'a', '.']⟩) = .ok ⟨.property, [], some ['.', 'a', '.']⟩ ∧
      text ⟨.property, [], some ['.', 'a', '.']⟩ = ['$', '{', '.', '.', 'a', '.', '}'] ∧
      (⟨.property, [], some []⟩ : Placeholder) ≠ ⟨.property, [], none⟩ := by
  obtain ⟨-, hread, hwritten, hne⟩ := reads_what_it_writes
  have h := hwritten .property ['.', '.', 'a', '.'] _ rfl
  exact ⟨h, hread _ _ rfl, hne .property ['.'] [] _ _ rfl rfl (by decide)⟩

/-! ## The placeholder of a longer text -/

theorem first?_text (h : ofInterior d i = .ok p) (hi : '}' ∉ i) :
    Occurrence.first? d p.text = .ok (some ⟨[], p, []⟩) := by
  refine Occurrence.first?_eq_some_iff.mpr ⟨i, i ++ ['}'], ?_, Text.cut?_singleton hi [], h⟩
  rw [text_of_ofInterior h, Text.cut?_pattern]

theorem eq_nil_of_whole {o : Occurrence} (h : Occurrence.first? d t = .ok (some o))
    (hstart : o.start = 0) (hstop : o.stop = Text.byteSize t) : o.before = [] ∧ o.after = [] := by
  obtain ⟨i, tail, hm, hc, hp⟩ := Occurrence.first?_eq_some_iff.mp h
  have ht : t = o.before ++ o.placeholder.text ++ o.after := by
    rw [Occurrence.text_eq hm hc, text_of_ofInterior hp, List.append_assoc d.marker]
  rw [ht, Text.byteSize_append, Text.byteSize_append] at hstop
  have hafter : Text.byteSize o.after = 0 := by
    simp only [Occurrence.stop, Occurrence.start] at hstop
    omega
  exact ⟨Text.byteSize_eq_zero hstart, Text.byteSize_eq_zero hafter⟩

/-- **Where the two readers agree.** A text is a placeholder without a brace in its
interior if and only if the search for its domain finds that placeholder in all of the
text. -/
theorem parse_iff_found_whole (t : Text) (p : Placeholder) :
    (parse t = .ok p ∧ '}' ∉ p.interior) ↔
      ∃ o, Occurrence.first? p.domain t = .ok (some o) ∧ o.placeholder = p ∧ o.start = 0 ∧
        o.stop = Text.byteSize t := by
  constructor
  · rintro ⟨hparse, hbrace⟩
    obtain ⟨d, i, -, hp⟩ := parse_eq_ok_iff.mp hparse
    obtain ⟨rfl, rfl⟩ := domain_interior_ofInterior hp
    have hfirst := first?_text hp hbrace
    rw [text_of_parse hparse] at hfirst
    refine ⟨_, hfirst, rfl, rfl, ?_⟩
    rw [← text_of_parse hparse]
    exact Nat.zero_add _
  · rintro ⟨o, hfirst, rfl, hstart, hstop⟩
    obtain ⟨i, tail, hm, hc, hp⟩ := Occurrence.first?_eq_some_iff.mp hfirst
    obtain ⟨hbefore, hafter⟩ := eq_nil_of_whole hfirst hstart hstop
    have ht : t = o.placeholder.domain.marker ++ (i ++ ['}']) := by
      rw [Occurrence.text_eq hm hc, hbefore, hafter]
      simp
    refine ⟨parse_eq_ok_iff.mpr ⟨_, i, ht, hp⟩, ?_⟩
    rw [(domain_interior_ofInterior hp).2]
    exact Text.not_mem_of_cut?_singleton hc

theorem parse_beyond_first_brace :
    ¬ ∀ t p, parse t = .ok p ↔
      ∃ o, Occurrence.first? p.domain t = .ok (some o) ∧ o.placeholder = p ∧ o.start = 0 ∧
        o.stop = Text.byteSize t := by
  intro h
  have hread : parse ['$', '{', 'a', '}', 'b', '}'] = .ok ⟨.property, ['a', '}', 'b'], none⟩ := rfl
  have hfound : Occurrence.first? .property ['$', '{', 'a', '}', 'b', '}'] =
      .ok (some ⟨[], ⟨.property, ['a'], none⟩, ['b', '}']⟩) := rfl
  obtain ⟨o, ho, hp, -⟩ := (h _ _).mp hread
  cases hfound.symm.trans ho
  cases hp

end Placeholder

end Fixtures
