import Fixtures.Proofs.Placeholder.Marker
import Fixtures.Proofs.Placeholder.Unlimited

/-!
# What an open marker is reported in

A resolution works on one text, in which it replaces one placeholder after another.
What it has come to at any time is therefore known from its lookups
(`Sources.Ends.text_eq`). A marker that is not closed is looked for in that text,
and is reported with it.
-/

namespace Fixtures

/-- A text after a lookup: the placeholder, where it first occurs, gives way to its value. -/
def Lookup.fill (t : Text) (l : Lookup) : Text :=
  match l.answer with
  | .ok v => Text.replaceFirst l.placeholder.text v t
  | .error _ => t

namespace Occurrence

variable {d e : Domain} {ds : List Domain} {t u : Text}

theorem fill_eq {o : Occurrence} (h : first? d t = .ok (some o)) (v : Text) :
    Lookup.fill t ⟨o.placeholder, .ok v⟩ = o.replaceBy v :=
  replaceFirst_text h v

theorem first?_unterminated (h : first? d t = .error (.unterminated e u)) :
    e = d ∧ u = t ∧ ∃ a z, t = a ++ (d.marker ++ z) ∧ '}' ∉ z := by
  obtain ⟨a, z, hm, ⟨hc, he⟩ | ⟨i, b, -, hp⟩⟩ := first?_eq_error_iff.mp h
  · cases he
    refine ⟨rfl, rfl, a, z, ?_, Text.cut?_singleton_eq_none_iff.mp hc⟩
    rw [Text.eq_append_of_cut? hm, List.append_assoc]
  · cases (Placeholder.ofInterior_eq_error_iff.mp hp).2

theorem next?_unterminated (h : next? t ds = .error (.unterminated e u)) :
    u = t ∧ ∃ a z, t = a ++ (e.marker ++ z) ∧ '}' ∉ z := by
  induction ds with
  | nil => cases h
  | cons d ds ih =>
    simp only [next?] at h
    split at h
    · exact ih h
    · obtain ⟨rfl, hut, hopen⟩ := first?_unterminated h
      exact ⟨hut, hopen⟩

end Occurrence

namespace Sources

open Occurrence (next?)

variable {s : Sources} {d e : Domain} {t u : Text} {ls : List Lookup}
  {r : Except ResolutionError Text}

theorem Ends.text_eq (h : s.Ends d t ls r)
    (hr : r = .ok u ∨ ∃ e, r = .error (.unterminated e u)) : u = ls.foldl Lookup.fill t := by
  induction h with
  | clear _ =>
    rcases hr with hr | ⟨e, hr⟩
    · cases hr
      rfl
    · cases hr
  | broken hn =>
    rcases hr with hr | ⟨e, hr⟩
    · cases hr
    · cases hr
      exact (Occurrence.next?_unterminated hn).1
  | refused _ hl =>
    rcases hr with hr | ⟨e, hr⟩
    · cases hr
    · cases hr
      exact absurd (error_ofLookup hl) id
  | filled hn _ _ ih =>
    obtain ⟨d', hf⟩ := Occurrence.exists_first?_of_next? hn
    rw [List.foldl_cons, Occurrence.fill_eq hf]
    exact ih hr

theorem Ends.open_of_unterminated (h : s.Ends d t ls r) (hr : r = .error (.unterminated e u)) :
    ∃ a z, u = a ++ (e.marker ++ z) ∧ '}' ∉ z := by
  induction h with
  | clear _ => cases hr
  | broken hn =>
    cases hr
    obtain ⟨rfl, hopen⟩ := Occurrence.next?_unterminated hn
    exact hopen
  | refused _ hl =>
    cases hr
    exact absurd (error_ofLookup hl) id
  | filled _ _ _ ih => exact ih hr

theorem next?_first_round (t : Text) :
    next? t (Domain.onward .property ++ Domain.all) = next? t Domain.all := by
  by_cases hn : next? t Domain.all = .ok none
  · exact Occurrence.next?_append hn
  · exact Occurrence.next?_append_of_ne hn

theorem Ends.nil_iff {error : ResolutionError} (h : s.Ends .property t ls (.error error)) :
    ls = [] ↔ next? t Domain.all = .error error := by
  rw [← next?_first_round]
  cases h with
  | broken hn => exact iff_of_true rfl hn
  | refused hn _ => simp [hn]
  | filled hn _ _ => simp [hn]

/-- **An open marker is reported in the text that the resolution has come to**: the
given text with every placeholder that was looked up replaced by its value. The
marker is open in that text. It is the given text as long as nothing has been looked
up, that is if the first thing found in it is an open marker. -/
theorem resolve_unterminated {limit : Nat}
    (h : (s.resolve limit t).result = .error (.unterminated d u)) :
    u = (s.resolve limit t).lookups.foldl Lookup.fill t ∧
      (∃ a z, u = a ++ (d.marker ++ z) ∧ '}' ∉ z) ∧
      ((s.resolve limit t).lookups = [] → u = t) ∧
      ((s.resolve limit t).lookups = [] ↔ next? t Domain.all = .error (.unterminated d u)) := by
  have hne (n : Nat) : (s.resolve limit t).result ≠ .error (.limitExceeded n) := by
    rw [h]
    exact nofun
  have hends := ends_of_resolve hne
  have htext := hends.text_eq (.inr ⟨d, h⟩)
  refine ⟨htext, hends.open_of_unterminated h, ?_, ?_⟩
  · intro hnil
    rw [htext, hnil]
    rfl
  · rw [h] at hends
    exact hends.nil_iff

def confiding : Sources where
  property n := if n = ['a'] then some ['s', '3'] else none
  stored _ := none
  addresses _ := none

theorem ends_confiding : confiding.Ends .property ['$', '{', 'a', '}', '!', '{', 'b']
    [⟨⟨.property, ['a'], none⟩, .ok ['s', '3']⟩]
    (.error (.unterminated .stored ['s', '3', '!', '{', 'b'])) :=
  .filled (o := ⟨[], ⟨.property, ['a'], none⟩, ['!', '{', 'b']⟩) rfl rfl (.broken rfl)

theorem unterminated_filled :
    ['s', '3', '!', '{', 'b'] =
        (confiding.resolve 9 ['$', '{', 'a', '}', '!', '{', 'b']).lookups.foldl Lookup.fill
          ['$', '{', 'a', '}', '!', '{', 'b'] ∧
      ∃ a z, ['s', '3', '!', '{', 'b'] = a ++ (Domain.stored.marker ++ z) ∧ '}' ∉ z := by
  have hrun := ends_confiding.resolve 9 (by decide)
  obtain ⟨hfill, hopen, -⟩ := resolve_unterminated (congrArg Run.result hrun)
  exact ⟨hfill, hopen⟩

theorem unterminated_discloses :
    (confiding.resolve 9 ['$', '{', 'a', '}', '!', '{', 'b']).result =
        .error (.unterminated .stored ['s', '3', '!', '{', 'b']) ∧
      confiding.property ['a'] = some ['s', '3'] ∧ ['s', '3'] <:+: ['s', '3', '!', '{', 'b'] ∧
      ¬ ['s', '3'] <:+: ['$', '{', 'a', '}', '!', '{', 'b'] := by
  refine ⟨congrArg Run.result (ends_confiding.resolve 9 (by decide)), rfl, ?_, ?_⟩
  · decide
  · decide

end Sources

end Fixtures
