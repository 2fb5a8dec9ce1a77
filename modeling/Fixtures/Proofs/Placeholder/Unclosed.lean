import Fixtures.Proofs.Placeholder.Marker
import Fixtures.Proofs.Placeholder.Unlimited

/-!
# Markers that are never closed

Whatever a resolution replaces ends with a closing brace. So an end of the text
without a closing brace is never touched, whatever the values before it bring
(`Sources.Ends.suffix`), and a marker in it is there as long as the resolution
lasts.
-/

namespace Fixtures

namespace Occurrence

variable {d : Domain} {t z : Text} {o : Occurrence}

theorem suffix_after (h : first? d t = .ok (some o)) (hz : '}' ∉ z) (ht : z <:+ t) :
    z <:+ o.after := by
  obtain ⟨i, tail, hm, hc, -⟩ := first?_eq_some_iff.mp h
  have hclose : '}' :: o.after <:+ t := by
    rw [Text.eq_append_of_cut? hm, Text.eq_append_of_cut? hc]
    exact ⟨o.before ++ d.marker ++ i, by simp⟩
  rcases List.suffix_or_suffix_of_suffix ht hclose with hs | hs
  · rcases List.suffix_cons_iff.mp hs with rfl | hs
    · exact absurd List.mem_cons_self hz
    · exact hs
  · exact absurd (hs.subset List.mem_cons_self) hz

end Occurrence

namespace Sources

variable {s : Sources} {d : Domain} {t u z : Text} {ls : List Lookup}

theorem Ends.suffix (h : s.Ends d t ls (.ok u)) (hz : '}' ∉ z) (ht : z <:+ t) : z <:+ u := by
  refine h.invariant (fun d t o v ht hf _ => ?_) ht rfl
  rw [Occurrence.replaceBy, ← List.append_assoc]
  exact (Occurrence.suffix_after hf hz ht).trans (List.suffix_append _ o.after)

/-- **A marker that is never closed is an error**, whatever stands before it and
whatever the sources and the limit. -/
theorem resolve_unclosed (s : Sources) (limit : Nat) (a : Text) (d : Domain) (z : Text)
    (hz : '}' ∉ z) : ∃ e, (s.resolve limit (a ++ (d.marker ++ z))).result = .error e := by
  cases h : (s.resolve limit (a ++ (d.marker ++ z))).result with
  | error e => exact ⟨e, rfl⟩
  | ok u =>
    exfalso
    have hopen : '}' ∉ d.marker ++ z := by
      rw [List.mem_append, not_or]
      exact ⟨by cases d <;> decide, hz⟩
    have hend := (ends_of_resolve_ok h).suffix hopen (List.suffix_append a _)
    have hmark : Text.has d.marker u = true :=
      Text.has_iff_infix.mpr ((List.prefix_append d.marker z).isInfix.trans hend.isInfix)
    have hno : hasMarker u = false := by
      rw [resolve_eq_serve] at h
      exact hasMarker_of_serve h
    rw [hasMarker_eq_false.mp hno d d.mem_all] at hmark
    cases hmark

def misleading : Sources where
  property n := if n = ['a'] then some ['}', '@', '{'] else none
  stored _ := some ['b', '}']
  addresses _ := none

theorem resolve_misleading :
    '}' ∉ ['b', '$'] ∧
      ∃ e, (misleading.resolve 9 ['$', '{', 'a', '}', '!', '{', 'b', '$']).result = .error e :=
  ⟨by decide, resolve_unclosed misleading 9 ['$', '{', 'a', '}'] .stored ['b', '$'] (by decide)⟩

end Sources

end Fixtures
