import Fixtures.Proofs.Placeholder.Marker
import Fixtures.Proofs.Placeholder.Unlimited

/-!
# Texts side by side

Two texts with a neutral text between them are resolved as each would be on its
own. A pass serves the left text before the right one, so the two resolutions
take turns, and one may need more rounds than the other; but a resolution that
waits depends on the domain it has come to only by the next placeholder it will
find (`Sources.Ends.of_next?`), and that is the same when it is its turn again.
-/

namespace Fixtures

/-- A text that may stand between any two texts without a marker arising. -/
structure Text.Neutral (m : Text) : Prop where
  nonempty : m ≠ []
  no_marker : hasMarker m = false
  head : m.head? ≠ some '{'
  last : ∀ d : Domain, m.getLast? ≠ some d.sigil

theorem Text.Neutral.head?_append {m : Text} (hm : m.Neutral) (b : Text) :
    (m ++ b).head? ≠ some '{' := by
  cases m with
  | nil => exact absurd rfl hm.nonempty
  | cons c m => exact hm.head

namespace Occurrence

variable {d e : Domain} {a b m t : Text} {ds pre post : List Domain} {o : Occurrence}

theorem first?_beside (hm : m.Neutral) (ha : first? d a = .ok none) {r : Option Occurrence}
    (hb : first? d b = .ok r) :
    first? d (a ++ (m ++ b)) = .ok (r.map fun o => { o with before := a ++ (m ++ o.before) }) := by
  have hfirst : first? d m = .ok none :=
    first?_eq_none.mpr (hasMarker_eq_false.mp hm.no_marker d d.mem_all)
  have hmb := first?_append_of_none (fun h => absurd h (hm.last d)) hfirst hb
  rw [first?_append_of_none (fun _ => hm.head?_append b) ha hmb]
  cases r <;> rfl

theorem next?_beside (hm : m.Neutral) {oa ob : Option Occurrence} (ha : next? a ds = .ok oa)
    (hb : next? b ds = .ok ob) :
    (oa = none ∧ ob = none ∧ next? (a ++ (m ++ b)) ds = .ok none) ∨
      (∃ o pre post, oa = some o ∧ ds = pre ++ o.placeholder.domain :: post ∧
        next? b pre = .ok none ∧
        next? (a ++ (m ++ b)) ds = .ok (some { o with after := o.after ++ (m ++ b) })) ∨
      ∃ o pre post, ob = some o ∧ ds = pre ++ o.placeholder.domain :: post ∧
        next? a pre = .ok none ∧
        next? (a ++ (m ++ b)) ds = .ok (some { o with before := a ++ (m ++ o.before) }) := by
  induction ds with
  | nil => cases ha; cases hb; exact .inl ⟨rfl, rfl, rfl⟩
  | cons d ds ih =>
    simp only [next?] at ha hb ⊢
    cases hfa : first? d a with
    | error e => rw [hfa] at ha; cases ha
    | ok ra =>
      rw [hfa] at ha
      cases ra with
      | some o =>
        cases ha
        refine .inr (.inl ⟨o, [], ds, rfl, ?_, rfl, ?_⟩)
        · rw [domain_first? hfa]; rfl
        · rw [first?_append hfa]
      | none =>
        cases hfb : first? d b with
        | error e => rw [hfb] at hb; cases hb
        | ok rb =>
          rw [hfb] at hb
          rw [first?_beside hm hfa hfb]
          cases rb with
          | some o =>
            cases hb
            refine .inr (.inr ⟨o, [], ds, rfl, ?_, rfl, rfl⟩)
            rw [domain_first? hfb]; rfl
          | none =>
            rcases ih ha hb with
              h | ⟨o, pre, post, ho, rfl, hpre, h⟩ | ⟨o, pre, post, ho, rfl, hpre, h⟩
            · exact .inl h
            · exact .inr (.inl ⟨o, d :: pre, post, ho, rfl, by simp [next?, hfb, hpre], h⟩)
            · exact .inr (.inr ⟨o, d :: pre, post, ho, rfl, by simp [next?, hfa, hpre], h⟩)

theorem next?_next_round (hall : Domain.all = pre ++ e :: post) (hpre : next? t pre = .ok none) :
    next? t (e :: post) = next? t (e.onward ++ Domain.all) := by
  rw [Domain.onward_of_suffix ⟨pre, hall.symm⟩]
  by_cases hn : next? t (e :: post) = .ok none
  · rw [next?_append hn, hall, next?_append hpre]
  · rw [next?_append_of_ne hn]

theorem next?_onward (hsplit : d.onward ++ Domain.all = pre ++ e :: post)
    (hpre : next? t pre = .ok none) :
    next? t (d.onward ++ Domain.all) = next? t (e.onward ++ Domain.all) := by
  rw [hsplit, next?_append hpre]
  rcases List.append_eq_append_iff.mp hsplit with ⟨c, rfl, hall⟩ | ⟨c, hd, hpost⟩
  · refine next?_next_round hall (next?_eq_none.mpr fun d' hd' => ?_)
    exact next?_eq_none.mp hpre d' (List.mem_append_right _ hd')
  · cases c with
    | nil =>
      have hall : Domain.all = [] ++ e :: post := hpost.symm
      exact next?_next_round hall rfl
    | cons e' c =>
      obtain ⟨rfl, rfl⟩ := List.cons.inj hpost
      have hsuffix : e :: c <:+ Domain.all := List.IsSuffix.trans ⟨pre, hd.symm⟩ d.onward_suffix
      rw [Domain.onward_of_suffix hsuffix]
      rfl

end Occurrence

namespace Sources

open Occurrence (next?)

variable {s : Sources} {d e : Domain} {a b m t a' b' : Text} {ls la lb : List Lookup}
  {r : Except ResolutionError Text}

namespace Ends

theorem of_next? (h : s.Ends d t ls r)
    (hn : next? t (d.onward ++ Domain.all) = next? t (e.onward ++ Domain.all)) :
    s.Ends e t ls r := by
  cases h with
  | clear h => exact .clear (hn ▸ h)
  | broken h => exact .broken (hn ▸ h)
  | refused h hl => exact .refused (hn ▸ h) hl
  | filled h hl he => exact .filled (hn ▸ h) hl he

theorem beside (hm : m.Neutral) (ha : s.Ends d a la (.ok a')) (hb : s.Ends d b lb (.ok b')) :
    ∃ ls, s.Ends d (a ++ (m ++ b)) ls (.ok (a' ++ (m ++ b'))) ∧ ls.Perm (la ++ lb) := by
  induction hn : la.length + lb.length using Nat.strongRecOn generalizing d a b la lb with
  | ind n ih =>
    subst hn
    obtain ⟨oa, hna⟩ := ha.exists_next?
    obtain ⟨ob, hnb⟩ := hb.exists_next?
    rcases Occurrence.next?_beside hm hna hnb with
      ⟨rfl, rfl, hn⟩ | ⟨o, pre, post, rfl, hsplit, hpre, hn⟩ | ⟨o, pre, post, rfl, hsplit, hpre, hn⟩
    · obtain ⟨rfl, rfl⟩ := ha.of_next?_none hna
      obtain ⟨rfl, rfl⟩ := hb.of_next?_none hnb
      exact ⟨[], .clear hn, .refl _⟩
    · -- it is the left text's turn, and the right one waits at the same domain
      obtain ⟨v, la, hv, rfl, hrest⟩ := ha.of_next?_some hna
      have hwait := hb.of_next? (Occurrence.next?_onward hsplit hpre)
      obtain ⟨ls, hls, hperm⟩ := ih _ (by simp) hrest hwait rfl
      have hgo : s.Ends o.placeholder.domain
          (Occurrence.replaceBy { o with after := o.after ++ (m ++ b) } v) ls
          (.ok (a' ++ (m ++ b'))) := by
        simpa [Occurrence.replaceBy] using hls
      exact ⟨_, .filled hn hv hgo, hperm.cons _⟩
    · obtain ⟨v, lb, hv, rfl, hrest⟩ := hb.of_next?_some hnb
      have hwait := ha.of_next? (Occurrence.next?_onward hsplit hpre)
      obtain ⟨ls, hls, hperm⟩ := ih _ (by simp) hwait hrest rfl
      have hgo : s.Ends o.placeholder.domain
          (Occurrence.replaceBy { o with before := a ++ (m ++ o.before) } v) ls
          (.ok (a' ++ (m ++ b'))) := by
        simpa [Occurrence.replaceBy] using hls
      exact ⟨_, .filled hn hv hgo, (hperm.cons _).trans List.perm_middle.symm⟩

end Ends

/-- **Resolution is compositional.** Texts on both sides of a neutral one are
resolved as each on its own, with the lookups of both. -/
theorem resolve_beside (s : Sources) {m a b a' b' : Text} {limit limitA limitB : Nat}
    (hm : m.Neutral) (ha : (s.resolve limitA a).result = .ok a')
    (hb : (s.resolve limitB b).result = .ok b')
    (hl : (s.resolve limitA a).lookups.length + (s.resolve limitB b).lookups.length ≤ limit) :
    (s.resolve limit (a ++ m ++ b)).result = .ok (a' ++ m ++ b') ∧
      (s.resolve limit (a ++ m ++ b)).lookups.length =
        (s.resolve limitA a).lookups.length + (s.resolve limitB b).lookups.length := by
  obtain ⟨ls, hls, hperm⟩ := (ends_of_resolve_ok ha).beside hm (ends_of_resolve_ok hb)
  have hlen := hperm.length_eq
  rw [List.length_append] at hlen
  rw [List.append_assoc, List.append_assoc, hls.resolve limit (by omega)]
  exact ⟨rfl, hlen⟩

def inTurns : Sources where
  property n := if n = ['a'] then some ['}', '$'] else none
  stored k := if k = ['b'] then some ['$', '{', 'a', '}'] else none
  addresses _ := none

theorem neutral_slash : Text.Neutral ['/'] :=
  ⟨by decide, by decide, by decide, fun d => by cases d <;> decide⟩

theorem resolve_inTurns :
    (inTurns.resolve 3 ['!', '{', 'b', '}', '/', '{', '$', '{', 'a', '}']).result =
        .ok ['}', '$', '/', '{', '}', '$'] ∧
      (inTurns.resolve 3 ['!', '{', 'b', '}', '/', '{', '$', '{', 'a', '}']).lookups.length = 3 := by
  have hea : inTurns.Ends .property ['!', '{', 'b', '}'] _ (.ok ['}', '$']) :=
    .filled rfl rfl (.filled rfl rfl (.clear rfl))
  have heb : inTurns.Ends .property ['{', '$', '{', 'a', '}'] _ (.ok ['{', '}', '$']) :=
    .filled rfl rfl (.clear rfl)
  have ha := hea.resolve 2 (by decide)
  have hb := heb.resolve 1 (by decide)
  have hl : (inTurns.resolve 2 ['!', '{', 'b', '}']).lookups.length +
      (inTurns.resolve 1 ['{', '$', '{', 'a', '}']).lookups.length ≤ 3 := by
    rw [ha, hb]
    decide
  have h := resolve_beside inTurns neutral_slash (congrArg Run.result ha) (congrArg Run.result hb) hl
  rw [ha, hb] at h
  exact h

end Sources

end Fixtures
