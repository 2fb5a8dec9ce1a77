import Fixtures.Proofs.Decimal.Digits
import Fixtures.Proofs.Placeholder.Beside
import Fixtures.Proofs.Placeholder.Located
import Fixtures.Proofs.Text.Occurrences

/-!
# Evaluated placeholders bring no markers

What a code placeholder stands for is an address, digits and dots, which makes a
marker with nothing that it may stand beside. Replacing one therefore leaves the
markers in front of the placeholder and behind it, and takes away its own. So a
text whose markers are all of the code domain is resolved with at most as many
lookups as it has markers.
-/

namespace Fixtures

variable {d e : Domain} {a b m t v : Text} {o : Occurrence}

namespace Address

theorem isDigit_or_dot {address : Address} (h : address.text4? = some t) :
    ∀ c ∈ t, c.isDigit = true ∨ c = '.' := by
  cases address with
  | other u => cases h
  | v4 i j k l =>
    cases h
    have hdigits (n : Nat) : ∀ c ∈ Decimal.digits n, c.isDigit = true ∨ c = '.' :=
      fun c hc => .inl (Decimal.isDigit_of_mem_digits hc)
    simp only [text, List.forall_mem_append, List.forall_mem_cons, or_true, true_and]
    exact ⟨⟨⟨hdigits i, hdigits j⟩, hdigits k⟩, hdigits l⟩

theorem ne_nil_of_text4? {address : Address} (h : address.text4? = some t) : t ≠ [] := by
  cases address with
  | other u => cases h
  | v4 i j k l =>
    cases h
    simp [text]

theorem neutral_text4? {address : Address} (h : address.text4? = some t) : t.Neutral := by
  have hbrace : '{' ∉ t := by
    intro hmem
    exact absurd (isDigit_or_dot h _ hmem) (by decide)
  have hsigil (d : Domain) : d.sigil ∉ t := by
    intro hmem
    exact absurd (isDigit_or_dot h _ hmem) (by cases d <;> decide)
  refine ⟨ne_nil_of_text4? h, ?_, ?_, ?_⟩
  · refine hasMarker_eq_false.mpr fun d _ => ?_
    rw [Text.has, (Domain.skips_of_no_brace hbrace).cut?_eq_none]
    rfl
  · intro hhead
    exact hbrace (List.mem_of_head? hhead)
  · intro d hlast
    exact hsigil d (List.mem_of_getLast? hlast)

end Address

namespace Sources

variable {s : Sources} {p : Placeholder}

theorem neutral_of_ipv4 {interface : Text} (h : s.ipv4 interface = .ok v) : v.Neutral := by
  unfold ipv4 at h
  split at h
  · cases h
  · split at h
    · rename_i hfound
      cases h
      obtain ⟨address, -, haddress⟩ := List.exists_of_findSome?_eq_some hfound
      exact Address.neutral_text4? haddress
    · cases h

theorem neutral_of_lookup (hp : p.domain = .code) (h : s.lookup p = .ok v) : v.Neutral := by
  unfold lookup at h
  rw [hp] at h
  simp only at h
  split at h
  · cases h
  · split at h
    · exact neutral_of_ipv4 h
    · cases h

end Sources

/-! ## Where the markers are -/

theorem Domain.occurrences_append (hs : a.getLast? = some d.sigil → b.head? ≠ some '{') :
    Text.occurrences d.marker (a ++ b) =
      Text.occurrences d.marker a ++ (Text.occurrences d.marker b).map (Text.byteSize a + ·) :=
  Text.occurrences_pair_append hs

theorem Text.Neutral.occurrences_eq_nil (hm : m.Neutral) (d : Domain) :
    Text.occurrences d.marker m = [] := by
  have hno := hasMarker_eq_false.mp hm.no_marker d d.mem_all
  rw [Text.occurrences_eq_nil_iff, ← Text.has_iff_infix, hno]
  exact Bool.false_ne_true

theorem Text.Neutral.occurrences_between (hm : m.Neutral) (d : Domain) (a b : Text) :
    Text.occurrences d.marker (a ++ (m ++ b)) = Text.occurrences d.marker a ++
      (Text.occurrences d.marker b).map (Text.byteSize a + Text.byteSize m + ·) := by
  have hlast : m.getLast? = some d.sigil → b.head? ≠ some '{' := fun h => absurd h (hm.last d)
  rw [Domain.occurrences_append fun _ => hm.head?_append b,
    Domain.occurrences_append hlast, hm.occurrences_eq_nil, List.nil_append, List.map_map]
  simp only [Function.comp_def, Nat.add_assoc]

theorem Placeholder.marker_infix_text (p : Placeholder) : p.domain.marker <:+: p.text := by
  rw [text, List.append_assoc]
  exact (List.prefix_append _ _).isInfix

namespace Occurrence

theorem marker_infix (h : first? e t = .ok (some o)) : e.marker <:+: t := by
  have hp := o.placeholder.marker_infix_text
  rw [domain_first? h] at hp
  rw [eq_append_of_first? h, ← List.append_assoc]
  exact hp.trans (List.infix_append _ _ _)

theorem occurrences_eq (h : first? e t = .ok (some o)) (d : Domain) :
    Text.occurrences d.marker t = Text.occurrences d.marker o.before ++
      ((Text.occurrences d.marker o.placeholder.text).map (o.start + ·) ++
        (Text.occurrences d.marker o.after).map (o.stop + ·)) := by
  have hhead : (o.placeholder.text ++ o.after).head? ≠ some '{' := by
    simpa [Placeholder.text, Domain.marker] using o.placeholder.domain.sigil_ne_brace
  have hlast : o.placeholder.text.getLast? ≠ some d.sigil := by
    rw [Placeholder.text, List.getLast?_concat]
    cases d <;> decide
  conv_lhs => rw [eq_append_of_first? h]
  rw [Domain.occurrences_append fun _ => hhead, Domain.occurrences_append fun hl => absurd hl hlast,
    List.map_append, List.map_map]
  simp only [Function.comp_def, ← Nat.add_assoc]
  rfl

variable (hv : v.Neutral)
include hv

theorem occurrences_replaceBy (o : Occurrence) (d : Domain) :
    Text.occurrences d.marker (o.replaceBy v) = Text.occurrences d.marker o.before ++
      (Text.occurrences d.marker o.after).map (o.start + Text.byteSize v + ·) :=
  hv.occurrences_between d o.before o.after

theorem length_occurrences_eq (h : first? e t = .ok (some o)) (d : Domain) :
    (Text.occurrences d.marker t).length = (Text.occurrences d.marker (o.replaceBy v)).length +
      (Text.occurrences d.marker o.placeholder.text).length := by
  rw [occurrences_eq h, occurrences_replaceBy hv]
  simp only [List.length_append, List.length_map]
  omega

theorem length_occurrences_lt (h : first? e t = .ok (some o)) :
    (Text.occurrences e.marker (o.replaceBy v)).length < (Text.occurrences e.marker t).length := by
  have hpos := Text.length_occurrences_pos_iff.mpr o.placeholder.marker_infix_text
  rw [domain_first? h] at hpos
  rw [length_occurrences_eq hv h]
  omega

theorem not_infix_replaceBy (h : first? e t = .ok (some o)) (hd : ¬ d.marker <:+: t) :
    ¬ d.marker <:+: o.replaceBy v := by
  have hlen := length_occurrences_eq hv h d
  rw [Text.occurrences_eq_nil_iff.mpr hd, List.length_nil] at hlen
  rw [← Text.occurrences_eq_nil_iff]
  exact List.eq_nil_of_length_eq_zero (by omega)

theorem occursAt_replaceBy_iff (h : first? e t = .ok (some o)) (d : Domain) (n : Nat) :
    Text.OccursAt d.marker (o.replaceBy v) n ↔
      (n + 2 ≤ o.start ∧ Text.OccursAt d.marker t n) ∨
        ∃ k, Text.OccursAt d.marker t (o.stop + k) ∧ o.start + Text.byteSize v + k = n := by
  have hfront : Text.OccursAt d.marker o.before n ↔
      n + 2 ≤ o.start ∧ Text.OccursAt d.marker t n := by
    have hiff := Text.occursAt_front_iff (p := d.marker) (a := o.before) (n := n)
      (o.placeholder.text ++ o.after)
    rwa [← eq_append_of_first? h, d.byteSize_marker] at hiff
  have hback (k : Nat) : Text.OccursAt d.marker o.after k ↔
      Text.OccursAt d.marker t (o.stop + k) := by
    have hstop : o.stop = Text.byteSize (o.before ++ o.placeholder.text) :=
      (Text.byteSize_append _ _).symm
    rw [eq_append_of_first? h, ← List.append_assoc, hstop]
    exact Text.occursAt_append_iff.symm
  rw [← Text.mem_occurrences_iff, occurrences_replaceBy hv, List.mem_append, List.mem_map]
  simp only [Text.mem_occurrences_iff, hfront, hback]

end Occurrence

/-! ## Texts with markers of the code domain only -/

namespace Sources

open Occurrence (next?)

variable (s : Sources)

theorem first?_code_of_next? {ds : List Domain} (hp : ¬ Domain.property.marker <:+: t)
    (hs : ¬ Domain.stored.marker <:+: t) (h : next? t ds = .ok (some o)) :
    Occurrence.first? .code t = .ok (some o) := by
  obtain ⟨d, hd⟩ := Occurrence.exists_first?_of_next? h
  have hmarker := Occurrence.marker_infix hd
  cases d with
  | property => exact absurd hmarker hp
  | stored => exact absurd hmarker hs
  | code => exact hd

/-- Such a resolution comes to an end by itself: each lookup leaves fewer markers. -/
theorem exists_ends_of_code (d : Domain) (hp : ¬ Domain.property.marker <:+: t)
    (hs : ¬ Domain.stored.marker <:+: t) :
    ∃ ls r, s.Ends d t ls r ∧ ls.length ≤ (Text.occurrences Domain.code.marker t).length := by
  induction hn : (Text.occurrences Domain.code.marker t).length using Nat.strongRecOn
    generalizing d t with
  | ind n ih =>
    subst hn
    cases hnext : next? t (d.onward ++ Domain.all) with
    | error e => exact ⟨[], _, .broken hnext, Nat.zero_le _⟩
    | ok found =>
      cases found with
      | none => exact ⟨[], _, .clear hnext, Nat.zero_le _⟩
      | some o =>
        have hfirst := first?_code_of_next? hp hs hnext
        cases hl : s.lookup o.placeholder with
        | error e =>
          have hpos := Text.length_occurrences_pos_iff.mpr (Occurrence.marker_infix hfirst)
          exact ⟨_, _, .refused hnext hl, hpos⟩
        | ok v =>
          have hv := neutral_of_lookup (Occurrence.domain_first? hfirst) hl
          have hlt := Occurrence.length_occurrences_lt hv hfirst
          obtain ⟨ls, r, hends, hlen⟩ := ih _ hlt o.placeholder.domain
            (Occurrence.not_infix_replaceBy hv hfirst hp)
            (Occurrence.not_infix_replaceBy hv hfirst hs) rfl
          exact ⟨_, r, .filled hnext hl hends, Nat.lt_of_le_of_lt hlen hlt⟩

/-- **What is evaluated feeds no further lookups.** Replacing the first code placeholder by
its value lowers the number of code markers, and every marker that is there afterwards
was there before, in front of the placeholder or behind it. So a text without markers of
the other domains is resolved with at most as many lookups as it has code markers, and
a limit that allows for these is not exceeded. -/
theorem resolve_evaluated (s : Sources) :
    (∀ t o v, Occurrence.first? .code t = .ok (some o) → s.lookup o.placeholder = .ok v →
      (Text.occurrences Domain.code.marker (o.replaceBy v)).length <
          (Text.occurrences Domain.code.marker t).length ∧
        ∀ (d : Domain) (n : Nat), Text.OccursAt d.marker (o.replaceBy v) n ↔
          (n + 2 ≤ o.start ∧ Text.OccursAt d.marker t n) ∨
            ∃ k, Text.OccursAt d.marker t (o.stop + k) ∧ o.start + Text.byteSize v + k = n) ∧
    ∀ t, ¬ Domain.property.marker <:+: t → ¬ Domain.stored.marker <:+: t → ∀ limit,
      (s.resolve limit t).lookups.length ≤ (Text.occurrences Domain.code.marker t).length ∧
        ((Text.occurrences Domain.code.marker t).length ≤ limit →
          ∀ n, (s.resolve limit t).result ≠ .error (.limitExceeded n)) := by
  constructor
  · intro t o v hfirst hl
    have hv := neutral_of_lookup (Occurrence.domain_first? hfirst) hl
    exact ⟨Occurrence.length_occurrences_lt hv hfirst, Occurrence.occursAt_replaceBy_iff hv hfirst⟩
  · intro t hp hs limit
    obtain ⟨ls, r, hends, hlen⟩ := s.exists_ends_of_code .property hp hs
    by_cases hlimit : ls.length ≤ limit
    · rw [hends.resolve limit hlimit]
      exact ⟨hlen, fun _ => hends.ne_limit⟩
    · -- the limit is below the lookups to be made, and so below the markers
      have hcut := s.lookups_serve_le limit .property limit t
      rw [resolve_eq_serve]
      exact ⟨by omega, fun hle => absurd hle (by omega)⟩

def dualStack : Sources where
  property _ := none
  stored _ := none
  addresses _ := some [.ofText [':', ':', '1'], .ofText ['1', '0', '.', '0', '.', '0', '.', '7']]

def strayText : Text :=
  ['$', '@', '{', 'I', 'P', '.', '@', '{', 'e', '}', '{', '!', '@', '{', 'I', 'P', '.', 'f', '}', '{']

theorem resolve_strayText :
    ∃ o v, Occurrence.first? .code strayText = .ok (some o) ∧
      dualStack.lookup o.placeholder = .ok v ∧
      (Text.occurrences Domain.code.marker (o.replaceBy v)).length < 3 ∧
      (∀ n, ¬ Text.OccursAt Domain.property.marker (o.replaceBy v) n) ∧
      ¬ Domain.property.marker <:+: strayText ∧ ¬ Domain.stored.marker <:+: strayText ∧
      (dualStack.resolve 3 strayText).lookups.length ≤ 3 ∧
      ∀ n, (dualStack.resolve 3 strayText).result ≠ .error (.limitExceeded n) := by
  obtain ⟨hstep, hrun⟩ := resolve_evaluated dualStack
  have hfirst : Occurrence.first? .code strayText = .ok (some _) := rfl
  have hl : dualStack.lookup ⟨.code, ['I', 'P'], some ['@', '{', 'e']⟩ = .ok _ := rfl
  have hthree : (Text.occurrences Domain.code.marker strayText).length = 3 := by decide
  have hp : ¬ Domain.property.marker <:+: strayText := by decide
  have hs : ¬ Domain.stored.marker <:+: strayText := by decide
  obtain ⟨hlt, hmarkers⟩ := hstep strayText _ _ hfirst hl
  obtain ⟨hle, hlimit⟩ := hrun strayText hp hs 3
  rw [hthree] at hlt hle hlimit
  refine ⟨_, _, hfirst, hl, hlt, fun n hn => hp ?_, hp, hs, hle, hlimit (Nat.le_refl 3)⟩
  rcases (hmarkers .property n).mp hn with ⟨-, hfront⟩ | ⟨k, hback, -⟩
  · exact Text.exists_occursAt_iff.mp ⟨_, hfront⟩
  · exact Text.exists_occursAt_iff.mp ⟨_, hback⟩

end Sources

end Fixtures
