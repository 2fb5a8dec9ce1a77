import Fixtures.Proofs.Placeholder.Rounds

/-!
# A resolution ends within its limit

Every round makes a lookup or fails, so the limit on lookups is one on rounds
as well. A text that comes out of a resolution holds no marker, and such a text
is its own resolution.
-/

namespace Fixtures

namespace Sources

variable (s : Sources) (limit : Nat)

theorem lookups_spend_le {α : Type} {o : Occurrence} {go : Nat → Text → Run α} (left : Nat)
    (h : ∀ l t, l < left → (go l t).lookups.length ≤ l) :
    (s.spend limit o go left).lookups.length ≤ left := by
  cases left with
  | zero => exact Nat.le_refl 0
  | succ left =>
    simp only [spend]
    cases s.lookup o.placeholder with
    | error e => simp
    | ok v => exact Nat.succ_le_succ (h left _ (Nat.lt_succ_self left))

theorem lookups_serve_le (d : Domain) (left : Nat) (t : Text) :
    (s.serve limit d left t).lookups.length ≤ left := by
  induction left using Nat.strongRecOn generalizing d t with
  | ind left ih =>
    rw [serve_eq]
    split
    · exact Nat.zero_le left
    · exact Nat.zero_le left
    · exact s.lookups_spend_le limit left fun l u hl => ih l hl _ u

/-! ## Every round makes a lookup -/

variable {s limit}

theorem lookups_pass {d : Domain} {left left' : Nat} {t t' : Text}
    (h : (s.pass limit d left t).result = .ok (left', t')) :
    (s.pass limit d left t).lookups.length + left' = left := by
  induction left using Nat.strongRecOn generalizing t with
  | ind left ih =>
    rw [pass_eq] at h ⊢
    split at h
    · cases h
    · cases h; simp [Run.ok]
    · obtain ⟨l, v, rfl, -, hr, hls⟩ := spend_ok s limit h
      have := ih l (Nat.lt_succ_self l) hr
      rw [hls, List.length_cons]
      omega

theorem lookups_passes {ds : List Domain} {left left' : Nat} {t t' : Text}
    (h : (s.passes limit ds left t).result = .ok (left', t')) :
    (s.passes limit ds left t).lookups.length + left' = left := by
  induction ds generalizing left t with
  | nil => cases h; simp [passes, Run.ok]
  | cons d ds ih =>
    simp only [passes, Run.andThen] at h ⊢
    split at h
    · rename_i p hp
      have h₁ := lookups_pass hp
      have h₂ := ih h
      simp only [List.length_append]
      omega
    · cases h

theorem round_spends {left : Nat} {t : Text} (hm : hasMarker t = true) :
    (s.round limit left t).lookups ≠ [] ∨ ∃ e, (s.round limit left t).result = .error e := by
  cases h : (s.round limit left t).result with
  | error e => exact .inr ⟨e, rfl⟩
  | ok p =>
    refine .inl fun hn => ?_
    have hlt := round_left_lt hm h
    have hlen := lookups_passes h
    rw [round] at hn
    rw [hn, List.length_nil] at hlen
    omega

/-! ## What comes out -/

theorem hasMarker_of_serve {d : Domain} {left : Nat} {t v : Text}
    (h : (s.serve limit d left t).result = .ok v) : hasMarker v = false := by
  induction left using Nat.strongRecOn generalizing d t with
  | ind left ih =>
    rw [serve_eq] at h
    split at h
    · cases h
    · rename_i hn
      cases h
      exact hasMarker_eq_false.mpr fun d' hd =>
        Occurrence.next?_eq_none.mp hn d' (List.mem_append_right _ hd)
    · obtain ⟨l, w, rfl, -, hr, -⟩ := spend_ok s limit h
      exact ih l (Nat.lt_succ_self l) hr

theorem resolve_of_hasMarker {t : Text} (h : hasMarker t = false) : s.resolve limit t = .ok t := by
  rw [resolve, rounds_eq, h]
  rfl

/-- **A resolution ends.** It makes no more lookups than the limit, since each
of its rounds makes one or fails; and what comes out of it holds no marker, so
resolving that changes nothing, whatever the sources and the limit. -/
theorem resolve_ends (s : Sources) (limit : Nat) (t : Text) :
    (s.resolve limit t).lookups.length ≤ limit ∧
      (∀ left u, hasMarker u = true →
        (s.round limit left u).lookups ≠ [] ∨ ∃ e, (s.round limit left u).result = .error e) ∧
      ∀ v, (s.resolve limit t).result = .ok v →
        (∀ d : Domain, ¬ d.marker <:+: v) ∧
          ∀ (s' : Sources) (limit' : Nat), s'.resolve limit' v = .ok v := by
  rw [resolve_eq_serve]
  refine ⟨s.lookups_serve_le limit .property limit t, fun left u => round_spends, fun v hv => ?_⟩
  have hm := hasMarker_of_serve hv
  refine ⟨fun d hd => ?_, fun s' limit' => resolve_of_hasMarker hm⟩
  have hno := hasMarker_eq_false.mp hm d d.mem_all
  rw [Text.has_iff_infix.mpr hd] at hno
  cases hno

end Sources

end Fixtures
