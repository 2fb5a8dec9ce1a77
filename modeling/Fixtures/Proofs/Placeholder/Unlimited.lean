import Fixtures.Proofs.Placeholder.Bounded

/-!
# Resolutions without a limit

`Sources.Ends` says how a resolution goes that may make as many lookups as it
likes, if it comes to an end at all. The limit only cuts such a resolution: up to
the limit it makes the same lookups, and it ends the same way if these are all
(`Sources.Ends.serve`). The limit is looked at between the search for the next
placeholder and its lookup, so a text without a placeholder, or with a broken
one, ends under any limit.
-/

namespace Fixtures

/-! ## The limit has an error of its own -/

section
variable {d : Domain} {t : Text} {n : Nat}

theorem Occurrence.first?_ne_limit : first? d t ≠ .error (.limitExceeded n) := by
  intro h
  obtain ⟨a, tail, -, ⟨-, he⟩ | ⟨i, b, -, hp⟩⟩ := first?_eq_error_iff.mp h
  · cases he
  · cases (Placeholder.ofInterior_eq_error_iff.mp hp).2

theorem Occurrence.next?_ne_limit {ds : List Domain} : next? t ds ≠ .error (.limitExceeded n) := by
  induction ds with
  | nil => exact nofun
  | cons d ds ih =>
    simp only [next?]
    split
    · exact ih
    · exact first?_ne_limit

def ResolutionError.OfLookup : ResolutionError → Prop
  | .missingArgument _ => True
  | .interfaceUnavailable _ => True
  | .noIpv4Address _ => True
  | .unknownCapability _ => True
  | .missingKey _ => True
  | _ => False

theorem Sources.error_ofLookup {s : Sources} {p : Placeholder} {e : ResolutionError}
    (h : s.lookup p = .error e) : e.OfLookup := by
  unfold lookup at h
  split at h
  · cases h
  · split at h
    · cases h
    · cases h; trivial
  · split at h
    · cases h; trivial
    · split at h
      · unfold ipv4 at h
        split at h
        · cases h; trivial
        · split at h
          · cases h
          · cases h; trivial
      · cases h; trivial

theorem Sources.lookup_ne_limit (s : Sources) (p : Placeholder) :
    s.lookup p ≠ .error (.limitExceeded n) := fun h => error_ofLookup h

end

namespace Sources

open Occurrence (next?)

/-- `s.Ends d t ls r`: a resolution without a limit that has come to `d` with the
text `t` makes the lookups `ls` and ends with `r`. -/
inductive Ends (s : Sources) :
    Domain → Text → List Lookup → Except ResolutionError Text → Prop
  | clear {d : Domain} {t : Text} : next? t (d.onward ++ Domain.all) = .ok none → Ends s d t [] (.ok t)
  | broken {d : Domain} {t : Text} {e : ResolutionError} :
      next? t (d.onward ++ Domain.all) = .error e → Ends s d t [] (.error e)
  | refused {d : Domain} {t : Text} {o : Occurrence} {e : ResolutionError} :
      next? t (d.onward ++ Domain.all) = .ok (some o) → s.lookup o.placeholder = .error e →
      Ends s d t [⟨o.placeholder, .error e⟩] (.error e)
  | filled {d : Domain} {t : Text} {o : Occurrence} {v : Text} {ls : List Lookup}
      {r : Except ResolutionError Text} :
      next? t (d.onward ++ Domain.all) = .ok (some o) → s.lookup o.placeholder = .ok v →
      Ends s o.placeholder.domain (o.replaceBy v) ls r →
      Ends s d t (⟨o.placeholder, .ok v⟩ :: ls) r

variable {s : Sources} {d : Domain} {t u : Text} {o : Occurrence} {ls : List Lookup}
  {r : Except ResolutionError Text}

/-! ## What a resolution meets, and what it keeps -/

theorem Ends.exists_next? (h : s.Ends d t ls (.ok u)) :
    ∃ r, next? t (d.onward ++ Domain.all) = .ok r := by
  cases h with
  | clear h => exact ⟨_, h⟩
  | filled h _ _ => exact ⟨_, h⟩

theorem Ends.of_next?_none (h : s.Ends d t ls (.ok u))
    (hn : next? t (d.onward ++ Domain.all) = .ok none) : ls = [] ∧ u = t := by
  cases h with
  | clear _ => exact ⟨rfl, rfl⟩
  | filled h _ _ => rw [hn] at h; cases h

theorem Ends.of_next?_some (h : s.Ends d t ls (.ok u))
    (hn : next? t (d.onward ++ Domain.all) = .ok (some o)) :
    ∃ v ls', s.lookup o.placeholder = .ok v ∧ ls = ⟨o.placeholder, .ok v⟩ :: ls' ∧
      s.Ends o.placeholder.domain (o.replaceBy v) ls' (.ok u) := by
  cases h with
  | clear h => rw [hn] at h; cases h
  | filled h hl he =>
    rw [hn] at h
    cases h
    exact ⟨_, _, hl, rfl, he⟩

theorem Ends.invariant {P : Text → Prop}
    (hP : ∀ d t o v, P t → Occurrence.first? d t = .ok (some o) →
      s.lookup o.placeholder = .ok v → P (o.replaceBy v))
    (h : s.Ends d t ls r) (ht : P t) (hr : r = .ok u) : P u := by
  induction h with
  | clear _ => cases hr; exact ht
  | broken _ => cases hr
  | refused _ _ => cases hr
  | filled hn hl _ ih =>
    obtain ⟨d', hf⟩ := Occurrence.exists_first?_of_next? hn
    exact ih (hP d' _ _ _ ht hf hl) hr

/-! ## The limit -/

theorem Ends.serve (h : s.Ends d t ls r) (limit left : Nat) :
    s.serve limit d left t =
      if ls.length ≤ left then ⟨ls, r⟩ else ⟨ls.take left, .error (.limitExceeded limit)⟩ := by
  induction h generalizing left with
  | clear hn => rw [serve_eq, hn]; rfl
  | broken hn => rw [serve_eq, hn]; rfl
  | refused hn hl =>
    rw [serve_eq, hn]
    cases left with
    | zero => rfl
    | succ left => simp [spend, hl]
  | filled hn hl _ ih =>
    -- the first lookup takes one from what is left, as from the lookups to come
    rw [serve_eq, hn]
    cases left with
    | zero => rfl
    | succ left =>
      simp only [spend, hl, ih, List.length_cons, Nat.add_le_add_iff_right, List.take_succ_cons]
      split <;> rfl

theorem ends_or_exceeds (s : Sources) (limit : Nat) (d : Domain) (left : Nat) (t : Text) :
    s.Ends d t (s.serve limit d left t).lookups (s.serve limit d left t).result ∨
      (s.serve limit d left t).result = .error (.limitExceeded limit) := by
  induction left using Nat.strongRecOn generalizing d t with
  | ind left ih =>
    rw [serve_eq]
    split
    · rename_i hn; exact .inl (.broken hn)
    · rename_i hn; exact .inl (.clear hn)
    · rename_i o hn
      cases left with
      | zero => exact .inr rfl
      | succ left =>
        simp only [spend]
        cases hl : s.lookup o.placeholder with
        | error e => exact .inl (.refused hn hl)
        | ok v =>
          rcases ih left (Nat.lt_succ_self left) o.placeholder.domain (o.replaceBy v) with h | h
          · exact .inl (.filled hn hl h)
          · exact .inr h

theorem Ends.ne_limit (h : s.Ends d t ls r) (n : Nat) : r ≠ .error (.limitExceeded n) := by
  induction h with
  | clear _ => exact nofun
  | broken hn => intro he; cases he; exact Occurrence.next?_ne_limit hn
  | refused _ hl => intro he; cases he; exact s.lookup_ne_limit _ hl
  | filled _ _ _ ih => exact ih

theorem ends_of_resolve {limit : Nat}
    (h : ∀ n, (s.resolve limit t).result ≠ .error (.limitExceeded n)) :
    s.Ends .property t (s.resolve limit t).lookups (s.resolve limit t).result := by
  rw [resolve_eq_serve] at h ⊢
  exact (s.ends_or_exceeds limit .property limit t).resolve_right (h limit)

theorem ends_of_resolve_ok {limit : Nat} (h : (s.resolve limit t).result = .ok u) :
    s.Ends .property t (s.resolve limit t).lookups (.ok u) := by
  have hne (n : Nat) : (s.resolve limit t).result ≠ .error (.limitExceeded n) := by
    rw [h]
    exact nofun
  exact h ▸ ends_of_resolve hne

theorem Ends.resolve (h : s.Ends .property t ls r) (limit : Nat) (hl : ls.length ≤ limit) :
    s.resolve limit t = ⟨ls, r⟩ := by
  rw [resolve_eq_serve, h.serve, if_pos hl]

/-- **The limit only cuts a resolution.** Either the resolution exceeds every
limit, or there are the lookups that it makes and its result, and a limit that
allows for all of these lookups changes nothing; a lower one is exceeded after as
many of them as it allows for. So a higher limit never changes a result. -/
theorem resolve_limit (s : Sources) (t : Text) :
    ((∀ limit, (s.resolve limit t).result = .error (.limitExceeded limit)) ∨
      ∃ ls r, (∀ n, r ≠ .error (.limitExceeded n)) ∧ ∀ limit, s.resolve limit t =
        if ls.length ≤ limit then ⟨ls, r⟩ else ⟨ls.take limit, .error (.limitExceeded limit)⟩) ∧
    ∀ limit limit', limit ≤ limit' →
      (∀ n, (s.resolve limit t).result ≠ .error (.limitExceeded n)) →
      s.resolve limit' t = s.resolve limit t := by
  constructor
  · by_cases h : ∃ ls r, s.Ends .property t ls r
    · obtain ⟨ls, r, h⟩ := h
      refine .inr ⟨ls, r, h.ne_limit, fun limit => ?_⟩
      rw [resolve_eq_serve, h.serve]
    · refine .inl fun limit => ?_
      rw [resolve_eq_serve]
      exact (s.ends_or_exceeds limit .property limit t).resolve_left fun he => h ⟨_, _, he⟩
  · intro limit limit' hle h
    have hlen : (s.resolve limit t).lookups.length ≤ limit := by
      rw [resolve_eq_serve]
      exact s.lookups_serve_le limit .property limit t
    exact (ends_of_resolve h).resolve limit' (Nat.le_trans hlen hle)

end Sources

end Fixtures
