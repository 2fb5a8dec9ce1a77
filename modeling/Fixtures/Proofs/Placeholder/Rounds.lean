import Fixtures.Proofs.Placeholder.Marker
import Fixtures.Proofs.Placeholder.Runs

/-!
# Rounds, one lookup at a time

The loops of a resolution are unrolled into single lookups (`Sources.serve_eq`):
from any place of a round, the next placeholder is the first one of the first
domain that has one, and the round goes on from that domain. Each lookup is one
of the limited number, so an induction on the lookups left follows a resolution
through all its passes and rounds.
-/

namespace Fixtures

namespace Domain

/-- The domains that a round still serves when it has come to this one. -/
def onward : Domain → List Domain
  | .property => [.property, .stored, .code]
  | .stored => [.stored, .code]
  | .code => [.code]

theorem onward_of_suffix {d : Domain} {ds : List Domain} (h : d :: ds <:+ all) :
    d.onward = d :: ds := by
  cases d <;> simp_all [all, onward, List.suffix_cons_iff]

theorem onward_suffix (d : Domain) : d.onward <:+ all := by
  cases d <;> simp [all, onward, List.suffix_cons_iff]

end Domain

/-! ## The next placeholder -/

namespace Occurrence

variable {d : Domain} {ds ds' : List Domain} {t : Text} {o : Occurrence}

theorem domain_first? (h : first? d t = .ok (some o)) : o.placeholder.domain = d := by
  obtain ⟨i, tail, -, -, hp⟩ := first?_eq_some_iff.mp h
  exact (Placeholder.domain_interior_ofInterior hp).1

def next? (t : Text) : List Domain → Except ResolutionError (Option Occurrence)
  | [] => .ok none
  | d :: ds =>
    match first? d t with
    | .ok none => next? t ds
    | r => r

theorem next?_append (h : next? t ds = .ok none) : next? t (ds ++ ds') = next? t ds' := by
  induction ds with
  | nil => rfl
  | cons d ds ih =>
    simp only [List.cons_append, next?] at h ⊢
    split at h
    · exact ih h
    · rename_i hn; exact absurd h hn

theorem next?_append_of_ne (h : next? t ds ≠ .ok none) : next? t (ds ++ ds') = next? t ds := by
  induction ds with
  | nil => exact absurd rfl h
  | cons d ds ih =>
    simp only [List.cons_append, next?] at h ⊢
    split at h
    · exact ih h
    · rfl

theorem next?_eq_none : next? t ds = .ok none ↔ ∀ d ∈ ds, Text.has d.marker t = false := by
  induction ds with
  | nil => simp [next?]
  | cons d ds ih =>
    rw [List.forall_mem_cons, ← ih, ← first?_eq_none]
    simp only [next?]
    split
    · rename_i h; simp [h]
    · rename_i h; exact ⟨fun e => absurd e h, fun e => absurd e.1 h⟩

theorem exists_first?_of_next? (h : next? t ds = .ok (some o)) : ∃ d, first? d t = .ok (some o) := by
  induction ds with
  | nil => cases h
  | cons d ds ih =>
    simp only [next?] at h
    split at h
    · exact ih h
    · exact ⟨d, h⟩

end Occurrence

theorem hasMarker_eq_false {t : Text} :
    hasMarker t = false ↔ ∀ d ∈ Domain.all, Text.has d.marker t = false := by
  simp [hasMarker]

theorem Domain.mem_all (d : Domain) : d ∈ all := by cases d <;> decide

/-! ## One lookup -/

namespace Sources

variable (s : Sources) (limit : Nat)

def spend {α : Type} (o : Occurrence) (go : (left : Nat) → Text → Run α) : (left : Nat) → Run α
  | 0 => .fail (.limitExceeded limit)
  | left + 1 =>
    match s.lookup o.placeholder with
    | .error e => ⟨[⟨o.placeholder, .error e⟩], .error e⟩
    | .ok v =>
      let r := go left (o.replaceBy v)
      ⟨⟨o.placeholder, .ok v⟩ :: r.lookups, r.result⟩

theorem spend_andThen {α β : Type} (o : Occurrence) (go : Nat → Text → Run α) (f : α → Run β)
    (left : Nat) :
    (s.spend limit o go left).andThen f = s.spend limit o (fun l t => (go l t).andThen f) left := by
  cases left with
  | zero => rfl
  | succ left =>
    simp only [spend]
    cases s.lookup o.placeholder with
    | error e => rfl
    | ok v =>
      simp only [Run.andThen]
      cases (go left (o.replaceBy v)).result <;> rfl

theorem spend_ok {α : Type} {o : Occurrence} {go : Nat → Text → Run α} {left : Nat} {a : α}
    (h : (s.spend limit o go left).result = .ok a) :
    ∃ l v, left = l + 1 ∧ s.lookup o.placeholder = .ok v ∧ (go l (o.replaceBy v)).result = .ok a ∧
      (s.spend limit o go left).lookups =
        ⟨o.placeholder, .ok v⟩ :: (go l (o.replaceBy v)).lookups := by
  cases left with
  | zero => cases h
  | succ l =>
    simp only [spend] at h ⊢
    cases hv : s.lookup o.placeholder with
    | error e => rw [hv] at h; cases h
    | ok v => rw [hv] at h; exact ⟨l, v, rfl, rfl, h, rfl⟩

theorem pass_eq (d : Domain) (left : Nat) (t : Text) :
    s.pass limit d left t =
      match Occurrence.first? d t with
      | .error e => .fail e
      | .ok none => .ok (left, t)
      | .ok (some o) => s.spend limit o (s.pass limit d) left := by
  rw [pass.eq_def]
  cases h : Occurrence.first? d t with
  | error e => simp only [h]
  | ok r =>
    cases r with
    | none => simp only [h]
    | some o => simp only [h]; cases left <;> rfl

/-- What is left of a round that has come to some domains, and all later rounds. -/
def finish (ds : List Domain) (left : Nat) (t : Text) : Run Text :=
  (s.passes limit ds left t).andThen fun p => s.rounds limit p.1 p.2

def serve (d : Domain) (left : Nat) (t : Text) : Run Text := s.finish limit d.onward left t

theorem finish_nil (left : Nat) (t : Text) : s.finish limit [] left t = s.rounds limit left t := by
  rw [finish, passes, Run.ok_andThen]

theorem finish_cons (d : Domain) (ds : List Domain) (left : Nat) (t : Text) :
    s.finish limit (d :: ds) left t =
      match Occurrence.first? d t with
      | .error e => .fail e
      | .ok none => s.finish limit ds left t
      | .ok (some o) => s.spend limit o (s.finish limit (d :: ds)) left := by
  have hpass (l : Nat) (u : Text) :
      s.finish limit (d :: ds) l u =
        (s.pass limit d l u).andThen fun p => s.finish limit ds p.1 p.2 := by
    rw [finish, passes, Run.andThen_assoc]
    rfl
  rw [hpass, pass_eq]
  cases Occurrence.first? d t with
  | error e => rfl
  | ok r =>
    cases r with
    | none => exact Run.ok_andThen _ _
    | some o =>
      simp only [spend_andThen]
      congr 1
      funext l u
      rw [hpass]

theorem finish_eq {ds : List Domain} (hds : ds <:+ Domain.all) (left : Nat) (t : Text) :
    s.finish limit ds left t =
      match Occurrence.next? t ds with
      | .error e => .fail e
      | .ok none => s.rounds limit left t
      | .ok (some o) => s.spend limit o (s.serve limit o.placeholder.domain) left := by
  induction ds with
  | nil => exact s.finish_nil limit left t
  | cons d ds ih =>
    rw [finish_cons]
    simp only [Occurrence.next?]
    cases hf : Occurrence.first? d t with
    | error e => rfl
    | ok r =>
      cases r with
      | none => exact ih ((List.suffix_cons d ds).trans hds)
      | some o =>
        have hgo : s.serve limit o.placeholder.domain = s.finish limit (d :: ds) := by
          funext left t
          rw [serve, Occurrence.domain_first? hf, Domain.onward_of_suffix hds]
        simp only [hgo]

/-- **One lookup.** -/
theorem serve_eq (d : Domain) (left : Nat) (t : Text) :
    s.serve limit d left t =
      match Occurrence.next? t (d.onward ++ Domain.all) with
      | .error e => .fail e
      | .ok none => .ok t
      | .ok (some o) => s.spend limit o (s.serve limit o.placeholder.domain) left := by
  rw [serve, s.finish_eq limit d.onward_suffix]
  by_cases hn : Occurrence.next? t d.onward = .ok none
  · rw [Occurrence.next?_append hn, hn]
    simp only
    rw [rounds_eq]
    by_cases hm : hasMarker t = true
    · have ha : Occurrence.next? t Domain.all ≠ .ok none := fun h => by
        rw [hasMarker_eq_false.mpr (Occurrence.next?_eq_none.mp h)] at hm
        cases hm
      rw [if_pos hm]
      have hfin := s.finish_eq limit (List.suffix_refl Domain.all) left t
      simp only [finish] at hfin
      rw [round, hfin]
      split
      · rfl
      · rename_i h; exact absurd h ha
      · rfl
    · rw [if_neg hm, Occurrence.next?_eq_none.mpr (hasMarker_eq_false.mp (by simpa using hm))]
  · rw [Occurrence.next?_append_of_ne hn]
    split
    · rfl
    · rename_i h; exact absurd h hn
    · rfl

def value (d : Domain) (interior : Text) : Except ResolutionError Text :=
  (Placeholder.ofInterior d interior).bind s.lookup

theorem result_serve {d e : Domain} {t a i b v : Text}
    (hn : Occurrence.next? t (d.onward ++ Domain.all) =
      (Placeholder.ofInterior e i).map fun p => some ⟨a, p, b⟩)
    (hv : s.value e i = .ok v) (left : Nat) :
    (s.serve limit d left t).result =
      match left with
      | 0 => .error (.limitExceeded limit)
      | left + 1 => (s.serve limit e left (a ++ (v ++ b))).result := by
  rw [serve_eq, hn]
  cases hp : Placeholder.ofInterior e i with
  | error _ => rw [value, hp] at hv; cases hv
  | ok p =>
    have hl : s.lookup p = .ok v := by rw [value, hp] at hv; exact hv
    cases left with
    | zero => rfl
    | succ left =>
      have hd := (Placeholder.domain_interior_ofInterior hp).1
      simp only [Except.map, spend, hl, hd, Occurrence.replaceBy]

theorem resolve_eq_serve (t : Text) : s.resolve limit t = s.serve limit .property limit t := by
  have hfin := s.finish_eq limit (List.suffix_refl Domain.all) limit t
  rw [resolve, rounds_eq]
  split
  · rfl
  · rename_i hm
    have hn : Occurrence.next? t (Domain.onward .property) = .ok none :=
      Occurrence.next?_eq_none.mpr (hasMarker_eq_false.mp (by simpa using hm))
    rw [serve_eq, Occurrence.next?_append hn]
    exact hn ▸ rfl

end Sources

end Fixtures
