import Mathlib.Data.Set.Finite.Basic
import Mathlib.Logic.Relation
import Mathlib.Order.WellFounded
import Fixtures.Proofs.Placeholder.Marker
import Fixtures.Proofs.Placeholder.Rounds

/-!
# Templates expand like macros

A template is made of literals and holes, and the values of its holes may be
templates again. `Expands` is the recursive expansion of a template, with the
number of holes in the whole tree. A resolution works on one text and replaces
holes in an order of its own; but it keeps the text a template, and replacing any
one hole by its value leaves the expansion as it is and takes one off the number
of holes (`Expands.replace`). So the order does not matter.
-/

namespace Fixtures

/-- A placeholder whose interior holds no brace. -/
structure Hole where
  domain : Domain
  interior : Text
  unbraced : '{' ∉ interior ∧ '}' ∉ interior

namespace Hole

def text (h : Hole) : Text := h.domain.marker ++ (h.interior ++ ['}'])

def value (s : Sources) (h : Hole) : Except ResolutionError Text := s.value h.domain h.interior

end Hole

inductive Piece
  | lit (t : Text) (unbraced : '{' ∉ t)
  | hole (h : Hole)

abbrev Template := List Piece

namespace Template

def text : Template → Text
  | [] => []
  | .lit l _ :: t => l ++ text t
  | .hole h :: t => h.text ++ text t

def holes : Template → List Hole
  | [] => []
  | .lit _ _ :: t => holes t
  | .hole h :: t => h :: holes t

theorem text_append (a b : Template) : text (a ++ b) = text a ++ text b := by
  induction a with
  | nil => rfl
  | cons p a ih => cases p <;> simp only [List.cons_append, text, ih, List.append_assoc]

theorem holes_append (a b : Template) : holes (a ++ b) = holes a ++ holes b := by
  induction a with
  | nil => rfl
  | cons p a ih => cases p <;> simp only [List.cons_append, holes, ih]

/-! ## Searching a template -/

theorem skips_text {d : Domain} {t : Template} (h : ∀ h ∈ holes t, h.domain ≠ d) :
    d.Skips (text t) := by
  induction t with
  | nil => exact d.skips_nil
  | cons p t ih =>
    cases p with
    | lit l hl => exact (Domain.skips_of_no_brace hl).append (ih h)
    | hole h₀ =>
      simp only [holes, List.forall_mem_cons] at h
      have hi := (Domain.skips_of_no_brace h₀.unbraced.1).append d.skips_close
      exact ((Domain.skips_marker h.1).append hi).append (ih h.2)

theorem exists_first {d : Domain} {t : Template} {h₀ : Hole} (h : h₀ ∈ holes t)
    (hd : h₀.domain = d) :
    ∃ a h b, t = a ++ .hole h :: b ∧ h.domain = d ∧ ∀ h' ∈ holes a, h'.domain ≠ d := by
  induction t with
  | nil => cases h
  | cons p t ih =>
    cases p with
    | lit l hl =>
      obtain ⟨a, g, b, rfl, hg, ha⟩ := ih h
      exact ⟨.lit l hl :: a, g, b, rfl, hg, ha⟩
    | hole h₁ =>
      by_cases h₁d : h₁.domain = d
      · exact ⟨[], h₁, t, rfl, h₁d, by simp [holes]⟩
      · simp only [holes, List.mem_cons] at h
        rcases h with rfl | h
        · exact absurd hd h₁d
        · obtain ⟨a, g, b, rfl, hg, ha⟩ := ih h
          exact ⟨.hole h₁ :: a, g, b, rfl, hg, List.forall_mem_cons.mpr ⟨h₁d, ha⟩⟩

theorem text_cut (a : Template) (h : Hole) (b : Template) :
    text (a ++ .hole h :: b) = text a ++ (h.domain.marker ++ (h.interior ++ '}' :: text b)) := by
  rw [text_append]
  simp [text, Hole.text]

theorem next?_text (t : Template) (ds : List Domain) :
    (∀ h ∈ holes t, h.domain ∉ ds) ∧ Occurrence.next? (text t) ds = .ok none ∨
      ∃ a h b, t = a ++ .hole h :: b ∧
        Occurrence.next? (text t) ds =
          (Placeholder.ofInterior h.domain h.interior).map fun p => some ⟨text a, p, text b⟩ := by
  induction ds with
  | nil => exact .inl ⟨by simp, rfl⟩
  | cons d ds ih =>
    simp only [Occurrence.next?]
    by_cases hd : ∃ h ∈ holes t, h.domain = d
    · obtain ⟨h₀, hmem, hd⟩ := hd
      obtain ⟨a, h, b, rfl, rfl, ha⟩ := exists_first hmem hd
      refine .inr ⟨a, h, b, rfl, ?_⟩
      rw [text_cut, Occurrence.first?_of_skips (skips_text ha) h.unbraced.2]
      cases Placeholder.ofInterior h.domain h.interior <;> rfl
    · have hd' : ∀ h ∈ holes t, h.domain ≠ d := fun h hh e => hd ⟨h, hh, e⟩
      rw [Occurrence.first?_eq_none_of_skips (skips_text hd')]
      rcases ih with ⟨hds, hn⟩ | ⟨a, h, b, ht, hn⟩
      · refine .inl ⟨fun h hh => ?_, hn⟩
        rw [List.mem_cons, not_or]
        exact ⟨hd' h hh, hds h hh⟩
      · exact .inr ⟨a, h, b, ht, hn⟩

theorem mem_holes_of_text {t t' : Template} (ht : text t = text t') {h : Hole} (hh : h ∈ holes t) :
    h ∈ holes t' := by
  induction hn : t.length using Nat.strongRecOn generalizing t t' with
  | ind n ih =>
    subst hn
    obtain ⟨a, g, b, rfl, hg, ha⟩ := exists_first hh rfl
    have hcut := congrArg (Text.cut? h.domain.marker) ht
    rw [text_cut, hg, (skips_text ha).cut?_marker] at hcut
    by_cases hd : ∃ h' ∈ holes t', h'.domain = h.domain
    · obtain ⟨h', hh', hd⟩ := hd
      obtain ⟨a', g', b', rfl, hg', ha'⟩ := exists_first hh' hd
      rw [text_cut, hg', (skips_text ha').cut?_marker] at hcut
      have hend := congrArg (Text.cut? ['}']) (Prod.mk.inj (Option.some.inj hcut)).2
      rw [Text.cut?_singleton g.unbraced.2, Text.cut?_singleton g'.unbraced.2] at hend
      obtain ⟨hi, hb⟩ := Prod.mk.inj (Option.some.inj hend)
      have hgg : g = g' := by
        cases g; cases g'; simp_all
      simp only [holes_append, holes, List.mem_append, List.mem_cons] at hh ⊢
      rcases hh with hh | rfl | hh
      · exact absurd rfl (ha h hh)
      · exact .inr (.inl hgg)
      · exact .inr (.inr (ih b.length (by simp; omega) hb hh rfl))
    · have hno : ∀ h' ∈ holes t', h'.domain ≠ h.domain := fun h' hh' e => hd ⟨h', hh', e⟩
      rw [(skips_text hno).cut?_eq_none] at hcut
      cases hcut

end Template

/-! ## Expansion -/

/-- `Expands s t u n`: with the values of its holes expanded in turn, `t` becomes
`u`, and the tree of all these holes has `n` of them. -/
inductive Expands (s : Sources) : Template → Text → Nat → Prop
  | nil : Expands s [] [] 0
  | lit {l : Text} {hl : '{' ∉ l} {t : Template} {u : Text} {n : Nat} :
      Expands s t u n → Expands s (.lit l hl :: t) (l ++ u) n
  | hole {h : Hole} {v t : Template} {u w : Text} {m n : Nat} :
      h.value s = .ok v.text → Expands s v u m → Expands s t w n →
      Expands s (.hole h :: t) (u ++ w) (m + n + 1)

namespace Expands

variable {s : Sources} {a b t v : Template} {h : Hole} {u w : Text} {m n : Nat}

theorem append (ha : Expands s a u m) (hb : Expands s b w n) :
    Expands s (a ++ b) (u ++ w) (m + n) := by
  induction ha with
  | nil => simpa using hb
  | lit _ ih => simpa [List.append_assoc] using ih.lit
  | @hole h v t u₁ u₂ m₁ m₂ hv he _ _ ih =>
    have := Expands.hole hv he ih
    rw [show m₁ + (m₂ + n) + 1 = m₁ + m₂ + 1 + n by omega] at this
    simpa [List.append_assoc] using this

theorem split (hab : Expands s (a ++ b) w n) :
    ∃ w₁ w₂ n₁ n₂, Expands s a w₁ n₁ ∧ Expands s b w₂ n₂ ∧ w = w₁ ++ w₂ ∧ n = n₁ + n₂ := by
  induction a generalizing w n with
  | nil => exact ⟨[], w, 0, n, .nil, hab, rfl, by omega⟩
  | cons p a ih =>
    cases hab with
    | lit hr =>
      obtain ⟨w₁, w₂, n₁, n₂, h₁, h₂, rfl, rfl⟩ := ih hr
      exact ⟨_, w₂, n₁, n₂, h₁.lit, h₂, by simp, rfl⟩
    | hole hv he hr =>
      obtain ⟨w₁, w₂, n₁, n₂, h₁, h₂, rfl, rfl⟩ := ih hr
      exact ⟨_, w₂, _, n₂, .hole hv he h₁, h₂, by simp, by omega⟩

theorem of_holes_nil (ht : t.holes = []) : Expands s t t.text 0 := by
  induction t with
  | nil => exact .nil
  | cons p t ih =>
    cases p with
    | lit l hl => exact (ih ht).lit
    | hole h => cases ht

theorem eq_of_holes_nil (he : Expands s t u n) (ht : t.holes = []) : u = t.text ∧ n = 0 := by
  induction he with
  | nil => exact ⟨rfl, rfl⟩
  | lit _ ih =>
    obtain ⟨rfl, rfl⟩ := ih ht
    exact ⟨rfl, rfl⟩
  | hole _ _ _ _ _ => cases ht

/-- **Any hole may go first.** A hole replaced by its value takes one off the
number of holes. -/
theorem replace (he : Expands s (a ++ .hole h :: b) w n) :
    ∃ v m, h.value s = .ok (Template.text v) ∧ n = m + 1 ∧ Expands s (a ++ v ++ b) w m := by
  obtain ⟨w₁, w₂, n₁, n₂, h₁, h₂, rfl, rfl⟩ := he.split
  cases h₂ with
  | @hole _ v _ u₁ u₂ m₁ m₂ hv hev heb =>
    refine ⟨v, n₁ + m₁ + m₂, hv, by omega, ?_⟩
    simpa using (h₁.append hev).append heb

theorem unreplace (hv : h.value s = .ok v.text) (he : Expands s (a ++ v ++ b) w n) :
    Expands s (a ++ .hole h :: b) w (n + 1) := by
  obtain ⟨w₁, w₂, n₁, n₂, h₁, h₂, rfl, rfl⟩ := he.split
  obtain ⟨w₃, w₄, n₃, n₄, h₃, h₄, rfl, rfl⟩ := h₁.split
  have := h₃.append (.hole hv h₄ h₂)
  rw [show n₃ + (n₄ + n₂ + 1) = n₃ + n₄ + n₂ + 1 by omega] at this
  simpa using this

end Expands

/-! ## Resolving a template -/

def Leads (s : Sources) (h h' : Hole) : Prop :=
  ∃ v : Template, h.value s = .ok v.text ∧ h' ∈ v.holes

/-- A hole of the template, of the values of its holes, of their values, and so on. -/
def Template.Reaches (s : Sources) (t : Template) (h : Hole) : Prop :=
  ∃ h₀ ∈ t.holes, Relation.ReflTransGen (Leads s) h₀ h

section
variable {s : Sources} {limit : Nat} {a b t v : Template} {h : Hole} {u : Text} {n : Nat}

theorem serve_template (d : Domain) (left : Nat) (t : Template) :
    t.holes = [] ∧ s.serve limit d left t.text = .ok t.text ∨
      ∃ a h b, t = a ++ .hole h :: b ∧ ∀ v : Template, h.value s = .ok v.text →
        (s.serve limit d left t.text).result =
          match left with
          | 0 => .error (.limitExceeded limit)
          | left + 1 => (s.serve limit h.domain left (Template.text (a ++ v ++ b))).result := by
  rcases t.next?_text (d.onward ++ Domain.all) with ⟨hno, hn⟩ | ⟨a, h, b, rfl, hn⟩
  · rw [Sources.serve_eq, hn]
    refine .inl ⟨List.eq_nil_iff_forall_not_mem.mpr fun h hh => hno h hh ?_, rfl⟩
    exact List.mem_append_right _ h.domain.mem_all
  · refine .inr ⟨a, h, b, rfl, fun v hv => ?_⟩
    rw [s.result_serve limit hn hv]
    cases left with
    | zero => rfl
    | succ left => simp only [Template.text_append, List.append_assoc]

theorem serve_of_expands (he : Expands s t u n) (d : Domain) (left : Nat) :
    (s.serve limit d left t.text).result =
      if n ≤ left then .ok u else .error (.limitExceeded limit) := by
  -- each lookup fills one hole of the tree, whichever it is
  induction left generalizing d t n with
  | zero =>
    rcases serve_template d 0 t with ⟨hno, hr⟩ | ⟨a, h, b, rfl, hr⟩
    · obtain ⟨rfl, rfl⟩ := he.eq_of_holes_nil hno
      rw [hr]; rfl
    · obtain ⟨v, m, hv, rfl, -⟩ := he.replace
      rw [hr v hv]; rfl
  | succ left ih =>
    rcases serve_template d (left + 1) t with ⟨hno, hr⟩ | ⟨a, h, b, rfl, hr⟩
    · obtain ⟨rfl, rfl⟩ := he.eq_of_holes_nil hno
      rw [hr]; rfl
    · obtain ⟨v, m, hv, rfl, hev⟩ := he.replace
      rw [hr v hv]
      simp only [Nat.add_le_add_iff_right]
      exact ih hev h.domain

theorem Template.Reaches.of_closed {P : Hole → Prop} (ht : ∀ h ∈ t.holes, P h)
    (hP : ∀ h, P h → ∃ v : Template, h.value s = .ok v.text ∧ ∀ h' ∈ v.holes, P h')
    (hr : t.Reaches s h) : P h := by
  obtain ⟨h₀, hh₀, hpath⟩ := hr
  induction hpath with
  | refl => exact ht h₀ hh₀
  | tail _ hl ih =>
    obtain ⟨v, hv, hclosed⟩ := hP _ ih
    obtain ⟨v', hv', hm⟩ := hl
    exact hclosed _ (Template.mem_holes_of_text (Except.ok.inj (hv'.symm.trans hv)) hm)

theorem Template.Reaches.of_replace (hv : h.value s = .ok v.text) {h' : Hole}
    (hr : Template.Reaches s (a ++ v ++ b) h') : Template.Reaches s (a ++ .hole h :: b) h' := by
  obtain ⟨h₀, hmem, hpath⟩ := hr
  simp only [Template.holes_append, List.mem_append, or_assoc] at hmem
  have hab (h₁ : Hole) : h₁ ∈ (a ++ .hole h :: b).holes ↔ h₁ ∈ a.holes ∨ h₁ = h ∨ h₁ ∈ b.holes := by
    simp [Template.holes_append, Template.holes]
  rcases hmem with hmem | hmem | hmem
  · exact ⟨h₀, (hab h₀).mpr (.inl hmem), hpath⟩
  · exact ⟨h, (hab h).mpr (.inr (.inl rfl)), .head ⟨v, hv, hmem⟩ hpath⟩
  · exact ⟨h₀, (hab h₀).mpr (.inr (.inr hmem)), hpath⟩

theorem serve_of_not_expands (hv : ∀ h, t.Reaches s h → ∃ v : Template, h.value s = .ok v.text)
    (he : ¬ ∃ u n, Expands s t u n) (d : Domain) (left : Nat) :
    (s.serve limit d left t.text).result = .error (.limitExceeded limit) := by
  induction left generalizing d t with
  | zero =>
    rcases serve_template d 0 t with ⟨hno, -⟩ | ⟨a, h, b, rfl, hr⟩
    · exact absurd ⟨_, _, Expands.of_holes_nil hno⟩ he
    · obtain ⟨v, hval⟩ := hv h ⟨h, by simp [Template.holes_append, Template.holes], .refl⟩
      exact hr v hval
  | succ left ih =>
    rcases serve_template d (left + 1) t with ⟨hno, -⟩ | ⟨a, h, b, rfl, hr⟩
    · exact absurd ⟨_, _, Expands.of_holes_nil hno⟩ he
    · obtain ⟨v, hval⟩ := hv h ⟨h, by simp [Template.holes_append, Template.holes], .refl⟩
      rw [hr v hval]
      refine ih (fun h' hh' => hv h' (hh'.of_replace hval)) ?_ h.domain
      rintro ⟨u, n, hu⟩
      exact he ⟨u, n + 1, hu.unreplace hval⟩

/-! ## Which templates have an expansion -/

theorem acc_of_expands (he : Expands s t u n) :
    ∀ h ∈ t.holes, Acc (Function.swap (Leads s)) h := by
  induction he with
  | nil => intro h hh; cases hh
  | lit _ ih => exact ih
  | hole hv _ _ ihv iht =>
    intro h' hh'
    rcases List.mem_cons.mp hh' with rfl | hh'
    · refine ⟨h', ?_⟩
      rintro h₁ ⟨v', hv', hm⟩
      exact ihv h₁ (Template.mem_holes_of_text (Except.ok.inj (hv'.symm.trans hv)) hm)
    · exact iht h' hh'

theorem not_expands_of_cycle (hr : t.Reaches s h) (hc : Relation.TransGen (Leads s) h h) :
    ¬ ∃ u n, Expands s t u n := by
  rintro ⟨u, n, he⟩
  obtain ⟨h₀, hh₀, hpath⟩ := hr
  have hloop : Relation.TransGen (Leads s) h₀ h := .trans_right hpath hc
  have hacc : Acc (Relation.TransGen (Function.swap (Leads s))) h :=
    ((acc_of_expands he h₀ hh₀).inv_of_transGen (Relation.transGen_swap.mpr hloop)).transGen
  have hc' := Relation.transGen_swap.mpr hc
  clear hc hpath hloop
  induction hacc with
  | intro h _ ih => exact ih h hc' hc'

theorem exists_expands_of_holes
    (hv : ∀ h ∈ t.holes, ∃ (v : Template) (u : Text) (n : Nat),
      h.value s = .ok v.text ∧ Expands s v u n) : ∃ u n, Expands s t u n := by
  induction t with
  | nil => exact ⟨[], 0, .nil⟩
  | cons p t ih =>
    cases p with
    | lit l hl =>
      obtain ⟨u, n, he⟩ := ih hv
      exact ⟨_, _, he.lit⟩
    | hole h =>
      obtain ⟨v, u, m, hval, hev⟩ := hv h List.mem_cons_self
      obtain ⟨w, n, he⟩ := ih fun h' hh' => hv h' (List.mem_cons_of_mem h hh')
      exact ⟨_, _, .hole hval hev he⟩

theorem exists_expands (hv : ∀ h, t.Reaches s h → ∃ v : Template, h.value s = .ok v.text)
    (hac : ∀ h, t.Reaches s h → ¬ Relation.TransGen (Leads s) h h)
    (hfin : {h | t.Reaches s h}.Finite) : ∃ u n, Expands s t u n := by
  -- below a reached hole there are finitely many, and none comes back to it
  let below (h' h : {h // t.Reaches s h}) : Prop := Relation.TransGen (Leads s) h.1 h'.1
  have : Finite {h // t.Reaches s h} := hfin
  have : IsTrans _ below := ⟨fun _ _ _ h₁ h₂ => h₂.trans h₁⟩
  have : Std.Irrefl below := ⟨fun h => hac h.1 h.2⟩
  have hwf : WellFounded below := Finite.wellFounded_of_trans_of_irrefl below
  have key (h : {h // t.Reaches s h}) : ∃ (v : Template) (u : Text) (n : Nat),
      h.1.value s = .ok v.text ∧ Expands s v u n := by
    induction h using hwf.induction with
    | h h ih =>
      obtain ⟨v, hval⟩ := hv h.1 h.2
      obtain ⟨u, n, he⟩ := exists_expands_of_holes fun h' hh' => by
        have hl : Leads s h.1 h' := ⟨v, hval, hh'⟩
        obtain ⟨h₀, hh₀, hpath⟩ := h.2
        exact ih ⟨h', h₀, hh₀, hpath.tail hl⟩ (.single hl)
      exact ⟨v, u, n, hval, he⟩
  exact exists_expands_of_holes fun h hh => key ⟨h, h, hh, .refl⟩

end

/-- **A template resolves to its expansion**, if the limit allows for all holes
of the expansion, and otherwise exceeds the limit. It has an expansion if no
hole that it reaches leads back to itself, unless it reaches infinitely many;
a template that reaches such a hole, or infinitely many, exceeds every limit. -/
theorem resolve_template (s : Sources) (t : Template)
    (hv : ∀ h, t.Reaches s h → ∃ v : Template, h.value s = .ok v.text) :
    (∀ u n, Expands s t u n → ∀ limit, (s.resolve limit t.text).result =
        if n ≤ limit then .ok u else .error (.limitExceeded limit)) ∧
      ((∀ h, t.Reaches s h → ¬ Relation.TransGen (Leads s) h h) →
        (∃ u n, Expands s t u n) ∨ {h | t.Reaches s h}.Infinite ∧
          ∀ limit, (s.resolve limit t.text).result = .error (.limitExceeded limit)) ∧
      ((∃ h, t.Reaches s h ∧ Relation.TransGen (Leads s) h h) →
        ∀ limit, (s.resolve limit t.text).result = .error (.limitExceeded limit)) := by
  simp only [Sources.resolve_eq_serve]
  refine ⟨fun u n he limit => serve_of_expands he .property limit, fun hac => ?_, ?_⟩
  · by_cases he : ∃ u n, Expands s t u n
    · exact .inl he
    · exact .inr ⟨fun hfin => he (exists_expands hv hac hfin), fun limit =>
        serve_of_not_expands hv he .property limit⟩
  · rintro ⟨h, hr, hc⟩ limit
    exact serve_of_not_expands hv (not_expands_of_cycle hr hc) .property limit

namespace Template

def chained : Sources where
  property n := if n = ['a'] then some ['!', '{', 'b', '}', '!', '{', 'b', '}'] else none
  stored k :=
    if k = ['b'] then some ['x'] else if k = ['c'] then some ['!', '{', 'c', '}'] else none
  addresses _ := none

def holeA : Hole := ⟨.property, ['a'], by decide⟩
def holeB : Hole := ⟨.stored, ['b'], by decide⟩
def holeC : Hole := ⟨.stored, ['c'], by decide⟩

theorem chained_value : holeA.value chained = .ok (text [.hole holeB, .hole holeB]) ∧
    holeB.value chained = .ok (text [.lit ['x'] (by decide)]) ∧
    holeC.value chained = .ok (text [.hole holeC]) := ⟨rfl, rfl, rfl⟩

theorem resolve_chained :
    (chained.resolve 3 ['<', '$', '{', 'a', '}', '>']).result = .ok ['<', 'x', 'x', '>'] ∧
      (chained.resolve 2 ['<', '$', '{', 'a', '}', '>']).result = .error (.limitExceeded 2) ∧
      (chained.resolve 7 ['!', '{', 'c', '}']).result = .error (.limitExceeded 7) := by
  obtain ⟨ha, hb, hc⟩ := chained_value
  let t : Template := [.lit ['<'] (by decide), .hole holeA, .lit ['>'] (by decide)]
  have hA (h : Hole) (hr : t.Reaches chained h) : ∃ v : Template, h.value chained = .ok v.text := by
    have : h = holeA ∨ h = holeB := by
      refine hr.of_closed (P := fun h => h = holeA ∨ h = holeB) (by simp [t, holes]) ?_
      rintro h (rfl | rfl)
      · exact ⟨_, ha, by simp [holes]⟩
      · exact ⟨_, hb, by simp [holes]⟩
    rcases this with rfl | rfl
    · exact ⟨_, ha⟩
    · exact ⟨_, hb⟩
  have hC (h : Hole) (hr : Reaches chained [.hole holeC] h) :
      ∃ v : Template, h.value chained = .ok v.text := by
    have : h = holeC := by
      refine hr.of_closed (P := (· = holeC)) (by simp [holes]) ?_
      rintro h rfl
      exact ⟨_, hc, by simp [holes]⟩
    exact ⟨_, this ▸ hc⟩
  have hx : Expands chained t ['<', 'x', 'x', '>'] 3 :=
    .lit (.hole ha (.hole hb (.lit .nil) (.hole hb (.lit .nil) .nil)) (.lit .nil))
  have ht := (resolve_template chained t hA).1 _ 3 hx
  refine ⟨ht 3, ht 2, ?_⟩
  refine (resolve_template chained [.hole holeC] hC).2.2 ⟨holeC, ?_, ?_⟩ 7
  · exact ⟨holeC, List.mem_cons_self, .refl⟩
  · exact .single ⟨_, hc, List.mem_cons_self⟩

end Template

end Fixtures
