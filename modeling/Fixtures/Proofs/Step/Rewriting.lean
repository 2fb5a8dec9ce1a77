import Fixtures.Proofs.Placeholder.Bounded
import Fixtures.Step.Rewriting

/-!
# Steps are rewritten leaf by leaf

A step is rewritten if its leaves can be resolved, and the resolved leaves are then all
that is different (`Step.ResolvesTo`). The rows only group the leaves: the lookups and
the failure of a rewriting are those of its leaves, run from left to right
(`Step.effect_rewrite`).
-/

namespace Fixtures

namespace Row

structure ResolvesTo (resolve : Resolver) (r r' : Row) : Prop where
  comments : r'.comments = r.comments
  line : r'.line = r.line
  cells : List.Forall₂ (fun t t' => (resolve t).result = .ok t') r.cells r'.cells

theorem rewrite_eq_ok_iff {resolve : Resolver} {r r' : Row} :
    (r.rewrite resolve).result = .ok r' ↔ r.ResolvesTo resolve r' := by
  rw [rewrite, Run.result_map_eq_ok_iff]
  simp only [Run.result_each_eq_ok_iff]
  constructor
  · rintro ⟨cells, hcells, rfl⟩
    exact ⟨rfl, rfl, hcells⟩
  · rintro ⟨hcomments, hline, hcells⟩
    refine ⟨r'.cells, hcells, ?_⟩
    rw [← hcomments, ← hline]

end Row

namespace Step

structure ResolvesTo (resolve : Resolver) (s s' : Step) : Prop where
  keyword : s'.keyword = s.keyword
  text : (resolve s.text).result = .ok s'.text
  line : s'.line = s.line
  comments : s'.comments = s.comments
  rows : Option.Rel (List.Forall₂ (Row.ResolvesTo resolve)) s.rows s'.rows
  docBlock : s'.docBlock = s.docBlock

/-- The texts of a step that are resolved, in their order. -/
def leaves (s : Step) : List Text := s.text :: s.cells.flatten

variable {resolve : Resolver} {s s' : Step}

theorem rewriteRows_eq_ok_iff {rows rows' : Option (List Row)} :
    (rewriteRows resolve rows).result = .ok rows' ↔
      Option.Rel (List.Forall₂ (Row.ResolvesTo resolve)) rows rows' := by
  cases rows with
  | none =>
    constructor
    · intro h
      cases h
      exact .none
    · intro h
      cases h
      rfl
  | some rows =>
    rw [rewriteRows, Run.result_map_eq_ok_iff]
    simp only [Run.result_each_eq_ok_iff, Row.rewrite_eq_ok_iff]
    constructor
    · rintro ⟨rows', hrows, rfl⟩
      exact .some hrows
    · intro h
      cases h with
      | some hrows => exact ⟨_, hrows, rfl⟩

theorem rewrite_eq_ok_iff :
    (s.rewrite resolve).result = .ok s' ↔ s.ResolvesTo resolve s' := by
  rw [rewrite, Run.result_andThen_eq_ok_iff]
  simp only [Run.result_map_eq_ok_iff, rewriteRows_eq_ok_iff]
  constructor
  · rintro ⟨text, htext, rows, hrows, rfl⟩
    exact ⟨rfl, htext, rfl, rfl, hrows, rfl⟩
  · rintro ⟨hkeyword, htext, hline, hcomments, hrows, hdocBlock⟩
    refine ⟨s'.text, htext, s'.rows, hrows, ?_⟩
    rw [← hkeyword, ← hline, ← hcomments, ← hdocBlock]

theorem ResolvesTo.leaves (h : s.ResolvesTo resolve s') :
    List.Forall₂ (fun t t' => (resolve t).result = .ok t') s.leaves s'.leaves := by
  have hrows : List.Forall₂ (Row.ResolvesTo resolve) (s.rows.getD []) (s'.rows.getD []) := by
    have hrel := h.rows
    generalize s.rows = rows, s'.rows = rows' at hrel ⊢
    cases hrel with
    | none => exact .nil
    | some hrows => exact hrows
  refine .cons h.text (List.rel_flatten ?_)
  rw [cells, cells, List.forall₂_map_left_iff, List.forall₂_map_right_iff]
  exact hrows.imp fun r r' hr => hr.cells

/-! ## The order of the leaves -/

theorem effect_rewriteRows (resolve : Resolver) (rows : Option (List Row)) :
    (rewriteRows resolve rows).effect =
      (Run.each resolve ((rows.getD []).flatMap Row.cells)).effect := by
  cases rows with
  | none => rfl
  | some rows =>
    rw [rewriteRows, Run.effect_map]
    exact Run.effect_each_flatMap (fun r => Run.effect_map _ _) rows

theorem effect_rewrite (resolve : Resolver) (s : Step) :
    (s.rewrite resolve).effect = (Run.each resolve s.leaves).effect := by
  rw [leaves, cells, ← List.flatMap_def, Run.effect_each_cons, ← effect_rewriteRows, rewrite]
  exact Run.effect_andThen fun text => Run.effect_map _ _

theorem exists_rewrite_iff :
    (∃ s', (s.rewrite resolve).result = .ok s') ↔
      ∀ t ∈ s.leaves, ∃ v, (resolve t).result = .ok v := by
  rw [← Run.exists_result_each_iff, ← Run.result_effect_eq_ok_iff, effect_rewrite,
    Run.result_effect_eq_ok_iff]

theorem rewrite_eq_error_iff {e : ResolutionError} :
    (s.rewrite resolve).result = .error e ↔ Run.FailsFirst resolve s.leaves e := by
  rw [← Run.result_each_eq_error_iff, ← Run.result_effect_eq_error_iff, effect_rewrite,
    Run.result_effect_eq_error_iff]

/-! ## Resolved steps -/

theorem rewriteRows_of_cells {rows : Option (List Row)}
    (h : ∀ r ∈ rows.getD [], ∀ t ∈ r.cells, resolve t = .ok t) :
    rewriteRows resolve rows = .ok rows := by
  cases rows with
  | none => rfl
  | some rows =>
    rw [rewriteRows, Run.each_of_forall]
    · rfl
    · intro r hr
      rw [Row.rewrite, Run.each_of_forall (h r hr)]
      rfl

theorem rewrite_of_leaves (h : ∀ t ∈ s.leaves, resolve t = .ok t) :
    s.rewrite resolve = .ok s := by
  rw [leaves, List.forall_mem_cons] at h
  obtain ⟨htext, hcells⟩ := h
  rw [rewrite, htext, Run.ok_andThen, rewriteRows_of_cells]
  · rfl
  · intro r hr t ht
    exact hcells t (List.mem_flatten_of_mem (List.mem_map_of_mem hr) ht)

theorem ResolvesTo.rewrite_again {src : Sources} {limit : Nat}
    (h : s.ResolvesTo (src.resolve limit) s') (src' : Sources) (limit' : Nat) :
    s'.rewrite (src'.resolve limit') = .ok s' := by
  apply rewrite_of_leaves
  intro t' ht'
  obtain ⟨i, hi, rfl⟩ := List.getElem_of_mem ht'
  have hresolved := h.leaves.get (h.leaves.length_eq.symm ▸ hi) hi
  rw [Sources.resolve_eq_serve] at hresolved
  exact Sources.resolve_of_hasMarker (Sources.hasMarker_of_serve hresolved)

/-- **Steps are rewritten leaf by leaf.** A step is rewritten if all its leaves can be
resolved, and then they are resolved and nothing else is changed. Otherwise its first
leaf that cannot be resolved is the failure. A rewritten step is rewritten to itself,
by any sources and within any limit. The first failure of a list of steps is its own. -/
theorem rewrite_leaves (src : Sources) (limit : Nat) :
    (∀ s s' : Step, (s.rewrite (src.resolve limit)).result = .ok s' ↔
      s.ResolvesTo (src.resolve limit) s') ∧
    (∀ s : Step, (∃ s', (s.rewrite (src.resolve limit)).result = .ok s') ↔
      ∀ t ∈ s.leaves, ∃ v, (src.resolve limit t).result = .ok v) ∧
    (∀ (s : Step) (e : ResolutionError), (s.rewrite (src.resolve limit)).result = .error e ↔
      Run.FailsFirst (src.resolve limit) s.leaves e) ∧
    (∀ s s' : Step, (s.rewrite (src.resolve limit)).result = .ok s' →
      ∀ (src' : Sources) (limit' : Nat), s'.rewrite (src'.resolve limit') = .ok s') ∧
    (∀ steps steps' : List Step, (rewriteAll (src.resolve limit) steps).result = .ok steps' ↔
      List.Forall₂ (fun s s' => (s.rewrite (src.resolve limit)).result = .ok s') steps steps') ∧
    (∀ steps : List Step, (∃ steps', (rewriteAll (src.resolve limit) steps).result = .ok steps') ↔
      ∀ s ∈ steps, ∃ s', (s.rewrite (src.resolve limit)).result = .ok s') ∧
    ∀ (steps : List Step) (e : ResolutionError),
      (rewriteAll (src.resolve limit) steps).result = .error e ↔
        Run.FailsFirst (rewrite (src.resolve limit)) steps e := by
  refine ⟨fun s s' => rewrite_eq_ok_iff, fun s => exists_rewrite_iff,
    fun s e => rewrite_eq_error_iff, ?_, fun steps steps' => Run.result_each_eq_ok_iff,
    fun steps => Run.exists_result_each_iff, fun steps e => Run.result_each_eq_error_iff⟩
  intro s s' h
  exact (rewrite_eq_ok_iff.mp h).rewrite_again

end Step

end Fixtures
