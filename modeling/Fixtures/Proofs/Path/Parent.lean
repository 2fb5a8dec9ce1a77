import Fixtures.Proofs.Except
import Fixtures.Proofs.Path.Spelling

/-!
# Reading the text of a parent

The text of a parent is written in one fixed spelling. An empty name is written as
a dot alone, which the reader passes over, and white space at the end of the text
is trimmed. Apart from that the text is read segment by segment, as long as no
name closes the bracket it stands in.
-/

namespace Fixtures

open Text (isBlank Tight)

namespace Segment

open Fixtures.Path (Break Encloses segmentsFrom)

variable {s : Segment} {name rest : Text}

/-- A segment that does not end its own spelling. -/
def Enclosed : Segment → Prop
  | .field name => Encloses '\'' name
  | .index n => n < Nat.pow 2 64

/-- Whether the fixed spelling of a segment shows it. Of an empty name there is a dot. -/
def isShown (s : Segment) : Bool := s ≠ .field []

theorem spelling_bare (hdot : '.' ∉ name) (hopen : '[' ∉ name) (hclose : ']' ∉ name) :
    spelling (.field name) = '.' :: name := by
  refine if_neg ?_
  simp only [List.any_eq_true, Bool.or_eq_true, beq_iff_eq, not_exists, not_and, not_or]
  intro c hc
  refine ⟨⟨?_, ?_⟩, ?_⟩ <;> rintro rfl <;> contradiction

theorem spelling_field (name : Text) :
    (spelling (.field name) = '.' :: name ∧ '.' ∉ name ∧ '[' ∉ name ∧ ']' ∉ name) ∨
    (spelling (.field name) = '[' :: '\'' :: (name ++ ['\'', ']']) ∧ name ≠ []) := by
  by_cases h : name.any (fun c => c == '.' || c == '[' || c == ']') = true
  · right
    have hspelling : spelling (.field name) = ['[', '\''] ++ name ++ ['\'', ']'] := if_pos h
    refine ⟨hspelling.trans (List.append_assoc _ _ _), ?_⟩
    rintro rfl
    cases h
  · left
    have hall : ∀ c ∈ name, (c ≠ '.' ∧ c ≠ '[') ∧ c ≠ ']' := by
      simpa only [List.any_eq_true, Bool.or_eq_true, beq_iff_eq, not_exists, not_and, not_or] using h
    exact ⟨if_neg h, fun hc => (hall _ hc).1.1 rfl, fun hc => (hall _ hc).1.2 rfl,
      fun hc => (hall _ hc).2 rfl⟩

theorem head?_spelling (s : Segment) : s.spelling.head? = some '.' ∨ s.spelling.head? = some '[' := by
  cases s with
  | index n => exact .inr rfl
  | field name =>
    rcases spelling_field name with ⟨h, -⟩ | ⟨h, -⟩
    · exact .inl (by rw [h]; rfl)
    · exact .inr (by rw [h]; rfl)

theorem segmentsFrom_spelling (hs : s.Enclosed) (hrest : Break rest) (path : Text) :
    segmentsFrom path (.name []) (s.spelling ++ rest) =
      (segmentsFrom path (.name []) rest).map ([s].filter isShown ++ ·) := by
  cases s with
  | index n => exact readAs_index hs path rest hrest
  | field name =>
    rcases spelling_field name with ⟨h, hdot, hopen, -⟩ | ⟨h, hne⟩
    · rw [h]
      by_cases hname : name = []
      · subst hname
        rw [List.singleton_append, Path.segmentsFrom_dot]
        cases segmentsFrom path (.name []) rest <;> rfl
      · rw [readAs_dotted hname hdot hopen path rest hrest, List.filter_cons_of_pos]
        · rfl
        · simpa [isShown] using hname
    · rw [h, readAs_quoted (.inl rfl) hs path rest hrest, List.filter_cons_of_pos]
      · rfl
      · simpa [isShown] using hne

end Segment

namespace Path

variable {segments : List Segment} {path t b : Text} {p q : Path}

theorem break_spellings (segments : List Segment) : Break (segments.flatMap Segment.spelling) := by
  cases segments with
  | nil => exact .inl rfl
  | cons s segments => exact break_append s.head?_spelling _

theorem segmentsFrom_spellings (hs : ∀ s ∈ segments, s.Enclosed) (path : Text) :
    segmentsFrom path (.name []) (segments.flatMap Segment.spelling) =
      .ok (segments.filter Segment.isShown) := by
  induction segments with
  | nil => rfl
  | cons s segments ih =>
    have hs' := List.forall_mem_cons.mp hs
    rw [List.flatMap_cons, Segment.segmentsFrom_spelling hs'.1 (break_spellings segments), ih hs'.2,
      Except.map, ← List.filter_append]
    rfl

theorem parse_ofSegments (hs : ∀ s ∈ segments, s.Enclosed) (ht : Tight (ofSegments segments).text)
    (hb : ∀ c ∈ b, isBlank c = true) :
    parse ((ofSegments segments).text ++ b) =
      .ok ⟨(ofSegments segments).text, segments.filter Segment.isShown⟩ := by
  have htrim : Text.trim ((ofSegments segments).text ++ b) = (ofSegments segments).text :=
    Text.trim_surrounded (fun _ h => nomatch h) hb ht (a := [])
  have hbody : body (ofSegments segments).text = segments.flatMap Segment.spelling :=
    body_marked (.inl rfl) (break_spellings segments)
  simp only [parse, htrim, hbody, segmentsFrom_spellings hs]
  rfl

/-! ## The segments of a path that has been read -/

theorem index_not_mem_nameSegment (n : Nat) (seen : Text) : .index n ∉ nameSegment seen := by
  unfold nameSegment
  split <;> simp

theorem index_lt_of_ofBracket {inner : Text} {n : Nat}
    (h : Segment.ofBracket path inner = .ok (.index n)) : n < Nat.pow 2 64 := by
  unfold Segment.ofBracket at h
  split at h
  · cases h
  · split at h
    · rename_i hn
      cases h
      exact of_decide_eq_true (Option.filter_eq_some_iff.mp hn).2
    · cases h

theorem index_lt_of_segmentsFrom {place : Place} {n : Nat}
    (h : segmentsFrom path place t = .ok segments) (hn : .index n ∈ segments) : n < Nat.pow 2 64 := by
  fun_induction segmentsFrom path place t generalizing segments with
  | case1 seen =>
    cases h
    exact absurd hn (index_not_mem_nameSegment n seen)
  | case2 inner quote => cases h
  | case3 seen cs ih =>
    obtain ⟨more, hmore, rfl⟩ := Except.map_eq_ok_iff.mp h
    rcases List.mem_append.mp hn with hn | hn
    · exact absurd hn (index_not_mem_nameSegment n seen)
    · exact ih hmore hn
  | case4 seen cs hdot ih =>
    obtain ⟨more, hmore, rfl⟩ := Except.map_eq_ok_iff.mp h
    rcases List.mem_append.mp hn with hn | hn
    · exact absurd hn (index_not_mem_nameSegment n seen)
    · exact ih hmore hn
  | case5 seen c cs hdot hopen ih => exact ih h hn
  | case6 inner quote c cs hclose e he => cases h
  | case7 inner quote c cs hclose s hs ih =>
    obtain ⟨more, hmore, rfl⟩ := Except.map_eq_ok_iff.mp h
    rcases List.mem_cons.mp hn with rfl | hn
    · exact index_lt_of_ofBracket hs
    · exact ih hmore hn
  | case8 inner quote c cs hclose ih => exact ih h hn

theorem index_lt_of_parse (h : parse t = .ok p) {n : Nat} (hn : .index n ∈ p.segments) :
    n < Nat.pow 2 64 := by
  obtain ⟨segments, hsegments, rfl⟩ := Except.map_eq_ok_iff.mp h
  exact index_lt_of_segmentsFrom hsegments hn

theorem parent?_eq_some_iff :
    p.parent? = some q ↔ p.segments ≠ [] ∧ q = ofSegments p.segments.dropLast := by
  unfold parent? isRoot
  cases p.segments with
  | nil => exact ⟨nofun, fun h => absurd rfl h.1⟩
  | cons s segments =>
    rw [List.isEmpty_cons, if_neg Bool.false_ne_true, Option.some.injEq]
    exact ⟨fun h => ⟨List.cons_ne_nil s segments, h.symm⟩, fun h => h.2.symm⟩

/-! ## White space at the end -/

theorem tight_ofSegments_concat {init : List Segment} {s : Segment} {c : Char}
    (hs : s.spelling.getLast? = some c) (hc : isBlank c = false) :
    Tight (ofSegments (init ++ [s])).text := by
  have htext : (ofSegments (init ++ [s])).text = ('$' :: init.flatMap Segment.spelling) ++ s.spelling := by
    simp [ofSegments]
  constructor
  · intro e he
    cases he
    decide
  · intro e he
    rw [htext, List.getLast?_append, hs, Option.some_or] at he
    cases he
    exact hc

theorem tight_ofSegments_bare {init : List Segment} {name : Text}
    (hbare : Segment.spelling (.field name) = '.' :: name)
    (hlast : ∀ c, name.getLast? = some c → isBlank c = false) :
    Tight (ofSegments (init ++ [.field name])).text := by
  cases h : name.getLast? with
  | none =>
    refine tight_ofSegments_concat (c := '.') ?_ (by decide)
    rw [hbare, List.getLast?_cons, h, Option.getD_none]
  | some c =>
    refine tight_ofSegments_concat (c := c) ?_ (hlast c h)
    rw [hbare, List.getLast?_cons, h, Option.getD_some]

theorem tight_or_padded (segments : List Segment) :
    Tight (ofSegments segments).text ∨
    ∃ init name b, segments = init ++ [.field (name ++ b)] ∧ b ≠ [] ∧
      (∀ c ∈ b, isBlank c = true) ∧ Tight (ofSegments (init ++ [.field name])).text ∧
      (ofSegments segments).text = (ofSegments (init ++ [.field name])).text ++ b := by
  rcases List.eq_nil_or_concat segments with rfl | ⟨init, s, rfl⟩
  · exact .inl (Text.tight_of_all (by decide))
  rw [List.concat_eq_append]
  cases s with
  | index n =>
    refine .inl (tight_ofSegments_concat (c := ']') ?_ (by decide))
    rw [Segment.spelling, ← List.cons_append, List.getLast?_concat]
  | field name =>
    rcases Segment.spelling_field name with ⟨hspelling, hdot, hopen, hclose⟩ | ⟨hspelling, -⟩
    · obtain ⟨u, b, rfl, hb, hu⟩ := Text.exists_blank_suffix name
      rw [List.mem_append, not_or] at hdot hopen hclose
      have hbare : Segment.spelling (.field u) = '.' :: u :=
        Segment.spelling_bare hdot.1 hopen.1 hclose.1
      have htight : Tight (ofSegments (init ++ [.field u])).text := tight_ofSegments_bare hbare hu
      by_cases hne : b = []
      · left
        rwa [hne, List.append_nil]
      · refine .inr ⟨init, u, b, rfl, hne, hb, htight, ?_⟩
        simp [ofSegments, hspelling, hbare]
    · refine .inl (tight_ofSegments_concat (c := ']') ?_ (by decide))
      have hend : '[' :: '\'' :: (name ++ ['\'', ']']) = '[' :: '\'' :: (name ++ ['\'']) ++ [']'] := by
        simp
      rw [hspelling, hend, List.getLast?_concat]

theorem not_tight_append (hne : b ≠ []) (hb : ∀ c ∈ b, isBlank c = true) (t : Text) :
    ¬ Tight (t ++ b) := by
  intro h
  have hlast : isBlank (b.getLast hne) = false := by
    apply h.last
    rw [List.getLast?_append, List.getLast?_eq_some_getLast hne, Option.some_or]
  rw [hb _ (List.getLast_mem hne)] at hlast
  cases hlast

theorem filter_isShown_eq_self_iff :
    segments.filter Segment.isShown = segments ↔ .field [] ∉ segments := by
  rw [List.filter_eq_self]
  constructor
  · intro h hmem
    have := h _ hmem
    contradiction
  · intro h s hs
    refine decide_eq_true ?_
    rintro rfl
    exact h hs

theorem filter_concat_ne {α : Type} {x y : α} (h : x ≠ y) (keep : α → Bool) (l : List α) :
    (l ++ [x]).filter keep ≠ l ++ [y] := by
  intro heq
  have hlen : ((l ++ [x]).filter keep).length = (l ++ [x]).length := by
    rw [heq, List.length_append, List.length_append]
    rfl
  have hall := (List.filter_sublist.eq_of_length hlen).symm.trans heq
  exact h (List.cons.inj (List.append_cancel_left hall)).1

/-- **What is read of the text of a parent.** Unless a quoted name closes its bracket,
the text is accepted. It is read as the parent's own segments exactly if no name is
empty and the text does not end in white space. -/
theorem parse_parent (hp : parse t = .ok p) (hq : p.parent? = some q)
    (hnames : ∀ name, .field name ∈ q.segments → Encloses '\'' name) :
    ∃ r, parse q.text = .ok r ∧
      (r.segments = q.segments ↔ .field [] ∉ q.segments ∧ Tight q.text) := by
  obtain ⟨-, rfl⟩ := parent?_eq_some_iff.mp hq
  have hs : ∀ s ∈ (ofSegments p.segments.dropLast).segments, s.Enclosed := by
    intro s hs
    cases s with
    | index n => exact index_lt_of_parse hp (List.dropLast_subset _ hs)
    | field name => exact hnames name hs
  generalize p.segments.dropLast = segments at *
  rcases tight_or_padded segments with htight | ⟨init, name, b, rfl, hne, hb, htight, htext⟩
  · have hparse := parse_ofSegments hs htight (b := []) nofun
    rw [List.append_nil] at hparse
    exact ⟨_, hparse, filter_isShown_eq_self_iff.trans (and_iff_left htight).symm⟩
  · have hs' : ∀ s ∈ init ++ [Segment.field name], s.Enclosed := by
      have hs := List.forall_mem_append.mp hs
      refine List.forall_mem_append.mpr ⟨hs.1, List.forall_mem_singleton.mpr ?_⟩
      exact (List.forall_mem_singleton.mp hs.2).of_append
    rw [htext]
    refine ⟨_, parse_ofSegments hs' htight hb, ?_, fun h => absurd h.2 (not_tight_append hne hb _)⟩
    have hlast : Segment.field name ≠ .field (name ++ b) := by
      intro h
      exact hne (List.self_eq_append_right.mp (Segment.field.inj h))
    exact fun h => absurd h (filter_concat_ne hlast _ init)

theorem parse_parent_quoteWithin :
    ∃ r, parse ['$', '[', '\'', 'o', '\'', '.', 'b', '\'', ']', '[', '7', ']'] = .ok r ∧
      r.segments = [.field ['o', '\'', '.', 'b'], .index 7] := by
  have hread : parse ['[', '"', 'o', '\'', '.', 'b', '"', ']', '[', '7', ']', '.', 'x'] =
      .ok ⟨['[', '"', 'o', '\'', '.', 'b', '"', ']', '[', '7', ']', '.', 'x'],
        [.field ['o', '\'', '.', 'b'], .index 7, .field ['x']]⟩ := by rfl
  have hnames : ∀ name, .field name ∈ [.field ['o', '\'', '.', 'b'], Segment.index 7] →
      Encloses '\'' name := by
    intro name hmem
    rcases List.mem_cons.mp hmem with h | h
    · cases h
      exact encloses_of_close_not_mem (by decide)
    · cases List.mem_singleton.mp h
  obtain ⟨r, hr, hsame⟩ := parse_parent hread rfl hnames
  exact ⟨r, hr, hsame.mpr ⟨by decide, Text.tight_of_all (by decide)⟩⟩

theorem parse_parent_quoteClosed :
    ∃ p q r, parse ['[', '"', 'a', '\'', ']', 'b', '"', ']', '.', 'x'] = .ok p ∧
      p.parent? = some q ∧ parse q.text = .ok r ∧ q.segments = [.field ['a', '\'', ']', 'b']] ∧
      r.segments = [.field ['a'], .field ['b', '\'', ']']] :=
  ⟨_, _, _, rfl, rfl, rfl, rfl, rfl⟩

end Path

end Fixtures
