import Fixtures.Proofs.Placeholder.Marker
import Fixtures.Proofs.Text.Position

/-!
# Where a placeholder is found

The search goes to the first marker, wherever it stands, and from there to the next
closing brace, whatever stands between them: other markers, opening braces, line ends.
The bytes at which it starts and stops are those of the marker and of the brace.
-/

namespace Fixtures

theorem Domain.byteSize_marker (d : Domain) : Text.byteSize d.marker = 2 := by
  cases d <;> rfl

namespace Occurrence

variable {d : Domain} {t a tail i b : Text} {o : Occurrence}

theorem occursAt_brace_iff (hm : Text.cut? d.marker t = some (a, tail)) (n : Nat) :
    Text.OccursAt ['}'] t (Text.byteSize a + 2 + n) ↔ Text.OccursAt ['}'] tail n := by
  have hx : Text.byteSize (a ++ d.marker) = Text.byteSize a + 2 := by
    rw [Text.byteSize_append, d.byteSize_marker]
  rw [Text.eq_append_of_cut? hm, ← hx]
  exact Text.occursAt_append_iff

theorem firstFrom_brace (hm : Text.cut? d.marker t = some (a, tail))
    (hc : Text.cut? ['}'] tail = some (i, b)) :
    Text.FirstFrom (Text.byteSize a + 2) ['}'] t (Text.byteSize a + 2 + Text.byteSize i) := by
  have hx : Text.byteSize (a ++ d.marker) = Text.byteSize a + 2 := by
    rw [Text.byteSize_append, d.byteSize_marker]
  rw [Text.eq_append_of_cut? hm, ← hx]
  exact Text.firstFrom_append_iff.mpr (Text.firstFrom_of_cut? hc)

theorem unterminated_iff (hm : Text.cut? d.marker t = some (a, tail)) :
    first? d t = .error (.unterminated d t) ↔
      ∀ n, Text.byteSize a + 2 ≤ n → ¬ Text.OccursAt ['}'] t n := by
  have hopen : first? d t = .error (.unterminated d t) ↔ Text.cut? ['}'] tail = none := by
    constructor
    · intro h
      obtain ⟨a', tail', hm', ⟨hc, -⟩ | ⟨i, b, -, hp⟩⟩ := first?_eq_error_iff.mp h
      · rw [hm] at hm'
        cases hm'
        exact hc
      · cases (Placeholder.ofInterior_eq_error_iff.mp hp).2
    · intro hc
      exact first?_eq_error_iff.mpr ⟨a, tail, hm, .inl ⟨hc, rfl⟩⟩
  rw [hopen, Text.cut?_eq_none_iff, ← Text.exists_occursAt_iff]
  constructor
  · intro h n hn hoccurs
    obtain ⟨m, rfl⟩ := Nat.exists_eq_add_of_le hn
    exact h ⟨m, (occursAt_brace_iff hm m).mp hoccurs⟩
  · rintro h ⟨m, hoccurs⟩
    exact h _ (Nat.le_add_right _ m) ((occursAt_brace_iff hm m).mpr hoccurs)

theorem located (h : first? d t = .ok (some o)) :
    Text.IsBoundary t o.start ∧ Text.IsBoundary t o.stop ∧
      o.placeholder.text = Text.slice o.start o.stop t ∧ '}' ∉ o.placeholder.interior := by
  obtain ⟨i, tail, hm, hc, hp⟩ := first?_eq_some_iff.mp h
  have ht : t = o.before ++ o.placeholder.text ++ o.after := by
    rw [List.append_assoc]
    exact eq_append_of_first? h
  have hstop : o.stop = Text.byteSize (o.before ++ o.placeholder.text) :=
    (Text.byteSize_append _ _).symm
  refine ⟨⟨o.before, o.placeholder.text ++ o.after, ?_, rfl⟩, ⟨_, o.after, ht, hstop.symm⟩, ?_, ?_⟩
  · rw [ht, List.append_assoc]
  · rw [ht]
    exact (Text.slice_append _ _ _).symm
  · rw [(Placeholder.domain_interior_ofInterior hp).2]
    exact Text.not_mem_of_cut?_singleton hc

theorem byteSize_whole : Text.byteSize (d.marker ++ i ++ ['}']) = 2 + Text.byteSize i + 1 := by
  rw [Text.byteSize_append, Text.byteSize_append, d.byteSize_marker]
  rfl

section
variable (hm : Text.cut? d.marker t = some (a, tail)) (hc : Text.cut? ['}'] tail = some (i, b))
include hm hc

theorem text_eq : t = a ++ (d.marker ++ i ++ ['}']) ++ b := by
  rw [Text.eq_append_of_cut? hm, Text.eq_append_of_cut? hc]
  simp only [List.append_assoc]

theorem slice_interior :
    Text.slice (Text.byteSize a + 2) (Text.byteSize a + 2 + Text.byteSize i) t = i := by
  have h := Text.slice_append (a ++ d.marker) i (['}'] ++ b)
  rw [Text.byteSize_append, d.byteSize_marker] at h
  rw [text_eq hm hc]
  simpa only [List.append_assoc] using h

theorem slice_whole :
    Text.slice (Text.byteSize a) (Text.byteSize a + 2 + Text.byteSize i + 1) t =
      d.marker ++ i ++ ['}'] := by
  have h := Text.slice_append a (d.marker ++ i ++ ['}']) b
  rw [byteSize_whole, ← text_eq hm hc] at h
  simpa only [Nat.add_assoc] using h

theorem missingArgument_iff :
    first? d t = .error (.missingArgument (d.marker ++ i ++ ['}'])) ↔ d = .code ∧ '.' ∉ i := by
  rw [first?_of_cut? hm hc]
  cases hp : Placeholder.ofInterior d i with
  | error e =>
    obtain ⟨hdot, rfl⟩ := Placeholder.ofInterior_eq_error_iff.mp hp
    exact ⟨fun _ => hdot, fun _ => rfl⟩
  | ok p =>
    constructor
    · intro h
      cases h
    · intro hdot
      rw [Placeholder.ofInterior_eq_error_iff.mpr ⟨hdot, rfl⟩] at hp
      cases hp

theorem exists_first? (h : ¬ (d = .code ∧ '.' ∉ i)) :
    ∃ p, first? d t = .ok (some ⟨a, p, b⟩) ∧ p.text = d.marker ++ i ++ ['}'] := by
  rw [first?_of_cut? hm hc]
  cases hp : Placeholder.ofInterior d i with
  | error e => exact absurd (Placeholder.ofInterior_eq_error_iff.mp hp).1 h
  | ok p =>
    refine ⟨p, rfl, ?_⟩
    rw [Placeholder.text_of_ofInterior hp, List.append_assoc]

end

/-- **The first placeholder is located exactly.** Without a marker there is none. From
the first marker it goes to the first closing brace behind that; a marker without one is
left open, and a capability without a dot in between has no argument. -/
theorem first?_located (d : Domain) (t : Text) :
    (first? d t = .ok none ↔ ¬ d.marker <:+: t) ∧
    (d.marker <:+: t → ∃ s, Text.FirstFrom 0 d.marker t s ∧
      (first? d t = .error (.unterminated d t) ↔
        ∀ n, s + 2 ≤ n → ¬ Text.OccursAt ['}'] t n) ∧
      ((∃ n, s + 2 ≤ n ∧ Text.OccursAt ['}'] t n) → ∃ e, Text.FirstFrom (s + 2) ['}'] t e ∧
        (first? d t = .error (.missingArgument (Text.slice s (e + 1) t)) ↔
          d = .code ∧ '.' ∉ Text.slice (s + 2) e t) ∧
        (¬ (d = .code ∧ '.' ∉ Text.slice (s + 2) e t) →
          ∃ o, first? d t = .ok (some o) ∧ o.start = s ∧ o.stop = e + 1 ∧
            Text.IsBoundary t o.start ∧ Text.IsBoundary t o.stop ∧
            o.placeholder.text = Text.slice o.start o.stop t ∧
            '}' ∉ o.placeholder.interior))) := by
  constructor
  · rw [first?_eq_none, ← Bool.not_eq_true, Text.has_iff_infix]
  intro hmarker
  obtain ⟨a, tail, hm⟩ := Text.exists_cut?_of_infix hmarker
  refine ⟨Text.byteSize a, Text.firstFrom_of_cut? hm, unterminated_iff hm, ?_⟩
  rintro ⟨n, hn, hoccurs⟩
  -- a brace in the text is one behind the marker, where the search goes on
  obtain ⟨m, rfl⟩ := Nat.exists_eq_add_of_le hn
  have hbrace := Text.exists_occursAt_iff.mp ⟨m, (occursAt_brace_iff hm m).mp hoccurs⟩
  obtain ⟨i, b, hc⟩ := Text.exists_cut?_of_infix hbrace
  refine ⟨_, firstFrom_brace hm hc, ?_, fun hdot => ?_⟩
  · rw [slice_interior hm hc, slice_whole hm hc]
    exact missingArgument_iff hm hc
  · rw [slice_interior hm hc] at hdot
    obtain ⟨p, hp, htext⟩ := exists_first? hm hc hdot
    have hstop : Text.byteSize a + Text.byteSize p.text =
        Text.byteSize a + 2 + Text.byteSize i + 1 := by
      rw [htext, byteSize_whole]
      omega
    exact ⟨_, hp, rfl, hstop, located hp⟩

def nestedText : Text := ['é', '$', '{', 'a', '@', '{', 'b', '.', 'c', '}', 'd', '}']

theorem first?_located_nested :
    ∃ o, first? .property nestedText = .ok (some o) ∧ o.start = 2 ∧ o.stop = 11 := by
  obtain ⟨s, hs, -, hclosed⟩ := (first?_located .property nestedText).2 (by decide)
  have hmarker := Text.firstFrom_of_cut? (p := Domain.property.marker) (t := nestedText) rfl
  obtain rfl := hs.unique hmarker
  have hbrace := firstFrom_brace (d := .property) (t := nestedText) rfl rfl
  obtain ⟨e, he, -, hfound⟩ := hclosed ⟨_, hbrace.le, hbrace.occurs⟩
  obtain rfl := he.unique hbrace
  obtain ⟨o, ho, hstart, hstop, -⟩ := hfound (by decide)
  exact ⟨o, ho, hstart, hstop⟩

end Occurrence

end Fixtures
