import Fixtures.Path.Basic
import Fixtures.Proofs.Decimal.Digits
import Fixtures.Proofs.Text.Trim

/-!
# The spellings of a path

A spelling of a segment takes the reader from a place between two segments to the
next such place, whatever follows there. So the spellings of the segments of a path
can be mixed freely, and the whole is read segment by segment.
-/

namespace Fixtures

open Text (isBlank Tight)

namespace Path

variable {path seen inner name rest t : Text} {c q : Char}

def Break (t : Text) : Prop := t = [] ∨ t.head? = some '.' ∨ t.head? = some '['

/-- After a quote `q` in the name no bracket is closed. Such a name may stand between
quotes `q` though it has one inside. -/
def Encloses (q : Char) (name : Text) : Prop := ∀ a b, name = a ++ q :: b → ']' ∉ b

theorem encloses_of_not_mem (h : q ∉ name) : Encloses q name := by
  rintro a b rfl
  exact absurd (List.mem_append_right a List.mem_cons_self) h

theorem encloses_of_close_not_mem (h : ']' ∉ name) : Encloses q name := by
  rintro a b rfl hb
  exact h (List.mem_append_right a (List.mem_cons_of_mem q hb))

theorem Encloses.of_append {more : Text} (h : Encloses q (name ++ more)) : Encloses q name := by
  rintro a b rfl hb
  exact h a (b ++ more) (List.append_assoc _ _ _) (List.mem_append_left more hb)

theorem Encloses.concat (h : Encloses q name) (hq : q ≠ ']') {a b : Text}
    (hab : name ++ [q] = a ++ q :: b) : ']' ∉ b := by
  rcases List.eq_nil_or_concat b with rfl | ⟨b', c, rfl⟩
  · exact List.not_mem_nil
  · rw [List.concat_eq_append, ← List.cons_append, ← List.append_assoc] at hab
    obtain ⟨hname, hc⟩ := List.append_inj' hab rfl
    cases hc
    rw [List.concat_eq_append, List.mem_append, List.mem_singleton, not_or]
    exact ⟨h a b' hname, hq.symm⟩

/-! ## What the reader does with a piece of text -/

theorem segmentsFrom_name_append (hdot : '.' ∉ name) (hopen : '[' ∉ name) (seen rest : Text) :
    segmentsFrom path (.name seen) (name ++ rest) =
      segmentsFrom path (.name (name.reverse ++ seen)) rest := by
  induction name generalizing seen with
  | nil => rfl
  | cons c name ih =>
    rw [List.mem_cons, not_or] at hdot hopen
    rw [List.cons_append, segmentsFrom, if_neg (Ne.symm hdot.1), if_neg (Ne.symm hopen.1),
      ih hdot.2 hopen.2, List.reverse_cons, List.append_assoc]
    rfl

theorem segmentsFrom_name_break (h : Break rest) (seen : Text) :
    segmentsFrom path (.name seen) rest =
      (segmentsFrom path (.name []) rest).map (nameSegment seen ++ ·) := by
  cases rest with
  | nil =>
    rw [segmentsFrom, segmentsFrom, Except.map, nameSegment, nameSegment, List.isEmpty_nil,
      if_pos rfl, List.append_nil]
  | cons c rest =>
    have hc : c = '.' ∨ c = '[' := by simpa [Break] using h
    rcases hc with rfl | rfl
    · rw [segmentsFrom, segmentsFrom, if_pos rfl, if_pos rfl]
      cases segmentsFrom path (.name []) rest <;> rfl
    · have hdot : '[' ≠ '.' := by decide
      rw [segmentsFrom, segmentsFrom, if_neg hdot, if_neg hdot, if_pos rfl, if_pos rfl]
      cases segmentsFrom path (.bracket [] none) rest <;> rfl

theorem segmentsFrom_quoted_append (h : q ∉ name) (inner rest : Text) :
    segmentsFrom path (.bracket inner (some q)) (name ++ rest) =
      segmentsFrom path (.bracket (name.reverse ++ inner) (some q)) rest := by
  induction name generalizing inner with
  | nil => rfl
  | cons c name ih =>
    rw [List.mem_cons, not_or] at h
    have hquote : quoteAfter inner (some q) c = some q := if_neg (Ne.symm h.1)
    rw [List.cons_append, segmentsFrom, if_neg (fun h => nomatch h.1), hquote, ih h.2,
      List.reverse_cons, List.append_assoc]
    rfl

theorem segmentsFrom_unquoted_append (hclose : ']' ∉ t)
    (hquote : inner.all isBlank = false ∨ ('\'' ∉ t ∧ '"' ∉ t)) (rest : Text) :
    segmentsFrom path (.bracket inner none) (t ++ rest) =
      segmentsFrom path (.bracket (t.reverse ++ inner) none) rest := by
  induction t generalizing inner with
  | nil => rfl
  | cons c t ih =>
    rw [List.mem_cons, not_or] at hclose
    have hnone : quoteAfter inner none c = none := by
      refine if_neg ?_
      rintro ⟨hc, hblank⟩
      rcases hquote with h | ⟨h₁, h₂⟩
      · rw [hblank] at h
        cases h
      · rcases hc with rfl | rfl
        · exact h₁ List.mem_cons_self
        · exact h₂ List.mem_cons_self
    have hrest : (c :: inner).all isBlank = false ∨ ('\'' ∉ t ∧ '"' ∉ t) := by
      rcases hquote with h | ⟨h₁, h₂⟩
      · left
        rw [List.all_cons, h, Bool.and_false]
      · exact .inr ⟨fun h => h₁ (List.mem_cons_of_mem c h), fun h => h₂ (List.mem_cons_of_mem c h)⟩
    rw [List.cons_append, segmentsFrom, if_neg (fun h => hclose.1 h.2.symm), hnone,
      ih hclose.2 hrest, List.reverse_cons, List.append_assoc]
    rfl

theorem segmentsFrom_close {s : Segment} (h : Segment.ofBracket path (Text.trim inner.reverse) = .ok s)
    (rest : Text) :
    segmentsFrom path (.bracket inner none) (']' :: rest) =
      (segmentsFrom path (.name []) rest).map (s :: ·) := by
  rw [segmentsFrom, if_pos ⟨rfl, rfl⟩, h]

theorem segmentsFrom_open (rest : Text) :
    segmentsFrom path (.name []) ('[' :: rest) = segmentsFrom path (.bracket [] none) rest := by
  rw [segmentsFrom, if_neg (by decide), if_pos rfl]
  cases segmentsFrom path (.bracket [] none) rest <;> rfl

theorem segmentsFrom_dot (rest : Text) :
    segmentsFrom path (.name []) ('.' :: rest) = segmentsFrom path (.name []) rest := by
  rw [segmentsFrom, if_pos rfl]
  cases segmentsFrom path (.name []) rest <;> rfl

end Path

/-! ## The spellings of one segment -/

namespace Segment

open Fixtures.Path (Break Encloses segmentsFrom nameSegment)

variable {n : Nat} {name : Text} {q : Char}

theorem isBlank_of_quote (hq : q = '\'' ∨ q = '"') : isBlank q = false := by
  rcases hq with rfl | rfl <;> decide

theorem unquote?_quoted (q : Char) (name : Text) : unquote? q (q :: (name ++ [q])) = some name := by
  rw [unquote?, Text.after?, if_pos rfl, Text.after?, Option.bind_some, Text.before?,
    List.reverse_append, List.reverse_singleton, Text.after?_append, Option.map_some,
    List.reverse_reverse]

theorem unquote?_of_ne {c : Char} (h : q ≠ c) (t : Text) : unquote? q (c :: t) = none := by
  rw [unquote?, Text.after?, if_neg h, Option.bind_none]

theorem ofBracket_quoted (path : Text) (hq : q = '\'' ∨ q = '"') (name : Text) :
    ofBracket path (q :: (name ++ [q])) = .ok (.field name) := by
  unfold ofBracket
  rcases hq with rfl | rfl
  · rw [unquote?_quoted, Option.some_or]
  · rw [unquote?_of_ne (by decide), Option.none_or, unquote?_quoted]

theorem ofBracket_digits (path : Text) (hn : n < Nat.pow 2 64) :
    ofBracket path (Decimal.digits n) = .ok (.index n) := by
  have hnone : (unquote? '\'' (Decimal.digits n)).or (unquote? '"' (Decimal.digits n)) = none := by
    cases hd : Decimal.digits n with
    | nil => rfl
    | cons c t =>
      have hc : c.isDigit = true := Decimal.isDigit_of_mem_digits (hd ▸ List.mem_cons_self)
      rw [unquote?_of_ne, unquote?_of_ne, Option.or_none]
      · rintro rfl
        cases hc
      · rintro rfl
        cases hc
  rw [ofBracket, hnone, Decimal.unsigned64?_digits hn]

def ReadAs (s : Segment) (t : Text) : Prop :=
  ∀ path rest, Break rest →
    segmentsFrom path (.name []) (t ++ rest) = (segmentsFrom path (.name []) rest).map (s :: ·)

theorem readAs_index (hn : n < Nat.pow 2 64) :
    ReadAs (.index n) ('[' :: (Decimal.digits n ++ [']'])) := by
  intro path rest _
  have hdigit : ∀ c, c.isDigit = false → c ∉ Decimal.digits n := by
    intro c hc hmem
    rw [Decimal.isDigit_of_mem_digits hmem] at hc
    cases hc
  have htight : Tight (Decimal.digits n) :=
    Text.tight_of_forall fun c hc => Text.isBlank_of_isDigit (Decimal.isDigit_of_mem_digits hc)
  have hbracket : ofBracket path (Text.trim ((Decimal.digits n).reverse ++ []).reverse) =
      .ok (.index n) := by
    rw [List.append_nil, List.reverse_reverse, htight.trim_eq, ofBracket_digits path hn]
  rw [List.cons_append, List.append_assoc, Path.segmentsFrom_open,
    Path.segmentsFrom_unquoted_append (hdigit _ rfl) (.inr ⟨hdigit _ rfl, hdigit _ rfl⟩)]
  exact Path.segmentsFrom_close hbracket rest

theorem readAs_quoted (hq : q = '\'' ∨ q = '"') (h : Encloses q name) :
    ReadAs (.field name) ('[' :: q :: (name ++ [q, ']'])) := by
  intro path rest _
  have hblank : isBlank q = false := isBlank_of_quote hq
  have hclose : q ≠ ']' := by
    rintro rfl
    rcases hq with hq | hq <;> cases hq
  -- The quote ends where `q` stands next, in the name or behind it.
  obtain ⟨a, b, hab, ha⟩ : ∃ a b, name ++ [q] = a ++ q :: b ∧ q ∉ a :=
    List.eq_append_cons_of_mem (List.mem_append_right name List.mem_cons_self)
  have hopen : Path.quoteAfter [] none q = some q := if_pos ⟨hq, rfl⟩
  have hend : Path.quoteAfter (a.reverse ++ [q]) (some q) q = none := if_pos rfl
  have hb : ']' ∉ b := h.concat hclose hab
  have hinner : (q :: (a.reverse ++ [q])).all isBlank = false := by
    rw [List.all_cons, hblank, Bool.false_and]
  have hbracket : ofBracket path (Text.trim (b.reverse ++ q :: (a.reverse ++ [q])).reverse) =
      .ok (.field name) := by
    have hwhole : (b.reverse ++ q :: (a.reverse ++ [q])).reverse = q :: (name ++ [q]) := by
      simp [hab]
    rw [hwhole, (Text.tight_between hblank hblank name).trim_eq, ofBracket_quoted path hq]
  have htext : '[' :: q :: (name ++ [q, ']']) ++ rest =
      '[' :: q :: (a ++ q :: (b ++ ']' :: rest)) := by
    have hsplit : name ++ [q, ']'] = a ++ q :: b ++ [']'] := by
      rw [← hab, List.append_assoc]
      rfl
    simp [hsplit]
  rw [htext, Path.segmentsFrom_open, segmentsFrom, if_neg (fun h => hclose h.2), hopen,
    Path.segmentsFrom_quoted_append ha, segmentsFrom, if_neg (fun h => nomatch h.1), hend,
    Path.segmentsFrom_unquoted_append hb (.inl hinner), Path.segmentsFrom_close hbracket]

theorem readAs_undotted (hne : name ≠ []) (hdot : '.' ∉ name) (hopen : '[' ∉ name) :
    ReadAs (.field name) name := by
  intro path rest hrest
  have hname : nameSegment (name.reverse ++ []) = [.field name] := by
    rw [List.append_nil, nameSegment, List.reverse_reverse, List.isEmpty_reverse,
      if_neg (by rwa [List.isEmpty_iff])]
  rw [Path.segmentsFrom_name_append hdot hopen, Path.segmentsFrom_name_break hrest, hname]
  rfl

theorem readAs_dotted (hne : name ≠ []) (hdot : '.' ∉ name) (hopen : '[' ∉ name) :
    ReadAs (.field name) ('.' :: name) := by
  intro path rest hrest
  rw [List.cons_append, Path.segmentsFrom_dot]
  exact readAs_undotted hne hdot hopen path rest hrest

/-- The ways to write a segment: an index in decimal, a name between quotes that it
does not contain, or a name after a dot. -/
inductive Spells : Segment → Text → Prop
  | index {n : Nat} (hn : n < Nat.pow 2 64) : Spells (.index n) ('[' :: (Decimal.digits n ++ [']']))
  | quoted {name : Text} {q : Char} (hq : q = '\'' ∨ q = '"') (h : q ∉ name) :
    Spells (.field name) ('[' :: q :: (name ++ [q, ']']))
  | dotted {name : Text} (hne : name ≠ []) (hdot : '.' ∉ name) (hopen : '[' ∉ name)
    (htight : Tight name) : Spells (.field name) ('.' :: name)

variable {s : Segment} {t : Text}

theorem Spells.readAs (h : s.Spells t) : s.ReadAs t := by
  cases h with
  | index hn => exact readAs_index hn
  | quoted hq h => exact readAs_quoted hq (Path.encloses_of_not_mem h)
  | dotted hne hdot hopen => exact readAs_dotted hne hdot hopen

theorem Spells.head? (h : s.Spells t) : t.head? = some '.' ∨ t.head? = some '[' := by
  cases h with
  | index => exact .inr rfl
  | quoted => exact .inr rfl
  | dotted => exact .inl rfl

theorem Spells.tight (h : s.Spells t) : Tight t := by
  cases h with
  | index => exact Text.tight_between (by decide) (by decide) _
  | @quoted name q =>
    have hend : q :: (name ++ [q, ']']) = (q :: (name ++ [q])) ++ [']'] := by simp
    rw [hend]
    exact Text.tight_between (by decide) (by decide) _
  | dotted _ _ _ htight => exact htight.cons (by decide)

end Segment

/-! ## The spellings of a path -/

namespace Path

variable {segments : List Segment} {s : Segment} {t path a b : Text}

inductive SpellsAll : List Segment → Text → Prop
  | nil : SpellsAll [] []
  | cons {s : Segment} {segments : List Segment} {t rest : Text} (h : s.Spells t)
    (hrest : SpellsAll segments rest) : SpellsAll (s :: segments) (t ++ rest)

/-- The ways to write a path: after a root marker, without one, and without the dot
in front of a first name that is not itself a root marker. -/
inductive Spells : List Segment → Text → Prop
  | marked {segments : List Segment} {t : Text} {m : Char} (hm : m = '$' ∨ m = '@')
    (h : SpellsAll segments t) : Spells segments (m :: t)
  | unmarked {segments : List Segment} {t : Text} (h : SpellsAll segments t) : Spells segments t
  | undotted {segments : List Segment} {name rest : Text}
    (hname : (Segment.field name).Spells ('.' :: name)) (hdollar : name ≠ ['$'])
    (hat : name ≠ ['@']) (hrest : SpellsAll segments rest) :
    Spells (.field name :: segments) (name ++ rest)

theorem break_append (ht : t.head? = some '.' ∨ t.head? = some '[') (rest : Text) :
    Break (t ++ rest) := by
  right
  rcases ht with ht | ht
  · exact .inl (by rw [List.head?_append, ht, Option.some_or])
  · exact .inr (by rw [List.head?_append, ht, Option.some_or])

theorem SpellsAll.break (h : SpellsAll segments t) : Break t := by
  cases h with
  | nil => exact .inl rfl
  | cons hs hrest => exact break_append hs.head? _

theorem SpellsAll.tight (h : SpellsAll segments t) : Tight t := by
  induction h with
  | nil => exact Text.tight_nil
  | cons hs hrest ih => exact hs.tight.append ih

theorem SpellsAll.segmentsFrom (h : SpellsAll segments t) (path : Text) :
    segmentsFrom path (.name []) t = .ok segments := by
  induction h with
  | nil => rfl
  | cons hs hrest ih =>
    rw [hs.readAs path _ hrest.break, ih]
    rfl

theorem body_eq_self (h : ∀ c rest, t = c :: rest → c = '$' ∨ c = '@' → ¬ Break rest) : body t = t := by
  cases t with
  | nil => rfl
  | cons c rest =>
    refine if_neg ?_
    rintro ⟨hc, hrest⟩
    exact h c rest rfl hc hrest

theorem body_marked {m : Char} (hm : m = '$' ∨ m = '@') (h : Break t) : body (m :: t) = t :=
  if_pos ⟨hm, h⟩

theorem isBlank_of_marker {m : Char} (hm : m = '$' ∨ m = '@') : isBlank m = false := by
  rcases hm with rfl | rfl <;> decide

theorem Spells.tight (h : Spells segments t) : Tight t := by
  cases h with
  | marked hm h => exact h.tight.cons (isBlank_of_marker hm)
  | unmarked h => exact h.tight
  | undotted hname _ _ hrest =>
    cases hname with
    | dotted _ _ _ htight => exact htight.append hrest.tight

theorem Spells.segmentsFrom_body (h : Spells segments t) (path : Text) :
    segmentsFrom path (.name []) (body t) = .ok segments := by
  cases h with
  | marked hm h => rw [body_marked hm h.break, h.segmentsFrom]
  | unmarked h =>
    rw [body_eq_self, h.segmentsFrom]
    rintro c rest rfl hc
    have hstart : c = '.' ∨ c = '[' := by simpa [Break] using h.break
    rcases hc with rfl | rfl <;> rcases hstart with hc | hc <;> cases hc
  | @undotted segments name rest hname hdollar hat hrest =>
    cases hname with
    | dotted hne hdot hopen =>
      rw [body_eq_self, Segment.readAs_undotted hne hdot hopen path rest hrest.break,
        hrest.segmentsFrom]
      · rfl
      -- A name that begins like a root marker goes on with a character of its own.
      intro c u hu hc hbreak
      cases name with
      | nil => exact hne rfl
      | cons e name =>
        cases hu
        cases name with
        | nil => rcases hc with rfl | rfl <;> contradiction
        | cons d name =>
          have hd : d = '.' ∨ d = '[' := by simpa [Break] using hbreak
          rcases hd with rfl | rfl
          · exact hdot (List.mem_cons_of_mem _ List.mem_cons_self)
          · exact hopen (List.mem_cons_of_mem _ List.mem_cons_self)

/-- **All spellings of a path read alike.** However the segments are written, and
whatever white space stands around them, the path is read and has these segments. -/
theorem parse_spelled (h : Spells segments t) (ha : ∀ c ∈ a, isBlank c = true)
    (hb : ∀ c ∈ b, isBlank c = true) : parse (a ++ t ++ b) = .ok ⟨t, segments⟩ := by
  have htrim : Text.trim (a ++ t ++ b) = t := Text.trim_surrounded ha hb h.tight
  simp only [parse, htrim, h.segmentsFrom_body]
  rfl

theorem parse_mixedSpelling :
    parse ([' ', '\t'] ++ ['$', 'a', '[', '4', '2', ']', '[', '\'', '\'', ']',
        '[', '"', ']', '\'', '.', '"', ']', '.', '@'] ++ ['\n']) =
      .ok ⟨['$', 'a', '[', '4', '2', ']', '[', '\'', '\'', ']',
          '[', '"', ']', '\'', '.', '"', ']', '.', '@'],
        [.field ['$', 'a'], .index 42, .field [], .field [']', '\'', '.'], .field ['@']]⟩ := by
  have hfirst : (Segment.field ['$', 'a']).Spells ['.', '$', 'a'] :=
    .dotted (by decide) (by decide) (by decide) (Text.tight_of_all (by decide))
  have hrest : SpellsAll [.index 42, .field [], .field [']', '\'', '.'], .field ['@']]
      ['[', '4', '2', ']', '[', '\'', '\'', ']', '[', '"', ']', '\'', '.', '"', ']', '.', '@'] :=
    .cons (.index (by decide)) (.cons (.quoted (.inl rfl) (by decide))
      (.cons (.quoted (.inr rfl) (by decide))
        (.cons (.dotted (by decide) (by decide) (by decide) (Text.tight_of_all (by decide))) .nil)))
  exact parse_spelled (.undotted hfirst (by decide) (by decide) hrest) (List.all_eq_true.mp rfl)
    (List.all_eq_true.mp rfl)

end Path

end Fixtures
