import Fixtures.Proofs.Relaxed.Portable

/-!
# White space of JSON in the relaxed notation

When a text is prepared, its line ends become line feeds and nothing else of JSON
changes. Between brackets the layout passes over all white space; before and
after the root it passes over white space in which no tab may be indentation.
-/

namespace Fixtures.Relaxed

open Json (Blanks isLineEnd)

/-! ## Preparing white space -/

theorem unifyBreaks_cons {c : Char} (hr : c ≠ '\r') (hn : c ≠ '\u0085') (t : Text) :
    unifyBreaks (c :: t) = c :: unifyBreaks t := by
  rw [unifyBreaks.eq_3 _ _ (fun _ h => absurd h hr), if_neg (by simp [hr, hn])]

theorem unifyBreaks_append {x : Text} (hx : ∀ c ∈ x, c ≠ '\r' ∧ c ≠ '\u0085') (t : Text) :
    unifyBreaks (x ++ t) = x ++ unifyBreaks t := by
  induction x with
  | nil => rfl
  | cons c x ih =>
    obtain ⟨hc, hx⟩ := List.forall_mem_cons.mp hx
    rw [List.cons_append, unifyBreaks_cons hc.1 hc.2, ih hx, List.cons_append]

theorem unifyBreaks_of_isLineEnd {x : Text} (hx : ∀ c ∈ x, isLineEnd c = false) (t : Text) :
    unifyBreaks (x ++ t) = x ++ unifyBreaks t := by
  apply unifyBreaks_append
  intro c hc
  have hline := hx c hc
  simp only [isLineEnd, Bool.or_eq_false_iff, beq_eq_false_iff_ne] at hline
  exact ⟨hline.1.1.2, hline.1.2⟩

theorem unifyBreaks_append_of_head {t : Text} (ht : t.head? ≠ some '\n') (x : Text) :
    unifyBreaks (x ++ t) = unifyBreaks x ++ unifyBreaks t := by
  induction x using unifyBreaks.induct with
  | case1 => rfl
  | case2 rest ih => simp only [List.cons_append, unifyBreaks, ih]
  | case3 c rest h ih =>
    have h' : ∀ r, c = '\r' → rest ++ t = '\n' :: r → False := by
      intro r hc hr
      cases rest with
      | nil => exact ht (by rw [List.nil_append] at hr; rw [hr]; rfl)
      | cons d rest =>
        rw [List.cons_append, List.cons.injEq] at hr
        exact h rest hc (by rw [hr.1])
    rw [List.cons_append, unifyBreaks.eq_3 _ _ h', unifyBreaks.eq_3 _ _ h, ih, List.cons_append]

theorem mem_unifyBreaks {c : Char} (hc : c ≠ '\n') {x : Text} :
    c ∈ unifyBreaks x ↔ c ∈ x ∧ c ≠ '\r' ∧ c ≠ '\u0085' := by
  induction x using unifyBreaks.induct with
  | case1 => simp [unifyBreaks]
  | case2 rest ih =>
    rw [unifyBreaks, List.mem_cons, or_iff_right hc, ih, List.mem_cons, List.mem_cons,
      or_iff_right hc]
    constructor
    · exact fun h => ⟨.inr h.1, h.2⟩
    · exact fun h => ⟨h.1.resolve_left h.2.1, h.2⟩
  | case3 d rest hd ih =>
    rw [unifyBreaks.eq_3 _ _ hd, List.mem_cons, ih, List.mem_cons]
    split
    · rename_i hbreak
      have hne : c ≠ '\r' ∧ c ≠ '\u0085' → c ≠ d := by
        rintro ⟨hr, hn⟩ rfl
        exact hbreak.elim hr hn
      rw [or_iff_right hc]
      constructor
      · exact fun h => ⟨.inr h.1, h.2⟩
      · exact fun h => ⟨h.1.resolve_left (hne h.2), h.2⟩
    · rename_i hbreak
      rw [not_or] at hbreak
      constructor
      · rintro (rfl | h)
        · exact ⟨.inl rfl, hbreak⟩
        · exact ⟨.inr h.1, h.2⟩
      · exact fun h => h.1.imp_right fun hmem => ⟨hmem, h.2⟩

theorem tab_mem_unifyBreaks {x : Text} : '\t' ∈ unifyBreaks x ↔ '\t' ∈ x :=
  (mem_unifyBreaks (by decide)).trans (and_iff_left (by decide))

/-- White space of a prepared JSON text. -/
def Flat (g : Text) : Prop := ∀ c ∈ g, c = ' ' ∨ c = '\t' ∨ c = '\n'

theorem flat_nil : Flat [] := nofun

theorem flat_unifyBreaks (g : Blanks) : Flat (unifyBreaks g.text) := by
  intro c hc
  by_cases hfeed : c = '\n'
  · exact .inr (.inr hfeed)
  · obtain ⟨hmem, hr, -⟩ := (mem_unifyBreaks hfeed).mp hc
    have hspace := g.blank c hmem
    simp only [Json.Reader.isSpace, Bool.or_eq_true, beq_iff_eq] at hspace
    rcases hspace with ((rfl | rfl) | rfl) | rfl
    · exact .inl rfl
    · exact absurd rfl hfeed
    · exact .inr (.inl rfl)
    · exact absurd rfl hr

theorem blank_of_isSpace {c : Char} (hc : Json.Reader.isSpace c = true) (hline : isLineEnd c = false) :
    c = ' ' ∨ c = '\t' := by
  simp only [Json.Reader.isSpace, Bool.or_eq_true, beq_iff_eq] at hc
  rcases hc with ((rfl | rfl) | rfl) | rfl
  · exact .inl rfl
  · cases hline
  · exact .inr rfl
  · cases hline

theorem unifyBreaks_lineEnd {c : Char} (hc : Json.Reader.isSpace c = true) (hline : isLineEnd c = true)
    (rest : Text) : ∃ g, unifyBreaks (c :: rest) = '\n' :: g := by
  simp only [Json.Reader.isSpace, Bool.or_eq_true, beq_iff_eq] at hc
  rcases hc with ((rfl | rfl) | rfl) | rfl
  · cases hline
  · exact ⟨_, unifyBreaks_cons (by decide) (by decide) rest⟩
  · cases hline
  · by_cases h : ∃ r, rest = '\n' :: r
    · obtain ⟨r, rfl⟩ := h
      exact ⟨_, unifyBreaks.eq_2 r⟩
    · exact ⟨_, unifyBreaks.eq_3 _ _ fun r _ hr => h ⟨r, hr⟩⟩

theorem exists_unifyBreaks_lines (x : Blanks) :
    ∃ line, Flat line ∧ '\n' ∉ line ∧
      (unifyBreaks x.text = line ∧ x.text.dropWhile (!isLineEnd ·) = [] ∨
        ∃ g, Flat g ∧ unifyBreaks x.text = line ++ '\n' :: g ∧
          ('\t' ∈ x.text.dropWhile (!isLineEnd ·) ↔ '\t' ∈ g)) := by
  obtain ⟨x, hx⟩ := x
  have hend : ∀ c ∈ x.takeWhile (!isLineEnd ·), isLineEnd c = false := by
    intro c hc
    exact (Bool.not_eq_true' _).mp (List.all_eq_true.mp List.all_takeWhile c hc)
  have hsplit : unifyBreaks x =
      x.takeWhile (!isLineEnd ·) ++ unifyBreaks (x.dropWhile (!isLineEnd ·)) := by
    rw [← unifyBreaks_of_isLineEnd hend, List.takeWhile_append_dropWhile]
  refine ⟨x.takeWhile (!isLineEnd ·), fun c hc => ?_, fun h => ?_, ?_⟩
  · have hspace := hx c ((List.takeWhile_prefix _).subset hc)
    exact (blank_of_isSpace hspace (hend c hc)).imp_right .inl
  · cases hend '\n' h
  · have hhead := List.head?_dropWhile_not (!isLineEnd ·) x
    have hblank : ∀ c ∈ x.dropWhile (!isLineEnd ·), Json.Reader.isSpace c = true :=
      fun c hc => hx c ((List.dropWhile_suffix _).subset hc)
    cases hlines : x.dropWhile (!isLineEnd ·) with
    | nil =>
      rw [hlines] at hsplit
      exact .inl ⟨hsplit.trans (List.append_nil _), rfl⟩
    | cons c rest =>
      rw [hlines] at hsplit hblank hhead
      obtain ⟨g, hg⟩ := unifyBreaks_lineEnd (hblank c List.mem_cons_self)
        ((Bool.not_eq_false' _).mp hhead) rest
      refine .inr ⟨g, fun e he => ?_, by rw [hsplit, hg], ?_⟩
      · refine flat_unifyBreaks ⟨c :: rest, hblank⟩ e ?_
        rw [hg]
        exact List.mem_cons_of_mem _ he
      · rw [← tab_mem_unifyBreaks, hg]
        simp

/-! ## Passing over white space -/

def isSolid (c : Char) : Bool :=
  !(isBreak c || isBlank c || c == '#' || c == Layout.byteOrderMark)

theorem isMarker_of_ne {m c : Char} (h : c ≠ m) (cs : Text) : isMarker m (c :: cs) = false := by
  unfold isMarker
  split
  · rename_i heq
    cases heq
    rw [beq_eq_false_iff_ne.mpr h]
    rfl
  · rfl

namespace Layout

variable {g : Text}

theorem spaceFrom_solid {c : Char} (hc : isSolid c = true) (flow lineStart allowed : Bool)
    (cs : Text) : spaceFrom flow lineStart allowed false (c :: cs) = (c :: cs, allowed) := by
  simp only [isSolid, isBlank, Bool.not_eq_true', Bool.or_eq_false_iff, beq_eq_false_iff_ne] at hc
  obtain ⟨⟨⟨hbreak, hspace, htab⟩, hcomment⟩, hmark⟩ := hc
  rw [spaceFrom]
  simp only [hbreak, hspace, htab, hcomment, hmark, Bool.false_eq_true, decide_false,
    Bool.false_and, Bool.and_false, Bool.or_false, if_false]

/-- White space is passed over between brackets, where it has no tabs, and within a line that is
no indentation. -/
theorem spaceFrom_append (flow allowed lineStart : Bool) (hg : Flat g)
    (hpass : flow = true ∨ (allowed = true ∧ '\t' ∉ g) ∨ (allowed = false ∧ '\n' ∉ g)) :
    ∃ lineStart', ∀ t,
      spaceFrom flow lineStart allowed false (g ++ t) = spaceFrom flow lineStart' allowed false t := by
  induction g generalizing lineStart with
  | nil => exact ⟨lineStart, fun t => rfl⟩
  | cons c g ih =>
    obtain ⟨hc, hgrest⟩ := List.forall_mem_cons.mp hg
    have hrest := hpass.imp_right (Or.imp
      (fun h => And.intro h.1 (List.not_mem_of_not_mem_cons h.2))
      fun h => And.intro h.1 (List.not_mem_of_not_mem_cons h.2))
    rcases hc with rfl | rfl | rfl
    · exact ih false hgrest hrest
    · have htab : (flow || !allowed) = true := by
        rcases hpass with rfl | ⟨-, h⟩ | ⟨rfl, -⟩
        · rfl
        · exact absurd List.mem_cons_self h
        · exact Bool.or_true flow
      obtain ⟨lineStart', h⟩ := ih false hgrest hrest
      refine ⟨lineStart', fun t => ?_⟩
      rw [← h t, List.cons_append, spaceFrom, htab]
      rfl
    · have hallowed : (allowed || !flow) = allowed := by
        rcases hpass with rfl | ⟨rfl, -⟩ | ⟨-, h⟩
        · exact Bool.or_false allowed
        · rfl
        · exact absurd List.mem_cons_self h
      obtain ⟨lineStart', h⟩ := ih true hgrest hrest
      refine ⟨lineStart', fun t => ?_⟩
      rw [← h t, List.cons_append, spaceFrom, hallowed]
      exact if_pos rfl

theorem spaceFrom_tab (hg : Flat g) (htab : '\t' ∈ g) (lineStart : Bool) (t : Text) :
    ∃ x cs, g ++ t = x ++ '\t' :: cs ∧
      spaceFrom false lineStart true false (g ++ t) = ('\t' :: cs, true) := by
  obtain ⟨x, y, rfl, hx⟩ := List.eq_append_cons_of_mem htab
  have hflat : Flat x := fun c hc => hg c (List.mem_append_left _ hc)
  obtain ⟨lineStart', h⟩ := spaceFrom_append false true lineStart hflat (.inr (.inl ⟨rfl, hx⟩))
  have hsplit : x ++ '\t' :: y ++ t = x ++ '\t' :: (y ++ t) := by simp
  refine ⟨x, y ++ t, hsplit, ?_⟩
  rw [hsplit, h]
  cases lineStart' <;> rfl

theorem spaceFrom_after (x : Blanks) (lineStart : Bool) :
    ('\t' ∉ x.text.dropWhile (!isLineEnd ·) →
        ∃ allowed, spaceFrom false lineStart false false (unifyBreaks x.text) = ([], allowed)) ∧
      ('\t' ∈ x.text.dropWhile (!isLineEnd ·) →
        ∃ y cs, unifyBreaks x.text = y ++ '\t' :: cs ∧
          spaceFrom false lineStart false false (unifyBreaks x.text) = ('\t' :: cs, true)) := by
  obtain ⟨line, hflat, hfeed, hlines⟩ := exists_unifyBreaks_lines x
  obtain ⟨lineStart', hspace⟩ :=
    spaceFrom_append false false lineStart hflat (.inr (.inr ⟨rfl, hfeed⟩))
  rcases hlines with ⟨hx, hnone⟩ | ⟨g, hg, hx, htab⟩
  · rw [hx, hnone]
    refine ⟨fun _ => ⟨false, ?_⟩, nofun⟩
    rw [← List.append_nil line, hspace]
    rfl
  · -- behind the line feed a key may start
    have hnext : spaceFrom false lineStart false false (line ++ '\n' :: g) =
        spaceFrom false true true false g := hspace ('\n' :: g)
    rw [hx, hnext, htab]
    refine ⟨fun hno => ⟨true, ?_⟩, fun hmem => ?_⟩
    · obtain ⟨lineStart'', h⟩ := spaceFrom_append false true true hg (.inr (.inl ⟨rfl, hno⟩))
      rw [← List.append_nil g, h]
      rfl
    · obtain ⟨y, cs, hsplit, hstop⟩ := spaceFrom_tab hg hmem true []
      rw [List.append_nil] at hsplit hstop
      exact ⟨line ++ '\n' :: y, cs, by rw [hsplit]; simp, hstop⟩

theorem spaceFrom_comment {x : Text} (hx : ∀ c ∈ x, isBreak c = false) (lineStart : Bool)
    (t : Text) :
    spaceFrom false lineStart true true (x ++ '\n' :: t) = spaceFrom false true true false t := by
  induction x generalizing lineStart with
  | nil => rfl
  | cons c x ih =>
    obtain ⟨hc, hx⟩ := List.forall_mem_cons.mp hx
    rw [List.cons_append, spaceFrom, if_neg (by rw [hc]; nofun), Bool.true_or, if_pos rfl]
    exact ih hx false

end Layout

end Fixtures.Relaxed
