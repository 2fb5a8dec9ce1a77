import Fixtures.Proofs.Relaxed.Portable

/-!
# Portable strings between double quotes

Both notations read a portable string the same way. The relaxed one sets white
space aside until it sees what follows; `Ready` says that what it has set aside
will be kept as it is, whatever comes next, and each piece of the string leaves
the reader ready for the next one.
-/

namespace Fixtures.Relaxed

open Json (Code HexDigit PortableString bodyOf stringOf isRaw)

theorem isBreak_of_isSeparator {c : Char} (h : isSeparator c = true) : isBreak c = true := by
  simp only [isSeparator, Bool.or_eq_true, beq_iff_eq] at h
  rcases h with rfl | rfl
  · rfl
  · rfl

theorem Steady.tail {c : Char} {t : Text} (h : Steady (c :: t)) : Steady t := by
  intro a x b ht hx
  obtain ⟨ha, hb⟩ := h (c :: a) x b (by rw [ht, List.cons_append]) hx
  refine ⟨fun hlast => ha ?_, hb⟩
  cases a with
  | nil => cases hlast
  | cons d a => rwa [List.getLast?_cons_cons]

theorem Steady.append_right {a t : Text} (h : Steady (a ++ t)) : Steady t := by
  induction a with
  | nil => exact h
  | cons c a ih => exact ih h.tail

theorem isMarker_append_quote {m : Char} (hm : m ≠ '"') (x rest rest' : Text) :
    isMarker m (x ++ '"' :: rest) = isMarker m (x ++ '"' :: rest') := by
  have hquote : ('"' == m) = false := beq_eq_false_iff_ne.mpr (Ne.symm hm)
  match x with
  | [] => cases rest with
    | nil => cases rest' with
      | nil => rfl
      | cons b rest' => cases rest' <;> simp [isMarker, hquote]
    | cons a rest => cases rest <;> cases rest' with
      | nil => simp [isMarker, hquote]
      | cons b rest' => cases rest' <;> simp [isMarker, hquote]
  | [a] => cases rest <;> cases rest' <;> simp [isMarker, hquote]
  | [a, b] => simp [isMarker, hquote]
  | [a, b, c] => rfl
  | a :: b :: c :: d :: x => rfl

theorem isDocumentMarker_append_quote (x rest rest' : Text) :
    isDocumentMarker (x ++ '"' :: rest) = isDocumentMarker (x ++ '"' :: rest') := by
  rw [isDocumentMarker, isDocumentMarker, isMarker_append_quote (by decide) x rest rest',
    isMarker_append_quote (by decide) x rest rest']

namespace Quoted

variable {q : Quoted} {t : Text} {c : Char}

/-- Inside a string whose text goes on with `t`, nothing that is set aside will be lost. -/
structure Ready (q : Quoted) (t : Text) : Prop where
  inside : q.place = .inside
  /-- the line that ended is one that separators end, and no white space follows it -/
  broken : q.gap.broken = true →
    (∃ x, q.gap.first = some x ∧ x ≠ '\n') ∧ t.head? ≠ some ' '
  /-- spaces are not followed by the end of their line -/
  blanks : q.gap.broken = false → q.gap.blanks ≠ [] → ∀ c ∈ t.head?, isSeparator c = false
  lineStart : q.lineStart = true → isDocumentMarker t = false

theorem ready_none (x t : Text) : Ready ⟨x, .none, false, .inside⟩ t :=
  ⟨rfl, nofun, fun _ h => absurd rfl h, nofun⟩

def soFar (q : Quoted) : Text := (q.gap.folded ++ q.text).reverse

theorem read_space (hq : q.Ready (' ' :: t)) (hs : Steady (' ' :: t)) :
    ∃ q' : Quoted, q'.Ready t ∧ q'.soFar = q.soFar ++ [' '] ∧
      ∀ rest, read false q (' ' :: rest) = read false q' rest := by
  obtain ⟨text, gap, lineStart, place⟩ := q
  obtain ⟨blanks, broken, first, more⟩ := gap
  cases hq.inside
  have hbroken : broken = false := Bool.not_eq_true _ ▸ fun h => (hq.broken h).2 rfl
  subst hbroken
  refine ⟨⟨text, ⟨' ' :: blanks, false, first, more⟩, false, .inside⟩, ?_, ?_, fun rest => rfl⟩
  · refine ⟨rfl, nofun, fun _ _ c hc => ?_, nofun⟩
    obtain ⟨b, rfl⟩ := List.head?_eq_some_iff.mp hc
    cases hx : isSeparator c with
    | false => rfl
    | true => exact absurd rfl (hs [' '] c b rfl hx).1
  · simp [soFar, Gap.folded]

theorem read_separator (hc : isSeparator c = true) (hq : q.Ready (c :: t)) (hs : Steady (c :: t)) :
    ∃ q' : Quoted, q'.Ready t ∧ q'.soFar = q.soFar ++ [c] ∧
      ∀ rest, read false q (c :: rest) = read false q' rest := by
  obtain ⟨text, gap, lineStart, place⟩ := q
  cases hq.inside
  obtain ⟨-, hhead, hmarker⟩ := hs [] c t rfl hc
  have hnewline : c ≠ '\n' := by
    rintro rfl
    cases hc
  refine ⟨⟨text, gap.lineEnd c, true, .inside⟩, ⟨rfl, fun _ => ⟨?_, hhead⟩, ?_, fun _ => hmarker⟩,
    ?_, ?_⟩
  · cases hb : gap.broken with
    | true =>
      obtain ⟨x, hx, hne⟩ := (hq.broken hb).1
      exact ⟨x, by rw [Gap.lineEnd, if_pos hb]; exact hx, hne⟩
    | false => exact ⟨c, by rw [Gap.lineEnd, if_neg (by rw [hb]; nofun)], hnewline⟩
  · intro hb
    exfalso
    unfold Gap.lineEnd at hb
    split at hb
    · rename_i hgap
      exact Bool.noConfusion (hgap.symm.trans hb)
    · cases hb
  · obtain ⟨blanks, broken, first, more⟩ := gap
    cases broken with
    | true =>
      obtain ⟨x, hx, hne⟩ := (hq.broken rfl).1
      cases hx
      simp [soFar, Gap.lineEnd, Gap.folded]
    | false =>
      have hblanks : blanks = [] := Classical.byContradiction fun hne =>
        Bool.noConfusion ((hq.blanks rfl hne c rfl).symm.trans hc)
      subst hblanks
      simp [soFar, Gap.lineEnd, Gap.folded]
  · intro rest
    rw [read]
    simp only [isBreak_of_isSeparator hc, if_true]

theorem read_inside (rest : Text) (hq : q.Ready (c :: t)) (hbreak : isBreak c = false)
    (hblank : isBlank c = false)
    (hmarker : isDocumentMarker (c :: rest) = isDocumentMarker (c :: t)) (hc : c ≠ '"') :
    read false q (c :: rest) =
      if c = '\\' then read false (q.goTo .backslash) rest else read false (q.push c) rest := by
  obtain ⟨text, gap, lineStart, place⟩ := q
  cases hq.inside
  have hno : (lineStart && isDocumentMarker (c :: rest)) = false := by
    cases hl : lineStart with
    | false => rfl
    | true =>
      rw [hmarker]
      exact hq.lineStart hl
  rw [read]
  simp only [hbreak, hblank, hno, hc, Bool.false_eq_true, if_false]

theorem soFar_push (q : Quoted) (c : Char) : (q.push c).soFar = q.soFar ++ [c] := by
  simp [soFar, push, Gap.none, Gap.folded]

theorem ready_push (q : Quoted) (c : Char) (t : Text) : (q.push c).Ready t :=
  ready_none _ t

/-! ## Pieces -/

theorem escaped?_eq {letter c : Char} (h : Json.Reader.escaped? letter = some c) :
    isBreak letter = false ∧ escaped? letter = some c := by
  unfold Json.Reader.escaped? at h
  split at h
  all_goals first | (cases h; exact ⟨rfl, rfl⟩) | cases h

theorem read_escape {letter c : Char} (h : Json.Reader.escaped? letter = some c) (q : Quoted)
    (rest : Text) : read false (q.goTo .backslash) (letter :: rest) = read false (q.push c) rest := by
  obtain ⟨hbreak, hescaped⟩ := escaped?_eq h
  rw [read]
  simp only [goTo, hbreak, Bool.false_eq_true, if_false, hescaped]
  rfl

theorem read_hexDigit {left n : Nat} (hl : 1 < left) (q : Quoted) (d : HexDigit) (rest : Text) :
    read false (q.goTo (.hex left n)) (d.char :: rest) =
      read false (q.goTo (.hex (left - 1) (16 * n + d.value))) rest := by
  rw [read]
  simp only [goTo, d.reads, if_neg (Nat.not_le_of_lt hl)]
  rfl

theorem read_code (n : Code) (hl : Json.Reader.isLeading n.value = false)
    (ht : Json.Reader.isTrailing n.value = false) (q : Quoted) (rest : Text) :
    read false (q.goTo .backslash) ('u' :: (n.text ++ rest)) =
      read false (q.push (Char.ofNat n.value)) rest := by
  have hstart : read false (q.goTo .backslash) ('u' :: (n.text ++ rest)) =
      read false (q.goTo (.hex 4 0)) (n.text ++ rest) := rfl
  have hchar : char? n.value = some (Char.ofNat n.value) := by
    have hlt : n.value < 0x10000 := n.value_lt
    simp only [Json.Reader.isLeading, Json.Reader.isTrailing, Bool.and_eq_false_iff,
      decide_eq_false_iff_not] at hl ht
    exact if_neg (by omega)
  rw [hstart, Code.text]
  simp only [List.cons_append, List.nil_append]
  rw [read_hexDigit (by decide), read_hexDigit (by decide), read_hexDigit (by decide), read]
  simp only [goTo, n.fourth.reads, Nat.mul_zero, Nat.zero_add]
  have hvalue : 16 * (16 * (16 * n.first.value + n.second.value) + n.third.value) + n.fourth.value =
      n.value := rfl
  simp only [hvalue, hchar]
  rfl

theorem isBreak_of_isRaw (h : isRaw c = true) (hs : isSeparator c = false) : isBreak c = false := by
  simp only [isRaw, Bool.and_eq_true, decide_eq_true_eq] at h
  have hnewline : (c == '\n') = false := by
    rw [beq_eq_false_iff_ne]
    rintro rfl
    exact absurd h.2 (by decide)
  rw [isBreak, Bool.or_assoc, hnewline]
  exact hs

theorem isBlank_of_isRaw (h : isRaw c = true) (hs : c ≠ ' ') : isBlank c = false := by
  simp only [isRaw, Bool.and_eq_true, decide_eq_true_eq] at h
  rw [isBlank, Bool.or_eq_false_iff, beq_eq_false_iff_ne, beq_eq_false_iff_ne]
  refine ⟨hs, ?_⟩
  rintro rfl
  exact absurd h.2 (by decide)

theorem read_piece {p : Json.Piece} {x : Text} (hp : p.isPair = false)
    (hq : q.Ready (p.text ++ (x ++ ['"']))) (hs : Steady (p.text ++ (x ++ ['"']))) :
    ∃ q' : Quoted, q'.Ready (x ++ ['"']) ∧ q'.soFar = q.soFar ++ [p.value] ∧
      ∀ rest, read false q (p.text ++ (x ++ '"' :: rest)) = read false q' (x ++ '"' :: rest) := by
  cases p with
  | char c h =>
    cases hsep : isSeparator c with
    | true =>
      obtain ⟨q', hready, htext, hread⟩ := read_separator hsep hq hs
      exact ⟨q', hready, htext, fun rest => hread _⟩
    | false =>
      by_cases hspace : c = ' '
      · subst hspace
        obtain ⟨q', hready, htext, hread⟩ := read_space hq hs
        exact ⟨q', hready, htext, fun rest => hread _⟩
      · refine ⟨q.push c, ready_push q c _, soFar_push q c, fun rest => ?_⟩
        have hraw := h
        simp only [isRaw, Bool.and_eq_true, bne_iff_ne] at hraw
        have hread := read_inside (x ++ '"' :: rest) hq (isBreak_of_isRaw h hsep)
          (isBlank_of_isRaw h hspace) (isDocumentMarker_append_quote (c :: x) rest []) hraw.1.1
        rw [if_neg hraw.1.2] at hread
        exact hread
  | escape letter c h =>
    refine ⟨q.push c, ready_push q c _, soFar_push q c, fun rest => ?_⟩
    have hread := read_inside (letter :: (x ++ '"' :: rest)) hq rfl rfl
      (isDocumentMarker_append_quote ('\\' :: letter :: x) rest []) (by decide)
    rw [if_pos rfl, read_escape h] at hread
    exact hread
  | code n hl ht =>
    refine ⟨q.push _, ready_push q _ _, soFar_push q _, fun rest => ?_⟩
    have hmarker : isDocumentMarker ('\\' :: 'u' :: (n.text ++ (x ++ '"' :: rest))) =
        isDocumentMarker ('\\' :: 'u' :: (n.text ++ (x ++ ['"']))) := by
      have happend := isDocumentMarker_append_quote ('\\' :: 'u' :: (n.text ++ x)) rest []
      simpa only [List.cons_append, List.append_assoc] using happend
    have hread := read_inside ('u' :: (n.text ++ (x ++ '"' :: rest))) hq rfl rfl hmarker
      (by decide)
    rw [if_pos rfl, read_code n hl ht] at hread
    exact hread
  | pair lead trail hl ht => cases hp

theorem read_quote (hq : q.Ready ['"']) (rest : Text) :
    read false q ('"' :: rest) = some (q.soFar, rest) := by
  obtain ⟨text, gap, lineStart, place⟩ := q
  cases hq.inside
  have hno : (lineStart && isDocumentMarker ('"' :: rest)) = false := by
    cases hl : lineStart with
    | false => rfl
    | true => exact (isDocumentMarker_append_quote [] rest []).trans (hq.lineStart hl)
  have hplain : isBreak '"' = false ∧ isBlank '"' = false := ⟨rfl, rfl⟩
  rw [read]
  simp only [hplain, hno, Bool.false_eq_true, if_false, if_true]
  rfl

theorem read_body {ps : List Json.Piece} (hps : ∀ p ∈ ps, p.isPair = false)
    (hq : q.Ready (bodyOf ps ++ ['"'])) (hs : Steady (bodyOf ps ++ ['"'])) (rest : Text) :
    read false q (bodyOf ps ++ '"' :: rest) = some (q.soFar ++ stringOf ps, rest) := by
  induction ps generalizing q with
  | nil =>
    rw [Json.bodyOf_nil, List.nil_append, read_quote hq]
    simp [stringOf]
  | cons p ps ih =>
    obtain ⟨hp, hps⟩ := List.forall_mem_cons.mp hps
    rw [Json.bodyOf_cons, List.append_assoc] at hq hs ⊢
    obtain ⟨q', hready, htext, hread⟩ := read_piece hp hq hs
    rw [hread, ih hps hready hs.append_right, htext, Json.stringOf_cons, List.append_assoc]
    rfl

end Quoted

theorem quoted?_body {ps : List Json.Piece} (h : PortableString ps) (rest : Text) :
    quoted? false (bodyOf ps ++ '"' :: rest) = some (stringOf ps, rest) :=
  Quoted.read_body h.noPair (Quoted.ready_none [] _) h.steady rest

end Fixtures.Relaxed
