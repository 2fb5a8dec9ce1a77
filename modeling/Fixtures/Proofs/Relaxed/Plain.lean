import Fixtures.Proofs.Json.Numeral
import Fixtures.Proofs.Relaxed.Space

/-!
# Words and numerals as plain scalars

Between brackets a JSON word or numeral is a plain scalar that ends at the white
space, comma or closing bracket after it. The words stand for the same values in
both notations, and so do the integers. A numeral is an integer where the machine
that reads it has seen nothing but digits, all of which fit.
-/

namespace Fixtures

namespace Json.Numeral

variable {n n' : Numeral} {c : Char} {t : Text} {k : Int}

/-! ## Integers -/

def isPastInteger : Numeral → Bool
  | sign => false
  | zero _ => false
  | whole _ _ => false
  | _ => true

theorem isPastInteger_of_step (h : n.step c = .ok (some n')) (hn : n.isPastInteger = true) :
    n'.isPastInteger = true := by
  cases n with
  | sign => cases hn
  | zero neg => cases hn
  | whole neg s => cases hn
  | _ =>
    simp only [step] at h
    repeat' split at h
    all_goals cases h
    all_goals rfl

theorem isPastInteger_of_after? (h : n.after? t = some n') (hn : n.isPastInteger = true) :
    n'.isPastInteger = true := by
  induction t generalizing n with
  | nil =>
    cases h
    exact hn
  | cons c cs ih =>
    obtain ⟨m, hm, hafter⟩ := after?_cons.mp h
    exact ih hafter (isPastInteger_of_step hm hn)

theorem value_ne_int (hn : n.isPastInteger = true) : n.value ≠ .ok (.int k) := by
  intro h
  cases n with
  | sign => cases hn
  | zero neg => cases hn
  | whole neg s => cases hn
  | point => cases h
  | mark => cases h
  | power => cases h
  | vanishing neg => cases h
  | _ =>
    obtain ⟨y, hy⟩ := real?_eq h
    cases hy

theorem not_int_of_after? (h : n.after? t = some n') (hk : n'.value = .ok (.int k)) :
    n.isPastInteger = false := by
  cases hn : n.isPastInteger with
  | false => rfl
  | true => exact absurd hk (value_ne_int (isPastInteger_of_after? h hn))

theorem fits_of_after? (h : n.after? t = some n') (hn : n.Fits) : n'.Fits := by
  induction t generalizing n with
  | nil =>
    cases h
    exact hn
  | cons c cs ih =>
    obtain ⟨m, hm, hafter⟩ := after?_cons.mp h
    exact ih hafter (fits_step hm)

theorem hexValue?_of_digit? {d : Nat} (h : digit? c = some d) :
    Reader.hexValue? c = some d ∧ d < 10 := by
  refine ⟨?_, Nat.lt_succ_of_le (digit?_le h)⟩
  have hc := isDigit_of_digit? h
  rw [digit?, if_pos hc] at h
  rw [Reader.hexValue?, if_pos hc, h]

theorem digits?_cons {s d : Nat} (h : digit? c = some d) :
    Relaxed.Scalar.digits? 10 s (c :: t) = Relaxed.Scalar.digits? 10 (10 * s + d) t := by
  obtain ⟨hhex, hlt⟩ := hexValue?_of_digit? h
  simp only [Relaxed.Scalar.digits?, hhex, if_pos hlt]

theorem after?_zero {neg : Bool} (h : (zero neg).after? t = some n')
    (hk : n'.value = .ok (.int k)) : t = [] ∧ n' = zero neg := by
  cases t with
  | nil =>
    cases h
    exact ⟨rfl, rfl⟩
  | cons c cs =>
    obtain ⟨m, hm, hafter⟩ := after?_cons.mp h
    have hint := not_int_of_after? hafter hk
    simp only [step] at hm
    repeat' split at hm
    all_goals cases hm
    all_goals cases hint

theorem after?_whole {neg : Bool} {s : Nat} (h : (whole neg s).after? t = some n')
    (hk : n'.value = .ok (.int k)) :
    ∃ m, n' = whole neg m ∧ Relaxed.Scalar.digits? 10 s t = some m := by
  induction t generalizing s with
  | nil =>
    cases h
    exact ⟨s, rfl, rfl⟩
  | cons c cs ih =>
    obtain ⟨m, hm, hafter⟩ := after?_cons.mp h
    have hint := not_int_of_after? hafter hk
    simp only [step] at hm
    split at hm
    · rename_i d hd
      split at hm
      · cases hm
        obtain ⟨m, rfl, hm⟩ := ih hafter
        exact ⟨m, rfl, (digits?_cons hd).trans hm⟩
      · cases hm
        cases hint
    · split at hm
      · cases hm
        cases hint
      split at hm
      · cases hm
        cases hint
      · cases hm

theorem eq_of_integer {neg : Bool} {s : Nat} (h : integer neg s = .ok (.int k)) :
    k = if neg then -Int.ofNat s else Int.ofNat s := by
  unfold integer at h
  split at h
  · rename_i hneg
    cases h
    have hfalse : neg = false := by simpa using hneg
    rw [hfalse]
    rfl
  · rename_i hneg
    have htrue : neg = true := by simpa using hneg
    rw [htrue]
    split at h
    · obtain ⟨y, hy⟩ := real?_eq h
      cases hy
    · cases h
      rfl

end Json.Numeral

namespace Relaxed

open Json (Numeral)

namespace Scalar

variable {c : Char} {cs t : Text}

theorem not_word (h : Numeral.Starts c cs) :
    isNull (c :: cs) = false ∧ bool? (c :: cs) = none := by
  have hne {d : Char} (hd : d.isDigit = false) (hminus : d ≠ '-') : d ≠ c := (h.ne hd hminus).symm
  have hn : 'n' ≠ c := hne rfl (by decide)
  have hN : 'N' ≠ c := hne rfl (by decide)
  have htilde : '~' ≠ c := hne rfl (by decide)
  have ht : 't' ≠ c := hne rfl (by decide)
  have hT : 'T' ≠ c := hne rfl (by decide)
  have hf : 'f' ≠ c := hne rfl (by decide)
  have hF : 'F' ≠ c := hne rfl (by decide)
  constructor
  · simp [isNull, hn, hN, htilde]
  · simp [bool?, ht, hT, hf, hF]

theorem magnitude?_eq (hc : c.isDigit = true) (h0 : c ≠ '0') :
    magnitude? (c :: cs) = digits? 10 0 (c :: cs) := by
  have hleading : hasLeadingZero (c :: cs) = false := by
    unfold hasLeadingZero
    split
    · rename_i heq
      cases heq
      cases hc
    · rename_i heq
      cases heq
      cases hc
    · simp only
      split
      · rename_i heq
        cases heq
        exact absurd rfl h0
      · rfl
  unfold magnitude?
  split
  · rename_i heq
    cases heq
    exact absurd rfl h0
  · rename_i heq
    cases heq
    exact absurd rfl h0
  · rename_i heq
    cases heq
    exact absurd rfl h0
  · rw [hleading]
    rfl

theorem integer?_digits {neg : Bool} (hc : c.isDigit = true) :
    integer? (if neg then '-' :: c :: cs else c :: cs) =
      (magnitude? (c :: cs)).map fun m => if neg then -Int.ofNat m else Int.ofNat m := by
  cases neg with
  | true => rfl
  | false =>
    have hminus : c ≠ '-' := Numeral.ne_of_isDigit hc rfl
    have hplus : c ≠ '+' := Numeral.ne_of_isDigit hc rfl
    have hplain : integer? (c :: cs) = (magnitude? (c :: cs)).map Int.ofNat := by
      simp [integer?, hminus, hplus]
    exact hplain

theorem integer?_of_read? {k : Int} (h : Numeral.read? t = some (.int k)) :
    integer? t = some k := by
  obtain ⟨neg, c, cs, d, n, rfl, hd, hafter, hk⟩ := Numeral.exists_digits_of_read? h
  have hc := Numeral.isDigit_of_digit? hd
  obtain ⟨m, hmag, hvalue⟩ : ∃ m, magnitude? (c :: cs) = some m ∧
      Numeral.integer neg m = .ok (.int k) := by
    split at hafter
    · rename_i h0
      subst h0
      obtain ⟨rfl, rfl⟩ := Numeral.after?_zero hafter hk
      exact ⟨0, rfl, hk⟩
    · rename_i h0
      obtain ⟨m, rfl, hm⟩ := Numeral.after?_whole hafter hk
      refine ⟨m, ?_, hk⟩
      rw [magnitude?_eq hc h0, Numeral.digits?_cons hd, Nat.mul_zero, Nat.zero_add, hm]
  rw [integer?_digits hc, hmag, Option.map_some, ← Numeral.eq_of_integer hvalue]

theorem inRange_of_read? {k : Int} (h : Numeral.read? t = some (.int k)) :
    Number.inRange k = true := by
  obtain ⟨c, cs, n, n', rfl, hn, hafter, hk⟩ := Numeral.exists_of_read? h
  exact Numeral.wellFormed_value (Numeral.fits_of_after? hafter (Numeral.fits_start? hn)) hk

/-- **Integers are the same in both notations.** -/
theorem ofPlain?_of_read? {k : Int} (h : Numeral.read? t = some (.int k)) :
    ofPlain? t = some (.int k) := by
  obtain ⟨c, cs, rfl, hstarts, -⟩ := Numeral.starts_of_read? h
  obtain ⟨hnull, hbool⟩ := not_word hstarts
  simp only [ofPlain?, List.isEmpty_cons, hnull, hbool, integer?_of_read? h, inRange_of_read? h,
    Bool.or_false, Bool.false_eq_true, if_false, if_true]

end Scalar

/-! ## Reading words -/

def isStop (c : Char) : Bool := c == ',' || c == ']' || c == '}'

def isWord (c : Char) : Bool :=
  !(isBreak c || isBlank c || c == ':' || Plain.isFlowIndicator c)

theorem isWord_of_isNumeric {c : Char} (h : Numeral.isNumeric c = true) : isWord c = true := by
  cases hw : isWord c with
  | true => rfl
  | false =>
    exfalso
    simp only [isWord, isBreak, isBlank, Plain.isFlowIndicator, Bool.not_eq_false',
      Bool.or_eq_true, beq_iff_eq] at hw
    rcases hw with (((((rfl | rfl) | rfl) | rfl | rfl) | rfl) | (((rfl | rfl) | rfl) | rfl) | rfl)
    all_goals cases h

namespace Plain

theorem read_word {x : Text} (hx : ∀ c ∈ x, isWord c = true) (text : Text) (column : Nat)
    (rest : Text) :
    read true 0 ⟨text, .none, column⟩ (x ++ rest) =
      read true 0 ⟨x.reverse ++ text, .none, column + x.length⟩ rest := by
  induction x generalizing text column with
  | nil => rfl
  | cons c x ih =>
    obtain ⟨hc, hx⟩ := List.forall_mem_cons.mp hx
    simp only [isWord, Bool.not_eq_true', Bool.or_eq_false_iff] at hc
    obtain ⟨⟨⟨hbreak, hblank⟩, hcolon⟩, hflow⟩ := hc
    have hstays : leaves ⟨text, .none, column⟩ true 0 c (x ++ rest) = false := rfl
    have hjoined : isMisplacedColon true c (x ++ rest) = false := by
      simp only [isMisplacedColon, hcolon, Bool.and_false, Bool.false_and]
    have hends : ends true c (x ++ rest) = false := by
      simp only [ends, hcolon, hflow, Bool.and_false, Bool.false_and, Bool.or_false]
    rw [List.cons_append, read]
    simp only [hbreak, hblank, hstays, hjoined, hends, Bool.false_eq_true, if_false]
    rw [List.reverse_cons, List.append_assoc, List.length_cons, Nat.add_comm x.length 1,
      ← Nat.add_assoc]
    exact ih hx (c :: text) (column + 1)

theorem read_flat {g : Text} (hg : Flat g) {c : Char} (hc : isStop c = true) (p : Plain)
    (cs : Text) :
    ∃ broken, read true 0 p (g ++ c :: cs) = some ⟨p.text.reverse, c :: cs, broken⟩ := by
  induction g generalizing p with
  | nil =>
    refine ⟨p.gap.broken, ?_⟩
    simp only [isStop, Bool.or_eq_true, beq_iff_eq] at hc
    have hread : isBreak c = false ∧ isBlank c = false ∧ c ≠ '#' ∧
        isDocumentMarker (c :: cs) = false ∧ isMisplacedColon true c cs = false ∧
        ends true c cs = true := by
      rcases hc with (rfl | rfl) | rfl
      all_goals
        refine ⟨rfl, rfl, by decide, ?_, rfl, rfl⟩
        rw [isDocumentMarker, isMarker_of_ne (by decide), isMarker_of_ne (by decide)]
        rfl
    obtain ⟨hbreak, hblank, hcomment, hmarker, hjoined, hends⟩ := hread
    have hstays : p.leaves true 0 c cs = false := by
      simp only [leaves, hmarker, beq_eq_false_iff_ne.mpr hcomment, Bool.not_true, Bool.and_false,
        Bool.false_and, Bool.or_false]
    rw [List.nil_append, read]
    simp only [hbreak, hblank, hstays, hjoined, hends, Bool.false_eq_true, if_false, if_true]
    rfl
  | cons d g ih =>
    obtain ⟨hd, hrest⟩ := List.forall_mem_cons.mp hg
    have hcolumn : decide (Int.ofNat p.column < 0) = false := decide_eq_false (Int.not_ofNat_neg _)
    rcases hd with rfl | rfl | rfl
    · obtain ⟨broken, h⟩ := ih hrest ⟨p.text, p.gap.blank ' ', p.column + 1⟩
      refine ⟨broken, ?_⟩
      rw [← h, List.cons_append, read]
      simp only [hcolumn, Bool.and_false, Bool.false_and]
      rfl
    · obtain ⟨broken, h⟩ := ih hrest ⟨p.text, p.gap.blank '\t', p.column + 1⟩
      refine ⟨broken, ?_⟩
      rw [← h, List.cons_append, read]
      simp only [hcolumn, Bool.and_false, Bool.false_and]
      rfl
    · obtain ⟨broken, h⟩ := ih hrest ⟨p.text, p.gap.lineEnd '\n', 0⟩
      exact ⟨broken, h⟩

end Plain

theorem plain?_word {x g : Text} (hx : ∀ c ∈ x, isWord c = true) (hg : Flat g) {c : Char}
    (hc : isStop c = true) (column : Nat) (cs : Text) :
    ∃ broken, plain? true 0 column (x ++ (g ++ c :: cs)) = some ⟨x, c :: cs, broken⟩ := by
  obtain ⟨broken, h⟩ := Plain.read_flat hg hc ⟨x.reverse, .none, column + x.length⟩ cs
  refine ⟨broken, ?_⟩
  rw [plain?, Plain.read_word hx, List.append_nil, h, List.reverse_reverse]

end Relaxed

end Fixtures
