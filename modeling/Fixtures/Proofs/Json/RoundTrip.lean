import Fixtures.Json.Printer
import Fixtures.Proofs.Decimal.Digits
import Fixtures.Proofs.Json.WellFormed

/-!
# Reading what was written

The reader takes the text of a value back to that value, as long as all numbers
are integers and the value is not nested too deep. `Reads` says of a piece of
text that the machine gets through it, from one state to another; the pieces are
joined along the structure of the value. Only a numeral does not know where it
ends: it is complete when something follows that cannot belong to it.
-/

namespace Fixtures.Json

mutual

def isIntegral : Json → Bool
  | .num (.real _) => false
  | .arr items => areIntegral items
  | .obj fields => areIntegralFields fields
  | _ => true

def areIntegral : List Json → Bool
  | [] => true
  | v :: rest => isIntegral v && areIntegral rest

def areIntegralFields : List (Text × Json) → Bool
  | [] => true
  | (_, v) :: rest => isIntegral v && areIntegralFields rest

end

namespace Reader

variable {p : Policy} {r r' r'' : Reader} {x y : Text} {c : Char}

/-- Reading `x` takes the machine from `r` to `r'`. -/
def Reads (p : Policy) (r : Reader) (x : Text) (r' : Reader) : Prop :=
  ∀ t w, run p r' t = .ok w → run p r (x ++ t) = .ok w

theorem reads_nil (p : Policy) (r : Reader) : Reads p r [] r := fun _ _ h => h

theorem Reads.cons (hs : r.step p c = .ok r') (h : Reads p r' x r'') : Reads p r (c :: x) r'' := by
  intro t w hw
  rw [List.cons_append, run, hs]
  simp only [h t w hw]

theorem Reads.append (h : Reads p r x r') (h' : Reads p r' y r'') : Reads p r (x ++ y) r'' := by
  intro t w hw
  rw [List.append_assoc]
  exact h _ w (h' t w hw)

theorem reads_step (hs : r.step p c = .ok r') : Reads p r [c] r' := .cons hs (reads_nil p r')

section
variable {frames : List Frame} {isKey : Bool} {seen seen' : Text} {e e' : Escape}

/-! ## Strings -/

theorem step_inString {passing : Option Nat} (hq : e = .none → c ≠ '"')
    (h : inString passing.isSome seen e c = .ok (seen', e')) :
    step p ⟨frames, .string isKey seen e, passing⟩ c =
      .ok ⟨frames, .string isKey seen' e', passing⟩ := by
  unfold step
  split
  all_goals rename_i hst
  all_goals cases hst
  split
  · exact absurd rfl (hq rfl)
  · simp only [h, goTo]

theorem hexValue?_hexDigit : ∀ d < 16, hexValue? (hexDigit d) = some d := by decide

theorem utf8Size_hexDigit : ∀ d < 16, (hexDigit d).utf8Size = 1 := by decide

theorem inString_hexDigit {d taken n : Nat} {lead : Option Nat} (hd : d < 16) (ht : taken < 3) :
    inString false seen (.hex taken n true lead) (hexDigit d) =
      .ok (seen, .hex (taken + 1) (16 * n + d) true lead) := by
  have hlt : taken + 1 < 4 := by omega
  simp only [inString, hexValue?_hexDigit d hd, utf8Size_hexDigit d hd, if_pos hlt]
  rfl

theorem inString_lastDigit {n d : Nat} (hd : d < 16) (hc : c.toNat < 0x20)
    (hn : 16 * n + d = c.toNat) :
    inString false seen (.hex 3 n true none) (hexDigit d) = .ok (c :: seen, .none) := by
  have htrailing : isTrailing c.toNat = false := by
    simp only [isTrailing, Bool.and_eq_false_iff, decide_eq_false_iff_not]
    omega
  have hleading : isLeading c.toNat = false := by
    simp only [isLeading, Bool.and_eq_false_iff, decide_eq_false_iff_not]
    omega
  simp only [inString, hexValue?_hexDigit d hd, utf8Size_hexDigit d hd, Option.isSome_some,
    Bool.and_true, Option.getD_some, hn, endHex, htrailing, hleading, Char.ofNat_toNat]
  rfl

theorem reads_escape (p : Policy) (frames : List Frame) (isKey : Bool) (seen : Text) (c : Char) :
    Reads p ⟨frames, .string isKey seen .none, none⟩ (escape c)
      ⟨frames, .string isKey (c :: seen) .none, none⟩ := by
  have hbackslash {x : Text} {r : Reader}
      (h : Reads p ⟨frames, .string isKey seen .backslash, none⟩ x r) :
      Reads p ⟨frames, .string isKey seen .none, none⟩ ('\\' :: x) r :=
    .cons (step_inString (fun _ => by decide) rfl) h
  have hescaped {d : Char} (hd : escaped? d = some c) (hu : d ≠ 'u') :
      Reads p ⟨frames, .string isKey seen .backslash, none⟩ [d]
        ⟨frames, .string isKey (c :: seen) .none, none⟩ := by
    refine reads_step (step_inString (by nofun) ?_)
    simp only [inString, if_neg hu, hd]
  unfold escape
  split
  · exact hbackslash (hescaped rfl (by decide))
  · exact hbackslash (hescaped rfl (by decide))
  · exact hbackslash (hescaped rfl (by decide))
  · exact hbackslash (hescaped rfl (by decide))
  · exact hbackslash (hescaped rfl (by decide))
  · exact hbackslash (hescaped rfl (by decide))
  · exact hbackslash (hescaped rfl (by decide))
  rename_i hquote hslash _ _ _ _ _
  split
  · rename_i hc
    have hhigh : c.toNat / 16 < 16 := by omega
    have hlow : c.toNat % 16 < 16 := by omega
    have h0 : hexDigit 0 = '0' := rfl
    apply hbackslash
    refine .cons (step_inString (by nofun) rfl) ?_
    rw [← h0]
    refine .cons (step_inString (by nofun) (inString_hexDigit (by decide) (by decide))) ?_
    refine .cons (step_inString (by nofun) (inString_hexDigit (by decide) (by decide))) ?_
    refine .cons (step_inString (by nofun) (inString_hexDigit hhigh (by decide))) ?_
    exact reads_step (step_inString (by nofun) (inString_lastDigit hlow hc (by omega)))
  · rename_i hc
    refine reads_step (step_inString (fun _ => hquote) ?_)
    simp only [inString, if_neg hslash, if_neg hc]

theorem reads_escapes (p : Policy) (frames : List Frame) (isKey : Bool) (seen s : Text) :
    Reads p ⟨frames, .string isKey seen .none, none⟩ (s.flatMap escape)
      ⟨frames, .string isKey (s.reverse ++ seen) .none, none⟩ := by
  induction s generalizing seen with
  | nil => exact reads_nil _ _
  | cons c s ih =>
    rw [List.flatMap_cons, List.reverse_cons, List.append_assoc]
    exact (reads_escape p frames isKey seen c).append (ih (c :: seen))

theorem reads_quoted (p : Policy) (frames : List Frame) (isKey : Bool) (s : Text) :
    Reads p ⟨frames, .string isKey [] .none, none⟩ (s.flatMap escape ++ ['"'])
      (endString p ⟨frames, .string isKey s.reverse .none, none⟩ isKey s.reverse) := by
  have hs := reads_escapes p frames isKey [] s
  rw [List.append_nil] at hs
  exact hs.append (reads_step rfl)

/-! ## Numerals -/

/-- What may follow a value inside the given containers: a comma or a closing
bracket, and at the end of the text nothing else than the end. -/
def Ends (frames : List Frame) : Text → Prop
  | [] => frames = []
  | c :: _ => c = ',' ∨ c = ']' ∨ c = '}'

theorem step_deliver (p : Policy) (r : Reader) (v : Json) (c : Char) :
    (deliver p r v).step p c = (deliver p r v).follow p c := by
  obtain ⟨frames, state, passing⟩ := r
  cases frames with
  | nil => rfl
  | cons f rest =>
    cases f with
    | array items => rfl
    | object fields key => rfl

theorem run_numeral {n : Numeral} {x : Number} {t : Text} {w : Json} (hn : n.value = .ok x)
    (hstep : ∀ c, c = ',' ∨ c = ']' ∨ c = '}' → n.step c = .ok none) (ht : Ends frames t)
    (h : run p (deliver p ⟨frames, .value, none⟩ (.num x)) t = .ok w) :
    run p ⟨frames, .numeral n, none⟩ t = .ok w := by
  cases t with
  | nil =>
    cases ht
    rw [← h]
    simp only [run, finish, hn]
    rfl
  | cons c t =>
    have hc : step p ⟨frames, .numeral n, none⟩ c =
        (deliver p ⟨frames, .value, none⟩ (.num x)).step p c := by
      rw [step_deliver]
      simp only [step, inNumeral, hstep c ht, hn]
      rfl
    rw [run] at h ⊢
    rw [hc]
    exact h

theorem digit?_digitChar {d : Nat} (h : d < 10) : Numeral.digit? (Nat.digitChar d) = some d := by
  rw [Numeral.digit?, Decimal.isDigit_digitChar h, if_pos rfl, Decimal.digitValue_digitChar h]

theorem digitChar_ne_zero : ∀ d < 10, 0 < d → Nat.digitChar d ≠ '0' := by decide

theorem isSpace_digitChar : ∀ d < 10, isSpace (Nat.digitChar d) = false := by decide

theorem digitChar_ne_bracket : ∀ d < 10, Nat.digitChar d ≠ ']' := by decide

theorem step_whole_digit {neg : Bool} {m d : Nat} (hd : d < 10)
    (h : 10 * m + d ≤ Numeral.greatestSignificand) :
    step p ⟨frames, .numeral (.whole neg m), none⟩ (Nat.digitChar d) =
      .ok ⟨frames, .numeral (.whole neg (10 * m + d)), none⟩ := by
  simp only [step, inNumeral, Numeral.step, digit?_digitChar hd, if_pos h]
  rfl

theorem step_whole_end {neg : Bool} {m : Nat} {c : Char} (hc : c = ',' ∨ c = ']' ∨ c = '}') :
    (Numeral.whole neg m).step c = .ok none := by
  rcases hc with rfl | rfl | rfl
  · rfl
  · rfl
  · rfl

theorem reads_digits {neg : Bool} {s : State} {n : Nat} (hpos : 0 < n)
    (hn : n ≤ Numeral.greatestSignificand)
    (hstart : ∀ d, 0 < d → d < 10 → step p ⟨frames, s, none⟩ (Nat.digitChar d) =
      .ok ⟨frames, .numeral (.whole neg d), none⟩) :
    Reads p ⟨frames, s, none⟩ (Decimal.digits n) ⟨frames, .numeral (.whole neg n), none⟩ := by
  induction n using Nat.strongRecOn with
  | ind n ih =>
    rcases Nat.lt_or_ge n 10 with hlt | hge
    · rw [Decimal.digits_of_lt hlt]
      exact reads_step (hstart n hpos hlt)
    · have hmod : n % 10 < 10 := Nat.mod_lt n (by decide)
      have hdiv : 10 * (n / 10) + n % 10 = n := Nat.div_add_mod n 10
      rw [Decimal.digits_of_le hge]
      refine (ih (n / 10) (by omega) (by omega) (by omega)).append (reads_step ?_)
      rw [step_whole_digit hmod (by omega), hdiv]

/-! ## Words -/

theorem reads_word {passing : Option Nat} (p : Policy) (frames : List Frame) (v : Json) (c : Char)
    (x : Text) : Reads p ⟨frames, .word (c :: x) v, passing⟩ (c :: x)
      (deliver p ⟨frames, .value, passing⟩ v) := by
  induction x generalizing c with
  | nil => exact reads_step (by simp only [step]; rfl)
  | cons d x ih =>
    refine .cons ?_ (ih d)
    simp only [step]
    rfl

/-! ## Values -/

def Expects : State → Prop
  | .value => True
  | .firstItem => True
  | .item => True
  | _ => False

variable {s : State}

theorem step_expects (hs : Expects s) (hc : isSpace c = false) (hb : c ≠ ']') :
    step .plain ⟨frames, s, none⟩ c = begin ⟨frames, s, none⟩ c := by
  cases s with
  | value => simp only [step, hc, settle_plain]; rfl
  | firstItem => simp only [step, hc, if_neg hb]; rfl
  | item => simp only [step, hc, if_neg hb]; rfl
  | _ => exact absurd hs id

theorem begin_digitChar {d : Nat} (h0 : 0 < d) (h : d < 10) :
    begin ⟨frames, s, none⟩ (Nat.digitChar d) =
      .ok ⟨frames, .numeral (.whole false d), none⟩ := by
  have hd : d = 1 ∨ d = 2 ∨ d = 3 ∨ d = 4 ∨ d = 5 ∨ d = 6 ∨ d = 7 ∨ d = 8 ∨ d = 9 := by omega
  rcases hd with rfl | rfl | rfl | rfl | rfl | rfl | rfl | rfl | rfl <;> rfl

theorem step_expects_digit (hs : Expects s) {d : Nat} (h0 : 0 < d) (h : d < 10) :
    step .plain ⟨frames, s, none⟩ (Nat.digitChar d) =
      .ok ⟨frames, .numeral (.whole false d), none⟩ := by
  rw [step_expects hs (isSpace_digitChar d h) (digitChar_ne_bracket d h), begin_digitChar h0 h]

theorem step_sign_digit {d : Nat} (h0 : 0 < d) (h : d < 10) :
    step p ⟨frames, .numeral .sign, none⟩ (Nat.digitChar d) =
      .ok ⟨frames, .numeral (.whole true d), none⟩ := by
  simp only [step, inNumeral, Numeral.step, if_neg (digitChar_ne_zero d h h0), digit?_digitChar h]
  rfl

theorem run_number {n : Int} {t : Text} {w : Json} (hs : Expects s) (hn : Number.inRange n = true)
    (ht : Ends frames t)
    (h : run .plain (deliver .plain ⟨frames, .value, none⟩ (.num (.int n))) t = .ok w) :
    run .plain ⟨frames, s, none⟩ ((Number.int n).text ++ t) = .ok w := by
  have hg : Numeral.greatestSignificand = 18446744073709551615 := rfl
  rw [Number.inRange_iff] at hn
  cases n with
  | ofNat n =>
    cases n with
    | zero =>
      have hzero : Reads .plain ⟨frames, s, none⟩ (Number.int (.ofNat 0)).text
          ⟨frames, .numeral (.zero false), none⟩ :=
        reads_step (step_expects hs rfl (by decide))
      refine hzero t w (run_numeral rfl ?_ ht h)
      rintro c (rfl | rfl | rfl)
      · rfl
      · rfl
      · rfl
    | succ n =>
      rw [Int.ofNat_eq_natCast] at hn
      have hdigits : Reads .plain ⟨frames, s, none⟩ (Number.int (.ofNat (n + 1))).text
          ⟨frames, .numeral (.whole false (n + 1)), none⟩ :=
        reads_digits (by omega) (by omega) fun d h0 h => step_expects_digit hs h0 h
      exact hdigits t w (run_numeral rfl (fun c => step_whole_end) ht h)
  | negSucc n =>
    have hdigits : Reads .plain ⟨frames, .numeral .sign, none⟩ (Decimal.digits (n + 1))
        ⟨frames, .numeral (.whole true (n + 1)), none⟩ :=
      reads_digits (by omega) (by omega) fun d h0 h => step_sign_digit h0 h
    have htext : Reads .plain ⟨frames, s, none⟩ (Number.int (.negSucc n)).text
        ⟨frames, .numeral (.whole true (n + 1)), none⟩ :=
      .cons (step_expects hs rfl (by decide)) hdigits
    have hvalue : (Numeral.whole true (n + 1)).value = .ok (.int (.negSucc n)) := by
      have h63 : Nat.pow 2 63 = 9223372036854775808 := rfl
      have hlow : (decide (n + 1 = 0) || decide (Nat.pow 2 63 < n + 1)) = false := by
        rw [h63, Bool.or_eq_false_iff, decide_eq_false_iff_not, decide_eq_false_iff_not]
        omega
      simp only [Numeral.value, Numeral.integer, hlow]
      rfl
    exact htext t w (run_numeral hvalue (fun c => step_whole_end) ht h)

theorem reads_str (hs : Expects s) (k : Text) :
    Reads .plain ⟨frames, s, none⟩ (quote k) (deliver .plain ⟨frames, .value, none⟩ (.str k)) := by
  have hend : endString .plain ⟨frames, .string false k.reverse .none, none⟩ false k.reverse =
      deliver .plain ⟨frames, .value, none⟩ (.str k) := by
    unfold endString
    split
    · contradiction
    · rw [List.reverse_reverse]
      rfl
  have hbody := reads_quoted .plain frames false k
  rw [hend] at hbody
  exact .cons (step_expects hs rfl (by decide)) hbody

theorem reads_key {fields : List (Text × Json)} {key : Text} (hs : s = .firstKey ∨ s = .key)
    (k : Text) :
    Reads .plain ⟨.object fields key :: frames, s, none⟩ (quote k ++ [':'])
      ⟨.object fields k :: frames, .value, none⟩ := by
  have hend : endString .plain ⟨.object fields key :: frames, .string true k.reverse .none, none⟩
      true k.reverse = ⟨.object fields k :: frames, .colon, none⟩ := by
    simp only [endString, List.reverse_reverse]
  have hbody := reads_quoted .plain (.object fields key :: frames) true k
  rw [hend] at hbody
  have hquote : Reads .plain ⟨.object fields key :: frames, s, none⟩ (quote k)
      ⟨.object fields k :: frames, .colon, none⟩ := by
    rcases hs with rfl | rfl
    · exact .cons rfl hbody
    · exact .cons rfl hbody
  exact hquote.append (reads_step rfl)

theorem step_open (hs : Expects s) (hf : frames.length < depthLimit) :
    step .plain ⟨frames, s, none⟩ '[' = .ok ⟨.array [] :: frames, .firstItem, none⟩ ∧
      step .plain ⟨frames, s, none⟩ '{' = .ok ⟨.object [] [] :: frames, .firstKey, none⟩ := by
  have hopen (f : Frame) (s' : State) :
      openFrame ⟨frames, s, none⟩ f s' = .ok ⟨f :: frames, s', none⟩ := by
    rw [openFrame, if_pos (by simpa using hf)]
  constructor
  · rw [step_expects hs rfl (by decide)]
    exact hopen (.array []) .firstItem
  · rw [step_expects hs rfl (by decide)]
    exact hopen (.object [] []) .firstKey

end

theorem ends_renderItems (f : Frame) (frames : List Frame) (vs : List Json) (t : Text) :
    Ends (f :: frames) (renderItems vs ++ t) := by
  cases vs with
  | nil => exact .inr (.inl rfl)
  | cons v rest => exact .inl rfl

theorem ends_renderFields (f : Frame) (frames : List Frame) (vs : List (Text × Json)) (t : Text) :
    Ends (f :: frames) (renderFields vs ++ t) := by
  cases vs with
  | nil => exact .inr (.inr rfl)
  | cons e rest => exact .inl rfl

mutual

theorem run_render : ∀ (v : Json) (_ : v.WellFormed) (_ : v.isIntegral = true) (frames : List Frame)
    (s : State) (t : Text) (w : Json), Expects s → frames.length + v.depth ≤ depthLimit →
    Ends frames t → run .plain (deliver .plain ⟨frames, .value, none⟩ v) t = .ok w →
    run .plain ⟨frames, s, none⟩ (v.render ++ t) = .ok w
  | .null, _, _, frames, s, t, w, hs, _, _, h =>
    Reads.cons (step_expects hs rfl (by decide)) (reads_word .plain frames .null _ _) t w h
  | .bool true, _, _, frames, s, t, w, hs, _, _, h =>
    Reads.cons (step_expects hs rfl (by decide)) (reads_word .plain frames (.bool true) _ _) t w h
  | .bool false, _, _, frames, s, t, w, hs, _, _, h =>
    Reads.cons (step_expects hs rfl (by decide)) (reads_word .plain frames (.bool false) _ _) t w h
  | .num (.int n), hv, _, frames, s, t, w, hs, _, ht, h => run_number hs hv ht h
  | .num (.real x), _, hi, _, _, _, _, _, _, _, _ => nomatch hi
  | .str k, _, _, frames, s, t, w, hs, _, _, h => reads_str hs k t w h
  | .arr [], _, _, frames, s, t, w, hs, hd, _, h => by
    have hf : frames.length < depthLimit := hd
    exact Reads.cons (step_open hs hf).1 (reads_step rfl) t w h
  | .arr (v :: rest), hv, hi, frames, s, t, w, hs, hd, _, h => by
    simp only [depth, depthItems] at hd
    obtain ⟨hi, hirest⟩ := Bool.and_eq_true_iff.mp hi
    refine reads_step (step_open hs (by omega)).1 ((v.render ++ renderItems rest) ++ t) w ?_
    rw [List.append_assoc]
    refine run_render v hv.1 hi (.array [] :: frames) .firstItem _ w trivial ?_
      (ends_renderItems _ _ rest t) ?_
    · rw [List.length_cons]
      omega
    · exact run_renderItems rest hv.2 hirest [v] frames t w (by omega) h
  | .obj [], _, _, frames, s, t, w, hs, hd, _, h => by
    have hf : frames.length < depthLimit := hd
    exact Reads.cons (step_open hs hf).2 (reads_step rfl) t w h
  | .obj ((k, v) :: rest), hv, hi, frames, s, t, w, hs, hd, _, h => by
    simp only [depth, depthFields] at hd
    obtain ⟨hi, hirest⟩ := Bool.and_eq_true_iff.mp hi
    refine reads_step (step_open hs (by omega)).2
      ((quote k ++ ':' :: (v.render ++ renderFields rest)) ++ t) w ?_
    have htext : (quote k ++ ':' :: (v.render ++ renderFields rest)) ++ t =
        (quote k ++ [':']) ++ (v.render ++ (renderFields rest ++ t)) := by
      simp only [List.append_assoc, List.cons_append, List.nil_append]
    rw [htext]
    apply reads_key (.inl rfl) k
    refine run_render v hv.2.1 hi (.object [] k :: frames) .value _ w trivial ?_
      (ends_renderFields _ _ rest t) ?_
    · rw [List.length_cons]
      omega
    · exact run_renderFields rest hv.2.2 hirest [(k, v)] k frames t w hv.1 (by omega) h

theorem run_renderItems : ∀ (vs : List Json) (_ : WellFormedItems vs) (_ : areIntegral vs = true)
    (items : List Json) (frames : List Frame) (t : Text) (w : Json),
    frames.length + 1 + depthItems vs ≤ depthLimit →
    run .plain (deliver .plain ⟨frames, .value, none⟩ (.arr (items.reverse ++ vs))) t = .ok w →
    run .plain ⟨.array items :: frames, .next, none⟩ (renderItems vs ++ t) = .ok w
  | [], _, _, items, frames, t, w, _, h => by
    rw [List.append_nil] at h
    exact reads_step (c := ']') rfl t w h
  | v :: rest, hv, hi, items, frames, t, w, hd, h => by
    simp only [depthItems] at hd
    obtain ⟨hi, hirest⟩ := Bool.and_eq_true_iff.mp hi
    have hcomma : Reads .plain ⟨.array items :: frames, .next, none⟩ [',']
        ⟨.array items :: frames, .item, none⟩ := reads_step rfl
    refine hcomma ((v.render ++ renderItems rest) ++ t) w ?_
    rw [List.append_assoc]
    refine run_render v hv.1 hi (.array items :: frames) .item _ w trivial ?_
      (ends_renderItems _ _ rest t) ?_
    · rw [List.length_cons]
      omega
    · apply run_renderItems rest hv.2 hirest (v :: items) frames t w (by omega)
      rw [List.reverse_cons, List.append_assoc]
      exact h

theorem run_renderFields : ∀ (vs : List (Text × Json)) (_ : WellFormedFields vs)
    (_ : areIntegralFields vs = true) (fields : List (Text × Json)) (key : Text) (frames : List Frame)
    (t : Text) (w : Json), Table.Sorted (fields ++ vs) →
    frames.length + 1 + depthFields vs ≤ depthLimit →
    run .plain (deliver .plain ⟨frames, .value, none⟩ (.obj (fields ++ vs))) t = .ok w →
    run .plain ⟨.object fields key :: frames, .next, none⟩ (renderFields vs ++ t) = .ok w
  | [], _, _, fields, key, frames, t, w, _, _, h => by
    rw [List.append_nil] at h
    exact reads_step (c := '}') rfl t w h
  | (k, v) :: rest, hv, hi, fields, key, frames, t, w, hsort, hd, h => by
    simp only [depthFields] at hd
    obtain ⟨hi, hirest⟩ := Bool.and_eq_true_iff.mp hi
    have hsplit : fields ++ (k, v) :: rest = (fields ++ [(k, v)]) ++ rest := by
      rw [List.append_assoc, List.singleton_append]
    have henter : Policy.plain.enter k v fields = fields ++ [(k, v)] :=
      Table.insert_of_lt (Table.lt_of_sorted_append hsort) v
    have hdeliver : deliver .plain ⟨.object fields k :: frames, .value, none⟩ v =
        ⟨.object (fields ++ [(k, v)]) k :: frames, .next, none⟩ := by
      rw [← henter]
      rfl
    have hcomma : Reads .plain ⟨.object fields key :: frames, .next, none⟩ [',']
        ⟨.object fields key :: frames, .key, none⟩ := reads_step rfl
    refine hcomma ((quote k ++ ':' :: (v.render ++ renderFields rest)) ++ t) w ?_
    have htext : (quote k ++ ':' :: (v.render ++ renderFields rest)) ++ t =
        (quote k ++ [':']) ++ (v.render ++ (renderFields rest ++ t)) := by
      simp only [List.append_assoc, List.cons_append, List.nil_append]
    rw [htext]
    apply reads_key (.inr rfl) k
    refine run_render v hv.1 hi (.object fields k :: frames) .value _ w trivial ?_
      (ends_renderFields _ _ rest t) ?_
    · rw [List.length_cons]
      omega
    · rw [hsplit] at hsort h
      rw [hdeliver]
      exact run_renderFields rest hv.2 hirest (fields ++ [(k, v)]) k frames t w hsort (by omega) h

end

end Reader

/-- **Reading undoes writing.** -/
theorem parse_render {v : Json} (hv : v.WellFormed) (hi : v.isIntegral = true)
    (hd : v.depth ≤ Reader.depthLimit) : parse v.render = .ok v := by
  have hrun := Reader.run_render v hv hi [] .value [] v trivial (by simpa using hd) rfl rfl
  rw [List.append_nil] at hrun
  rw [parse, Reader.read, Reader.start, hrun]

end Fixtures.Json
