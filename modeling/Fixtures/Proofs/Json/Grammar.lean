import Fixtures.Proofs.Json.RoundTrip
import Fixtures.Proofs.Json.Written

/-!
# What the reader accepts

Whatever the machine gets through is the text of a document with the value that
the machine has in the end. Each lemma takes a run apart where a part starts: it
finds that part at the front of the text, and the run that goes on behind it.
The parts that hold others are found by recursion on how much text is left.
-/

namespace Fixtures.Json

namespace Frame

def closing : Frame → Char
  | .array _ => ']'
  | .object _ _ => '}'

def first : Frame → State
  | .array _ => .firstItem
  | .object _ _ => .firstKey

def more : Frame → State
  | .array _ => .item
  | .object _ _ => .key

def value : Frame → Json
  | .array items => .arr items.reverse
  | .object fields _ => .obj fields

end Frame

namespace Reader

variable {frames : List Frame} {isKey : Bool} {seen : Text} {e : Escape} {t : Text} {w : Json}

theorem run_cons {r : Reader} {c : Char} {cs : Text} (h : run .plain r (c :: cs) = .ok w) :
    ∃ r', r.step .plain c = .ok r' ∧ run .plain r' cs = .ok w := by
  rw [run] at h
  cases hs : r.step .plain c with
  | error f =>
    rw [hs] at h
    cases h
  | ok r' =>
    rw [hs] at h
    refine ⟨r', rfl, ?_⟩
    cases hr : run .plain r' cs with
    | ok v =>
      simp only [hr] at h
      exact h
    | error f =>
      simp only [hr] at h
      cases h

theorem run_nil {r : Reader} (h : run .plain r [] = .ok w) : r.finish = .ok w := by
  rw [run] at h
  cases hf : r.finish with
  | ok v =>
    rw [hf] at h
    cases h
    rfl
  | error f =>
    rw [hf] at h
    cases h

def Skips : State → Prop
  | .word _ _ => False
  | .numeral _ => False
  | .string _ _ _ => False
  | _ => True

theorem step_space {p : Policy} {passing : Option Nat} {s : State} (hs : Skips s) {c : Char}
    (hc : isSpace c = true) : step p ⟨frames, s, passing⟩ c = .ok ⟨frames, s, passing⟩ := by
  cases s with
  | word x v => exact absurd hs id
  | numeral n => exact absurd hs id
  | string isKey seen e => exact absurd hs id
  | next => simp only [step, follow, hc, if_true]
  | done v => simp only [step, follow, hc, if_true]
  | _ => simp only [step, hc, if_true]

theorem exists_blanks {s : State} (h : run .plain ⟨frames, s, none⟩ t = .ok w) (hs : Skips s) :
    ∃ (g : Blanks) (t' : Text), t = g.text ++ t' ∧ (∀ c ∈ t'.head?, isSpace c = false) ∧
      run .plain ⟨frames, s, none⟩ t' = .ok w := by
  induction t with
  | nil => exact ⟨⟨[], nofun⟩, [], rfl, nofun, h⟩
  | cons c cs ih =>
    cases hc : isSpace c with
    | false => exact ⟨⟨[], nofun⟩, c :: cs, rfl, by simpa using hc, h⟩
    | true =>
      obtain ⟨r', hstep, hrun⟩ := run_cons h
      rw [step_space hs hc] at hstep
      cases hstep
      obtain ⟨g, t', rfl, hhead, hrun'⟩ := ih hrun
      exact ⟨⟨c :: g.text, List.forall_mem_cons.mpr ⟨hc, g.blank⟩⟩, t', rfl, hhead, hrun'⟩

theorem run_blanks {p : Policy} {passing : Option Nat} {s : State} (g : Blanks)
    (h : run p ⟨frames, s, passing⟩ t = .ok w) (hs : Skips s) :
    run p ⟨frames, s, passing⟩ (g.text ++ t) = .ok w := by
  have hreads : Reads p ⟨frames, s, passing⟩ g.text ⟨frames, s, passing⟩ := by
    obtain ⟨x, hx⟩ := g
    induction x with
    | nil => exact reads_nil _ _
    | cons c x ih =>
      obtain ⟨hc, hx⟩ := List.forall_mem_cons.mp hx
      exact .cons (step_space hs hc) (ih hx)
  exact hreads t w h

theorem exists_token {s : State} (h : run .plain ⟨frames, s, none⟩ t = .ok w) (hs : Skips s)
    (hend : ∀ v, finish ⟨frames, s, none⟩ ≠ .ok v) :
    ∃ (g : Blanks) (c : Char) (cs : Text) (r' : Reader), t = g.text ++ c :: cs ∧ isSpace c = false ∧
      step .plain ⟨frames, s, none⟩ c = .ok r' ∧ run .plain r' cs = .ok w := by
  obtain ⟨g, t', rfl, hhead, hrun⟩ := exists_blanks h hs
  cases t' with
  | nil => exact absurd (run_nil hrun) (hend w)
  | cons c cs =>
    obtain ⟨r', hstep, hcs⟩ := run_cons hrun
    exact ⟨g, c, cs, r', rfl, hhead c rfl, hstep, hcs⟩

/-! ## Strings -/

theorem run_inString (hq : e = .none → t.head? ≠ some '"')
    (h : run .plain ⟨frames, .string isKey seen e, none⟩ t = .ok w) :
    ∃ c cs seen' e', t = c :: cs ∧ inString false seen e c = .ok (seen', e') ∧
      run .plain ⟨frames, .string isKey seen' e', none⟩ cs = .ok w := by
  cases t with
  | nil => cases run_nil h
  | cons c cs =>
    obtain ⟨r', hs, hrun⟩ := run_cons h
    simp only [step] at hs
    split at hs
    · exact absurd rfl (hq rfl)
    · cases hin : inString false seen e c with
      | error f =>
        simp only [Option.isSome_none, hin] at hs
        cases hs
      | ok r =>
        simp only [Option.isSome_none, hin] at hs
        cases hs
        exact ⟨c, cs, r.1, r.2, rfl, hin, hrun⟩

theorem utf8Size_of_hexValue? {c : Char} {d : Nat} (h : hexValue? c = some d) :
    c.utf8Size = 1 := by
  have hle : c.val ≤ 0x7F := by
    unfold hexValue? at h
    split at h
    · rename_i hc
      simp only [Char.isDigit, Bool.and_eq_true, decide_eq_true_eq] at hc
      exact UInt32.le_trans hc.2 (by decide)
    split at h
    · rename_i hc
      simp only [Bool.and_eq_true, decide_eq_true_eq] at hc
      exact UInt32.le_trans hc.2 (by decide)
    split at h
    · rename_i hc
      simp only [Bool.and_eq_true, decide_eq_true_eq] at hc
      exact UInt32.le_trans hc.2 (by decide)
    · cases h
  exact if_pos hle

theorem not_run_badHex {taken n : Nat} {lead : Option Nat} :
    run .plain ⟨frames, .string isKey seen (.hex taken n false lead), none⟩ t ≠ .ok w := by
  induction t generalizing taken n with
  | nil => exact fun h => nomatch run_nil h
  | cons c cs ih =>
    intro h
    obtain ⟨_, _, _, _, ⟨rfl, rfl⟩, hin, hrun⟩ := run_inString (by nofun) h
    simp only [inString, Bool.false_and] at hin
    split at hin
    · cases hin
      exact ih hrun
    · cases hin

theorem exists_hexDigit {taken n : Nat} {lead : Option Nat}
    (h : run .plain ⟨frames, .string isKey seen (.hex taken n true lead), none⟩ t = .ok w) :
    ∃ (d : HexDigit) (cs : Text), t = d.char :: cs ∧
      if taken < 3 then
        run .plain ⟨frames, .string isKey seen (.hex (taken + 1) (16 * n + d.value) true lead), none⟩
          cs = .ok w
      else
        ∃ seen' e', endHex seen (16 * n + d.value) lead = .ok (seen', e') ∧
          run .plain ⟨frames, .string isKey seen' e', none⟩ cs = .ok w := by
  obtain ⟨c, cs, seen', e', rfl, hin, hrun⟩ := run_inString (by nofun) h
  cases hd : hexValue? c with
  | none =>
    simp only [inString, hd, Option.isSome_none, Bool.and_false] at hin
    split at hin
    · cases hin
      exact absurd hrun not_run_badHex
    · cases hin
  | some d =>
    refine ⟨⟨c, d, hd⟩, cs, rfl, ?_⟩
    simp only [inString, hd, Option.isSome_some, Bool.and_true, Option.getD_some,
      utf8Size_of_hexValue? hd] at hin
    by_cases ht : taken < 3
    · have ht' : taken + 1 < 4 := by omega
      rw [if_pos ht'] at hin
      rw [if_pos ht]
      cases hin
      exact hrun
    · have ht' : ¬ taken + 1 < 4 := by omega
      rw [if_neg ht'] at hin
      rw [if_neg ht]
      exact ⟨seen', e', hin, hrun⟩

theorem exists_code {lead : Option Nat}
    (h : run .plain ⟨frames, .string isKey seen (.hex 0 0 true lead), none⟩ t = .ok w) :
    ∃ (n : Code) (cs : Text) (seen' : Text) (e' : Escape), t = n.text ++ cs ∧
      endHex seen n.value lead = .ok (seen', e') ∧
      run .plain ⟨frames, .string isKey seen' e', none⟩ cs = .ok w := by
  obtain ⟨a, _, rfl, ha⟩ := exists_hexDigit h
  rw [if_pos (by decide)] at ha
  obtain ⟨b, _, rfl, hb⟩ := exists_hexDigit ha
  rw [if_pos (by decide)] at hb
  obtain ⟨c, _, rfl, hc⟩ := exists_hexDigit hb
  rw [if_pos (by decide)] at hc
  obtain ⟨d, cs, rfl, hd⟩ := exists_hexDigit hc
  rw [if_neg (by decide)] at hd
  obtain ⟨seen', e', hend, hrun⟩ := hd
  refine ⟨⟨a, b, c, d⟩, cs, seen', e', rfl, ?_, hrun⟩
  simpa only [Code.value, Nat.mul_zero, Nat.zero_add] using hend

theorem exists_escape
    (h : run .plain ⟨frames, .string isKey seen .backslash, none⟩ t = .ok w) :
    ∃ (p : Piece) (cs : Text), '\\' :: t = p.text ++ cs ∧
      run .plain ⟨frames, .string isKey (p.value :: seen) .none, none⟩ cs = .ok w := by
  obtain ⟨c, cs, seen', e', rfl, hin, hrun⟩ := run_inString (fun h => by cases h) h
  simp only [inString] at hin
  split at hin
  · rename_i hu
    subst hu
    cases hin
    obtain ⟨n, cs, seen', e', rfl, hend, hrun⟩ := exists_code hrun
    simp only [endHex] at hend
    split at hend
    · cases hend
    rename_i htrailing
    split at hend
    · rename_i hleading
      cases hend
      obtain ⟨c, cs, seen', e', rfl, hin, hrun⟩ := run_inString (fun h => by cases h) hrun
      simp only [inString] at hin
      split at hin
      · rename_i hc
        subst hc
        cases hin
        obtain ⟨c, cs, seen', e', rfl, hin, hrun⟩ := run_inString (fun h => by cases h) hrun
        simp only [inString] at hin
        split at hin
        · rename_i hc
          subst hc
          cases hin
          obtain ⟨trail, cs, seen', e', rfl, hend, hrun⟩ := exists_code hrun
          simp only [endHex] at hend
          split at hend
          · rename_i htrail
            cases hend
            exact ⟨.pair n trail hleading htrail, cs, by simp [Piece.text], hrun⟩
          · cases hend
        · cases hin
      · cases hin
    · rename_i hleading
      cases hend
      exact ⟨.code n (by simpa using hleading) (by simpa using htrailing), cs, rfl, hrun⟩
  · split at hin
    · rename_i d hd
      cases hin
      exact ⟨.escape c d hd, cs, rfl, hrun⟩
    · cases hin

theorem endString_eq {passing : Option Nat} (p : Policy) (frames : List Frame) (s : State)
    (isKey : Bool) (seen : Text) :
    endString p ⟨frames, s, passing⟩ isKey seen = endString p ⟨frames, .value, passing⟩ isKey seen := by
  cases isKey with
  | false => rfl
  | true =>
    cases frames with
    | nil => rfl
    | cons f rest =>
      cases f with
      | array items => rfl
      | object fields key => rfl

theorem endString_str {passing : Option Nat} (p : Policy) (frames : List Frame) (x : Text) :
    endString p ⟨frames, .value, passing⟩ false (x.reverse ++ []) =
      deliver p ⟨frames, .value, passing⟩ (.str x) := by
  have hseen : (x.reverse ++ []).reverse = x := by rw [List.append_nil, List.reverse_reverse]
  unfold endString
  split
  · contradiction
  · rw [hseen]

theorem endString_name {passing : Option Nat} (p : Policy) (frames : List Frame)
    (fields : List (Text × Json)) (key x : Text) :
    endString p ⟨.object fields key :: frames, .value, passing⟩ true (x.reverse ++ []) =
      ⟨.object fields x :: frames, .colon, passing⟩ := by
  simp only [endString, List.append_nil, List.reverse_reverse]

theorem exists_string {t : Text} {seen : Text}
    (h : run .plain ⟨frames, .string isKey seen .none, none⟩ t = .ok w) :
    ∃ (ps : List Piece) (cs : Text), t = bodyOf ps ++ '"' :: cs ∧
      run .plain (endString .plain ⟨frames, .value, none⟩ isKey ((stringOf ps).reverse ++ seen)) cs =
        .ok w := by
  -- by recursion on the text, of which an escape takes more than one character
  have hcons {p : Piece} {cs : Text} (hlt : cs.length < t.length) (ht : t = p.text ++ cs)
      (hrun : run .plain ⟨frames, .string isKey (p.value :: seen) .none, none⟩ cs = .ok w) :
      ∃ (ps : List Piece) (cs : Text), t = bodyOf ps ++ '"' :: cs ∧
        run .plain (endString .plain ⟨frames, .value, none⟩ isKey ((stringOf ps).reverse ++ seen))
          cs = .ok w := by
    obtain ⟨ps, rest, hps, hrest⟩ := exists_string hrun
    refine ⟨p :: ps, rest, ?_, ?_⟩
    · rw [ht, hps, bodyOf_cons, List.append_assoc]
    · rw [stringOf_cons, List.reverse_cons, List.append_assoc]
      exact hrest
  by_cases hq : t.head? = some '"'
  · obtain ⟨cs, rfl⟩ := List.head?_eq_some_iff.mp hq
    obtain ⟨r', hs, hrun⟩ := run_cons h
    cases hs
    refine ⟨[], cs, rfl, ?_⟩
    rw [endString_eq] at hrun
    exact hrun
  · obtain ⟨c, cs, seen', e', rfl, hin, hrun⟩ := run_inString (fun _ => hq) h
    simp only [inString] at hin
    split at hin
    · rename_i hc
      subst hc
      cases hin
      obtain ⟨p, rest, hp, hrun⟩ := exists_escape hrun
      refine hcons ?_ hp hrun
      have hpos : 0 < p.text.length := by cases p <;> simp [Piece.text]
      have hlen := congrArg List.length hp
      rw [List.length_append] at hlen
      omega
    · rename_i hbackslash
      split at hin
      · cases hin
      · rename_i hcontrol
        cases hin
        have hraw : isRaw c = true := by
          simp only [isRaw, Bool.and_eq_true, bne_iff_ne, decide_eq_true_eq]
          exact ⟨⟨fun hc => hq (by rw [hc]; rfl), hbackslash⟩, Nat.le_of_not_lt hcontrol⟩
        exact hcons (p := .char c hraw) (Nat.lt_succ_self _) rfl hrun
termination_by t.length

/-! ## Numerals and words -/

theorem exists_numeral {n : Numeral}
    (h : run .plain ⟨frames, .numeral n, none⟩ t = .ok w) :
    ∃ (u cs : Text) (n' : Numeral) (x : Number), t = u ++ cs ∧ n.after? u = some n' ∧
      n'.value = .ok x ∧ run .plain (deliver .plain ⟨frames, .value, none⟩ (.num x)) cs = .ok w := by
  induction t generalizing n with
  | nil =>
    have hf := run_nil h
    simp only [finish] at hf
    split at hf
    · cases hf
    · rename_i x hx
      cases frames with
      | nil =>
        cases hf
        exact ⟨[], [], n, x, rfl, rfl, hx, rfl⟩
      | cons f rest => cases f <;> cases hf
  | cons c cs ih =>
    obtain ⟨r', hs, hrun⟩ := run_cons h
    simp only [step, inNumeral] at hs
    cases hn : n.step c with
    | error f =>
      simp only [hn, Option.isSome_none, Bool.false_and] at hs
      cases hs
    | ok next =>
      cases next with
      | some n' =>
        simp only [hn] at hs
        cases hs
        obtain ⟨u, cs, n'', x, rfl, hafter, hx, hrun⟩ := ih hrun
        refine ⟨c :: u, cs, n'', x, rfl, ?_, hx, hrun⟩
        simp only [Numeral.after?, hn, hafter]
      | none =>
        simp only [hn] at hs
        cases hx : n.value with
        | error cause =>
          simp only [hx, Option.isSome_none] at hs
          cases hs
        | ok x =>
          simp only [hx] at hs
          refine ⟨[], c :: cs, n, x, rfl, rfl, hx, ?_⟩
          have hstep : step .plain (deliver .plain ⟨frames, .value, none⟩ (.num x)) c = .ok r' := by
            rw [step_deliver]
            exact hs
          rw [run, hstep]
          simp only [hrun]

theorem exists_word {x : Text} {v : Json} (hx : x ≠ [])
    (h : run .plain ⟨frames, .word x v, none⟩ t = .ok w) :
    ∃ cs, t = x ++ cs ∧ run .plain (deliver .plain ⟨frames, .value, none⟩ v) cs = .ok w := by
  induction x generalizing t with
  | nil => exact absurd rfl hx
  | cons d x ih =>
    cases t with
    | nil => cases run_nil h
    | cons c cs =>
      obtain ⟨r', hs, hrun⟩ := run_cons h
      simp only [step] at hs
      split at hs
      · rename_i hc
        subst hc
        cases x with
        | nil =>
          cases hs
          exact ⟨cs, rfl, hrun⟩
        | cons d' x =>
          cases hs
          obtain ⟨rest, rfl, hrest⟩ := ih (List.cons_ne_nil _ _) hrun
          exact ⟨rest, rfl, hrest⟩
      · cases hs

/-! ## Values -/

/-- What the machine may do at the first character of a value. -/
inductive Begins (frames : List Frame) (c : Char) : Reader → Prop
  | string : c = '"' → Begins frames c ⟨frames, .string false [] .none, none⟩
  | array : c = '[' → frames.length < depthLimit →
      Begins frames c ⟨.array [] :: frames, .firstItem, none⟩
  | object : c = '{' → frames.length < depthLimit →
      Begins frames c ⟨.object [] [] :: frames, .firstKey, none⟩
  | word (v : Written) (x : Text) : v.text = c :: x → x ≠ [] → v.depth = 0 →
      Begins frames c ⟨frames, .word x v.value, none⟩
  | numeral (n : Numeral) : Numeral.start? c = some n → Begins frames c ⟨frames, .numeral n, none⟩

theorem openFrame_cases {s s' : State} {f : Frame} {r' : Reader}
    (h : openFrame ⟨frames, s, none⟩ f s' = .ok r') :
    frames.length < depthLimit ∧ r' = ⟨f :: frames, s', none⟩ := by
  simp only [openFrame, Option.isSome_none, Bool.false_or, decide_eq_true_eq] at h
  split at h
  · rename_i hf
    cases h
    exact ⟨hf, rfl⟩
  · cases h

theorem begins_of_begin {s : State} {c : Char} {r' : Reader}
    (h : begin ⟨frames, s, none⟩ c = .ok r') : Begins frames c r' := by
  unfold begin at h
  split at h
  · cases h
    exact .string rfl
  · obtain ⟨hf, rfl⟩ := openFrame_cases h
    exact .array rfl hf
  · obtain ⟨hf, rfl⟩ := openFrame_cases h
    exact .object rfl hf
  · cases h
    exact .word (.bool true) _ rfl (List.cons_ne_nil _ _) rfl
  · cases h
    exact .word (.bool false) _ rfl (List.cons_ne_nil _ _) rfl
  · cases h
    exact .word .null _ rfl (List.cons_ne_nil _ _) rfl
  · split at h
    · rename_i n hn
      cases h
      exact .numeral n hn
    · cases h

variable {f : Frame}

theorem step_first {c : Char} (hspace : isSpace c = false) (hc : c ≠ f.closing) :
    step .plain ⟨f :: frames, f.first, none⟩ c = step .plain ⟨f :: frames, f.more, none⟩ c := by
  cases f with
  | array items =>
    have hc' : ¬c = ']' := hc
    simp only [Frame.first, Frame.more, step, hspace, hc', Bool.false_eq_true, if_false]
    rfl
  | object fields key =>
    have hc' : ¬c = '}' := hc
    simp only [Frame.first, Frame.more, step, hspace, hc', Bool.false_eq_true, if_false]
    rfl

theorem close_eq (frames : List Frame) (s : State) :
    close .plain ⟨f :: frames, s, none⟩ = deliver .plain ⟨frames, .value, none⟩ f.value := by
  cases f with
  | _ => rfl

theorem run_first (h : run .plain ⟨f :: frames, f.first, none⟩ t = .ok w) :
    (∃ (g : Blanks) (cs : Text), t = g.text ++ f.closing :: cs ∧
      run .plain (deliver .plain ⟨frames, .value, none⟩ f.value) cs = .ok w) ∨
    run .plain ⟨f :: frames, f.more, none⟩ t = .ok w := by
  have hskips : Skips f.first ∧ Skips f.more := by
    cases f with
    | _ => exact ⟨trivial, trivial⟩
  have hfinish : ∀ v, finish ⟨f :: frames, f.first, none⟩ ≠ .ok v := by
    cases f with
    | _ => nofun
  obtain ⟨g, c, cs, r', rfl, hspace, hstep, hcs⟩ := exists_token h hskips.1 hfinish
  by_cases hc : c = f.closing
  · have hclose : r' = close .plain ⟨f :: frames, f.first, none⟩ := by
      subst hc
      cases f with
      | _ =>
        cases hstep
        rfl
    rw [hclose, close_eq] at hcs
    exact .inl ⟨g, cs, by rw [hc], hcs⟩
  · rw [step_first hspace hc] at hstep
    refine .inr (run_blanks g ?_ hskips.2)
    rw [run, hstep]
    simp only [hcs]

theorem run_next (h : run .plain ⟨f :: frames, .next, none⟩ t = .ok w) :
    ∃ (g : Blanks) (cs : Text),
      (t = g.text ++ ',' :: cs ∧ run .plain ⟨f :: frames, f.more, none⟩ cs = .ok w) ∨
      (t = g.text ++ f.closing :: cs ∧
        run .plain (deliver .plain ⟨frames, .value, none⟩ f.value) cs = .ok w) := by
  have hfinish : ∀ v, finish ⟨f :: frames, .next, none⟩ ≠ .ok v := by
    cases f with
    | _ => nofun
  obtain ⟨g, c, cs, r', rfl, hspace, hstep, hcs⟩ := exists_token h trivial hfinish
  have hfollow : (c = ',' ∧ r' = ⟨f :: frames, f.more, none⟩) ∨
      (c = f.closing ∧ r' = close .plain ⟨f :: frames, .next, none⟩) := by
    cases f with
    | _ =>
      simp only [step, follow, hspace, Bool.false_eq_true, if_false] at hstep
      split at hstep
      · rename_i hc
        cases hstep
        exact .inl ⟨hc, rfl⟩
      split at hstep
      · rename_i hc
        cases hstep
        exact .inr ⟨hc, rfl⟩
      · cases hstep
  rcases hfollow with ⟨rfl, rfl⟩ | ⟨rfl, rfl⟩
  · exact ⟨g, cs, .inl ⟨rfl, hcs⟩⟩
  · rw [close_eq] at hcs
    exact ⟨g, cs, .inr ⟨rfl, hcs⟩⟩

theorem exists_name {fields : List (Text × Json)} {key : Text}
    (h : run .plain ⟨.object fields key :: frames, .key, none⟩ t = .ok w) :
    ∃ (before : Blanks) (ps : List Piece) (beforeColon : Blanks) (cs : Text),
      t = before.text ++ '"' :: (bodyOf ps ++ '"' :: (beforeColon.text ++ ':' :: cs)) ∧
      run .plain ⟨.object fields (stringOf ps) :: frames, .value, none⟩ cs = .ok w := by
  obtain ⟨before, c, cs, r', rfl, hspace, hstep, hcs⟩ :=
    exists_token h trivial fun _ h => by cases h
  simp only [step, beginKey, hspace, Bool.false_eq_true, if_false] at hstep
  split at hstep
  · cases hstep
  split at hstep
  · rename_i hc
    subst hc
    cases hstep
    obtain ⟨ps, cs, rfl, hname⟩ := exists_string hcs
    rw [endString_name] at hname
    obtain ⟨beforeColon, c, cs, r', rfl, hspace', hstep', hvalue⟩ :=
      exists_token hname trivial fun _ h => by cases h
    simp only [step, hspace', Bool.false_eq_true, if_false] at hstep'
    split at hstep'
    · rename_i hc
      subst hc
      cases hstep'
      exact ⟨before, ps, beforeColon, cs, rfl, hvalue⟩
    · cases hstep'
  · cases hstep

mutual

/-- A value stands at the front of a text that the machine gets through, where it expects one. -/
theorem exists_value {t : Text} {frames : List Frame} {s : State} (hs : s = .value ∨ s = .item)
    (h : run .plain ⟨frames, s, none⟩ t = .ok w) (hf : frames.length ≤ depthLimit) :
    ∃ (before : Blanks) (v : Written) (cs : Text), t = before.text ++ (v.text ++ cs) ∧
      frames.length + v.depth ≤ depthLimit ∧
      run .plain (deliver .plain ⟨frames, .value, none⟩ v.value) cs = .ok w := by
  have hskips : Skips s ∧ ∀ v, finish ⟨frames, s, none⟩ ≠ .ok v := by
    rcases hs with rfl | rfl
    · exact ⟨trivial, nofun⟩
    · exact ⟨trivial, nofun⟩
  obtain ⟨before, c, cs, r', ht, hspace, hstep, hcs⟩ := exists_token h hskips.1 hskips.2
  have hbegin : Begins frames c r' := by
    rcases hs with rfl | rfl
    · simp only [step, hspace, Bool.false_eq_true, if_false, settle_plain] at hstep
      exact begins_of_begin hstep
    · simp only [step, hspace, Bool.false_eq_true, if_false] at hstep
      split at hstep
      · cases hstep
      · exact begins_of_begin hstep
  have hlen : cs.length < t.length := by
    rw [ht, List.length_append, List.length_cons]
    omega
  cases hbegin with
  | string hc =>
    obtain ⟨ps, cs, rfl, hrun⟩ := exists_string hcs
    rw [endString_str] at hrun
    exact ⟨before, .string ps, cs, by simp [ht, hc, Written.text], hf, hrun⟩
  | array hc hopen =>
    rcases run_first (f := .array []) hcs with ⟨g, cs, rfl, hrun⟩ | hitem
    · exact ⟨before, .emptyArray g, cs, by simp [ht, hc, Written.text, Frame.closing], hopen, hrun⟩
    · obtain ⟨items, rest, hcs, hd, hrun⟩ := exists_items hopen hitem
      refine ⟨before, .array items, rest, by simp [ht, hc, hcs, Written.text], ?_, hrun⟩
      rw [Written.depth]
      omega
  | object hc hopen =>
    rcases run_first (f := .object [] []) hcs with ⟨g, cs, rfl, hrun⟩ | hkey
    · exact ⟨before, .emptyObject g, cs, by simp [ht, hc, Written.text, Frame.closing], hopen, hrun⟩
    · obtain ⟨fields, rest, hcs, hd, hrun⟩ := exists_fields hopen hkey
      refine ⟨before, .object fields, rest, by simp [ht, hc, hcs, Written.text], ?_, hrun⟩
      rw [Written.depth]
      omega
  | word v x hx hne hd =>
    obtain ⟨rest, hcs, hrun⟩ := exists_word hne hcs
    refine ⟨before, v, rest, ?_, ?_, hrun⟩
    · rw [ht, hx, hcs, List.cons_append]
    · rw [hd]
      exact hf
  | numeral n hn =>
    obtain ⟨u, rest, n', x, hcs, hafter, hx, hrun⟩ := exists_numeral hcs
    refine ⟨before, .number ⟨c :: u, x, ?_⟩, rest, by rw [ht, hcs]; rfl, hf, hrun⟩
    simp only [Numeral.read?, hn, Option.bind_some, hafter, hx]
    rfl
termination_by (t.length, 0)

theorem exists_items {t : Text} {frames : List Frame} {items : List Json}
    (hf : frames.length < depthLimit)
    (h : run .plain ⟨.array items :: frames, .item, none⟩ t = .ok w) :
    ∃ (its : WrittenItems) (cs : Text), t = its.text ++ ']' :: cs ∧
      frames.length + 1 + its.depth ≤ depthLimit ∧
      run .plain (deliver .plain ⟨frames, .value, none⟩ (.arr (items.reverse ++ its.values))) cs =
        .ok w := by
  obtain ⟨before, v, cs, ht, hd, hrun⟩ := exists_value (.inr rfl) h hf
  rw [List.length_cons] at hd
  obtain ⟨after, rest, ⟨hcs, hitem⟩ | ⟨hcs, hend⟩⟩ := run_next hrun
  · have hlen : rest.length < t.length := by
      rw [ht, hcs]
      simp only [List.length_append, List.length_cons]
      omega
    obtain ⟨its, last, hrest, hds, hend⟩ := exists_items hf hitem
    refine ⟨.cons before v after its, last, by simp [ht, hcs, hrest, WrittenItems.text], ?_, ?_⟩
    · rw [WrittenItems.depth]
      omega
    · simpa [WrittenItems.values] using hend
  · refine ⟨.last before v after, rest, ?_, hd, ?_⟩
    · simp [ht, hcs, WrittenItems.text, Frame.closing]
    · simpa [WrittenItems.values, Frame.value] using hend
termination_by (t.length, 1)

theorem exists_fields {t : Text} {frames : List Frame} {fields : List (Text × Json)} {key : Text}
    (hf : frames.length < depthLimit)
    (h : run .plain ⟨.object fields key :: frames, .key, none⟩ t = .ok w) :
    ∃ (fs : WrittenFields) (cs : Text), t = fs.text ++ '}' :: cs ∧
      frames.length + 1 + fs.depth ≤ depthLimit ∧
      run .plain (deliver .plain ⟨frames, .value, none⟩ (.obj (fs.enter fields))) cs = .ok w := by
  obtain ⟨before, ps, beforeColon, cs, ht, hname⟩ := exists_name h
  have hlen : cs.length < t.length := by
    rw [ht]
    simp only [List.length_append, List.length_cons]
    omega
  obtain ⟨afterColon, v, cs', hcs, hd, hrun⟩ := exists_value (.inl rfl) hname hf
  rw [List.length_cons] at hd
  obtain ⟨after, rest, ⟨hcs', hkey⟩ | ⟨hcs', hend⟩⟩ := run_next hrun
  · have hlen' : rest.length < cs.length := by
      rw [hcs, hcs']
      simp only [List.length_append, List.length_cons]
      omega
    obtain ⟨fs, last, hrest, hds, hend⟩ := exists_fields hf hkey
    refine ⟨.cons ⟨before, ps, beforeColon, afterColon⟩ v after fs, last, ?_, ?_, hend⟩
    · simp [ht, hcs, hcs', hrest, WrittenFields.text, WrittenName.text]
    · rw [WrittenFields.depth]
      omega
  · refine ⟨.last ⟨before, ps, beforeColon, afterColon⟩ v after, rest, ?_, hd, hend⟩
    simp [ht, hcs, hcs', WrittenFields.text, WrittenName.text, Frame.closing]
termination_by (t.length, 1)

end

end Reader

/-- **What is accepted is a document as it is written.** -/
theorem exists_written_of_parse {t : Text} {v : Json} (h : parse t = .ok v) :
    ∃ d : WrittenDocument, d.text = t ∧ d.value = v := by
  have hrun : Reader.run .plain ⟨[], .value, none⟩ t = .ok v := by
    rw [parse, Reader.read, Reader.start] at h
    cases hr : Reader.run .plain ⟨[], .value, none⟩ t with
    | ok u =>
      rw [hr] at h
      cases h
      rfl
    | error f =>
      rw [hr] at h
      cases h
  obtain ⟨before, root, cs, rfl, hd, hrun⟩ := Reader.exists_value (.inl rfl) hrun (Nat.zero_le _)
  obtain ⟨after, cs, rfl, hhead, hend⟩ := Reader.exists_blanks hrun trivial
  obtain ⟨rfl, hroot⟩ : cs = [] ∧ root.value = v := by
    cases cs with
    | nil =>
      cases Reader.run_nil hend
      exact ⟨rfl, rfl⟩
    | cons c cs =>
      obtain ⟨r', hs, -⟩ := Reader.run_cons hend
      have hspace : Reader.isSpace c = false := hhead c rfl
      simp only [Reader.step, Reader.follow, hspace] at hs
      cases hs
  refine ⟨⟨before, root, after, by simpa using hd⟩, ?_, hroot⟩
  simp [WrittenDocument.text]

end Fixtures.Json
