import Fixtures.Json.Record
import Fixtures.Proofs.Json.Grammar
import Fixtures.Proofs.Json.Numeral

/-!
# Reading a value of some shape

The machine gets through the text of every value, whatever policy it follows, as long as
what the policy passes over are the unknown fields of a shape. `Written.readAs` is the
value it has then. A known part may nest only so deep and keeps all of its strings; a
part that is passed over nests as it likes, and its strings lose their numeric escapes.
-/

namespace Fixtures.Json

/-! ## What is read -/

def Piece.kept : (known : Bool) → Piece → Text
  | true, q => [q.value]
  | false, .char c _ => [c]
  | false, .escape _ c _ => [c]
  | false, _ => []

def stringAs (known : Bool) (ps : List Piece) : Text := ps.flatMap (Piece.kept known)

@[simp] theorem stringAs_true (ps : List Piece) : stringAs true ps = stringOf ps :=
  List.map_eq_flatMap.symm

section
variable (enter : Text → Json → List (Text × Json) → List (Text × Json))

mutual

/-- The value that is read, at a part of a shape or in an unknown field. -/
def Written.readAs : Option Shape → Written → Json
  | _, .null => .null
  | _, .bool b => .bool b
  | _, .number n => .num n.number
  | known, .string ps => .str (stringAs known.isSome ps)
  | _, .emptyArray _ => .arr []
  | known, .array items => .arr (items.readAs known 0)
  | _, .emptyObject _ => .obj []
  | known, .object fields => .obj (fields.readAs known [])

def WrittenItems.readAs : Option Shape → (n : Nat) → WrittenItems → List Json
  | known, n, .last _ v _ => [v.readAs (known.map (·.item n))]
  | known, n, .cons _ v _ rest => v.readAs (known.map (·.item n)) :: rest.readAs known (n + 1)

def WrittenFields.readAs : Option Shape → List (Text × Json) → WrittenFields → List (Text × Json)
  | known, fields, .last k v _ =>
    enter (stringAs known.isSome k.name)
      (v.readAs (known.bind (·.field? (stringAs known.isSome k.name)))) fields
  | known, fields, .cons k v _ rest =>
    rest.readAs known (enter (stringAs known.isSome k.name)
      (v.readAs (known.bind (·.field? (stringAs known.isSome k.name)))) fields)

end

end

mutual

/-- How deep arrays and objects are nested in the known parts. -/
def Written.depthIn : Shape → Written → Nat
  | _, .emptyArray _ => 1
  | s, .array items => items.depthIn s 0 + 1
  | _, .emptyObject _ => 1
  | s, .object fields => fields.depthIn s + 1
  | _, _ => 0

def WrittenItems.depthIn : Shape → (n : Nat) → WrittenItems → Nat
  | s, n, .last _ v _ => v.depthIn (s.item n)
  | s, n, .cons _ v _ rest => max (v.depthIn (s.item n)) (rest.depthIn s (n + 1))

def WrittenFields.depthIn : Shape → WrittenFields → Nat
  | s, .last k v _ => (s.field? (stringOf k.name)).elim 0 (v.depthIn ·)
  | s, .cons k v _ rest => max ((s.field? (stringOf k.name)).elim 0 (v.depthIn ·)) (rest.depthIn s)

end

namespace Reader

variable {p : Policy} {root : Shape} {frames : List Frame} {known : Option Shape}
  {passing : Option Nat} {s : State} {t : Text} {w : Json}

/-! ## Strings -/

section
variable {isKey : Bool} {seen : Text}

theorem inString_digit {skips : Bool} {taken n : Nat} {lead : Option Nat} (d : HexDigit)
    (ht : taken < 3) :
    inString skips seen (.hex taken n true lead) d.char =
      .ok (seen, .hex (taken + 1) (16 * n + d.value) true lead) := by
  have hlt : taken + 1 < 4 := by omega
  simp only [inString, d.reads, utf8Size_of_hexValue? d.reads, if_pos hlt]
  rfl

theorem inString_fourth {skips : Bool} {n : Nat} {lead : Option Nat} (d : HexDigit) :
    inString skips seen (.hex 3 n true lead) d.char =
      if skips then .ok (seen, .none) else endHex seen (16 * n + d.value) lead := by
  simp only [inString, d.reads, utf8Size_of_hexValue? d.reads]
  rfl

theorem reads_code {lead : Option Nat} {seen' : Text} {e' : Escape} (n : Code)
    (h : (if passing.isSome then .ok (seen, .none) else endHex seen n.value lead) =
      .ok (seen', e')) :
    Reads p ⟨frames, .string isKey seen (.hex 0 0 true lead), passing⟩ n.text
      ⟨frames, .string isKey seen' e', passing⟩ := by
  have hvalue : n.value = 16 * (16 * (16 * (16 * 0 + n.first.value) + n.second.value) +
      n.third.value) + n.fourth.value := by
    rw [Nat.mul_zero, Nat.zero_add]
    rfl
  rw [hvalue, ← inString_fourth] at h
  refine .cons (step_inString (fun h => by cases h) (inString_digit n.first (by decide))) ?_
  refine .cons (step_inString (fun h => by cases h) (inString_digit n.second (by decide))) ?_
  refine .cons (step_inString (fun h => by cases h) (inString_digit n.third (by decide))) ?_
  exact reads_step (step_inString (fun h => by cases h) h)

theorem reads_piece (q : Piece) :
    Reads p ⟨frames, .string isKey seen .none, passing⟩ q.text
      ⟨frames, .string isKey ((q.kept passing.isNone).reverse ++ seen) .none, passing⟩ := by
  have hbackslash {x : Text} {r : Reader}
      (h : Reads p ⟨frames, .string isKey seen .backslash, passing⟩ x r) :
      Reads p ⟨frames, .string isKey seen .none, passing⟩ ('\\' :: x) r :=
    .cons (step_inString (fun _ => by decide) rfl) h
  cases q with
  | char c h =>
    have hkept : (Piece.char c h).kept passing.isNone = [c] := by cases passing <;> rfl
    rw [hkept]
    simp only [isRaw, Bool.and_eq_true, bne_iff_ne, decide_eq_true_eq] at h
    refine reads_step (step_inString (fun _ => h.1.1) ?_)
    simp only [inString, if_neg h.1.2, if_neg (Nat.not_lt_of_le h.2)]
    rfl
  | escape letter c h =>
    have hkept : (Piece.escape letter c h).kept passing.isNone = [c] := by cases passing <;> rfl
    rw [hkept]
    refine hbackslash (reads_step (step_inString (fun h => by cases h) ?_))
    have hu : letter ≠ 'u' := by
      rintro rfl
      cases h
    simp only [inString, if_neg hu, h]
    rfl
  | code n hl ht =>
    refine hbackslash (.cons (step_inString (fun h => by cases h) rfl) (reads_code n ?_))
    cases passing with
    | some k => rfl
    | none =>
      simp only [endHex, hl, ht, Bool.false_eq_true, if_false, Option.isSome_none]
      rfl
  | pair lead trail hl ht =>
    refine hbackslash (.cons (step_inString (fun h => by cases h) rfl) ?_)
    cases passing with
    | some k =>
      refine (reads_code lead rfl).append (.cons (step_inString (fun _ => by decide) rfl) ?_)
      exact .cons (step_inString (fun h => by cases h) rfl) (reads_code trail rfl)
    | none =>
      have hno : isTrailing lead.value = false := by
        simp only [isLeading, Bool.and_eq_true, decide_eq_true_eq] at hl
        simp only [isTrailing, Bool.and_eq_false_iff, decide_eq_false_iff_not]
        omega
      have hlead : endHex seen lead.value none = .ok (seen, .pairBackslash lead.value) := by
        simp only [endHex, hno, hl, Bool.false_eq_true, if_false, if_true]
      have htrail : endHex seen trail.value (some lead.value) =
          .ok (Piece.value (.pair lead trail hl ht) :: seen, .none) := by
        simp only [endHex, ht, if_true]
        rfl
      refine .append (reads_code lead hlead) (.cons (step_inString (fun h => by cases h) rfl) ?_)
      exact .cons (step_inString (fun h => by cases h) rfl) (reads_code trail htrail)

theorem reads_body (ps : List Piece) (seen : Text) :
    Reads p ⟨frames, .string isKey seen .none, passing⟩ (bodyOf ps)
      ⟨frames, .string isKey ((stringAs passing.isNone ps).reverse ++ seen) .none, passing⟩ := by
  induction ps generalizing seen with
  | nil => exact reads_nil _ _
  | cons q ps ih =>
    rw [bodyOf_cons, stringAs, List.flatMap_cons, List.reverse_append, List.append_assoc]
    exact (reads_piece q).append (ih _)

theorem reads_string (ps : List Piece) :
    Reads p ⟨frames, .string isKey [] .none, passing⟩ (bodyOf ps ++ ['"'])
      (endString p ⟨frames, .value, passing⟩ isKey
        ((stringAs passing.isNone ps).reverse ++ [])) := by
  refine (reads_body ps []).append (reads_step ?_)
  rw [← endString_eq p frames
    (.string isKey ((stringAs passing.isNone ps).reverse ++ []) .none)]
  rfl

end

/-! ## Numerals -/

theorem reads_numeral {n n' : Numeral} {x : Text} (h : n.after? x = some n') :
    Reads p ⟨frames, .numeral n, passing⟩ x ⟨frames, .numeral n', passing⟩ := by
  induction x generalizing n with
  | nil =>
    cases h
    exact reads_nil _ _
  | cons c x ih =>
    rw [Numeral.after?] at h
    split at h
    · rename_i m hm
      refine .cons ?_ (ih h)
      simp only [step, inNumeral, hm]
      rfl
    · cases h

def Follows (frames : List Frame) : Text → Prop
  | [] => frames = []
  | c :: _ => Numeral.isEnd c = true

theorem run_endNumeral {n : Numeral} {x : Number} (hn : n.value = .ok x) (ht : Follows frames t)
    (h : run p (deliver p ⟨frames, .value, passing⟩ (.num x)) t = .ok w) :
    run p ⟨frames, .numeral n, passing⟩ t = .ok w := by
  cases t with
  | nil =>
    cases ht
    rw [← h]
    simp only [run, finish, hn]
    rfl
  | cons c t =>
    have hc : step p ⟨frames, .numeral n, passing⟩ c =
        (deliver p ⟨frames, .value, passing⟩ (.num x)).step p c := by
      rw [step_deliver]
      simp only [step, inNumeral, Numeral.step_of_isEnd hn ht, hn]
      rfl
    rw [run] at h ⊢
    rw [hc]
    exact h

theorem begin_numeral {c : Char} {n : Numeral} (h : Numeral.start? c = some n) :
    begin ⟨frames, s, passing⟩ c = .ok ⟨frames, .numeral n, passing⟩ := by
  unfold begin
  split
  · cases h
  · cases h
  · cases h
  · cases h
  · cases h
  · cases h
  · rw [h]
    rfl

/-! ## Where the machine stands -/

def Knows (p : Policy) (root : Shape) : Prop :=
  ∀ frames, p.passes frames = (root.inside? frames.reverse).isNone

/-- The machine stands at a known part, or inside of a field that it passes over since
some of the containers were open. -/
inductive Stands (root : Shape) (frames : List Frame) : Option Shape → Option Nat → Prop
  | known {s : Shape} (h : root.inside? frames.reverse = some s) : Stands root frames (some s) none
  | unknown {n : Nat} (h : root.inside? frames.reverse = none) (hn : n ≤ frames.length) :
      Stands root frames none (some n)

theorem inside?_append (root : Shape) (fs gs : List Frame) :
    root.inside? (fs ++ gs) = (root.inside? fs).bind (·.inside? gs) := by
  induction fs generalizing root with
  | nil => rfl
  | cons f fs ih =>
    cases f with
    | array items => exact ih _
    | object fields key =>
      simp only [List.cons_append, Shape.inside?, Option.bind_assoc, ih]

theorem Stands.isNone (h : Stands root frames known passing) : passing.isNone = known.isSome := by
  cases h with
  | known _ => rfl
  | unknown _ _ => rfl

theorem Stands.inside (h : Stands root frames known passing) :
    root.inside? frames.reverse = known := by
  cases h with
  | known h => exact h
  | unknown h _ => exact h

theorem Stands.settle_eq (hp : Knows p root) (h : Stands root frames known passing) (s : State) :
    settle p ⟨frames, s, passing⟩ = ⟨frames, s, passing⟩ := by
  cases h with
  | known h => simp only [settle, hp frames, h, Option.isNone_some, Bool.and_false,
      Bool.false_eq_true, if_false]
  | unknown h _ => rfl

theorem Stands.openFrame_eq (h : Stands root frames known passing)
    (hd : ∀ sh, known = some sh → frames.length < depthLimit) (f : Frame) (s s' : State) :
    openFrame ⟨frames, s, passing⟩ f s' = .ok ⟨f :: frames, s', passing⟩ := by
  cases h with
  | @known sh _ => exact if_pos (by simpa using hd sh rfl)
  | unknown _ _ => rfl

theorem Stands.array (h : Stands root frames known passing) (items : List Json) :
    Stands root (.array items :: frames) (known.map (·.item items.length)) passing := by
  have hin : root.inside? (Frame.array items :: frames).reverse =
      known.map (·.item items.length) := by
    rw [List.reverse_cons, inside?_append, h.inside]
    cases known with
    | none => rfl
    | some s => rfl
  cases h with
  | known _ => exact .known hin
  | unknown _ hn => exact .unknown hin (Nat.le_succ_of_le hn)

theorem Stands.deliver_item (h : Stands root frames known passing) (items : List Json) (v : Json) :
    deliver p ⟨.array items :: frames, .value, passing⟩ v =
      ⟨.array (v :: items) :: frames, .next, passing⟩ := by
  cases h with
  | known _ => rfl
  | @unknown n _ hn =>
    have hne : ¬ some n = some (frames.length + 1) := by
      rw [Option.some.injEq]
      omega
    simp only [deliver, List.length_cons, if_neg hne]

theorem Stands.field (hp : Knows p root) (h : Stands root frames known passing)
    (fields : List (Text × Json)) (name : Text) :
    ∃ passing', Stands root (.object fields name :: frames) (known.bind (·.field? name)) passing' ∧
      settle p ⟨.object fields name :: frames, .value, passing⟩ =
        ⟨.object fields name :: frames, .value, passing'⟩ ∧
      ∀ v, deliver p ⟨.object fields name :: frames, .value, passing'⟩ v =
        ⟨.object (p.enter name v fields) name :: frames, .next, passing⟩ := by
  have hin : root.inside? (Frame.object fields name :: frames).reverse =
      known.bind (·.field? name) := by
    rw [List.reverse_cons, inside?_append, h.inside]
    cases known with
    | none => rfl
    | some s => exact Option.bind_fun_some _
  cases h with
  | @unknown n _ hn =>
    refine ⟨some n, .unknown hin (Nat.le_succ_of_le hn), rfl, fun v => ?_⟩
    have hne : ¬ some n = some (frames.length + 1) := by
      rw [Option.some.injEq]
      omega
    simp only [deliver, List.length_cons, if_neg hne]
  | @known s _ =>
    cases hf : s.field? name with
    | some s' =>
      rw [Option.bind_some, hf] at hin ⊢
      have hstands := Stands.known hin
      exact ⟨none, hstands, hstands.settle_eq hp .value, fun v => rfl⟩
    | none =>
      rw [Option.bind_some, hf] at hin ⊢
      refine ⟨some (frames.length + 1), .unknown hin (Nat.le_refl _), ?_, fun v => ?_⟩
      · simp only [settle, hp _, hin]
        rfl
      · simp only [deliver, List.length_cons, if_true]

/-! ## Values -/

theorem follows_blanks (f : Frame) (g : Blanks) {c : Char} (hc : Numeral.isEnd c = true) (cs : Text) :
    Follows (f :: frames) (g.text ++ c :: cs) := by
  obtain ⟨x, hx⟩ := g
  cases x with
  | nil => exact hc
  | cons d x =>
    have hd : isSpace d = true := hx d List.mem_cons_self
    simp only [List.cons_append, Follows, Numeral.isEnd, hd, Bool.true_or]

theorem follows_end (g : Blanks) : Follows [] g.text := by
  cases hx : g.text with
  | nil => rfl
  | cons c x =>
    have hc := g.blank c (by rw [hx]; exact List.mem_cons_self)
    simp only [Follows, Numeral.isEnd, hc, Bool.true_or]

theorem exists_first (v : Written) :
    ∃ c cs, v.text = c :: cs ∧ isSpace c = false ∧ c ≠ ']' := by
  cases v with
  | null => exact ⟨_, _, rfl, rfl, by decide⟩
  | bool b => cases b <;> exact ⟨_, _, rfl, rfl, by decide⟩
  | number n =>
    obtain ⟨c, cs, hn, hstarts, -⟩ := Numeral.starts_of_read? n.reads
    refine ⟨c, cs, hn, ?_⟩
    have hspace : isSpace c = false := by
      simp only [isSpace, Bool.or_eq_false_iff, beq_eq_false_iff_ne]
      exact ⟨⟨⟨hstarts.ne rfl (by decide), hstarts.ne rfl (by decide)⟩,
        hstarts.ne rfl (by decide)⟩, hstarts.ne rfl (by decide)⟩
    exact ⟨hspace, hstarts.ne rfl (by decide)⟩
  | string ps => exact ⟨_, _, rfl, rfl, by decide⟩
  | emptyArray g => exact ⟨_, _, rfl, rfl, by decide⟩
  | array items => exact ⟨_, _, rfl, rfl, by decide⟩
  | emptyObject g => exact ⟨_, _, rfl, rfl, by decide⟩
  | object fields => exact ⟨_, _, rfl, rfl, by decide⟩

theorem Stands.step_begin (hp : Knows p root) (h : Stands root frames known passing)
    (hs : Expects s) {c : Char} (hc : isSpace c = false) (hb : c ≠ ']') :
    step p ⟨frames, s, passing⟩ c = begin ⟨frames, s, passing⟩ c := by
  cases s with
  | value =>
    simp only [step, hc, h.settle_eq hp]
    rfl
  | firstItem =>
    simp only [step, hc, if_neg hb]
    rfl
  | item =>
    simp only [step, hc, if_neg hb]
    rfl
  | _ => exact absurd hs id

theorem Stands.step_open (hp : Knows p root) (h : Stands root frames known passing)
    (hs : Expects s) (hd : ∀ sh, known = some sh → frames.length < depthLimit) :
    step p ⟨frames, s, passing⟩ '[' = .ok ⟨.array [] :: frames, .firstItem, passing⟩ ∧
      step p ⟨frames, s, passing⟩ '{' = .ok ⟨.object [] [] :: frames, .firstKey, passing⟩ := by
  constructor
  · rw [h.step_begin hp hs rfl (by decide)]
    exact h.openFrame_eq hd (.array []) s .firstItem
  · rw [h.step_begin hp hs rfl (by decide)]
    exact h.openFrame_eq hd (.object [] []) s .firstKey

def ExpectsItem (s : State) : Prop := s = .firstItem ∨ s = .item

def ExpectsKey (s : State) : Prop := s = .firstKey ∨ s = .key

theorem ExpectsItem.expects (hs : ExpectsItem s) : Expects s ∧ Skips s := by
  rcases hs with rfl | rfl
  · exact ⟨trivial, trivial⟩
  · exact ⟨trivial, trivial⟩

theorem ExpectsKey.skips (hs : ExpectsKey s) : Skips s := by
  rcases hs with rfl | rfl
  · trivial
  · trivial

theorem run_step {r r' : Reader} {c : Char} (hs : r.step p c = .ok r')
    (h : run p r' t = .ok w) : run p r (c :: t) = .ok w :=
  reads_step hs t w h

theorem reads_name {fields : List (Text × Json)} {key : Text} (hs : ExpectsKey s)
    (k : WrittenName)
    (h : run p ⟨.object fields (stringAs passing.isNone k.name) :: frames, .value, passing⟩
      (k.afterColon.text ++ t) = .ok w) :
    run p ⟨.object fields key :: frames, s, passing⟩ (k.text ++ t) = .ok w := by
  have htext : k.text ++ t = k.before.text ++ '"' :: ((bodyOf k.name ++ ['"']) ++
      (k.beforeColon.text ++ ':' :: (k.afterColon.text ++ t))) := by
    simp [WrittenName.text]
  have hquote : step p ⟨.object fields key :: frames, s, passing⟩ '"' =
      .ok ⟨.object fields key :: frames, .string true [] .none, passing⟩ := by
    rcases hs with rfl | rfl
    · rfl
    · rfl
  have hcolon : run p
      ⟨.object fields (stringAs passing.isNone k.name) :: frames, .colon, passing⟩
      (k.beforeColon.text ++ ':' :: (k.afterColon.text ++ t)) = .ok w :=
    run_blanks k.beforeColon (run_step rfl h) trivial
  rw [← endString_name p frames fields key] at hcolon
  rw [htext]
  exact run_blanks k.before (run_step hquote (reads_string k.name _ w hcolon)) hs.skips

theorem run_settled {passing' : Option Nat} {known' : Option Shape} (hp : Knows p root)
    (hstands : Stands root frames known' passing')
    (hsettle : settle p ⟨frames, .value, passing⟩ = ⟨frames, .value, passing'⟩) (v : Written)
    (h : run p ⟨frames, .value, passing'⟩ (v.text ++ t) = .ok w) :
    run p ⟨frames, .value, passing⟩ (v.text ++ t) = .ok w := by
  obtain ⟨c, cs, hv, hspace, -⟩ := exists_first v
  have hstep : step p ⟨frames, .value, passing⟩ c = step p ⟨frames, .value, passing'⟩ c := by
    simp only [step, hspace, hsettle, hstands.settle_eq hp]
    rfl
  rw [hv, List.cons_append, run] at h ⊢
  rw [hstep]
  exact h

mutual

/-- The machine gets through a value as it is written, to what is read of it. -/
theorem run_value (hp : Knows p root) : ∀ (v : Written) (frames : List Frame)
    (known : Option Shape) (passing : Option Nat) (s : State) (t : Text) (w : Json),
    Stands root frames known passing → Expects s →
    (∀ sh, known = some sh → frames.length + v.depthIn sh ≤ depthLimit) → Follows frames t →
    run p (deliver p ⟨frames, .value, passing⟩ (v.readAs p.enter known)) t = .ok w →
      run p ⟨frames, s, passing⟩ (v.text ++ t) = .ok w
  | .null, frames, known, passing, s, t, w, hat, hs, _, _, h =>
    Reads.cons (hat.step_begin hp hs rfl (by decide)) (reads_word p frames .null _ _) t w h
  | .bool true, frames, known, passing, s, t, w, hat, hs, _, _, h =>
    Reads.cons (hat.step_begin hp hs rfl (by decide)) (reads_word p frames (.bool true) _ _) t w h
  | .bool false, frames, known, passing, s, t, w, hat, hs, _, _, h =>
    Reads.cons (hat.step_begin hp hs rfl (by decide)) (reads_word p frames (.bool false) _ _) t w h
  | .number n, frames, known, passing, s, t, w, hat, hs, _, ht, h => by
    obtain ⟨c, cs, hv, hspace, hb⟩ := exists_first (.number n)
    obtain ⟨c', cs', m, m', hn, hstart, hafter, hx⟩ := Numeral.exists_of_read? n.reads
    cases hv.symm.trans hn
    have hstep : step p ⟨frames, s, passing⟩ c = .ok ⟨frames, .numeral m, passing⟩ := by
      rw [hat.step_begin hp hs hspace hb, begin_numeral hstart]
    rw [hv]
    exact run_step hstep (reads_numeral hafter t w (run_endNumeral hx ht h))
  | .string ps, frames, known, passing, s, t, w, hat, hs, _, _, h => by
    have hread : Reads p ⟨frames, s, passing⟩ ('"' :: (bodyOf ps ++ ['"']))
        (endString p ⟨frames, .value, passing⟩ false
          ((stringAs passing.isNone ps).reverse ++ [])) :=
      .cons (hat.step_begin hp hs rfl (by decide)) (reads_string ps)
    rw [endString_str, hat.isNone] at hread
    exact hread t w h
  | .emptyArray inside, frames, known, passing, s, t, w, hat, hs, hd, _, h => by
    have htext : Written.text (.emptyArray inside) ++ t = '[' :: (inside.text ++ ']' :: t) := by
      simp [Written.text]
    rw [htext]
    exact run_step (hat.step_open hp hs hd).1 (run_blanks inside (run_step rfl h) trivial)
  | .emptyObject inside, frames, known, passing, s, t, w, hat, hs, hd, _, h => by
    have htext : Written.text (.emptyObject inside) ++ t = '{' :: (inside.text ++ '}' :: t) := by
      simp [Written.text]
    rw [htext]
    exact run_step (hat.step_open hp hs hd).2 (run_blanks inside (run_step rfl h) trivial)
  | .array items, frames, known, passing, s, t, w, hat, hs, hd, _, h => by
    have htext : Written.text (.array items) ++ t = '[' :: (items.text ++ ']' :: t) := by
      simp [Written.text]
    have hinner : ∀ sh, known = some sh → frames.length + 1 + items.depthIn sh 0 ≤ depthLimit := by
      intro sh hsh
      have hdepth := hd sh hsh
      rw [Written.depthIn] at hdepth
      omega
    have hopen : ∀ sh, known = some sh → frames.length < depthLimit := by
      intro sh hsh
      have hdepth := hinner sh hsh
      omega
    rw [htext]
    exact run_step (hat.step_open hp hs hopen).1
      (run_items hp items [] frames known passing .firstItem t w hat (.inl rfl) hinner h)
  | .object fields, frames, known, passing, s, t, w, hat, hs, hd, _, h => by
    have htext : Written.text (.object fields) ++ t = '{' :: (fields.text ++ '}' :: t) := by
      simp [Written.text]
    have hinner : ∀ sh, known = some sh → frames.length + 1 + fields.depthIn sh ≤ depthLimit := by
      intro sh hsh
      have hdepth := hd sh hsh
      rw [Written.depthIn] at hdepth
      omega
    have hopen : ∀ sh, known = some sh → frames.length < depthLimit := by
      intro sh hsh
      have hdepth := hinner sh hsh
      omega
    rw [htext]
    exact run_step (hat.step_open hp hs hopen).2
      (run_fields hp fields [] [] frames known passing .firstKey t w hat (.inl rfl) hinner h)

theorem run_items (hp : Knows p root) : ∀ (its : WrittenItems) (items : List Json)
    (frames : List Frame) (known : Option Shape) (passing : Option Nat) (s : State) (t : Text)
    (w : Json), Stands root frames known passing → ExpectsItem s →
    (∀ sh, known = some sh → frames.length + 1 + its.depthIn sh items.length ≤ depthLimit) →
    run p (deliver p ⟨frames, .value, passing⟩
      (.arr (items.reverse ++ its.readAs p.enter known items.length))) t = .ok w →
      run p ⟨.array items :: frames, s, passing⟩ (its.text ++ ']' :: t) = .ok w
  | .last before v after, items, frames, known, passing, s, t, w, hat, hs, hd, h => by
    rw [WrittenItems.text, List.append_assoc, List.append_assoc]
    have hdepth : ∀ sh, known.map (·.item items.length) = some sh →
        frames.length + 1 + v.depthIn sh ≤ depthLimit := by
      intro sh hsh
      obtain ⟨sh', rfl, rfl⟩ := Option.map_eq_some_iff.mp hsh
      exact hd sh' rfl
    refine run_blanks before (run_value hp v _ _ passing s _ w (hat.array items) hs.expects.1 hdepth
      (follows_blanks _ after rfl t) ?_) hs.expects.2
    rw [hat.deliver_item]
    refine run_blanks after (run_step rfl ?_) trivial
    rw [WrittenItems.readAs, ← List.reverse_cons] at h
    exact h
  | .cons before v after its, items, frames, known, passing, s, t, w, hat, hs, hd, h => by
    rw [WrittenItems.text, List.append_assoc, List.append_assoc, List.append_assoc]
    have hdepth : ∀ sh, known.map (·.item items.length) = some sh →
        frames.length + 1 + v.depthIn sh ≤ depthLimit := by
      intro sh hsh
      obtain ⟨sh', rfl, rfl⟩ := Option.map_eq_some_iff.mp hsh
      have hmax := hd sh' rfl
      rw [WrittenItems.depthIn] at hmax
      omega
    refine run_blanks before (run_value hp v _ _ passing s _ w (hat.array items) hs.expects.1 hdepth
      (follows_blanks _ after rfl _) ?_) hs.expects.2
    rw [hat.deliver_item]
    refine run_blanks after (run_step rfl ?_) trivial
    refine run_items hp its (_ :: items) frames known passing .item t w hat (.inr rfl) ?_ ?_
    · intro sh hsh
      have hmax := hd sh hsh
      rw [WrittenItems.depthIn] at hmax
      rw [List.length_cons]
      omega
    · rw [List.reverse_cons, List.append_assoc]
      exact h

theorem run_fields (hp : Knows p root) : ∀ (fs : WrittenFields) (fields : List (Text × Json))
    (key : Text) (frames : List Frame) (known : Option Shape) (passing : Option Nat) (s : State)
    (t : Text) (w : Json), Stands root frames known passing → ExpectsKey s →
    (∀ sh, known = some sh → frames.length + 1 + fs.depthIn sh ≤ depthLimit) →
    run p (deliver p ⟨frames, .value, passing⟩ (.obj (fs.readAs p.enter known fields))) t = .ok w →
      run p ⟨.object fields key :: frames, s, passing⟩ (fs.text ++ '}' :: t) = .ok w
  | .last k v after, fields, key, frames, known, passing, s, t, w, hat, hs, hd, h => by
    rw [WrittenFields.text, List.append_assoc, List.append_assoc]
    refine reads_name hs k (run_blanks k.afterColon ?_ trivial)
    obtain ⟨passing', hin, hsettle, hdeliver⟩ :=
      hat.field hp fields (stringAs passing.isNone k.name)
    refine run_settled hp hin hsettle v (run_value hp v _ _ passing' .value _ w hin trivial ?_
      (follows_blanks _ after rfl t) ?_)
    · intro sh hsh
      obtain ⟨sh', rfl, hf⟩ := Option.bind_eq_some_iff.mp hsh
      have hdepth := hd sh' rfl
      rw [hat.isNone, Option.isSome_some, stringAs_true] at hf
      rw [WrittenFields.depthIn, hf] at hdepth
      exact hdepth
    · rw [hdeliver]
      refine run_blanks after (run_step rfl ?_) trivial
      rw [hat.isNone]
      exact h
  | .cons k v after fs, fields, key, frames, known, passing, s, t, w, hat, hs, hd, h => by
    rw [WrittenFields.text, List.append_assoc, List.append_assoc, List.append_assoc]
    refine reads_name hs k (run_blanks k.afterColon ?_ trivial)
    obtain ⟨passing', hin, hsettle, hdeliver⟩ :=
      hat.field hp fields (stringAs passing.isNone k.name)
    refine run_settled hp hin hsettle v (run_value hp v _ _ passing' .value _ w hin trivial ?_
      (follows_blanks _ after rfl _) ?_)
    · intro sh hsh
      obtain ⟨sh', rfl, hf⟩ := Option.bind_eq_some_iff.mp hsh
      have hmax := hd sh' rfl
      rw [hat.isNone, Option.isSome_some, stringAs_true] at hf
      rw [WrittenFields.depthIn, hf, Option.elim_some] at hmax
      rw [List.length_cons]
      omega
    · rw [hdeliver]
      refine run_blanks after (run_step rfl ?_) trivial
      refine run_fields hp fs _ _ frames known passing .key t w hat (.inr rfl) ?_ ?_
      · intro sh hsh
        have hmax := hd sh hsh
        rw [WrittenFields.depthIn] at hmax
        omega
      · rw [hat.isNone]
        exact h

end

theorem run_text (hp : Knows p root) {v : Written} (hd : v.depthIn root ≤ depthLimit)
    (before after : Blanks) :
    run p start (before.text ++ (v.text ++ after.text)) =
      .ok (v.readAs p.enter (some root)) := by
  have hend : run p (deliver p ⟨[], .value, none⟩ (v.readAs p.enter (some root))) [] =
      .ok (v.readAs p.enter (some root)) := rfl
  have hafter := run_blanks after hend trivial
  rw [List.append_nil] at hafter
  refine run_blanks before (run_value hp v [] (some root) none .value _ _ (.known rfl) trivial ?_
    (follows_end after) hafter) trivial
  intro sh hsh
  cases hsh
  rw [List.length_nil, Nat.zero_add]
  exact hd

end Reader

end Fixtures.Json
