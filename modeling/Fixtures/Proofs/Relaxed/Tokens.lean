import Fixtures.Proofs.Relaxed.Layout

/-!
# The tokens of portable JSON

The layout makes of a document of portable strings and names the tokens that its
structure has, by induction on that structure. Between brackets a value may take the
white space after it along, which is why a value is followed through together with
what may stand behind it. Before and after the root, a tab in the indentation is the
end of it.
-/

namespace Fixtures

namespace Json

open Relaxed (Token)

mutual

def Written.tokens : Written → List Token
  | .null => [.scalar true Written.null.text]
  | .bool b => [.scalar true (Written.bool b).text]
  | .number n => [.scalar true n.text]
  | .string ps => [.scalar false (stringOf ps)]
  | .emptyArray _ => [.openBracket, .closeBracket]
  | .array items => .openBracket :: (items.tokens ++ [.closeBracket])
  | .emptyObject _ => [.openBrace, .closeBrace]
  | .object fields => .openBrace :: (fields.tokens ++ [.closeBrace])

def WrittenItems.tokens : WrittenItems → List Token
  | .last _ v _ => v.tokens
  | .cons _ v _ rest => v.tokens ++ .comma :: rest.tokens

def WrittenFields.tokens : WrittenFields → List Token
  | .last k v _ => .key :: .scalar false (stringOf k.name) :: .value :: v.tokens
  | .cons k v _ rest =>
    .key :: .scalar false (stringOf k.name) :: .value :: (v.tokens ++ .comma :: rest.tokens)

end

def Written.isContainer : Written → Bool
  | .emptyArray _ => true
  | .array _ => true
  | .emptyObject _ => true
  | .object _ => true
  | _ => false

end Json

namespace Relaxed

open Json (isLineEnd Blanks Written WrittenItems WrittenFields WrittenName WrittenNumber
  WrittenDocument PortableString PortableName Numeral bodyOf stringOf)

/-! ## Preparing the parts of a text -/

theorem carriageReturn_not_mem_text (p : Json.Piece) : '\r' ∉ p.text := by
  have hdigit (d : Json.HexDigit) : '\r' ≠ d.char := by
    intro h
    have hreads := d.reads
    rw [← h] at hreads
    cases hreads
  have hcode (n : Json.Code) : '\r' ∉ n.text := by
    simp [Json.Code.text, hdigit]
  cases p with
  | char c h =>
    rw [Json.Piece.text, List.mem_singleton]
    rintro rfl
    cases h
  | escape letter c h =>
    have hletter : '\r' ≠ letter := by
      rintro rfl
      cases h
    simp [Json.Piece.text, hletter]
  | code n hl ht => simp [Json.Piece.text, hcode]
  | pair lead trail hl ht => simp [Json.Piece.text, hcode]

theorem unifyBreaks_string {ps : List Json.Piece} (hps : PortableString ps) (t : Text) :
    unifyBreaks ('"' :: (bodyOf ps ++ '"' :: t)) = '"' :: (bodyOf ps ++ '"' :: unifyBreaks t) := by
  have hbody : ∀ c ∈ bodyOf ps, c ≠ '\r' ∧ c ≠ '\u0085' := by
    intro c hc
    refine ⟨?_, fun h => hps.noNextLine (h ▸ hc)⟩
    rintro rfl
    obtain ⟨p, -, hp⟩ := List.mem_flatMap.mp hc
    exact carriageReturn_not_mem_text p hp
  rw [unifyBreaks_cons (by decide) (by decide), unifyBreaks_append hbody,
    unifyBreaks_cons (by decide) (by decide)]

theorem unifyBreaks_blanks (g : Blanks) {c : Char} (hc : c ≠ '\n') (cs : Text) :
    unifyBreaks (g.text ++ c :: cs) = unifyBreaks g.text ++ unifyBreaks (c :: cs) :=
  unifyBreaks_append_of_head (by simpa using hc) g.text

theorem unifyBreaks_stop {d : Char} (hd : isStop d = true) (ds : Text) :
    d ≠ '\n' ∧ unifyBreaks (d :: ds) = d :: unifyBreaks ds := by
  simp only [isStop, Bool.or_eq_true, beq_iff_eq] at hd
  rcases hd with (rfl | rfl) | rfl
  all_goals exact ⟨by decide, unifyBreaks_cons (by decide) (by decide) ds⟩

theorem exists_text_eq_cons (v : Written) : ∃ c cs, v.text = c :: cs ∧ c ≠ '\n' := by
  cases v with
  | null => exact ⟨_, _, rfl, by decide⟩
  | bool b => cases b <;> exact ⟨_, _, rfl, by decide⟩
  | number n =>
    obtain ⟨c, cs, hn, -, hnumeric⟩ := Numeral.starts_of_read? n.reads
    refine ⟨c, cs, hn, ?_⟩
    rintro rfl
    have hc := hnumeric '\n' (by rw [hn]; exact List.mem_cons_self)
    cases hc
  | string ps => exact ⟨_, _, rfl, by decide⟩
  | emptyArray g => exact ⟨_, _, rfl, by decide⟩
  | array items => exact ⟨_, _, rfl, by decide⟩
  | emptyObject g => exact ⟨_, _, rfl, by decide⟩
  | object fields => exact ⟨_, _, rfl, by decide⟩

theorem unifyBreaks_value (g : Blanks) (v : Written) (t : Text) :
    unifyBreaks (g.text ++ (v.text ++ t)) = unifyBreaks g.text ++ unifyBreaks (v.text ++ t) := by
  obtain ⟨c, cs, hv, hc⟩ := exists_text_eq_cons v
  rw [hv]
  exact unifyBreaks_blanks g hc (cs ++ t)

theorem unifyBreaks_name {k : WrittenName} (hk : PortableName k) (t : Text) :
    unifyBreaks (k.text ++ t) =
      unifyBreaks k.before.text ++ (k.span ++ ':' :: unifyBreaks (k.afterColon.text ++ t)) := by
  have hsplit : k.text ++ t = k.before.text ++ (k.span ++ ':' :: (k.afterColon.text ++ t)) := by
    simp [WrittenName.text, WrittenName.span]
  have hquote : k.span ++ ':' :: (k.afterColon.text ++ t) =
      '"' :: (bodyOf k.name ++ '"' :: k.beforeColon.text ++ ':' :: (k.afterColon.text ++ t)) := by
    simp [WrittenName.span]
  rw [hsplit, hquote, unifyBreaks_blanks k.before (by decide), ← hquote,
    unifyBreaks_of_isLineEnd hk.oneLine, unifyBreaks_cons (by decide) (by decide)]

namespace Layout

variable {s : Layout} {depth : Nat} {ts : List Token} {x : Text} {allowed : Bool}

/-! ## Scalars -/

theorem isNumeric_ne {c : Char} (h : Numeral.isNumeric c = true) : c ≠ '\r' ∧ c ≠ '\u0085' := by
  constructor
  · rintro rfl
    cases h
  · rintro rfl
    cases h

theorem startsWord_of_starts {c : Char} {cs : Text} (h : Numeral.Starts c cs) (r : Text) :
    StartsWord c (cs ++ r) := by
  have hdigit {d : Char} (hd : d.isDigit = true) :
      isIndicator d = false ∧ d ≠ '-' ∧ d ≠ '.' ∧ isSolid d = true := by
    have hne {a : Char} (ha : a.isDigit = false) : d ≠ a := Numeral.ne_of_isDigit hd ha
    refine ⟨?_, hne rfl, hne rfl, ?_⟩
    · cases hi : isIndicator d with
      | false => rfl
      | true =>
        have hnone : "-?:,[]\x7b\x7d#&*!|>'\"%@`".toList.all (!Char.isDigit ·) = true := rfl
        have hd' := List.all_eq_true.mp hnone d (List.elem_iff.mp hi)
        exact absurd rfl (hne ((Bool.not_eq_true' _).mp hd'))
    · simp [isSolid, isBreak, isBlank, byteOrderMark, hne]
  rcases h with h | ⟨rfl, d, ds, rfl, h⟩
  · exact .inl ⟨(hdigit h).1, (hdigit h).2.2⟩
  · obtain ⟨-, hminus, -, hsolid⟩ := hdigit h
    simp only [isSolid, Bool.not_eq_true', Bool.or_eq_false_iff] at hsolid
    exact .inr ⟨rfl, d, ds ++ r, rfl, hminus, hsolid.1.1.2, hsolid.1.1.1⟩

/-- Between brackets a value is read, in front of what may stand behind it, as its tokens. -/
def Readable (v : Written) : Prop :=
  ∀ (s : Layout) (depth : Nat) (ts : List Token) (x : Text) (after : Blanks) (d : Char) (ds : Text),
    s.Inside (depth + 1) ts → Flat x → isStop d = true →
    s.rest = x ++ unifyBreaks (v.text ++ (after.text ++ d :: ds)) →
      ∃ (s' : Layout) (y : Text), Reaches s s' ∧ s'.Inside (depth + 1) (v.tokens.reverse ++ ts) ∧
        Flat y ∧ s'.rest = y ++ d :: unifyBreaks ds

theorem unifyBreaks_after (after : Blanks) {d : Char} (hd : isStop d = true) (ds : Text) :
    unifyBreaks (after.text ++ d :: ds) = unifyBreaks after.text ++ d :: unifyBreaks ds := by
  obtain ⟨hne, hstop⟩ := unifyBreaks_stop hd ds
  rw [unifyBreaks_blanks after hne, hstop]

theorem readable_word {v : Written} {c : Char} {cs : Text} (htext : v.text = c :: cs)
    (htokens : v.tokens = [.scalar true v.text])
    (hword : ∀ e ∈ c :: cs, isWord e = true ∧ e ≠ '\r' ∧ e ≠ '\u0085')
    (hstarts : ∀ r, StartsWord c (cs ++ r)) : Readable v := by
  intro s depth ts x after d ds hs hx hd hrest
  rw [htext, unifyBreaks_append fun e he => (hword e he).2, unifyBreaks_after after hd] at hrest
  obtain ⟨s', hreach, h, hrest'⟩ := reaches_word (fun e he => (hword e he).1) hstarts hd hs hrest hx
    (flat_unifyBreaks after)
  refine ⟨s', [], hreach, ?_, flat_nil, hrest'⟩
  rw [htokens, htext]
  exact h

theorem isWord_of_isLower {cs : Text} (h : cs.all Char.isLower = true) {e : Char} (he : e ∈ cs) :
    isWord e = true ∧ e ≠ '\r' ∧ e ≠ '\u0085' := by
  have hne {a : Char} (ha : a.isLower = false) : e ≠ a := by
    rintro rfl
    exact Bool.noConfusion ((List.all_eq_true.mp h e he).symm.trans ha)
  simp [isWord, isBreak, isBlank, Plain.isFlowIndicator, hne]

theorem readable_number (n : WrittenNumber) : Readable (.number n) := by
  obtain ⟨c, cs, hn, hstarts, hnumeric⟩ := Numeral.starts_of_read? n.reads
  rw [hn] at hnumeric
  refine readable_word (v := .number n) hn rfl ?_ (startsWord_of_starts hstarts)
  intro e he
  exact ⟨isWord_of_isNumeric (hnumeric e he), isNumeric_ne (hnumeric e he)⟩

theorem readable_string {ps : List Json.Piece} (hps : PortableString ps) : Readable (.string ps) := by
  intro s depth ts x after d ds hs hx hd hrest
  have htext : Written.text (.string ps) ++ (after.text ++ d :: ds) =
      '"' :: (bodyOf ps ++ '"' :: (after.text ++ d :: ds)) := by
    simp [Written.text]
  rw [htext, unifyBreaks_string hps, unifyBreaks_after after hd] at hrest
  obtain ⟨s', hreach, h, hrest'⟩ := reaches_string hps hs hrest hx
  exact ⟨s', _, hreach, h, flat_unifyBreaks after, hrest'⟩

/-! ## Items and fields -/

theorem Readable.item {v : Written} (hv : Readable v) {before after : Blanks} {d : Char} {ds : Text}
    (hs : s.Inside (depth + 1) ts) (hd : isStop d = true)
    (hrest : s.rest = unifyBreaks (before.text ++ (v.text ++ (after.text ++ d :: ds)))) :
    ∃ (s' : Layout) (y : Text), Reaches s s' ∧ s'.Inside (depth + 1) (v.tokens.reverse ++ ts) ∧
      Flat y ∧ s'.rest = y ++ d :: unifyBreaks ds := by
  rw [unifyBreaks_value] at hrest
  exact hv s depth ts _ after d ds hs (flat_unifyBreaks before) hd hrest

theorem Readable.field {v : Written} (hv : Readable v) {k : WrittenName} (hk : PortableName k)
    {after : Blanks} {d : Char} {ds : Text} (hs : s.Inside (depth + 1) ts)
    (hallowed : s.keyAllowed = true) (hd : isStop d = true)
    (hrest : s.rest = unifyBreaks (k.text ++ (v.text ++ (after.text ++ d :: ds)))) :
    ∃ (s' : Layout) (y : Text), Reaches s s' ∧
      s'.Inside (depth + 1)
        (v.tokens.reverse ++ .value :: .scalar false (stringOf k.name) :: .key :: ts) ∧
      Flat y ∧ s'.rest = y ++ d :: unifyBreaks ds := by
  rw [unifyBreaks_name hk] at hrest
  obtain ⟨m, hreach, hm, hmrest⟩ :=
    reaches_name hk hs hallowed hrest (flat_unifyBreaks k.before)
  obtain ⟨s', y, hreach', h, hy, hrest'⟩ := hv.item hm hd hmrest
  exact ⟨s', y, hreach.trans hreach', h, hy, hrest'⟩

theorem reaches_brackets {P : Layout → Prop} {c : Char} {t : Token} {inner : Text} (ht : Opens c t)
    (hs : s.Inside depth ts) (hx : s.Passes x) (hrest : s.rest = x ++ unifyBreaks (c :: inner))
    (hinner : ∀ m : Layout, m.Inside (depth + 1) (t :: ts) → m.keyAllowed = true →
      m.rest = unifyBreaks inner → ∃ s', Reaches m s' ∧ P s') :
    ∃ s', Reaches s s' ∧ P s' := by
  have hc : unifyBreaks (c :: inner) = c :: unifyBreaks inner := by
    rcases ht with ⟨rfl, -⟩ | ⟨rfl, -⟩
    · exact unifyBreaks_cons (by decide) (by decide) inner
    · exact unifyBreaks_cons (by decide) (by decide) inner
  rw [hc] at hrest
  obtain ⟨m, hreach, hm, hmrest, hallowed⟩ := reaches_open ht hs hrest hx
  obtain ⟨s', hreach', h⟩ := hinner m hm hallowed hmrest
  exact ⟨s', hreach.trans hreach', h⟩

theorem reaches_end {c : Char} {t : Token} (ht : Closes c t) (inside : Blanks) (rest : Text)
    (hs : s.Inside (depth + 1) ts) (hrest : s.rest = unifyBreaks (inside.text ++ c :: rest)) :
    ∃ s', Reaches s s' ∧ s'.Inside depth (t :: ts) ∧ s'.rest = unifyBreaks rest ∧
      s'.keyAllowed = false := by
  have hc : isStop c = true := by
    rcases ht with ⟨rfl, -⟩ | ⟨rfl, -⟩
    · rfl
    · rfl
  rw [unifyBreaks_after inside hc] at hrest
  exact reaches_close ht hs hrest (flat_unifyBreaks inside)

def Contains (v : Written) : Prop :=
  ∀ (s : Layout) (depth : Nat) (ts : List Token) (x rest : Text),
    s.Inside depth ts → s.Passes x → s.rest = x ++ unifyBreaks (v.text ++ rest) →
      ∃ s', Reaches s s' ∧ s'.Inside depth (v.tokens.reverse ++ ts) ∧ s'.rest = unifyBreaks rest ∧
        s'.keyAllowed = false

theorem Contains.readable {v : Written} (h : Contains v) : Readable v := by
  intro s depth ts x after d ds hs hx hd hrest
  obtain ⟨s', hreach, h', hrest', -⟩ := h s (depth + 1) ts x _ hs (hs.passes hx) hrest
  rw [unifyBreaks_after after hd] at hrest'
  exact ⟨s', _, hreach, h', flat_unifyBreaks after, hrest'⟩

theorem contains_emptyArray (inside : Blanks) : Contains (.emptyArray inside) := by
  intro s depth ts x rest hs hx hrest
  have htext : Written.text (.emptyArray inside) ++ rest = '[' :: (inside.text ++ ']' :: rest) := by
    simp [Written.text]
  rw [htext] at hrest
  exact reaches_brackets (.inl ⟨rfl, rfl⟩) hs hx hrest fun m hm _ hmrest =>
    reaches_end (.inl ⟨rfl, rfl⟩) inside rest hm hmrest

theorem contains_emptyObject (inside : Blanks) : Contains (.emptyObject inside) := by
  intro s depth ts x rest hs hx hrest
  have htext : Written.text (.emptyObject inside) ++ rest = '{' :: (inside.text ++ '}' :: rest) := by
    simp [Written.text]
  rw [htext] at hrest
  exact reaches_brackets (.inr ⟨rfl, rfl⟩) hs hx hrest fun m hm _ hmrest =>
    reaches_end (.inr ⟨rfl, rfl⟩) inside rest hm hmrest

def ReadableItems (items : WrittenItems) : Prop :=
  ∀ (s : Layout) (depth : Nat) (ts : List Token) (rest : Text), s.Inside (depth + 1) ts →
    s.rest = unifyBreaks (items.text ++ ']' :: rest) →
      ∃ s', Reaches s s' ∧ s'.Inside depth (.closeBracket :: (items.tokens.reverse ++ ts)) ∧
        s'.rest = unifyBreaks rest ∧ s'.keyAllowed = false

def ReadableFields (fields : WrittenFields) : Prop :=
  ∀ (s : Layout) (depth : Nat) (ts : List Token) (rest : Text), s.Inside (depth + 1) ts →
    s.keyAllowed = true → s.rest = unifyBreaks (fields.text ++ '}' :: rest) →
      ∃ s', Reaches s s' ∧ s'.Inside depth (.closeBrace :: (fields.tokens.reverse ++ ts)) ∧
        s'.rest = unifyBreaks rest ∧ s'.keyAllowed = false

theorem contains_array {items : WrittenItems} (h : ReadableItems items) :
    Contains (.array items) := by
  intro s depth ts x rest hs hx hrest
  have htext : Written.text (.array items) ++ rest = '[' :: (items.text ++ ']' :: rest) := by
    simp [Written.text]
  have htokens : (Written.array items).tokens.reverse ++ ts =
      .closeBracket :: (items.tokens.reverse ++ .openBracket :: ts) := by
    simp [Written.tokens]
  rw [htext] at hrest
  rw [htokens]
  exact reaches_brackets (.inl ⟨rfl, rfl⟩) hs hx hrest fun m hm _ hmrest =>
    h m depth _ rest hm hmrest

theorem contains_object {fields : WrittenFields} (h : ReadableFields fields) :
    Contains (.object fields) := by
  intro s depth ts x rest hs hx hrest
  have htext : Written.text (.object fields) ++ rest = '{' :: (fields.text ++ '}' :: rest) := by
    simp [Written.text]
  have htokens : (Written.object fields).tokens.reverse ++ ts =
      .closeBrace :: (fields.tokens.reverse ++ .openBrace :: ts) := by
    simp [Written.tokens]
  rw [htext] at hrest
  rw [htokens]
  exact reaches_brackets (.inr ⟨rfl, rfl⟩) hs hx hrest fun m hm hallowed hmrest =>
    h m depth _ rest hm hallowed hmrest

mutual

theorem readable : ∀ (v : Written) (_ : v.Portable), Readable v
  | .null, _ => readable_word rfl rfl (fun _ => isWord_of_isLower rfl) fun _ => .inl (by decide)
  | .bool true, _ => readable_word rfl rfl (fun _ => isWord_of_isLower rfl) fun _ => .inl (by decide)
  | .bool false, _ => readable_word rfl rfl (fun _ => isWord_of_isLower rfl) fun _ => .inl (by decide)
  | .number n, _ => readable_number n
  | .string ps, h => readable_string h
  | .emptyArray inside, _ => (contains_emptyArray inside).readable
  | .array items, h => (contains_array (readableItems items h)).readable
  | .emptyObject inside, _ => (contains_emptyObject inside).readable
  | .object fields, h => (contains_object (readableFields fields h)).readable

theorem readableItems : ∀ (items : WrittenItems) (_ : items.Portable), ReadableItems items
  | .last before v after, h => by
    intro s depth ts rest hs hrest
    rw [WrittenItems.text, List.append_assoc, List.append_assoc] at hrest
    obtain ⟨m, y, hreach, hm, hy, hmrest⟩ := (readable v h).item hs rfl hrest
    obtain ⟨s', hreach', h', hrest', hallowed⟩ := reaches_close (.inl ⟨rfl, rfl⟩) hm hmrest hy
    exact ⟨s', hreach.trans hreach', h', hrest', hallowed⟩
  | .cons before v after items, h => by
    intro s depth ts rest hs hrest
    rw [WrittenItems.text, List.append_assoc, List.append_assoc, List.append_assoc] at hrest
    obtain ⟨m, y, hreach, hm, hy, hmrest⟩ := (readable v h.1).item hs rfl hrest
    obtain ⟨m', hreach', hm', hmrest', -⟩ := reaches_comma hm hmrest hy
    obtain ⟨s', hreach'', h', hrest', hallowed⟩ := readableItems items h.2 m' depth _ rest hm' hmrest'
    refine ⟨s', (hreach.trans hreach').trans hreach'', ?_, hrest', hallowed⟩
    simpa [WrittenItems.tokens] using h'

theorem readableFields : ∀ (fields : WrittenFields) (_ : fields.Portable), ReadableFields fields
  | .last k v after, h => by
    intro s depth ts rest hs hkey hrest
    rw [WrittenFields.text, List.append_assoc, List.append_assoc] at hrest
    obtain ⟨m, y, hreach, hm, hy, hmrest⟩ := (readable v h.2).field h.1 hs hkey rfl hrest
    obtain ⟨s', hreach', h', hrest', hallowed⟩ := reaches_close (.inr ⟨rfl, rfl⟩) hm hmrest hy
    refine ⟨s', hreach.trans hreach', ?_, hrest', hallowed⟩
    simpa [WrittenFields.tokens] using h'
  | .cons k v after fields, h => by
    intro s depth ts rest hs hkey hrest
    rw [WrittenFields.text, List.append_assoc, List.append_assoc, List.append_assoc] at hrest
    obtain ⟨m, y, hreach, hm, hy, hmrest⟩ := (readable v h.2.1).field h.1 hs hkey rfl hrest
    obtain ⟨m', hreach', hm', hmrest', hkey'⟩ := reaches_comma hm hmrest hy
    obtain ⟨s', hreach'', h', hrest', hallowed⟩ :=
      readableFields fields h.2.2 m' depth _ rest hm' hkey' hmrest'
    refine ⟨s', (hreach.trans hreach').trans hreach'', ?_, hrest', hallowed⟩
    simpa [WrittenFields.tokens] using h'

end

theorem contains {v : Written} (hv : v.Portable) (hc : v.isContainer = true) : Contains v := by
  cases v with
  | emptyArray inside => exact contains_emptyArray inside
  | array items => exact contains_array (readableItems items hv)
  | emptyObject inside => exact contains_emptyObject inside
  | object fields => exact contains_object (readableFields fields hv)
  | _ => cases hc

/-! ## Documents -/

theorem spaceFrom_commented {comment : Text} (hcomment : ∀ c ∈ comment, isBreak c = false)
    (t : Text) :
    spaceFrom false true true false ('#' :: (comment ++ '\n' :: t)) =
      spaceFrom false true true false t :=
  spaceFrom_comment hcomment false t

theorem run_end (n : Nat) (hs : s.Inside 0 ts)
    (hspace : spaceFrom s.inFlow (s.column == 0) s.keyAllowed false s.rest = ([], allowed)) :
    run (n + 1) s = some ts.reverse := by
  obtain ⟨m, hsettle, hm, hmrest, -⟩ := settle_eq hs (List.append_nil s.rest).symm hspace
  rw [run, hsettle]
  simp only [hmrest]
  rw [finish, leave_eq hm.outerIndents, dropKey_eq hm, Option.map_some, hm.tokens]

theorem run_tab (n : Nat) {cs : Text} (hs : s.Inside depth ts) (hrest : s.rest = x ++ '\t' :: cs)
    (hspace : spaceFrom s.inFlow (s.column == 0) s.keyAllowed false s.rest = ('\t' :: cs, allowed)) :
    run (n + 1) s = none := by
  obtain ⟨m, hsettle, -, hmrest, -⟩ := settle_eq hs hrest hspace
  have htoken : m.token '\t' cs = none := by
    simp [token, isMarker_of_ne, startsPlain, isBlank]
  rw [run, hsettle]
  simp only [hmrest, htoken, Option.bind_none]

theorem run_root {d : WrittenDocument} (hd : d.root.Portable) (hc : d.root.isContainer = true)
    (hbefore : '\t' ∉ d.before.text) {comment : Text} (hcomment : ∀ c ∈ comment, isBreak c = false) :
    ∃ (s' : Layout) (n : Nat),
      tokens? ('#' :: (comment ++ '\n' :: unifyBreaks d.text)) = run (n + 1) s' ∧
        s'.Inside 0 d.root.tokens.reverse ∧ s'.rest = unifyBreaks d.after.text ∧ s'.inFlow = false ∧
        s'.keyAllowed = false := by
  obtain ⟨t, ht⟩ : ∃ t, t = '#' :: (comment ++ '\n' :: unifyBreaks d.text) := ⟨_, rfl⟩
  have hrest : (start t).rest = '#' :: (comment ++ '\n' :: unifyBreaks d.before.text) ++
      unifyBreaks (d.root.text ++ d.after.text) := by
    rw [ht, WrittenDocument.text, unifyBreaks_value]
    simp [start]
  have hpasses : (start t).Passes ('#' :: (comment ++ '\n' :: unifyBreaks d.before.text)) := by
    intro c cs hc
    obtain ⟨lineStart, h⟩ := spaceFrom_append false true true (flat_unifyBreaks d.before)
      (.inr (.inl ⟨rfl, mt tab_mem_unifyBreaks.mp hbefore⟩))
    have hsplit : '#' :: (comment ++ '\n' :: unifyBreaks d.before.text) ++ c :: cs =
        '#' :: (comment ++ '\n' :: (unifyBreaks d.before.text ++ c :: cs)) := by simp
    rw [hsplit]
    refine (spaceFrom_commented hcomment _).trans ?_
    rw [h, spaceFrom_solid hc]
    rfl
  obtain ⟨s', ⟨k, hk, hrun⟩, h, hrest', hallowed⟩ :=
    contains hd hc _ 0 [] _ d.after.text (inside_start t) hpasses hrest
  obtain ⟨n, hn⟩ := Nat.exists_eq_add_of_le (Nat.le_trans (Nat.le_add_right _ _) hk)
  have hlen : t.length + 1 = k + (n + 1) := by
    rw [← Nat.add_assoc, ← hn]
    rfl
  refine ⟨s', n, ?_, ?_, hrest', ?_, hallowed⟩
  · rw [← ht, tokens?, hlen, hrun]
  · rw [List.append_nil] at h
    exact h
  · rw [inFlow, List.eq_nil_of_length_eq_zero h.outerKeys]
    rfl

end Layout

variable {d : WrittenDocument} {comment : Text}

/-- **A document of portable strings and names has the tokens of its structure**, unless indentation
has tabs. -/
theorem tokens?_document (hd : d.root.Portable) (hc : d.root.isContainer = true)
    (hbefore : '\t' ∉ d.before.text) (hafter : '\t' ∉ d.after.text.dropWhile (!isLineEnd ·))
    (hcomment : ∀ c ∈ comment, isBreak c = false) :
    tokens? ('#' :: (comment ++ '\n' :: unifyBreaks d.text)) = some d.root.tokens := by
  obtain ⟨s, n, hrun, h, hrest, hflow, hallowed⟩ := Layout.run_root hd hc hbefore hcomment
  obtain ⟨allowed, hspace⟩ := (Layout.spaceFrom_after d.after (s.column == 0)).1 hafter
  have hend : Layout.spaceFrom s.inFlow (s.column == 0) s.keyAllowed false s.rest = ([], allowed) := by
    rw [hflow, hallowed, hrest, hspace]
  rw [hrun, Layout.run_end n h hend, List.reverse_reverse]

theorem tokens?_tab_before (htab : '\t' ∈ d.before.text) (hcomment : ∀ c ∈ comment, isBreak c = false) :
    tokens? ('#' :: (comment ++ '\n' :: unifyBreaks d.text)) = none := by
  obtain ⟨x, cs, hsplit, hspace⟩ := Layout.spaceFrom_tab (flat_unifyBreaks d.before)
    (tab_mem_unifyBreaks.mpr htab) true (unifyBreaks (d.root.text ++ d.after.text))
  have htext : unifyBreaks d.text =
      unifyBreaks d.before.text ++ unifyBreaks (d.root.text ++ d.after.text) :=
    unifyBreaks_value d.before d.root d.after.text
  rw [← htext] at hsplit hspace
  refine Layout.run_tab _ (Layout.inside_start _) (x := '#' :: (comment ++ '\n' :: x)) ?_
    ((Layout.spaceFrom_commented hcomment _).trans hspace)
  rw [hsplit]
  simp [Layout.start]

theorem tokens?_tab_after (hd : d.root.Portable) (hc : d.root.isContainer = true)
    (hbefore : '\t' ∉ d.before.text) (htab : '\t' ∈ d.after.text.dropWhile (!isLineEnd ·))
    (hcomment : ∀ c ∈ comment, isBreak c = false) :
    tokens? ('#' :: (comment ++ '\n' :: unifyBreaks d.text)) = none := by
  obtain ⟨s, n, hrun, h, hrest, hflow, hallowed⟩ := Layout.run_root hd hc hbefore hcomment
  obtain ⟨y, cs, hsplit, hspace⟩ := (Layout.spaceFrom_after d.after (s.column == 0)).2 htab
  have hstop : Layout.spaceFrom s.inFlow (s.column == 0) s.keyAllowed false s.rest =
      ('\t' :: cs, true) := by
    rw [hflow, hallowed, hrest, hspace]
  rw [hrun, Layout.run_tab n h (hrest.trans hsplit) hstop]

end Relaxed

end Fixtures
