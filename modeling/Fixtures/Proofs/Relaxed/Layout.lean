import Fixtures.Proofs.Relaxed.Plain
import Fixtures.Proofs.Relaxed.Quoted
import Fixtures.Proofs.Text.Position

/-!
# The layout of portable JSON

JSON has brackets around everything, so no block is ever entered and no place
must be a key: that is what `Inside` says of a layout. A round of the layout
passes over white space and reads one token. `Reaches` strings rounds together,
along the structure of the document, and each takes at least one character.
-/

namespace Fixtures

namespace Relaxed

open Json (isLineEnd Blanks WrittenName PortableString PortableName bodyOf stringOf)

namespace Layout

variable {s s' m : Layout} {depth : Nat} {ts : List Token} {t : Token} {c : Char}
  {x cs rest : Text} {allowed : Bool}

/-! ## Going on in the text -/

theorem skip_append (x : Text) (s : Layout) (h : s.rest = x ++ rest) :
    ∃ column, s.skip x.length =
      { s with
        rest := rest, index := s.index + Text.byteSize x, line := s.line + x.countP isBreak,
        column := column } := by
  induction x generalizing s with
  | nil =>
    obtain ⟨_, index, line, column, _, _, _, _, _, _, _⟩ := s
    cases h
    exact ⟨column, rfl⟩
  | cons c x ih =>
    have hindex : s.index + Text.byteSize (c :: x) = s.index + c.utf8Size + Text.byteSize x := by
      rw [Nat.add_assoc]
      rfl
    have hskip : s.skip (c :: x).length =
        (if isBreak c then
          { s with rest := x ++ rest, index := s.index + c.utf8Size, line := s.line + 1, column := 0 }
        else
          { s with
            rest := x ++ rest, index := s.index + c.utf8Size, column := s.column + 1 }).skip
          x.length := by
      rw [List.length_cons, skip, h]
      rfl
    cases hc : isBreak c with
    | true =>
      rw [hc, if_pos rfl] at hskip
      obtain ⟨column, hih⟩ := ih { s with
        rest := x ++ rest, index := s.index + c.utf8Size, line := s.line + 1, column := 0 } rfl
      refine ⟨column, ?_⟩
      rw [hskip, hih, hindex, List.countP_cons_of_pos hc, Nat.add_comm (x.countP isBreak) 1,
        ← Nat.add_assoc]
    | false =>
      rw [hc, if_neg Bool.false_ne_true] at hskip
      obtain ⟨column, hih⟩ := ih { s with
        rest := x ++ rest, index := s.index + c.utf8Size, column := s.column + 1 } rfl
      refine ⟨column, ?_⟩
      rw [hskip, hih, hindex, List.countP_cons_of_neg (by rw [hc]; nofun)]

theorem moveTo_append (h : s.rest = x ++ rest) :
    ∃ column, s.moveTo rest =
      { s with
        rest := rest, index := s.index + Text.byteSize x, line := s.line + x.countP isBreak,
        column := column } := by
  have hlen : s.rest.length - rest.length = x.length := by
    rw [h, List.length_append, Nat.add_sub_cancel]
  rw [moveTo, hlen]
  exact skip_append x s h

/-- Where so many brackets are open and so many tokens have been read, there is no block, and no
place that must be a key. -/
structure Inside (s : Layout) (depth : Nat) (ts : List Token) : Prop where
  indent : s.indent = -1
  outerIndents : s.outerIndents = []
  outerKeys : s.outerKeys.length = depth
  tokens : s.tokens = ts
  size : s.size = ts.length
  key : ∀ k ∈ s.key, k.required = false
  keys : ∀ o ∈ s.outerKeys, ∀ k ∈ o, k.required = false

theorem Inside.withKey (hs : s.Inside depth ts) {key : Option KeyStart}
    (hkey : ∀ k ∈ key, k.required = false) : { s with key := key }.Inside depth ts :=
  ⟨hs.indent, hs.outerIndents, hs.outerKeys, hs.tokens, hs.size, hkey, hs.keys⟩

theorem inside_start (x : Text) : (start x).Inside 0 [] := ⟨rfl, rfl, rfl, rfl, rfl, nofun, nofun⟩

theorem Inside.inFlow (hs : s.Inside (depth + 1) ts) : s.inFlow = true := by
  have hlen := hs.outerKeys
  rw [Layout.inFlow]
  cases hk : s.outerKeys with
  | nil =>
    rw [hk] at hlen
    cases hlen
  | cons o rest => rfl

theorem leave_eq (h : s.outerIndents = []) (column : Int) : s.leave column = s := by
  rw [leave, h]
  split
  · rfl
  · rfl

/-! ## Places of keys -/

theorem expire_eq {o : Option KeyStart} (ho : ∀ k ∈ o, k.required = false) :
    ∃ o', s.expire o = some o' ∧ (∀ k ∈ o', k.required = false) ∧
      ∀ k, o = some k → k.line = s.line → s.index ≤ k.index + 1024 → o' = some k := by
  cases o with
  | none => exact ⟨none, rfl, nofun, nofun⟩
  | some k =>
    have hk := ho k rfl
    rw [expire, hk]
    split
    · rename_i hold
      refine ⟨none, rfl, nofun, ?_⟩
      rintro _ ⟨⟩ hline hindex
      exfalso
      simp only [Bool.or_eq_true, decide_eq_true_eq] at hold
      omega
    · refine ⟨some k, rfl, ho, ?_⟩
      rintro _ ⟨⟩ _ _
      rfl

theorem mapM_expire {os : List (Option KeyStart)} (hos : ∀ o ∈ os, ∀ k ∈ o, k.required = false) :
    ∃ os', os.mapM s.expire = some os' ∧ os'.length = os.length ∧
      ∀ o ∈ os', ∀ k ∈ o, k.required = false := by
  induction os with
  | nil => exact ⟨[], rfl, rfl, nofun⟩
  | cons o os ih =>
    obtain ⟨ho, hos⟩ := List.forall_mem_cons.mp hos
    obtain ⟨o', hexpire, ho', -⟩ := expire_eq (s := s) ho
    obtain ⟨os', hmap, hlen, hos'⟩ := ih hos
    refine ⟨o' :: os', ?_, ?_, List.forall_mem_cons.mpr ⟨ho', hos'⟩⟩
    · rw [List.mapM_cons, hexpire, hmap]
      rfl
    · rw [List.length_cons, List.length_cons, hlen]

theorem dropKey_eq (hs : s.Inside depth ts) : s.dropKey = some { s with key := none } := by
  have hrequired : s.key.any (·.required) = false := by
    cases hk : s.key with
    | none => rfl
    | some k => exact hs.key k hk
  rw [dropKey, hrequired]
  rfl

theorem saveKey_eq (hs : s.Inside depth ts) :
    ∃ key, s.saveKey = some { s with key := key } ∧ (∀ k ∈ key, k.required = false) ∧
      (s.keyAllowed = true → key = some ⟨s.size, s.index, s.line, s.column, false⟩) := by
  rw [saveKey]
  split
  · have hcolumn : (s.indent == Int.ofNat s.column) = false := by
      rw [hs.indent, beq_eq_false_iff_ne]
      exact nofun
    rw [dropKey_eq hs]
    refine ⟨some ⟨s.size, s.index, s.line, s.column, false⟩, ?_, ?_, fun _ => rfl⟩
    · simp only [Option.map_some, hcolumn, Bool.and_false]
    · rintro k ⟨⟩
      rfl
  · rename_i hallowed
    exact ⟨s.key, rfl, hs.key, fun h => absurd h hallowed⟩

theorem expireKeys_eq (hs : s.Inside depth ts) :
    ∃ m, s.expireKeys = some m ∧ m.Inside depth ts ∧
      (m.rest = s.rest ∧ m.index = s.index ∧ m.line = s.line ∧ m.keyAllowed = s.keyAllowed) ∧
      ∀ k, s.key = some k → k.line = s.line → s.index ≤ k.index + 1024 → m.key = some k := by
  obtain ⟨key, hkey, hnot, hkeep⟩ := expire_eq (s := s) hs.key
  obtain ⟨outerKeys, hmap, hlen, hnots⟩ := mapM_expire (s := s) hs.keys
  refine ⟨{ s with key := key, outerKeys := outerKeys }, ?_, ?_, ⟨rfl, rfl, rfl, rfl⟩, hkeep⟩
  · rw [expireKeys, hkey, hmap]
  · exact ⟨hs.indent, hs.outerIndents, hlen.trans hs.outerKeys, hs.tokens, hs.size, hnot, hnots⟩

/-! ## Rounds -/

/-- After some rounds, each of which takes some of the text, the layout goes on from `s'`. -/
def Reaches (s s' : Layout) : Prop :=
  ∃ k, k + s'.rest.length ≤ s.rest.length ∧ ∀ n, run (k + n) s = run n s'

theorem Reaches.trans {s'' : Layout} (h : Reaches s s') (h' : Reaches s' s'') : Reaches s s'' := by
  obtain ⟨k, hk, hrun⟩ := h
  obtain ⟨k', hk', hrun'⟩ := h'
  refine ⟨k + k', by omega, fun n => ?_⟩
  rw [Nat.add_assoc, hrun, hrun']

theorem settle_eq (hs : s.Inside depth ts) (hrest : s.rest = x ++ rest)
    (hspace : spaceFrom s.inFlow (s.column == 0) s.keyAllowed false s.rest = (rest, allowed)) :
    ∃ m, s.settle = some m ∧ m.Inside depth ts ∧ m.rest = rest ∧ m.keyAllowed = allowed ∧
      m.index = s.index + Text.byteSize x ∧ m.line = s.line + x.countP isBreak ∧
      ∀ k, s.key = some k → k.line = m.line → m.index ≤ k.index + 1024 → m.key = some k := by
  obtain ⟨column, hmove⟩ := moveTo_append hrest
  have hmoved : s.space.Inside depth ts ∧ s.space.rest = rest ∧ s.space.keyAllowed = allowed ∧
      s.space.index = s.index + Text.byteSize x ∧ s.space.line = s.line + x.countP isBreak ∧
      s.space.key = s.key := by
    rw [space, hspace, hmove]
    exact ⟨⟨hs.indent, hs.outerIndents, hs.outerKeys, hs.tokens, hs.size, hs.key, hs.keys⟩, rfl, rfl,
      rfl, rfl, rfl⟩
  obtain ⟨hspaced, hrest', hallowed, hindex, hline, hkey⟩ := hmoved
  obtain ⟨m, hexpire, hm, ⟨hmrest, hmindex, hmline, hmallowed⟩, hkeep⟩ := expireKeys_eq hspaced
  refine ⟨m, ?_, hm, hmrest.trans hrest', hmallowed.trans hallowed, hmindex.trans hindex,
    hmline.trans hline, fun k hk => ?_⟩
  · rw [settle, hexpire, Option.map_some, leave_eq hm.outerIndents]
  · rw [hmline, hmindex]
    exact hkeep k (hkey.trans hk)

def Passes (s : Layout) (x : Text) : Prop :=
  ∀ (c : Char) (cs : Text), isSolid c = true →
    spaceFrom s.inFlow (s.column == 0) s.keyAllowed false (x ++ c :: cs) = (c :: cs, s.keyAllowed)

theorem Inside.passes (hs : s.Inside (depth + 1) ts) (hx : Flat x) : s.Passes x := by
  intro c cs hc
  rw [hs.inFlow]
  obtain ⟨lineStart, h⟩ := spaceFrom_append true s.keyAllowed (s.column == 0) hx (.inl rfl)
  rw [h, spaceFrom_solid hc]

theorem reaches_of_token {P : Layout → Prop} (hs : s.Inside depth ts) (hrest : s.rest = x ++ c :: cs)
    (hx : s.Passes x) (hc : isSolid c = true)
    (htoken : ∀ m : Layout, m.Inside depth ts → m.rest = c :: cs → m.keyAllowed = s.keyAllowed →
      (∀ k, s.key = some k → k.line = s.line + x.countP isBreak →
        s.index + Text.byteSize x ≤ k.index + 1024 → m.key = some k) →
      ∃ s', m.token c cs = some s' ∧ s'.rest.length ≤ cs.length ∧ P s') :
    ∃ s', Reaches s s' ∧ P s' := by
  obtain ⟨m, hsettle, hm, hmrest, hallowed, hindex, hline, hkeep⟩ :=
    settle_eq hs hrest (by rw [hrest]; exact hx c cs hc)
  rw [hindex, hline] at hkeep
  obtain ⟨s', htoken, hlen, hP⟩ := htoken m hm hmrest hallowed hkeep
  refine ⟨s', ⟨1, ?_, fun n => ?_⟩, hP⟩
  · rw [hrest, List.length_append, List.length_cons]
    omega
  · rw [Nat.add_comm, run, hsettle]
    simp only [hmrest, htoken, Option.bind_some]

/-! ## Brackets and commas -/

theorem Inside.read (hs : s.Inside depth ts) (hrest : s.rest = x ++ rest) (t : Token)
    (allowed : Bool) :
    (s.read t rest allowed).Inside depth (t :: ts) ∧ (s.read t rest allowed).rest = rest ∧
      (s.read t rest allowed).keyAllowed = allowed ∧ (s.read t rest allowed).key = s.key ∧
      (s.read t rest allowed).index = s.index + Text.byteSize x ∧
      (s.read t rest allowed).line = s.line + x.countP isBreak := by
  obtain ⟨column, hmove⟩ := moveTo_append hrest
  rw [Layout.read, hmove]
  refine ⟨⟨hs.indent, hs.outerIndents, hs.outerKeys, ?_, ?_, hs.key, hs.keys⟩, rfl, rfl, rfl, rfl, rfl⟩
  · exact congrArg (t :: ·) hs.tokens
  · exact congrArg (· + 1) hs.size

theorem openFlow_eq (hs : s.Inside depth ts) (hrest : s.rest = c :: cs) (t : Token) :
    ∃ s', s.openFlow t = some s' ∧ s'.Inside (depth + 1) (t :: ts) ∧ s'.rest = cs ∧
      s'.keyAllowed = true := by
  obtain ⟨key, hsave, hkey, -⟩ := saveKey_eq hs
  have hsaved := hs.withKey hkey
  have hsplit : s.rest = [c] ++ cs := hrest
  obtain ⟨hread, hrest', hallowed, -, -, -⟩ := hsaved.read hsplit t true
  have hdrop : s.rest.drop 1 = cs := by rw [hrest]; rfl
  rw [openFlow, hsave]
  simp only [hdrop]
  refine ⟨_, rfl, ⟨hread.indent, hread.outerIndents, ?_, hread.tokens, hread.size, nofun, ?_⟩, hrest',
    hallowed⟩
  · exact congrArg (· + 1) hread.outerKeys
  · exact List.forall_mem_cons.mpr ⟨hread.key, hread.keys⟩

theorem separator_eq (hs : s.Inside depth ts) (hrest : s.rest = c :: cs) (t : Token)
    (allowed : Bool) :
    ∃ s', s.separator t allowed = some s' ∧ s'.Inside depth (t :: ts) ∧ s'.rest = cs ∧
      s'.keyAllowed = allowed := by
  have hdropped : { s with key := none }.Inside depth ts := hs.withKey nofun
  have hsplit : s.rest = [c] ++ cs := hrest
  obtain ⟨hread, hrest', hallowed, -, -, -⟩ := hdropped.read hsplit t allowed
  have hdrop : s.rest.drop 1 = cs := by rw [hrest]; rfl
  rw [separator, dropKey_eq hs, Option.map_some, hdrop]
  exact ⟨_, rfl, hread, hrest', hallowed⟩

theorem closeFlow_eq (hs : s.Inside (depth + 1) ts) (hrest : s.rest = c :: cs) (t : Token) :
    ∃ s', s.closeFlow t = some s' ∧ s'.Inside depth (t :: ts) ∧ s'.rest = cs ∧
      s'.keyAllowed = false := by
  obtain ⟨m, hsep, hm, hrest', hallowed⟩ := separator_eq hs hrest t false
  rw [closeFlow, hsep]
  cases hk : m.outerKeys with
  | nil =>
    have hlen := hm.outerKeys
    rw [hk] at hlen
    cases hlen
  | cons k os =>
    have hlen := hm.outerKeys
    rw [hk, List.length_cons, Nat.succ_inj] at hlen
    have hkeys := hm.keys
    rw [hk] at hkeys
    obtain ⟨hkey, hkeys⟩ := List.forall_mem_cons.mp hkeys
    exact ⟨{ m with key := k, outerKeys := os }, by simp only [hk],
      ⟨hm.indent, hm.outerIndents, hlen, hm.tokens, hm.size, hkey, hkeys⟩, hrest', hallowed⟩

def Opens (c : Char) (t : Token) : Prop :=
  c = '[' ∧ t = .openBracket ∨ c = '{' ∧ t = .openBrace

def Closes (c : Char) (t : Token) : Prop :=
  c = ']' ∧ t = .closeBracket ∨ c = '}' ∧ t = .closeBrace

theorem reaches_open (ht : Opens c t) (hs : s.Inside depth ts) (hrest : s.rest = x ++ c :: cs)
    (hx : s.Passes x) :
    ∃ s', Reaches s s' ∧ s'.Inside (depth + 1) (t :: ts) ∧ s'.rest = cs ∧ s'.keyAllowed = true := by
  have hopen : isSolid c = true ∧ ∀ m : Layout, m.token c cs = m.openFlow t := by
    rcases ht with ⟨rfl, rfl⟩ | ⟨rfl, rfl⟩
    · exact ⟨rfl, fun m => by simp [token, isMarker_of_ne]⟩
    · exact ⟨rfl, fun m => by simp [token, isMarker_of_ne]⟩
  refine reaches_of_token hs hrest hx hopen.1 fun m hm hmrest _ _ => ?_
  obtain ⟨s', htoken, h, hcs, hallowed⟩ := openFlow_eq hm hmrest t
  exact ⟨s', (hopen.2 m).trans htoken, Nat.le_of_eq (congrArg List.length hcs), h, hcs,
    hallowed⟩

theorem reaches_close (ht : Closes c t) (hs : s.Inside (depth + 1) ts)
    (hrest : s.rest = x ++ c :: cs) (hx : Flat x) :
    ∃ s', Reaches s s' ∧ s'.Inside depth (t :: ts) ∧ s'.rest = cs ∧ s'.keyAllowed = false := by
  have hclose : isSolid c = true ∧ ∀ m : Layout, m.token c cs = m.closeFlow t := by
    rcases ht with ⟨rfl, rfl⟩ | ⟨rfl, rfl⟩
    · exact ⟨rfl, fun m => by simp [token, isMarker_of_ne]⟩
    · exact ⟨rfl, fun m => by simp [token, isMarker_of_ne]⟩
  refine reaches_of_token hs hrest (hs.passes hx) hclose.1 fun m hm hmrest _ _ => ?_
  obtain ⟨s', htoken, h, hcs, hallowed⟩ := closeFlow_eq hm hmrest t
  exact ⟨s', (hclose.2 m).trans htoken, Nat.le_of_eq (congrArg List.length hcs), h, hcs,
    hallowed⟩

theorem reaches_comma (hs : s.Inside (depth + 1) ts) (hrest : s.rest = x ++ ',' :: cs)
    (hx : Flat x) :
    ∃ s', Reaches s s' ∧ s'.Inside (depth + 1) (.comma :: ts) ∧ s'.rest = cs ∧
      s'.keyAllowed = true := by
  refine reaches_of_token hs hrest (hs.passes hx) rfl fun m hm hmrest _ _ => ?_
  obtain ⟨s', htoken, h, hcs, hallowed⟩ := separator_eq hm hmrest .comma true
  exact ⟨s', by simp [token, isMarker_of_ne, htoken], Nat.le_of_eq (congrArg List.length hcs), h, hcs,
    hallowed⟩

/-! ## Scalars -/

theorem quotedScalar_eq {ps : List Json.Piece} (hps : PortableString ps) (hs : s.Inside depth ts)
    (hrest : s.rest = '"' :: (bodyOf ps ++ '"' :: rest)) :
    ∃ s', s.quotedScalar false = some s' ∧ s'.Inside depth (.scalar false (stringOf ps) :: ts) ∧
      s'.rest = rest ∧ s'.index = s.index + Text.byteSize ('"' :: (bodyOf ps ++ ['"'])) ∧
      s'.line = s.line + ('"' :: (bodyOf ps ++ ['"'])).countP isBreak ∧
      (s.keyAllowed = true → s'.key = some ⟨s.size, s.index, s.line, s.column, false⟩) := by
  obtain ⟨key, hsave, hkey, hstart⟩ := saveKey_eq hs
  have hsaved := hs.withKey hkey
  have hsplit : s.rest = '"' :: (bodyOf ps ++ ['"']) ++ rest := by
    rw [hrest, List.cons_append, List.append_assoc]
    rfl
  obtain ⟨hread, hrest', -, hkey', hindex, hline⟩ :=
    hsaved.read hsplit (.scalar false (stringOf ps)) false
  have hquoted : quoted? false (s.rest.drop 1) = some (stringOf ps, rest) := by
    rw [hrest]
    exact quoted?_body hps rest
  refine ⟨_, ?_, hread, hrest', hindex, hline, fun h => hkey'.trans (hstart h)⟩
  simp only [quotedScalar, word, hsave, hquoted, Option.map_some]

theorem reaches_string {ps : List Json.Piece} (hps : PortableString ps) (hs : s.Inside (depth + 1) ts)
    (hrest : s.rest = x ++ '"' :: (bodyOf ps ++ '"' :: rest)) (hx : Flat x) :
    ∃ s', Reaches s s' ∧ s'.Inside (depth + 1) (.scalar false (stringOf ps) :: ts) ∧
      s'.rest = rest := by
  refine reaches_of_token hs hrest (hs.passes hx) rfl fun m hm hmrest _ _ => ?_
  obtain ⟨s', htoken, h, hrest', -⟩ := quotedScalar_eq hps hm hmrest
  refine ⟨s', by simp [token, isMarker_of_ne, htoken], ?_, h, hrest'⟩
  rw [hrest', List.length_append, List.length_cons]
  omega

def StartsWord (c : Char) (cs : Text) : Prop :=
  (isIndicator c = false ∧ c ≠ '.' ∧ isSolid c = true) ∨
    (c = '-' ∧ ∃ d ds, cs = d :: ds ∧ d ≠ '-' ∧ isBlank d = false ∧ isBreak d = false)

theorem isSolid_of_startsWord (h : StartsWord c cs) : isSolid c = true := by
  rcases h with ⟨-, -, h⟩ | ⟨rfl, -⟩
  · exact h
  · rfl

theorem token_word (h : StartsWord c cs) (s : Layout) : s.token c cs = s.plainScalar := by
  rcases h with ⟨hindicator, hpoint, hsolid⟩ | ⟨rfl, d, ds, rfl, hdash, hblank, hbreak⟩
  · have hne {a : Char} (ha : isIndicator a = true) : c ≠ a := by
      rintro rfl
      exact Bool.noConfusion (hindicator.symm.trans ha)
    simp only [isSolid, Bool.not_eq_true', Bool.or_eq_false_iff] at hsolid
    obtain ⟨⟨⟨hbreak, hblank⟩, -⟩, -⟩ := hsolid
    have hstarts : startsPlain s.inFlow c cs = true := by
      simp only [startsPlain, hbreak, hblank, hindicator, Bool.or_false, Bool.not_false,
        Bool.true_or]
    have hmarkers : isMarker '-' (c :: cs) = false ∧ isMarker '.' (c :: cs) = false :=
      ⟨isMarker_of_ne (hne rfl) cs, isMarker_of_ne hpoint cs⟩
    simp [token, hmarkers, hstarts, hne (a := '%') rfl, hne (a := '[') rfl, hne (a := '{') rfl,
      hne (a := ']') rfl, hne (a := '}') rfl, hne (a := ',') rfl, hne (a := '-') rfl,
      hne (a := '?') rfl, hne (a := ':') rfl, hne (a := '*') rfl, hne (a := '&') rfl,
      hne (a := '!') rfl, hne (a := '|') rfl, hne (a := '>') rfl, hne (a := '\'') rfl,
      hne (a := '"') rfl]
  · have hmarker : isMarker '-' ('-' :: d :: ds) = false := by
      cases ds with
      | nil => rfl
      | cons e es => simp [isMarker, hdash]
    have hstarts : startsPlain s.inFlow '-' (d :: ds) = true := by
      simp [startsPlain, hblank]
    have hword : endsWord (d :: ds) = false := by
      rw [endsWord, hblank, hbreak]
      rfl
    simp [token, hmarker, hstarts, hword, isMarker_of_ne]

theorem reaches_word {g : Text} {d : Char} {ds : Text} (hx : ∀ e ∈ c :: cs, isWord e = true)
    (hstarts : ∀ r, StartsWord c (cs ++ r)) (hd : isStop d = true) (hs : s.Inside (depth + 1) ts)
    (hrest : s.rest = x ++ c :: (cs ++ (g ++ d :: ds))) (hflat : Flat x) (hg : Flat g) :
    ∃ s', Reaches s s' ∧ s'.Inside (depth + 1) (.scalar true (c :: cs) :: ts) ∧
      s'.rest = d :: ds := by
  refine reaches_of_token hs hrest (hs.passes hflat) (isSolid_of_startsWord (hstarts []))
    fun m hm hmrest _ _ => ?_
  obtain ⟨key, hsave, hkey, -⟩ := saveKey_eq hm
  have hsaved := hm.withKey hkey
  obtain ⟨broken, hplain⟩ := plain?_word hx hg hd m.column ds
  have hsplit : m.rest = (c :: cs ++ g) ++ d :: ds := by rw [hmrest, List.append_assoc]; rfl
  obtain ⟨hread, hrest', -, -, -, -⟩ := hsaved.read hsplit (.scalar true (c :: cs)) broken
  have hscalar : m.plainScalar =
      some ({ m with key := key }.read (.scalar true (c :: cs)) (d :: ds) broken) := by
    have hindent : m.indent + 1 = 0 := by rw [hm.indent]; rfl
    have hm : plain? m.inFlow (m.indent + 1) m.column m.rest = some ⟨c :: cs, d :: ds, broken⟩ := by
      rw [hm.inFlow, hindent, hmrest]
      exact hplain
    simp only [plainScalar, hsave, hm]
  refine ⟨_, (token_word (hstarts _) m).trans hscalar, ?_, hread, hrest'⟩
  rw [hrest', List.length_append, List.length_append]
  omega

/-! ## Names -/

theorem colon_eq {k : KeyStart} (hs : s.Inside (depth + 1) (t :: ts)) (hkey : s.key = some k)
    (hbefore : k.before = ts.length) (hrest : s.rest = ':' :: cs) :
    ∃ s', s.colon = some s' ∧ s'.Inside (depth + 1) (.value :: t :: .key :: ts) ∧ s'.rest = cs := by
  have hinserted : (s.insert k.before .key).Inside (depth + 1) (t :: .key :: ts) := by
    refine ⟨hs.indent, hs.outerIndents, hs.outerKeys, ?_, ?_, hs.key, hs.keys⟩
    · have hsize : s.size - k.before = 1 := by
        rw [hs.size, hbefore, List.length_cons]
        omega
      rw [insert]
      simp only [hsize, hs.tokens]
      rfl
    · exact congrArg (· + 1) hs.size
  have henter : (s.insert k.before .key).enter k.column k.before .blockMapping =
      s.insert k.before .key := by
    rw [enter, hinserted.inFlow]
    rfl
  have hdrop : (s.insert k.before .key).rest = [':'] ++ cs := hrest
  obtain ⟨hread, hrest', -, -, -, -⟩ := hinserted.read hdrop .value false
  have hcolon : s.colon =
      some { (s.insert k.before .key).read .value cs false with key := none } := by
    have hcs : s.rest.drop 1 = cs := by rw [hrest]; rfl
    rw [colon, hkey]
    simp only [henter]
    exact congrArg (fun r => some { (s.insert k.before .key).read .value r false with key := none }) hcs
  exact ⟨_, hcolon, hread.withKey nofun, hrest'⟩

theorem isBreak_of_isLineEnd (h : isLineEnd c = false) : isBreak c = false := by
  simp only [isLineEnd, isSeparator, Bool.or_eq_false_iff] at h
  simp only [isBreak, h, Bool.or_false]

theorem countP_isBreak (hx : ∀ c ∈ x, isLineEnd c = false) : x.countP isBreak = 0 := by
  rw [List.countP_eq_zero]
  intro c hc
  rw [isBreak_of_isLineEnd (hx c hc)]
  nofun

theorem flat_of_isLineEnd (g : Blanks) (hg : ∀ c ∈ g.text, isLineEnd c = false) : Flat g.text :=
  fun c hc => (blank_of_isSpace (g.blank c hc) (hg c hc)).imp_right .inl

theorem reaches_name {k : WrittenName} (hk : PortableName k) (hs : s.Inside (depth + 1) ts)
    (hallowed : s.keyAllowed = true) (hrest : s.rest = x ++ (k.span ++ ':' :: rest)) (hx : Flat x) :
    ∃ s', Reaches s s' ∧
      s'.Inside (depth + 1) (.value :: .scalar false (stringOf k.name) :: .key :: ts) ∧
      s'.rest = rest := by
  have hspan : k.span ++ ':' :: rest =
      '"' :: (bodyOf k.name ++ '"' :: (k.beforeColon.text ++ ':' :: rest)) := by
    simp [WrittenName.span]
  have hquoted : k.span = '"' :: (bodyOf k.name ++ ['"']) ++ k.beforeColon.text := by
    simp [WrittenName.span]
  have hline : ∀ c ∈ '"' :: (bodyOf k.name ++ ['"']) ++ k.beforeColon.text, isLineEnd c = false := by
    rw [← hquoted]
    exact hk.oneLine
  rw [List.forall_mem_append] at hline
  have hshort := hk.short
  rw [hquoted, Text.byteSize_append] at hshort
  rw [hspan] at hrest
  -- the quoted name, with the place where it starts
  obtain ⟨s₁, hreach, h₁, hrest₁, start, hkey, hbefore, hindex, hline₁⟩ :=
    reaches_of_token (P := fun s' => s'.Inside (depth + 1) (.scalar false (stringOf k.name) :: ts) ∧
      s'.rest = k.beforeColon.text ++ ':' :: rest ∧ ∃ start : KeyStart, s'.key = some start ∧
        start.before = ts.length ∧
        s'.index = start.index + Text.byteSize ('"' :: (bodyOf k.name ++ ['"'])) ∧
        s'.line = start.line)
      hs hrest (hs.passes hx) rfl fun m hm hmrest hmallowed _ => by
        obtain ⟨s', htoken, h, hrest', hindex, hline', hkey⟩ := quotedScalar_eq hk.string hm hmrest
        rw [countP_isBreak hline.1] at hline'
        refine ⟨s', by simp [token, isMarker_of_ne, htoken], ?_, h, hrest', _,
          hkey (hmallowed.trans hallowed), hm.size, hindex, hline'⟩
        rw [hrest']
        simp only [List.length_append, List.length_cons]
        omega
  -- the colon, at which that place is still remembered
  obtain ⟨s₂, hreach', h₂, hrest₂⟩ :=
    reaches_of_token (P := fun s' => s'.Inside (depth + 1)
        (.value :: .scalar false (stringOf k.name) :: .key :: ts) ∧ s'.rest = rest)
      h₁ hrest₁ (h₁.passes (flat_of_isLineEnd k.beforeColon hline.2)) rfl fun m hm hmrest _ hkeep => by
        have hmkey : m.key = some start := by
          apply hkeep start hkey
          · rw [countP_isBreak hline.2]
            exact hline₁.symm
          · rw [hindex]
            omega
        obtain ⟨s', htoken, h, hrest'⟩ := colon_eq hm hmkey hbefore hmrest
        exact ⟨s', by simp [token, isMarker_of_ne, hm.inFlow, htoken],
          Nat.le_of_eq (congrArg List.length hrest'), h, hrest'⟩
  exact ⟨s₂, hreach.trans hreach', h₂, hrest₂⟩

end Layout

end Relaxed

end Fixtures
