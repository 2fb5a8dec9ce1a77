import Fixtures.Proofs.Json.Exact
import Fixtures.Proofs.Payload.Loading
import Fixtures.Proofs.Relaxed.Node

/-!
# JSON behind a comment

A comment in front of a JSON text makes it a relaxed one. If its strings and names
are portable, what is read of it is the same just if it is admissible and
unambiguous. Every condition is needed: there is a text that keeps all the others
and is read differently or not at all.
-/

namespace Fixtures

namespace Relaxed

open Json (Written WrittenDocument isLineEnd)

def commented (comment t : Text) : Text := '#' :: (comment ++ '\n' :: t)

theorem unifyBreaks_commented {comment : Text} (hcomment : ∀ c ∈ comment, isLineEnd c = false)
    (t : Text) : unifyBreaks (commented comment t) = '#' :: (comment ++ '\n' :: unifyBreaks t) := by
  rw [commented, unifyBreaks_cons (by decide) (by decide), unifyBreaks_of_isLineEnd hcomment,
    unifyBreaks_cons (by decide) (by decide)]

theorem prepare_commented {comment : Text}
    (hcomment : ∀ c ∈ comment, isPrintable c = true ∧ isLineEnd c = false) (t : Text) :
    prepare (commented comment t) =
      if t.all isPrintable then some ('#' :: (comment ++ '\n' :: unifyBreaks t)) else none := by
  have hall : (commented comment t).all isPrintable = t.all isPrintable := by
    have hprintable : comment.all isPrintable = true :=
      List.all_eq_true.mpr fun c h => (hcomment c h).1
    have hsigns : isPrintable '#' = true ∧ isPrintable '\n' = true := ⟨rfl, rfl⟩
    simp only [commented, List.all_cons, List.all_append, hprintable, hsigns, Bool.true_and]
  rw [prepare, hall, unifyBreaks_commented fun c h => (hcomment c h).2]

theorem parse?_commented {d : WrittenDocument} (hd : d.root.Portable)
    (hc : d.root.isContainer = true) {comment : Text}
    (hcomment : ∀ c ∈ comment, isPrintable c = true ∧ isLineEnd c = false) (v : Json) :
    parse? (commented comment d.text) = some v ↔ d.Admissible ∧ d.root.relaxed? = some v := by
  have hbreak : ∀ c ∈ comment, isBreak c = false := fun c h =>
    Layout.isBreak_of_isLineEnd (hcomment c h).2
  rw [parse?, prepare_commented hcomment]
  by_cases hprintable : d.text.all isPrintable = true
  · rw [if_pos hprintable, Option.bind_some]
    by_cases hbefore : '\t' ∈ d.before.text
    · rw [tokens?_tab_before hbefore hbreak]
      exact iff_of_false nofun fun h => h.1.before hbefore
    by_cases hafter : '\t' ∈ d.after.text.dropWhile (!isLineEnd ·)
    · rw [tokens?_tab_after hd hc hbefore hafter hbreak]
      exact iff_of_false nofun fun h => h.1.after hafter
    · rw [tokens?_document hd hc hbefore hafter hbreak, Option.bind_some,
        Node.numbered?_eq (Node.not_named_tokens d.root), Option.bind_some,
        Node.ofTokens?_tokens hc, Option.bind_some, Node.toJson?_node d.shallow]
      exact (and_iff_right ⟨List.all_eq_true.mp hprintable, hbefore, hafter⟩).symm
  · rw [if_neg hprintable]
    exact iff_of_false nofun fun h => hprintable (List.all_eq_true.mpr h.1.printable)

end Relaxed

namespace Json

open Relaxed (commented isPrintable)

theorem isRelaxed_commented (comment t : Text) : isRelaxed (commented comment t) = true := rfl

theorem parseEither?_commented (comment t : Text) :
    parseEither? (commented comment t) = Relaxed.parse? (commented comment t) := rfl

theorem Written.isContainer_value (v : Written) : v.value.isContainer = v.isContainer := by
  cases v with
  | _ => rfl

/-- **Where relaxed reading extends strict reading.** Every text that is read as JSON is that of a
document. If the strings and names of the document are portable, the text behind a comment is read as
a relaxed one, and it has the same value just if the document is admissible and unambiguous. -/
theorem document_commented {t : Text} {v : Json} (h : parse t = .ok v) (hc : v.isContainer = true) :
    (∃ d : WrittenDocument, d.text = t) ∧
      ∀ d : WrittenDocument, d.text = t → d.value = v ∧
        (d.root.Portable → ∀ name comment : Text,
          (∀ c ∈ comment, isPrintable c = true ∧ isLineEnd c = false) →
            isRelaxed (commented comment t) = true ∧ document name t = .ok v ∧
              (document name (commented comment t) = .ok v ↔
                d.Admissible ∧ d.root.Unambiguous)) := by
  constructor
  · obtain ⟨d, hd, -⟩ := exists_written_of_parse h
    exact ⟨d, hd⟩
  · rintro d rfl
    obtain rfl : d.value = v := Except.ok.inj ((parse_text d).symm.trans h)
    refine ⟨rfl, fun hd name comment hcomment => ⟨isRelaxed_commented comment d.text, ?_, ?_⟩⟩
    · rw [document_eq_ok_iff, parseEither?, h]
      exact ⟨rfl, hc⟩
    · have hroot : d.root.isContainer = true := (Written.isContainer_value d.root).symm.trans hc
      rw [document_eq_ok_iff, parseEither?_commented, Relaxed.parse?_commented hd hroot hcomment,
        and_iff_left hc]
      exact and_congr_right' d.root.relaxed?_eq_some_iff

def blanksOf (t : Text) (h : t.all Reader.isSpace = true) : Blanks := ⟨t, List.all_eq_true.mp h⟩

def spacedDocument : WrittenDocument where
  before := blanksOf [' ', '\n'] rfl
  root := .object
    (.cons ⟨blanksOf ['\t'] rfl, [.char 'a' rfl], blanksOf [' '] rfl, blanksOf ['\n'] rfl⟩
      (.array
        (.cons (blanksOf [] rfl) (.number ⟨['-', '1'], .int (-1), by decide +kernel⟩)
          (blanksOf [' '] rfl)
          (.last (blanksOf [] rfl)
            (.number
              ⟨['2', '5', 'e', '-', '1'], .real ⟨false, 5629499534213120, -51⟩, by decide +kernel⟩)
            (blanksOf [] rfl))))
      (blanksOf ['\r', '\n'] rfl)
      (.last
        ⟨blanksOf [] rfl, [.char 'b' rfl, .escape 'n' '\n' rfl], blanksOf [] rfl, blanksOf [] rfl⟩
        (.string [.char ' ' rfl, .escape '/' '/' rfl])
        (blanksOf [] rfl)))
  after := blanksOf ['\t', '\r', '\n', ' '] rfl
  shallow := by decide

theorem portable_spacedDocument : spacedDocument.root.Portable := by
  refine ⟨⟨by decide, ?_, by decide⟩, ⟨trivial, trivial⟩, ⟨by decide, ?_, by decide⟩, by decide,
    by decide, ?_⟩
  · simp [WrittenName.span, blanksOf, isLineEnd, Relaxed.isSeparator, bodyOf, Piece.text]
  · simp [WrittenName.span, blanksOf, isLineEnd, Relaxed.isSeparator, bodyOf, Piece.text]
  · exact Relaxed.steady_of_forall
      (by simp [Relaxed.isSeparator, bodyOf, Piece.text])

theorem admissible_spacedDocument : spacedDocument.Admissible where
  printable := List.all_eq_true.mp rfl
  before := by decide
  after := by decide

theorem unambiguous_spacedDocument : spacedDocument.root.Unambiguous := by
  refine ⟨by decide, ⟨nofun, ?_⟩, trivial⟩
  rintro x -
  exact .inl (by decide +kernel)

theorem document_commented_spacedDocument :
    parse spacedDocument.text = .ok spacedDocument.value ∧
      spacedDocument.value.isContainer = true ∧ spacedDocument.root.Portable ∧
      (∀ c ∈ ['#', 'x'], isPrintable c = true ∧ isLineEnd c = false) ∧
      document [] (commented ['#', 'x'] spacedDocument.text) = .ok spacedDocument.value :=
  have hparse := parse_text spacedDocument
  have hcomment : ∀ c ∈ ['#', 'x'], isPrintable c = true ∧ isLineEnd c = false :=
    List.forall_mem_cons.mpr ⟨by decide, List.forall_mem_singleton.mpr (by decide)⟩
  ⟨hparse, rfl, portable_spacedDocument, hcomment,
    (((document_commented hparse rfl).2 spacedDocument rfl).2 portable_spacedDocument [] ['#', 'x']
      hcomment).2.2.mpr ⟨admissible_spacedDocument, unambiguous_spacedDocument⟩⟩

/-! ## What is read differently -/

def ReadOtherwise (t : Text) : Prop :=
  ∃ v, parse t = .ok v ∧ v.isContainer = true ∧ ∀ name, document name (commented [] t) ≠ .ok v

def printsOtherwise (t : Text) : Bool :=
  match parse t with
  | .ok v => v.isContainer && (parseEither? (commented [] t)).map render != some v.render
  | .error _ => false

theorem readOtherwise {t : Text} (h : printsOtherwise t = true) : ReadOtherwise t := by
  unfold printsOtherwise at h
  cases hp : parse t with
  | error e =>
    rw [hp] at h
    cases h
  | ok v =>
    rw [hp] at h
    obtain ⟨hc, hne⟩ := Bool.and_eq_true_iff.mp h
    refine ⟨v, hp, hc, fun name hdoc => bne_iff_ne.mp hne ?_⟩
    rw [(document_eq_ok_iff.mp hdoc).1]
    rfl

/-- Relaxed reading does not extend strict reading. Each text keeps all the conditions but one: a name
comes twice; an integer has more than 64 bits, is minus zero, or a real number is rounded twice; a
string has a surrogate pair, a character that is not printable, a next-line character, a space around
a line separator or a document marker after it; the root has a tab before it or in a line after it;
between the start of a name and its colon there is a line end, in the name or behind it, or too much
text. -/
theorem document_commented_ne :
    ReadOtherwise "\x7b\"a\":1,\"a\":2\x7d".toList ∧
      (ReadOtherwise "[18446744073709551616]".toList ∧ ReadOtherwise "[-0]".toList ∧
        ReadOtherwise "[9007199254740993e1]".toList) ∧
      (ReadOtherwise "[\"\\ud83d\\ude00\"]".toList ∧ ReadOtherwise "[\"\x7f\"]".toList ∧
        ReadOtherwise "[\"\u0085\"]".toList ∧ ReadOtherwise "[\" \u2028\"]".toList ∧
        ReadOtherwise "[\"\u2028 \"]".toList ∧ ReadOtherwise "[\"\u2028--- \"]".toList) ∧
      (ReadOtherwise "\t[]".toList ∧ ReadOtherwise "[]\n\t".toList) ∧
      ReadOtherwise "\x7b\"a\"\n:1\x7d".toList ∧ ReadOtherwise "\x7b\"\u2028\":1\x7d".toList ∧
      ReadOtherwise ("\x7b\"".toList ++ List.replicate 1023 'a' ++ "\":1\x7d".toList) := by
  refine ⟨readOtherwise ?_, ⟨readOtherwise ?_, readOtherwise ?_, readOtherwise ?_⟩,
    ⟨readOtherwise ?_, readOtherwise ?_, readOtherwise ?_, readOtherwise ?_, readOtherwise ?_,
      readOtherwise ?_⟩, ⟨readOtherwise ?_, readOtherwise ?_⟩, readOtherwise ?_, readOtherwise ?_,
    readOtherwise ?_⟩
  all_goals decide +kernel

end Json

end Fixtures
