import Crossref.Proofs.Line.Outside

/-! Lines of text. A line that no block holds is text as a whole, or it starts with a token of another kind, so
the texts that can continue a value are the lines of text behind it. -/

set_option autoImplicit false

namespace Crossref

namespace Line

/-- Whether a line that no block holds is text as a whole, and not empty. -/
def isText (line : Line) : Bool :=
  !line.content.isEmpty &&
    (Verbatim.none.step line).2 = [⟨.text, line.content⟩, ⟨.lineBreak, line.ending⟩]

/-- The lines of text at the start of some lines. -/
def continuations (lines : List Line) : List Text := (lines.takeWhile isText).map content

end Line

namespace Lexeme

theorem ofContent_of_colon (rest : Text) : ofContent (':' :: rest) = [⟨.text, ':' :: rest⟩] := by
  have noMacro : BlockMacro.ofLine? (':' :: rest) = none :=
    BlockMacro.ofLine?_of_head? fun first mem => by cases mem; decide
  have noHeading : ¬ 0 < headingLevel (':' :: rest) := fun positive => by
    cases head?_of_headingLevel positive
  unfold ofContent
  rw [if_neg noHeading]
  split
  · next spelled => cases spelled
  · next spelled => cases spelled
  · next spelled => cases spelled
  · next spelled => cases spelled
  · rw [noMacro]

theorem ofContent_of_brackets (rest : Text) :
    ofContent ('[' :: '[' :: rest) = [⟨.text, '[' :: '[' :: rest⟩] := by
  have noHeading : ¬ 0 < headingLevel ('[' :: '[' :: rest) := fun positive => by
    cases head?_of_headingLevel positive
  unfold ofContent
  rw [if_neg noHeading]
  split
  · next spelled => cases spelled
  · next spelled => cases spelled
  · rfl
  · next others spelled =>
      cases spelled
      exact (others rest rfl).elim
  · next others => exact (others _ rfl).elim

/-- A line is text as a whole, or it starts with a lexeme of another kind. -/
theorem ofContent_cases (content : Text) :
    ofContent content = [⟨.text, content⟩] ∨
      ∃ lexeme rest, ofContent content = lexeme :: rest ∧ lexeme.kind ≠ .text ∧ lexeme.text ≠ [] := by
  have shape := isContent_ofContent content
  generalize ofContent content = lexemes at shape
  cases shape with
  | text => exact .inl rfl
  | whole kinds filled =>
      refine .inr ⟨_, _, rfl, ?_, filled⟩
      rcases kinds with rfl | rfl | rfl <;> exact TokenKind.noConfusion
  | list => exact .inr ⟨_, _, rfl, TokenKind.noConfusion, List.cons_ne_nil _ _⟩
  | parts read =>
      obtain ⟨name, attributes, _, whole⟩ := BlockMacro.exists_invokes_of_ofLine? read
      refine .inr ⟨_, _, rfl, TokenKind.noConfusion, ?_⟩
      rw [whole]
      simp

end Lexeme

namespace Verbatim

theorem step_of_isText {line : Line} (text : line.isText) :
    line.content ≠ [] ∧ step .none line = (.none, [⟨.text, line.content⟩, ⟨.lineBreak, line.ending⟩]) := by
  simp only [Line.isText, Bool.and_eq_true, Bool.not_eq_true', List.isEmpty_eq_false_iff,
    decide_eq_true_eq] at text
  obtain ⟨filled, emits⟩ := text
  refine ⟨filled, ?_⟩
  obtain ⟨content, ending⟩ := line
  rcases step_none_cases content with ⟨_, read⟩ | ⟨_, read⟩ | ⟨_, read⟩ | ⟨_, read⟩
  · rw [(read ending).2] at emits
    cases emits
  · rw [(read ending).2] at emits
    cases emits
  · rw [(read ending).2] at emits
    cases emits
  · rw [(read ending).2] at emits ⊢
    exact congrArg (Prod.mk Verbatim.none) emits

theorem head?_lexemes_of_not_isText {line : Line} {rest : List Line} (cut : Line.Cut (line :: rest))
    (other : line.isText = false) :
    ∀ lexeme ∈ (Lexeme.nonempty (Verbatim.none.lexemes (line :: rest))).head?, lexeme.kind ≠ .text := by
  intro lexeme mem
  rw [lexemes, Lexeme.nonempty_append] at mem
  obtain ⟨content, ending⟩ := line
  rcases step_none_cases content with ⟨delimiter, read⟩ | ⟨delimiter, read⟩ | ⟨delimiter, read⟩ | ⟨_, read⟩
  all_goals replace read := (read ending).2
  · rw [read, Lexeme.nonempty_cons (ne_nil_of_isDelimiter delimiter)] at mem
    cases mem
    exact TokenKind.noConfusion
  · have filled : content ++ ending ≠ [] := List.append_ne_nil_of_left_ne_nil (ne_nil_of_isDelimiter delimiter) _
    rw [read, Lexeme.nonempty_cons filled] at mem
    cases mem
    exact TokenKind.noConfusion
  · rw [read] at mem
    have verbatim := sealed_comment (ne_nil_of_isDelimiter delimiter) [⟨content, ending⟩] rest lexeme mem
    intro isText
    rw [isText] at verbatim
    cases verbatim
  · rw [read] at mem
    rcases Lexeme.ofContent_cases content with text | ⟨first, behind, starts, notText, filled⟩
    · have empty : content = [] := by
        by_contra filled
        simp [Line.isText, read, text, filled] at other
      rw [text, List.singleton_append, Lexeme.nonempty_cons_of_eq_nil empty] at mem
      cases cut with
      | last => cases mem
      | cons _ ended _ =>
          rw [Lexeme.nonempty_cons ended.spec.1] at mem
          cases mem
          exact TokenKind.noConfusion
    · rw [starts, List.cons_append, Lexeme.nonempty_cons filled] at mem
      cases mem
      exact notText

end Verbatim

namespace Lexeme

theorem continuations_eq_nil {lexemes : List Lexeme} (other : ∀ lexeme ∈ lexemes.head?, lexeme.kind ≠ .text)
    (ending : Lexeme) : continuations (ending :: lexemes) = [] := by
  cases lexemes with
  | nil => rfl
  | cons next rest => simp [continuations, other next rfl]

theorem continuations_of_not_isText {line : Line} {rest : List Line} (cut : Line.Cut (line :: rest))
    (other : line.isText = false) (ending : Text) :
    continuations (⟨.lineBreak, ending⟩ :: nonempty (Verbatim.none.lexemes (line :: rest))) =
      Line.continuations (line :: rest) := by
  rw [continuations_eq_nil (Verbatim.head?_lexemes_of_not_isText cut other), Line.continuations,
    List.takeWhile_cons_of_neg (Bool.eq_false_iff.mp other)]
  rfl

/-- The texts that can continue a value are the lines of text behind it. -/
theorem continuations_lexemes {lines : List Line} (cut : Line.Cut lines) (ending : Text) :
    continuations (⟨.lineBreak, ending⟩ :: nonempty (Verbatim.none.lexemes lines)) =
      Line.continuations lines := by
  induction cut generalizing ending with
  | @last content single =>
      cases text : Line.isText ⟨content, []⟩ with
      | false => exact continuations_of_not_isText (.last single) text ending
      | true =>
          obtain ⟨filled, read⟩ := Verbatim.step_of_isText text
          rw [Verbatim.lexemes, read, nonempty_append, nonempty_cons filled, Line.continuations,
            List.takeWhile_cons_of_pos text]
          rfl
  | @cons line rest single ended cut ih =>
      cases text : line.isText with
      | false => exact continuations_of_not_isText (.cons single ended cut) text ending
      | true =>
          obtain ⟨filled, read⟩ := Verbatim.step_of_isText text
          rw [Verbatim.lexemes, read, nonempty_append, nonempty_cons filled, nonempty_cons ended.spec.1,
            Line.continuations, List.takeWhile_cons_of_pos text]
          exact congrArg (line.content :: ·) (ih line.ending)

theorem continuations_break {line : Line} {rest : List Line} (cut : Line.Cut (line :: rest)) :
    Lexeme.continuations
        (Lexeme.nonempty [⟨.lineBreak, line.ending⟩] ++ Lexeme.nonempty (Verbatim.none.lexemes rest)) =
      Line.continuations rest := by
  cases cut with
  | last => rfl
  | cons _ ended restCut =>
      rw [Lexeme.nonempty_cons ended.spec.1]
      exact Lexeme.continuations_lexemes restCut _

end Lexeme

end Crossref
