import Mathlib.Algebra.GroupWithZero.Nat
import Crossref.Proofs.Token.Macro

/-! Tokens tile the document that they were cut from. Every line is accounted for when it is read,
by its lexemes or by what an open comment block keeps of it, so no state of the lexer loses or
repeats text. -/

set_option autoImplicit false

namespace Crossref

namespace Lexeme

def textOf (lexemes : List Lexeme) : Text := lexemes.flatMap (·.text)

@[simp] theorem textOf_nil : textOf [] = [] := rfl

@[simp] theorem textOf_cons (lexeme : Lexeme) (rest : List Lexeme) :
    textOf (lexeme :: rest) = lexeme.text ++ textOf rest := rfl

@[simp] theorem textOf_append (left right : List Lexeme) :
    textOf (left ++ right) = textOf left ++ textOf right := List.flatMap_append

/-- Empty lexemes carry no text, so leaving them out loses nothing. -/
theorem textOf_filter_nonempty (lexemes : List Lexeme) :
    textOf (lexemes.filter fun lexeme => !lexeme.text.isEmpty) = textOf lexemes := by
  induction lexemes with
  | nil => rfl
  | cons lexeme rest ih =>
      by_cases empty : lexeme.text = []
      · simp [empty, ih]
      · simp [empty, ih]

theorem textOf_consName (c : Char) (lexemes : List Lexeme) :
    textOf (consName c lexemes) = c :: textOf lexemes := by
  unfold consName
  split <;> rfl

theorem consName_of_head? {lexemes : List Lexeme} (other : ∀ lexeme ∈ lexemes.head?, lexeme.kind ≠ .attributeName)
    (c : Char) : consName c lexemes = ⟨.attributeName, [c]⟩ :: lexemes := by
  unfold consName
  split
  · exact absurd rfl (other _ rfl)
  · rfl

theorem textOf_ofAttributeList (content : Text) :
    textOf (ofAttributeList content) = content := by
  fun_induction ofAttributeList content with
  | case1 => rfl
  | case2 rest => simp
  | case3 rest ih => simp [ih]
  | case4 c rest _ _ ih => rw [textOf_consName, ih]

/-- What a line of content can consist of: one lexeme that the line fills, an attribute list, or the parts of
a macro. -/
inductive IsContent (content : Text) : List Lexeme → Prop where
  | text : IsContent content [⟨.text, content⟩]
  | whole {kind : TokenKind} : kind = .heading ∨ kind = .lineComment ∨ kind = .title → content ≠ [] →
      IsContent content [⟨kind, content⟩]
  | list {list : Text} : content = '[' :: list → list.head? ≠ some '[' →
      IsContent content (⟨.attributeListStart, ['[']⟩ :: ofAttributeList list)
  | parts {found : BlockMacro} : BlockMacro.ofLine? content = some found →
      IsContent content [⟨.blockMacroId, found.id⟩, ⟨.blockMacroBody, found.target⟩,
        ⟨.blockMacroAttributes, found.attributes⟩]

theorem isContent_ofContent (content : Text) : IsContent content (ofContent content) := by
  unfold ofContent
  split
  · next heading =>
      refine .whole (.inl rfl) ?_
      rintro rfl
      cases heading
  · split
    · exact .whole (.inr (.inl rfl)) (List.cons_ne_nil _ _)
    · split
      · exact .text
      · exact .whole (.inr (.inr rfl)) (List.cons_ne_nil _ _)
    · exact .text
    · next list notAnchor _ =>
        refine .list rfl fun bracket => ?_
        obtain ⟨behind, spelled⟩ := List.head?_eq_some_iff.mp bracket
        exact notAnchor behind spelled
    · split
      · next found read => exact .parts read
      · exact .text

theorem textOf_ofContent (content : Text) : textOf (ofContent content) = content := by
  have shape := isContent_ofContent content
  generalize ofContent content = lexemes at shape
  cases shape with
  | text => exact List.append_nil content
  | whole => exact List.append_nil content
  | list spelled => rw [textOf_cons, textOf_ofAttributeList, spelled, List.singleton_append]
  | parts read => simpa using BlockMacro.parts_of_ofLine? read

end Lexeme

namespace Verbatim

/-- The text of the lines that were read and are not in any lexeme yet. -/
def withheld : Verbatim → Text
  | .none => []
  | .listing _ => []
  | .comment _ lines => lines.flatMap Line.text

/-- One line: what was withheld and the line itself are given out or withheld. -/
theorem withheld_step (state : Verbatim) (line : Line) :
    Lexeme.textOf (state.step line).2 ++ (state.step line).1.withheld =
      state.withheld ++ line.text := by
  cases state with
  | none =>
      simp only [step]
      split
      · simp [withheld, Line.text]
      · split
        · simp [withheld]
        · split
          · simp [withheld]
          · simp [withheld, Lexeme.textOf_ofContent, Line.text]
  | listing delimiter =>
      simp only [step]
      split <;> simp [withheld, Line.text]
  | comment delimiter lines =>
      simp only [step]
      split <;> simp [withheld, Line.text]

/-- The whole run: the lexemes of the remaining lines are these lines, behind what was withheld. -/
theorem textOf_lexemes (state : Verbatim) (lines : List Line) :
    Lexeme.textOf (state.lexemes lines) = state.withheld ++ lines.flatMap Line.text := by
  induction lines generalizing state with
  | nil => cases state <;> simp [lexemes, finish, withheld]
  | cons line rest ih =>
      have accounted := withheld_step state line
      simp only [lexemes, Lexeme.textOf_append, ih, List.flatMap_cons]
      rw [← List.append_assoc, accounted, List.append_assoc]

end Verbatim

namespace Token

theorem flatMap_text_place (offset : Nat) (lexemes : List Lexeme) :
    (place offset lexemes).flatMap (·.text) = Lexeme.textOf lexemes := by
  induction lexemes generalizing offset with
  | nil => rfl
  | cons lexeme rest ih => simp [place, ih]

theorem map_toLexeme_place (offset : Nat) (lexemes : List Lexeme) :
    (place offset lexemes).map (·.toLexeme) = lexemes := by
  induction lexemes generalizing offset with
  | nil => rfl
  | cons lexeme rest ih => simp [place, ih]

/-- A token starts where the lengths of the tokens before it add up to. -/
theorem start_of_place {offset : Nat} {lexemes : List Lexeme} {front back : List Token}
    {token : Token} (placed : place offset lexemes = front ++ token :: back) :
    token.start = offset + (front.map length).sum := by
  induction lexemes generalizing offset front with
  | nil => simp [place] at placed
  | cons lexeme rest ih =>
      cases front with
      | nil =>
          have same : ⟨lexeme, offset⟩ = token := (List.cons.inj placed).1
          simp [← same]
      | cons first behind =>
          obtain ⟨same, placedRest⟩ := List.cons.inj placed
          have start := ih placedRest
          simp only [List.map_cons, List.sum_cons, ← same]
          rw [start, Nat.add_assoc]
          rfl

theorem sum_length (tokens : List Token) :
    (tokens.map length).sum = Text.width (tokens.flatMap (·.text)) := by
  induction tokens with
  | nil => rfl
  | cons token rest ih =>
      simp only [List.map_cons, List.sum_cons, List.flatMap_cons, Text.width_append, ih]
      rfl

/-- The tokens of a document are not empty and give the document back. Each spans as many code
units as its text has, from where the tokens before it end, and the document has the units of its
text there. -/
theorem ofText_tiles (text : Text) :
    (∀ token ∈ ofText text, token.text ≠ []) ∧
    (ofText text).flatMap (·.text) = text ∧
    ∀ front token back, ofText text = front ++ token :: back →
      token.length = Text.width token.text ∧
      token.start = (front.map length).sum ∧
      ((Text.units text).drop token.start).take token.length = Text.units token.text := by
  have whole : (ofText text).flatMap (·.text) = text := by
    rw [ofText, flatMap_text_place, Lexeme.textOf_filter_nonempty, Verbatim.textOf_lexemes]
    exact Line.flatMap_text_ofText text
  refine ⟨?_, whole, ?_⟩
  · intro token member
    have kept : token.toLexeme ∈ (ofText text).map (·.toLexeme) := List.mem_map_of_mem member
    rw [ofText, map_toLexeme_place, List.mem_filter] at kept
    simpa using kept.2
  · intro front token back split
    have start : token.start = (front.map length).sum := by
      have placed := start_of_place split
      rwa [Nat.zero_add] at placed
    refine ⟨rfl, start, ?_⟩
    have units : Text.units text = Text.units (front.flatMap (·.text)) ++
        (Text.units token.text ++ Text.units (back.flatMap (·.text))) := by
      rw [← whole, split]
      simp [Text.units]
    have before : token.start = (Text.units (front.flatMap (·.text))).length := by
      rw [start, sum_length]
      rfl
    rw [units, before, List.drop_left]
    exact List.take_left

/-- Nested example fences, an unterminated attribute list and an unterminated comment block with a
lone carriage return. -/
theorem comment_tiles_behind_fences :
    let document : Text := "=====\n====\r\n[a\n////\n\r"
    let fences : List Token :=
      [⟨⟨.exampleDelimiter, "=====\n"⟩, 0⟩, ⟨⟨.exampleDelimiter, "====\r\n"⟩, 6⟩,
        ⟨⟨.attributeListStart, "["⟩, 12⟩, ⟨⟨.attributeName, "a"⟩, 13⟩, ⟨⟨.lineBreak, "\n"⟩, 14⟩]
    let comment : Token := ⟨⟨.blockComment, "////\n\r"⟩, 15⟩
    ofText document = fences ++ comment :: [] ∧
    ((Text.units document).drop 15).take comment.length = Text.units "////\n\r" := by
  intro document fences comment
  have cut : ofText document = fences ++ comment :: [] := by decide
  exact ⟨cut, ((ofText_tiles document).2.2 _ _ _ cut).2.2⟩

end Token

end Crossref
