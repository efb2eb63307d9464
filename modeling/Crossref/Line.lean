import Crossref.Text

/-! Physical lines. A line feed ends a line, together with a carriage return directly before it;
a carriage return elsewhere belongs to the content. -/

set_option autoImplicit false

namespace Crossref

/-- A line: its content, and its break, which is empty for the last line only. -/
structure Line where
  content : Text
  ending : Text
deriving DecidableEq

namespace Line

/-- The characters that the line was cut from. -/
def text (line : Line) : Text := line.content ++ line.ending

/-- Puts a character in front of the first of some lines. -/
def consContent (c : Char) : List Line → List Line
  | [] => [⟨[c], []⟩]
  | line :: rest => { line with content := c :: line.content } :: rest

/-- The lines of a text. There is always a last line without a break, possibly empty. -/
def ofText : Text → List Line
  | [] => [⟨[], []⟩]
  | '\n' :: rest => ⟨[], ['\n']⟩ :: ofText rest
  | '\r' :: '\n' :: rest => ⟨[], ['\r', '\n']⟩ :: ofText rest
  | c :: rest => consContent c (ofText rest)

theorem flatMap_text_consContent (c : Char) (lines : List Line) :
    (consContent c lines).flatMap text = c :: lines.flatMap text := by
  cases lines <;> simp [consContent, text]

/-- Cutting a text into lines loses nothing. -/
theorem flatMap_text_ofText (input : Text) : (ofText input).flatMap text = input := by
  fun_induction ofText input with
  | case1 => rfl
  | case2 rest ih => simp [text, ih]
  | case3 rest ih => simp [text, ih]
  | case4 c rest _ _ ih => rw [flatMap_text_consContent, ih]

end Line

end Crossref
