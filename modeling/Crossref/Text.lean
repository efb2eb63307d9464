/-! Texts, the character classes that the formats share, and cutting texts apart. -/

set_option autoImplicit false

namespace Crossref

/-- A text is a sequence of Unicode scalar values. Every format of this library is read from
and written to such a sequence. -/
abbrev Text := List Char

instance : Coe String Text := ⟨String.toList⟩

namespace Text

/-- Spaces, tabs, line terminators and the Unicode space separators. U+0085, U+180E and the
zero-width spaces other than U+FEFF are not blank. -/
def isBlank (c : Char) : Bool :=
  let code := c.toNat
  (9 ≤ code && code ≤ 13) || code = 0x20 || code = 0xA0 || code = 0x1680 ||
  (0x2000 ≤ code && code ≤ 0x200A) || code = 0x2028 || code = 0x2029 || code = 0x202F ||
  code = 0x205F || code = 0x3000 || code = 0xFEFF

/-- The characters that a pattern for "the rest of the line" does not cross. -/
def isLineTerminator (c : Char) : Bool :=
  c = '\n' || c = '\r' || c = '\u2028' || c = '\u2029'

/-- An ASCII letter, an ASCII digit or an underscore. -/
def isWord (c : Char) : Bool := c.isAlphanum || c = '_'

/-- A word character or a hyphen: what an attribute name or a macro name continues with. -/
def isNamePart (c : Char) : Bool := isWord c || c = '-'

def trimStart (text : Text) : Text := text.dropWhile isBlank

def trimEnd (text : Text) : Text := (text.reverse.dropWhile isBlank).reverse

/-- Drops blank characters from both ends. -/
def trim (text : Text) : Text := trimEnd (trimStart text)

/-- What follows `lead`, if the text starts with it. -/
def after? (lead text : Text) : Option Text :=
  if lead.isPrefixOf text then some (text.drop lead.length) else none

/-- What precedes `tail`, if the text ends with it. -/
def before? (tail text : Text) : Option Text :=
  if tail.isSuffixOf text then some (text.take (text.length - tail.length)) else none

/-- The pieces of a text between the characters accepted by `separator`. A text without a
separator is one piece, so there is always at least one. -/
def pieces (separator : Char → Bool) (text : Text) : List Text := text.splitOnP separator

/-- The texts one after the other with `separator` between neighbours. -/
def join (separator : Text) (texts : List Text) : Text := separator.intercalate texts

/-- Replaces every occurrence of one character by a text. -/
def replaceChar (old : Char) (new text : Text) : Text :=
  text.flatMap fun c => if c = old then new else [c]

/-- The decimal digits of a number. -/
def ofNat (n : Nat) : Text := Nat.toDigits 10 n

end Text

end Crossref
