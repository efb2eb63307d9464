import Crossref.Text

/-! Measuring and ordering texts by UTF-16 code units. Offsets, lengths, scores and sort orders
count these units, so a character beyond U+FFFF has length two and sorts below U+E000. -/

set_option autoImplicit false

namespace Crossref.Text

/-- The UTF-16 code units of one character: itself, or a surrogate pair beyond U+FFFF. -/
def charUnits (c : Char) : List Nat :=
  if c.toNat < 0x10000 then [c.toNat]
  else [0xD800 + (c.toNat - 0x10000) / 0x400, 0xDC00 + (c.toNat - 0x10000) % 0x400]

def units (text : Text) : List Nat := text.flatMap charUnits

def width (text : Text) : Nat := (units text).length

theorem width_nil : width [] = 0 := rfl

theorem width_append (left right : Text) : width (left ++ right) = width left + width right := by
  simp [width, units]

/-- Lexicographic order of unit sequences; a sequence precedes its extensions. -/
def unitsLe : List Nat → List Nat → Bool
  | [], _ => true
  | _ :: _, [] => false
  | a :: left, b :: right => if a = b then unitsLe left right else a < b

def le (left right : Text) : Bool := unitsLe (units left) (units right)

/-- The texts in ascending order; equal texts stay side by side. -/
def sort (texts : List Text) : List Text := texts.mergeSort le

/-- The number of leading elements that two lists share. -/
def sharedLength : List Nat → List Nat → Nat
  | a :: left, b :: right => if a = b then sharedLength left right + 1 else 0
  | _, _ => 0

/-- The number of leading code units that two texts share. It may end inside a surrogate pair. -/
def sharedUnits (left right : Text) : Nat := sharedLength (units left) (units right)

def hexDigit? (c : Char) : Option Nat :=
  if c.isDigit then some (c.toNat - '0'.toNat)
  else if 'a' ≤ c && c ≤ 'f' then some (c.toNat - 'a'.toNat + 10)
  else if 'A' ≤ c && c ≤ 'F' then some (c.toNat - 'A'.toNat + 10)
  else none

def hexNumber? (digits : Text) : Option Nat :=
  digits.foldlM (fun number c => (hexDigit? c).map (number * 16 + ·)) 0

/-- The text of code points, in which an escaped surrogate pair is one character. A text cannot hold a surrogate on
its own: any two of them give the same text. -/
def ofCodes : List Nat → Text
  | high :: low :: rest =>
    if 0xD800 ≤ high && high < 0xDC00 && 0xDC00 ≤ low && low < 0xE000 then
      Char.ofNat (0x10000 + (high - 0xD800) * 0x400 + (low - 0xDC00)) :: ofCodes rest
    else ofCode high :: ofCodes (low :: rest)
  | code :: rest => ofCode code :: ofCodes rest
  | [] => []
where
  /-- A lone surrogate is no character and becomes the replacement character. -/
  ofCode (code : Nat) : Char :=
    if 0xD800 ≤ code && code < 0xE000 then '\uFFFD' else Char.ofNat code

end Crossref.Text
