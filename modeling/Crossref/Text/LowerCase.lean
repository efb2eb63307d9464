import Crossref.Text.CaseTable

/-! Full lower-casing. It differs from mapping each character on its own in two places: the
capital sigma has a final form at the end of a word, and U+0130 becomes two characters. -/

set_option autoImplicit false

namespace Crossref.Text

def isCaseIgnorable (c : Char) : Bool := caseIgnorableRanges.any (·.contains c.toNat)

def isCased (c : Char) : Bool := casedRanges.any (·.contains c.toNat)

def meetsCased (text : Text) : Bool :=
  match text.dropWhile isCaseIgnorable with
  | c :: _ => isCased c
  | [] => false

/-- The lower-case partner of a letter; any other character is its own. -/
def lowerChar (c : Char) : Char :=
  if c.toNat < 0x80 then c.toLower
  else
    match lowerCaseRuns.find? fun run =>
      run.first ≤ c.toNat && c.toNat ≤ run.last && (c.toNat - run.first) % run.step = 0 with
    | some run => Char.ofNat (Int.toNat (c.toNat + run.offset))
    | none => c

/-- Lower-cases `text`, where `before` holds the characters before it, nearest first. -/
def lowerAfter (before : Text) : Text → Text
  | [] => []
  | c :: rest =>
    let lowered : Text :=
      if c = '\u03A3' then
        if meetsCased before && !meetsCased rest then ['\u03C2'] else ['\u03C3']
      else if c = '\u0130' then ['i', '\u0307']
      else [lowerChar c]
    lowered ++ lowerAfter (c :: before) rest

def lower (text : Text) : Text := lowerAfter [] text

end Crossref.Text
