import Crossref.Text

/-! Environment files: assignments such as `export NAME = 'value' # comment`, one after the other.
What is no assignment is passed over line by line. They are read as in release 16.6.1 of the package dotenv. -/

set_option autoImplicit false

namespace Crossref.EnvironmentFile

def isNameChar (c : Char) : Bool := Text.isWord c || c = '.' || c = '-'

def isQuote (c : Char) : Bool := c = '\'' || c = '"' || c = '\x60'

/-- The places where a quoted value may close, as its content and what follows the quote. A quote
without a backslash in front is the first choice, and then the others from the last to the first. -/
def closings (quote : Char) : Text → List (Text × Text)
  | [] => []
  | '\\' :: c :: rest =>
    if c = quote then
      (closings quote rest).map (fun found => ('\\' :: c :: found.1, found.2)) ++ [(['\\'], rest)]
    else (closings quote (c :: rest)).map fun found => ('\\' :: found.1, found.2)
  | c :: rest =>
    if c = quote then [([], rest)]
    else (closings quote rest).map fun found => (c :: found.1, found.2)

def endsEntry (text : Text) : Bool :=
  (text.takeWhile Text.isBlank).any Text.isLineTerminator ||
    match text.dropWhile Text.isBlank with
    | [] => true
    | c :: _ => c = '#'

/-- The quoted value that a text starts with, quotes included, and what follows it. -/
def quoted? (text : Text) : Option (Text × Text) :=
  match text.dropWhile Text.isBlank with
  | [] => none
  | quote :: rest =>
    if isQuote quote then
      ((closings quote rest).find? fun found => endsEntry found.2).map fun (content, behind) =>
        (quote :: content ++ [quote], behind)
    else none

/-- The value without quotes that a text starts with. It ends at a comment or with the line. -/
def plain (text : Text) : Text × Text :=
  let inside (c : Char) : Bool := c ≠ '#' && c ≠ '\n' && c ≠ '\r'
  (Text.trim (text.takeWhile inside), text.dropWhile inside)

/-- What follows the sign between a name and its value: an equality sign, with blanks allowed
before it, or a colon and a blank. -/
def afterSign? (text : Text) : Option Text :=
  match text.dropWhile Text.isBlank with
  | '=' :: rest => some rest
  | _ =>
    match text with
    | ':' :: c :: rest => if Text.isBlank c then some rest else none
    | _ => none

/-- The name and the value, as they are written, of the assignment that a text starts with, and
what follows it. -/
def named? (text : Text) : Option (Text × Text × Text) :=
  match text.takeWhile isNameChar with
  | [] => none
  | c :: name =>
    (afterSign? (text.dropWhile isNameChar)).map fun rest =>
      (c :: name, (quoted? rest).getD (plain rest))

/-- Reads an assignment after blanks and the word `export`, which may also be the name. -/
def assignment? (text : Text) : Option (Text × Text × Text) :=
  let start := text.dropWhile Text.isBlank
  let exported := (Text.after? "export" start).bind fun rest =>
    match rest with
    | c :: further => if Text.isBlank c then named? (further.dropWhile Text.isBlank) else none
    | [] => none
  exported.orElse fun _ => named? start

def nextLine (text : Text) : Text := (text.dropWhile fun c => !Text.isLineTerminator c).drop 1

theorem nextLine_le (text : Text) : (nextLine text).length ≤ text.length := by
  have := (List.dropWhile_suffix (fun c => !Text.isLineTerminator c) (l := text)).length_le
  simp only [nextLine, List.length_drop]
  omega

theorem nextLine_lt (c : Char) (rest : Text) : (nextLine (c :: rest)).length < rest.length + 1 := by
  have := (List.dropWhile_suffix (fun c => !Text.isLineTerminator c) (l := rest)).length_le
  simp only [nextLine, List.length_drop, List.dropWhile_cons]
  split
  · omega
  · simp

theorem closings_le {quote : Char} {text : Text} {found : Text × Text}
    (member : found ∈ closings quote text) : found.2.length ≤ text.length := by
  fun_induction closings quote text generalizing found with
  | case1 => cases member
  | case2 rest ih =>
    simp only [List.mem_append, List.mem_map, List.mem_singleton] at member
    rcases member with ⟨inner, innerFound, rfl⟩ | rfl
    · have := ih innerFound
      simp only [List.length_cons]
      omega
    · simp only [List.length_cons]
      omega
  | case3 c rest _ ih =>
    simp only [List.mem_map] at member
    obtain ⟨inner, innerFound, rfl⟩ := member
    have := ih innerFound
    simp only [List.length_cons] at this ⊢
    omega
  | case4 => simp_all
  | case5 c rest _ _ ih =>
    simp only [List.mem_map] at member
    obtain ⟨inner, innerFound, rfl⟩ := member
    have := ih innerFound
    simp only [List.length_cons]
    omega

theorem quoted?_le {text value behind : Text} (read : quoted? text = some (value, behind)) :
    behind.length ≤ text.length := by
  have dropped := (List.dropWhile_suffix Text.isBlank (l := text)).length_le
  unfold quoted? at read
  split at read
  · cases read
  · rename_i quote rest start
    rw [start, List.length_cons] at dropped
    split at read
    · obtain ⟨found, isFirst, same⟩ := Option.map_eq_some_iff.mp read
      have := closings_le (List.mem_of_find?_eq_some isFirst)
      cases same
      omega
    · cases read

theorem value_le {text value behind : Text}
    (read : (quoted? text).getD (plain text) = (value, behind)) :
    behind.length ≤ text.length := by
  cases quoted : quoted? text with
  | none =>
    rw [quoted, Option.getD_none, plain] at read
    cases read
    exact (List.dropWhile_suffix _).length_le
  | some found =>
    rw [quoted, Option.getD_some] at read
    exact quoted?_le (quoted.trans (congrArg some read))

theorem afterSign?_le {text rest : Text} (read : afterSign? text = some rest) :
    rest.length ≤ text.length := by
  have dropped := (List.dropWhile_suffix Text.isBlank (l := text)).length_le
  unfold afterSign? at read
  split at read
  · rename_i start
    rw [start, List.length_cons] at dropped
    cases read
    omega
  · split at read
    · split at read <;> cases read
      simp only [List.length_cons]
      omega
    · cases read

theorem named?_lt {text name value behind : Text}
    (read : named? text = some (name, value, behind)) : behind.length < text.length := by
  have whole := congrArg List.length (List.takeWhile_append_dropWhile (p := isNameChar) (l := text))
  rw [List.length_append] at whole
  unfold named? at read
  split at read
  · cases read
  · rename_i start
    rw [start, List.length_cons] at whole
    obtain ⟨rest, signed, same⟩ := Option.map_eq_some_iff.mp read
    have := afterSign?_le signed
    have := value_le (Prod.mk.inj same).2
    omega

theorem assignment?_lt {text name value behind : Text}
    (read : assignment? text = some (name, value, behind)) : behind.length < text.length := by
  have dropped := (List.dropWhile_suffix Text.isBlank (l := text)).length_le
  unfold assignment? at read
  simp only at read
  cases exported : (Text.after? "export" (text.dropWhile Text.isBlank)).bind fun rest =>
    match rest with
    | c :: further => if Text.isBlank c then named? (further.dropWhile Text.isBlank) else none
    | [] => none with
  | none =>
    rw [exported] at read
    have := named?_lt read
    omega
  | some found =>
    rw [exported] at read
    cases read
    obtain ⟨rest, start, named⟩ := Option.bind_eq_some_iff.mp exported
    have further : rest.length ≤ (text.dropWhile Text.isBlank).length := by
      unfold Text.after? at start
      split at start <;> cases start
      simp
    split at named
    · rename_i c inner
      split at named
      · have := named?_lt named
        have := (List.dropWhile_suffix Text.isBlank (l := inner)).length_le
        simp only [List.length_cons] at further
        omega
      · cases named
    · cases named

def endsLine (text : Text) : Bool := text.head?.all Text.isLineTerminator

def lastClosing? (quote : Char) : Text → Option (Text × Text)
  | [] => none
  | c :: rest =>
    match lastClosing? quote rest with
    | some (content, behind) => some (c :: content, behind)
    | none => if c = quote && endsLine rest then some ([], rest) else none

theorem lastClosing?_le {quote : Char} {text content behind : Text}
    (read : lastClosing? quote text = some (content, behind)) : behind.length ≤ text.length := by
  induction text generalizing content with
  | nil => cases read
  | cons c rest ih =>
    unfold lastClosing? at read
    split at read
    · rename_i found
      cases read
      exact Nat.le_succ_of_le (ih found)
    · split at read <;> cases read
      exact Nat.le_succ _

/-- Removes the quotes around the lines of a text, where `atStart` holds at the start of a line. The
quotes enclose as much as they can, and more than one line if they start and end lines. -/
def unquote (atStart : Bool) : Text → Text
  | [] => []
  | c :: rest =>
    match _closing : if atStart && isQuote c then lastClosing? c rest else none with
    | some (content, behind) => content ++ unquote false behind
    | none => c :: unquote (Text.isLineTerminator c) rest
termination_by text => text.length
decreasing_by
  · have closed : lastClosing? c rest = some (content, behind) := by
      split at _closing
      · exact _closing
      · cases _closing
    exact Nat.lt_succ_of_le (lastClosing?_le closed)
  · exact Nat.lt_succ_self _

/-- Replaces the escapes for the two line breaks. -/
def unescape : Text → Text
  | '\\' :: 'n' :: rest => '\n' :: unescape rest
  | '\\' :: 'r' :: rest => '\r' :: unescape rest
  | c :: rest => c :: unescape rest
  | [] => []

/-- The value that is meant by a value as it is written. Escapes count only behind a double
quote. -/
def meaning (written : Text) : Text :=
  let content := unquote true written
  if written.head? = some '"' then unescape content else content

/-- The assignments of a text with line feeds only, in order. -/
def assignmentsFrom : Text → List (Text × Text)
  | [] => []
  | c :: rest =>
    match _read : assignment? (c :: rest) with
    | none => assignmentsFrom (nextLine (c :: rest))
    | some (name, value, behind) => (name, meaning value) :: assignmentsFrom (nextLine behind)
termination_by text => text.length
decreasing_by
  · exact nextLine_lt c rest
  · exact Nat.lt_of_le_of_lt (nextLine_le _) (assignment?_lt _read)

/-- Turns every line break into a line feed. -/
def unifyBreaks : Text → Text
  | '\r' :: '\n' :: rest => '\n' :: unifyBreaks rest
  | '\r' :: rest => '\n' :: unifyBreaks rest
  | c :: rest => c :: unifyBreaks rest
  | [] => []

/-- The assignments of a file, in order. -/
def assignments (text : Text) : List (Text × Text) := assignmentsFrom (unifyBreaks text)

end Crossref.EnvironmentFile
