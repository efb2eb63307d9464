import Crossref.Attribute

/-! Expanding attribute references such as `{name}`. After each substitution the text is read again
from its start, because a value may hold references or complete one that opens before it. -/

set_option autoImplicit false

namespace Crossref

/-- The first reference of a text: what precedes it, its name, and what follows it. -/
structure ReferenceSplit where
  before : Text
  name : Text
  behind : Text
deriving DecidableEq

namespace ReferenceSplit

/-- The name in braces at the start of a text, and what follows it. -/
def atStart? (text : Text) : Option (Text × Text) :=
  match text with
  | '{' :: first :: rest =>
    let name := first :: rest.takeWhile Text.isNamePart
    match rest.dropWhile Text.isNamePart with
    | '}' :: behind => if Text.isWord first then some (name, behind) else none
    | _ => none
  | _ => none

def find? : Text → Option ReferenceSplit
  | [] => none
  | c :: rest =>
    match atStart? (c :: rest) with
    | some (name, behind) => some ⟨[], name, behind⟩
    | none => (find? rest).map fun found => { found with before := c :: found.before }

theorem atStart?_shorter {text name behind : Text} (found : atStart? text = some (name, behind)) :
    behind.length < text.length := by
  unfold atStart? at found
  split at found
  · rename_i first rest
    have dropped := (List.dropWhile_suffix Text.isNamePart (l := rest)).length_le
    dsimp only at found
    split at found
    · rename_i tail closed
      rw [closed] at dropped
      split at found <;> cases found
      simp only [List.length_cons] at dropped ⊢
      omega
    · cases found
  · cases found

theorem find?_shorter {text : Text} {found : ReferenceSplit} (split : find? text = some found) :
    found.behind.length < text.length := by
  induction text generalizing found with
  | nil => cases split
  | cons c rest ih =>
    unfold find? at split
    cases start : atStart? (c :: rest) with
    | some pair =>
      obtain ⟨name, behind⟩ := pair
      rw [start] at split
      cases split
      exact atStart?_shorter start
    | none =>
      rw [start] at split
      obtain ⟨inner, innerFound, rfl⟩ := Option.map_eq_some_iff.mp split
      have shorter : inner.behind.length < rest.length := ih innerFound
      exact Nat.lt_succ_of_lt shorter

def source (reference : ReferenceSplit) : Text := '{' :: reference.name ++ ['}']

end ReferenceSplit

/-- Expands the references of `rest`, where `passed` is the text before it in which only references
without a value are left. Every substitution uses up one of `budget`. A name with several values,
and a substitution that the budget does not allow, leave the text without an expansion. -/
def expandWithin (values : Text → Noted (List (Option Text))) (budget : Nat) (passed rest : Text) :
    Noted (Option Text) :=
  match _split : ReferenceSplit.find? rest with
  | none => return some (passed ++ rest)
  | some found => do
    match (← values found.name).eraseDups with
    | [some value] =>
      match budget with
      | 0 => return none
      | remaining + 1 =>
        expandWithin values remaining [] (passed ++ found.before ++ value ++ found.behind)
    | _ :: _ :: _ => return none
    | _ => expandWithin values budget (passed ++ found.before ++ found.source) found.behind
termination_by (budget, rest.length)
decreasing_by
  · exact Prod.Lex.left _ _ (Nat.lt_succ_self _)
  · exact Prod.Lex.right _ (ReferenceSplit.find?_shorter _split)

/-- The text with every reference to an attribute replaced by its value as seen from a file. Names
without a value stay; there is no expansion if a name has several values or `budget` is exceeded. -/
def Project.expand (project : Project) (disk : Disk) (file text : Text) (budget : Nat) :
    Noted (Option Text) :=
  let values (name : Text) : Noted (List (Option Text)) := do
    return (← project.findAttributes disk name file).map (·.value)
  expandWithin values budget [] text

end Crossref
