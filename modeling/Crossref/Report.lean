import Crossref.Reference

/-! Reports: what the user is told about attributes and about references that do not resolve. -/

set_option autoImplicit false

namespace Crossref

namespace Attribute

/-- The place that an attribute comes from, as it is shown. -/
def origin : Attribute → Text
  | indexed entry => entry.file ++ ":" ++ Text.ofNat entry.line
  | directory _ _ => "(module directory)"
  | metadata _ _ => "(antora.yml)"

def lineOf (name : Text) (value : Option Text) (origin : Text) : Text :=
  name ++ " = " ++ value.getD "(unset)" ++ "\t" ++ origin

def line (declared : Attribute) : Text := lineOf declared.name declared.value declared.origin

end Attribute

namespace Reference

/-- Where a reference stands, with files below the root relative to it. -/
def place (reference : Reference) (root : Text) : Text :=
  (Text.after? (root ++ "/") reference.file).getD reference.file ++ ":" ++
    Text.ofNat reference.line

def problemLine (reference : Reference) (root : Text) : Text :=
  let complaint : Text :=
    if reference.status = .ambiguous then " has an attribute with conflicting values"
    else " not found (tried " ++ Text.join ", " reference.candidates ++ ")"
  reference.place root ++ ": " ++ reference.macroName ++ "::" ++ reference.target ++ "[]" ++ complaint

def problem (reference : Reference) (root : Text) : Notice :=
  ⟨if reference.status = .ambiguous then .warning else .error, reference.problemLine root⟩

end Reference

namespace Project

/-- The notice that sums a check up. -/
def summary (total problems : Nat) : Notice :=
  if problems = 0 then ⟨.success, "All " ++ Text.ofNat total ++ " reference(s) resolved."⟩
  else ⟨.info, Text.ofNat problems ++ " of " ++ Text.ofNat total ++ " reference(s) unresolved."⟩

/-- Checks all references and tells about those that do not resolve. The result is their number. -/
def report (project : Project) (disk : Disk) : Noted Nat := do
  let references ← project.checkAll disk
  let problems := references.filter fun reference => reference.status ≠ .resolved
  ⟨problems.length,
    problems.map (·.problem project.root) ++ [summary references.length problems.length]⟩

end Project

end Crossref
