import Crossref.Text

/-! The configuration of a project. -/

set_option autoImplicit false

namespace Crossref

/-- Which directories are not searched, which files are documents, and how many attribute
references are substituted in one text. -/
structure Config where
  exclude : List Text
  documentExtensions : List Text
  maxSubstitutions : Nat
deriving DecidableEq

/-- The configuration of a project without a configuration file. -/
def Config.default : Config :=
  ⟨["node_modules", ".git"], [".adoc", ".asciidoc", ".asc"], 64⟩

end Crossref
