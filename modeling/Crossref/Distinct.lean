/-! Lists without repetition. -/

set_option autoImplicit false

namespace Crossref

/-- The items whose key is none of `seen` and not the key of an earlier item. -/
def distinctFrom {α β : Type} [BEq β] (key : α → β) (seen : List β) : List α → List α
  | [] => []
  | item :: rest =>
    if seen.contains (key item) then distinctFrom key seen rest
    else item :: distinctFrom key (key item :: seen) rest

def distinctBy {α β : Type} [BEq β] (key : α → β) (items : List α) : List α :=
  distinctFrom key [] items

end Crossref
