import Crossref.Distinct
import Crossref.Text.Units

/-! How similar two words are: the number of edits between them, where an edit inserts, deletes or
replaces one code unit or exchanges two neighbours. -/

set_option autoImplicit false

namespace Crossref.Text

/-- Fills a row of the table of distances from its second cell on. The row belongs to the unit
`here`, behind `previous`; each cell belongs to a unit of the other word, behind `before`. The cells
in the row above start one cell to the left, and those two rows above two cells to the left. -/
def fillRow (previous : Option Nat) (here left : Nat) :
    Option Nat → List Nat → List Nat → List Nat → List Nat
  | before, unit :: rest, diagonal :: up :: above, twoAbove =>
    let replaced := diagonal + if here = unit then 0 else 1
    let edited := min (min (up + 1) (left + 1)) replaced
    let cell :=
      match twoAbove with
      | exchanged :: _ =>
        if before = some here && previous = some unit then min edited (exchanged + 1) else edited
      | [] => edited
    cell :: fillRow previous here cell (some unit) rest (up :: above)
      (if before.isSome then twoAbove.tail else twoAbove)
  | _, _, _, _ => []

def lastRow (word : List Nat) : Option Nat → List Nat → List Nat → List Nat → List Nat
  | _, above, _, [] => above
  | previous, above, twoAbove, here :: rest =>
    let first := above.headD 0 + 1
    let row := first :: fillRow previous here first none word above twoAbove
    lastRow word (some here) row above rest

/-- The number of edits that lead from one word to another. No part of a word is edited twice. -/
def editDistance (left right : Text) : Nat :=
  let word := units right
  (lastRow word none (List.range (word.length + 1)) [] (units left)).getLastD 0

/-- The greatest number of edits between similar words. -/
def maxEdits : Nat := 3

/-- Whether two words share more than two fifths at a distance. -/
def areSimilar (left right : Text) (distance : Nat) : Bool :=
  5 * distance < 3 * max (width left) (width right)

/-- The candidates that are most similar to a word, in ascending order. Candidates of one letter do
not count. -/
def mostSimilar (word : Text) (candidates : List Text) : List Text :=
  let scored := (distinctBy id candidates).filterMap fun candidate =>
    let distance := editDistance word candidate
    if 1 < candidate.length && distance ≤ maxEdits && areSimilar word candidate distance then
      some (distance, candidate)
    else none
  let least := (scored.map (·.1)).foldl min maxEdits
  sort ((scored.filter fun found => found.1 = least).map (·.2))

end Crossref.Text
