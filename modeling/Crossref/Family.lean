import Crossref.Text

/-! Resource families: the kinds of files that a module holds and where it keeps them. -/

set_option autoImplicit false

namespace Crossref

inductive Family where
  | examples
  | attachments
  | partials
  | images
  | pages
deriving DecidableEq

namespace Family

/-- Every family, in the order in which they are listed to a user. -/
def all : List Family := [examples, attachments, partials, images, pages]

/-- The name that stands before the dollar sign of a key. -/
def name : Family → Text
  | examples => "example"
  | attachments => "attachment"
  | partials => "partial"
  | images => "image"
  | pages => "page"

def ofName? (text : Text) : Option Family := all.find? fun family => family.name = text

/-- The directories below a module root that may hold the family, in order of preference. -/
def directories : Family → List (List Text)
  | examples => [["examples"]]
  | attachments => [["assets", "attachments"], ["attachments"]]
  | partials => [["partials"], ["pages", "_partials"]]
  | images => [["assets", "images"], ["images"]]
  | pages => [["pages"]]

end Family

end Crossref
