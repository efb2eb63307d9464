import Crossref.Text

/-! Notices: what is to be told to a user besides a result. -/

set_option autoImplicit false

namespace Crossref

inductive Level where
  | success
  | error
  | warning
  | info
  | detail
  | heading
  | output
deriving DecidableEq

/-- The name of a level in a log. -/
def Level.label : Level → Text
  | .success => "SUCCESS"
  | .error => "ERROR"
  | .warning => "WARNING"
  | .info => "INFO"
  | .detail => "DEBUG"
  | .heading => "INFO"
  | .output => "OUTPUT"

structure Notice where
  level : Level
  message : Text
deriving DecidableEq

namespace Notice

def line (notice : Notice) : Text :=
  let mark : Text := if notice.level = .warning then "WARNING: " else []
  mark ++ notice.message ++ "\n"

def logLine (time : Text) (notice : Notice) : Text :=
  "[" ++ time ++ "] [" ++ notice.level.label ++ "] " ++ notice.message ++ "\n"

end Notice

/-- A value, and the notices given on the way to it in their order. -/
structure Noted (α : Type) where
  value : α
  notices : List Notice

namespace Noted

variable {α β : Type}

def tell (level : Level) (message : Text) : Noted Unit := ⟨(), [⟨level, message⟩]⟩

instance : Monad Noted where
  pure value := ⟨value, []⟩
  bind first next :=
    let second := next first.value
    ⟨second.value, first.notices ++ second.notices⟩

@[simp] theorem value_pure (value : α) : (pure value : Noted α).value = value := rfl

@[simp] theorem value_bind (first : Noted α) (next : α → Noted β) :
    (first >>= next).value = (next first.value).value := rfl

@[simp] theorem value_map (change : α → β) (first : Noted α) :
    (change <$> first).value = change first.value := rfl

@[simp] theorem notices_map (change : α → β) (first : Noted α) :
    (change <$> first).notices = first.notices := List.append_nil _

@[simp] theorem notices_pure (value : α) : (pure value : Noted α).notices = [] := rfl

@[simp] theorem notices_bind (first : Noted α) (next : α → Noted β) :
    (first >>= next).notices = first.notices ++ (next first.value).notices := rfl

instance : LawfulMonad Noted :=
  LawfulMonad.mk' Noted
    (fun noted => by cases noted; simp [Functor.map])
    (fun value next => by simp [bind, pure])
    (fun first second third => by simp [bind])

/-- Values that answer for each item, with the notices of all items in order. -/
theorem mapM_eq (change : α → Noted β) (items : List α) :
    items.mapM change =
      ⟨items.map fun item => (change item).value, items.flatMap fun item => (change item).notices⟩ := by
  induction items with
  | nil => rfl
  | cons item rest ih =>
    rw [List.mapM_cons, ih]
    simp [bind, pure]

end Noted

end Crossref
