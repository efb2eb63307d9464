import Crossref.Declaration
import Mathlib.Data.Option.Basic

/-! What a line spells: an attribute entry, an anchor that fills the line, and ids in other places. Entries and
anchors of whole lines are read exactly where they are spelled, and every other id that is read is spelled
in the line. -/

set_option autoImplicit false

namespace Crossref

theorem after?_eq_some_iff {lead text rest : Text} : Text.after? lead text = some rest ↔ text = lead ++ rest := by
  unfold Text.after?
  constructor
  · intro found
    split at found
    · next leads =>
        obtain ⟨behind, rfl⟩ := List.isPrefixOf_iff_prefix.mp leads
        cases found
        rw [List.drop_left]
    · cases found
  · rintro rfl
    rw [if_pos (List.isPrefixOf_iff_prefix.mpr (List.prefix_append lead rest)), List.drop_left]

theorem dropWhile_dropWhile_of_imp {α : Type} {first second : α → Bool}
    (implies : ∀ item, first item → second item) (items : List α) :
    (items.dropWhile first).dropWhile second = items.dropWhile second := by
  induction items with
  | nil => rfl
  | cons item rest ih =>
      by_cases dropped : first item
      · rw [List.dropWhile_cons_of_pos dropped, ih, List.dropWhile_cons_of_pos (implies item dropped)]
      · rw [List.dropWhile_cons_of_neg dropped]

theorem takeWhile_append_of_head? {α : Type} {accepts : α → Bool} {front back : List α}
    (all : ∀ item ∈ front, accepts item) (stops : ∀ item ∈ back.head?, accepts item = false) :
    (front ++ back).takeWhile accepts = front ∧ (front ++ back).dropWhile accepts = back := by
  rw [List.takeWhile_append_of_pos all, List.dropWhile_append_of_pos all]
  cases back with
  | nil => exact ⟨List.append_nil _, rfl⟩
  | cons item rest =>
      have stop : ¬ accepts item := Bool.eq_false_iff.mp (stops item rfl)
      rw [List.takeWhile_cons_of_neg stop, List.dropWhile_cons_of_neg stop]
      exact ⟨List.append_nil _, rfl⟩

theorem head?_dropWhile_eq_false {α : Type} {accepts : α → Bool} {items : List α} :
    ∀ item ∈ (items.dropWhile accepts).head?, accepts item = false := by
  intro item mem
  have stopped := List.head?_dropWhile_not accepts items
  rw [mem] at stopped
  exact stopped

namespace AttributeEntry

def isGap (c : Char) : Bool := c = ' ' || c = '\t'

/-- What may stand behind the colon that ends a name: nothing, or a gap and text up to the end of the line. -/
def IsRest (rest : Text) : Prop :=
  rest = [] ∨ ∃ gap raw, rest = gap ++ raw ∧ gap ≠ [] ∧ (∀ c ∈ gap, c = ' ' ∨ c = '\t') ∧
    ∀ c ∈ raw, Text.isLineTerminator c = false

def mark (unset : Bool) : Text := if unset then ['!'] else []

/-- A line `:name: value`, with a mark before or behind the name if the attribute is unset. -/
structure Spells (line : Text) (leading : Bool) (name : Text) (trailing : Bool) (rest : Text) : Prop where
  spelled : line = ':' :: (mark leading ++ (name ++ (mark trailing ++ ':' :: rest)))
  word : ∃ first ∈ name.head?, Text.isWord first
  name : ∀ c ∈ name, Text.isNamePart c
  rest : IsRest rest

/-- A line that is an entry as a whole: its name as it is written, and the trimmed value unless it is unset. -/
def Declares (line name : Text) (value : Option Text) : Prop :=
  ∃ leading trailing rest, Spells line leading name trailing rest ∧
    value = if leading || trailing then none else some (Text.trim rest)

theorem rawValue?_cons (c : Char) (rest : Text) :
    rawValue? (c :: rest) =
      if isGap c && !(rest.dropWhile isGap).any Text.isLineTerminator then some (rest.dropWhile isGap)
      else none := rfl

theorem isBlank_of_isGap {c : Char} (gap : isGap c) : Text.isBlank c := by
  simp only [isGap, Bool.or_eq_true, decide_eq_true_eq] at gap
  rcases gap with rfl | rfl <;> decide

theorem trim_of_rawValue? {rest raw : Text} (read : rawValue? rest = some raw) :
    IsRest rest ∧ Text.trim raw = Text.trim rest := by
  cases rest with
  | nil =>
      cases read
      exact ⟨.inl rfl, rfl⟩
  | cons c behind =>
      rw [rawValue?_cons] at read
      split at read
      · next accepted =>
          cases read
          simp only [Bool.and_eq_true, Bool.not_eq_true', List.any_eq_false] at accepted
          obtain ⟨gap, plain⟩ := accepted
          constructor
          · refine .inr ⟨c :: behind.takeWhile isGap, behind.dropWhile isGap, ?_, List.cons_ne_nil _ _, ?_, ?_⟩
            · rw [List.cons_append, List.takeWhile_append_dropWhile]
            · intro d mem
              have isGap' : isGap d := by
                rcases List.mem_cons.mp mem with rfl | inner
                · exact gap
                · exact List.all_eq_true.mp List.all_takeWhile d inner
              simpa [isGap] using isGap'
            · exact fun d mem => Bool.eq_false_iff.mpr (plain d mem)
          · rw [Text.trim, Text.trim, Text.trimStart, Text.trimStart,
              dropWhile_dropWhile_of_imp (fun _ => isBlank_of_isGap),
              List.dropWhile_cons_of_pos (isBlank_of_isGap gap)]
      · cases read

theorem rawValue?_isSome_of_isRest {rest : Text} (isRest : IsRest rest) : (rawValue? rest).isSome := by
  rcases isRest with rfl | ⟨gap, raw, rfl, nonempty, gaps, plain⟩
  · rfl
  · cases gap with
    | nil => exact absurd rfl nonempty
    | cons c behind =>
        obtain ⟨first, others⟩ := List.forall_mem_cons.mp gaps
        have isGap' : isGap c := by simpa [isGap] using first
        have terminated : ((behind ++ raw).dropWhile isGap).any Text.isLineTerminator = false := by
          refine List.any_eq_false.mpr fun d mem => ?_
          rcases List.mem_append.mp ((List.dropWhile_sublist _).mem mem) with inGap | inRaw
          · rcases others d inGap with rfl | rfl <;> decide
          · rw [plain d inRaw]
            exact Bool.false_ne_true
        rw [List.cons_append, rawValue?_cons, isGap', terminated]
        rfl

def takeMark (text : Text) : Bool × Text :=
  if text.head? = some '!' then (true, text.tail) else (false, text)

theorem takeMark_marked (rest : Text) : takeMark ('!' :: rest) = (true, rest) := rfl

theorem takeMark_eq_self {text : Text} (plain : ∀ rest, text = '!' :: rest → False) :
    takeMark text = (false, text) := by
  rw [takeMark, if_neg]
  intro starts
  obtain ⟨rest, spelled⟩ := List.head?_eq_some_iff.mp starts
  exact plain rest spelled

theorem takeMark_append {named : Text} (plain : ∀ rest, named = '!' :: rest → False) (unset : Bool) :
    takeMark (mark unset ++ named) = (unset, named) := by
  cases unset with
  | true => rfl
  | false => exact takeMark_eq_self plain

theorem mark_append_takeMark (text : Text) : mark (takeMark text).1 ++ (takeMark text).2 = text := by
  by_cases starts : text.head? = some '!'
  · obtain ⟨rest, rfl⟩ := List.head?_eq_some_iff.mp starts
    rfl
  · rw [takeMark, if_neg starts]
    rfl

theorem ofLine?_eq (line : Text) :
    AttributeEntry.ofLine? line = do
      let opened ← Text.after? ":" line
      let first ← (takeMark opened).2.head?
      guard (Text.isWord first)
      let behind := (takeMark opened).2.dropWhile Text.isNamePart
      let raw ← Text.after? ":" (takeMark behind).2 >>= rawValue?
      return ⟨Text.lower ((takeMark opened).2.takeWhile Text.isNamePart),
        if (takeMark opened).1 || (takeMark behind).1 then none else some (Text.trim raw)⟩ := by
  unfold AttributeEntry.ofLine?
  cases Text.after? ":" line with
  | none => rfl
  | some opened =>
      simp only [Option.bind_eq_bind, Option.bind_some]
      split
      · next rest =>
          rw [takeMark_marked]
          split
          · next spelled => rw [spelled, takeMark_marked]
          · next plain => rw [takeMark_eq_self plain]
      · next plain =>
          rw [takeMark_eq_self plain]
          split
          · next spelled => rw [spelled, takeMark_marked]
          · next plain => rw [takeMark_eq_self plain]

/-- A line is read as an entry exactly if it is spelled as one. -/
theorem ofLine?_eq_some_iff {line : Text} {entry : AttributeEntry} :
    AttributeEntry.ofLine? line = some entry ↔
      ∃ name value, Declares line name value ∧ entry = ⟨Text.lower name, value⟩ := by
  rw [ofLine?_eq]
  simp only [Option.bind_eq_bind, Option.bind_eq_some_iff, after?_eq_some_iff, Option.guard_eq_some',
    Option.pure_def, Option.some.injEq]
  constructor
  · rintro ⟨opened, rfl, first, starts, _, word, raw, ⟨rest, closed, read⟩, rfl⟩
    obtain ⟨isRest, trimmed⟩ := trim_of_rawValue? read
    have marked := mark_append_takeMark opened
    generalize takeMark opened = leading at starts closed marked ⊢
    have markedBehind := mark_append_takeMark (leading.2.dropWhile Text.isNamePart)
    generalize takeMark (leading.2.dropWhile Text.isNamePart) = trailing at closed markedBehind ⊢
    have whole : opened = mark leading.1 ++ (leading.2.takeWhile Text.isNamePart ++
        (mark trailing.1 ++ ':' :: rest)) := by
      calc opened = mark leading.1 ++ leading.2 := marked.symm
        _ = mark leading.1 ++
            (leading.2.takeWhile Text.isNamePart ++ leading.2.dropWhile Text.isNamePart) := by
              rw [List.takeWhile_append_dropWhile]
        _ = _ := by
              rw [← markedBehind, closed]
              rfl
    have nameStarts : first ∈ (leading.2.takeWhile Text.isNamePart).head? := by
      obtain ⟨tail, spelled⟩ := List.head?_eq_some_iff.mp starts
      have part : Text.isNamePart first := by
        rw [Text.isNamePart, word]
        rfl
      rw [spelled, List.takeWhile_cons_of_pos part]
      rfl
    refine ⟨_, _, ⟨leading.1, trailing.1, rest, ⟨congrArg (':' :: ·) whole, ⟨first, nameStarts, word⟩, ?_, isRest⟩,
      rfl⟩, by rw [trimmed]⟩
    exact fun c mem => List.all_eq_true.mp List.all_takeWhile c mem
  · rintro ⟨name, value, ⟨leading, trailing, rest, ⟨rfl, ⟨first, starts, word⟩, nameParts, isRest⟩, rfl⟩, rfl⟩
    obtain ⟨tail, rfl⟩ := List.head?_eq_some_iff.mp starts
    obtain ⟨raw, read⟩ := Option.isSome_iff_exists.mp (rawValue?_isSome_of_isRest isRest)
    have noMark : ∀ others, first :: tail ++ (mark trailing ++ ':' :: rest) = '!' :: others → False := by
      rintro others ⟨⟩
      revert word
      decide
    have closing : ∀ others, ':' :: rest = '!' :: others → False := by
      rintro others ⟨⟩
    have stops : ∀ c ∈ (mark trailing ++ ':' :: rest).head?, Text.isNamePart c = false := by
      intro c mem
      cases trailing <;> cases mem <;> decide
    obtain ⟨taken, dropped⟩ := takeWhile_append_of_head? nameParts stops
    refine ⟨mark leading ++ (first :: tail ++ (mark trailing ++ ':' :: rest)), rfl, first, ?_, (), word, raw,
      ⟨rest, ?_, read⟩, ?_⟩
    · rw [takeMark_append noMark]
      rfl
    · rw [takeMark_append noMark, dropped, takeMark_append closing]
      rfl
    · rw [takeMark_append noMark, taken, dropped, takeMark_append closing, (trim_of_rawValue? read).2]

theorem ofLine?_eq_none {line : Text} (other : ∀ rest, line ≠ ':' :: rest) : AttributeEntry.ofLine? line = none := by
  refine Option.eq_none_iff_forall_ne_some.mpr fun entry read => ?_
  obtain ⟨_, _, ⟨_, _, _, spells, _⟩, _⟩ := ofLine?_eq_some_iff.mp read
  exact other _ spells.spelled

theorem Declares.of_value {first : Char} {tail value : Text} (word : Text.isWord first)
    (parts : (first :: tail).all Text.isNamePart) (plain : value.all fun c => !Text.isLineTerminator c) :
    Declares (':' :: (first :: tail ++ ':' :: ' ' :: value)) (first :: tail) (some (Text.trim value)) := by
  refine ⟨false, false, ' ' :: value, ⟨rfl, ⟨first, rfl, word⟩, List.all_eq_true.mp parts, ?_⟩, rfl⟩
  refine .inr ⟨[' '], value, rfl, List.cons_ne_nil _ _, fun c mem => .inl (List.mem_singleton.mp mem), ?_⟩
  intro c mem
  simpa using List.all_eq_true.mp plain c mem

end AttributeEntry

namespace Anchor

/-- An id: a letter, an underscore or a colon, and characters behind it that `isPart` allows. -/
def IsId (isPart : Char → Bool) (id : Text) : Prop :=
  ∃ first tail, id = first :: tail ∧ isIdStart first ∧ ∀ c ∈ tail, isPart c

/-- A line that is a block anchor as a whole, `[[id]]` or `[[id,label]]`. -/
def Fills (line id : Text) : Prop :=
  IsId isIdPart id ∧ ∃ label, line = "[[" ++ (id ++ (label ++ "]]")) ∧
    (label = [] ∨ ∃ inner, label = ',' :: inner ∧ ']' ∉ inner)

/-- A line with an inline anchor `anchor:id[label]` in it. -/
def StandsIn (line id : Text) : Prop :=
  IsId isIdPart id ∧ ∃ front label back,
    line = front ++ ("anchor:" ++ (id ++ ('[' :: (label ++ ']' :: back)))) ∧ ']' ∉ label

/-- An attribute name that is a shorthand: a style that may be empty, a hash sign and an id, and after the id
whatever cannot continue it. -/
def IsShorthand (name id : Text) : Prop :=
  IsId isShorthandPart id ∧ ∃ style behind, name = style ++ '#' :: (id ++ behind) ∧
    (∀ c ∈ style, Text.isNamePart c) ∧ ∀ c ∈ behind.head?, isShorthandPart c = false

/-- A line that is an attribute list, possibly without its closing bracket, whose first name is a shorthand. -/
def Abbreviates (line id : Text) : Prop :=
  ∃ list, line = '[' :: list ∧ list.head? ≠ some '[' ∧
    IsShorthand (Text.trim (list.takeWhile fun c => c ≠ ',' && c ≠ ']')) id

theorem takeId?_eq_some_iff {isPart : Char → Bool} {text id behind : Text} :
    takeId? isPart text = some (id, behind) ↔
      text = id ++ behind ∧ IsId isPart id ∧ ∀ c ∈ behind.head?, isPart c = false := by
  constructor
  · intro taken
    cases text with
    | nil => cases taken
    | cons first rest =>
        rw [takeId?] at taken
        split at taken
        · next starts =>
            cases taken
            refine ⟨?_, ⟨first, rest.takeWhile isPart, rfl, starts, fun c mem => ?_⟩, head?_dropWhile_eq_false⟩
            · rw [List.cons_append, List.takeWhile_append_dropWhile]
            · exact List.all_eq_true.mp List.all_takeWhile c mem
        · cases taken
  · rintro ⟨rfl, ⟨first, tail, rfl, starts, parts⟩, stops⟩
    obtain ⟨taken, dropped⟩ := takeWhile_append_of_head? parts stops
    rw [List.cons_append, takeId?, if_pos starts, taken, dropped]

theorem dropWhile_eq_cons_iff {bracket : Char} {text rest : Text} :
    text.dropWhile (fun c => c ≠ bracket) = bracket :: rest ↔
      ∃ inner, text = inner ++ bracket :: rest ∧ bracket ∉ inner := by
  constructor
  · intro dropped
    refine ⟨text.takeWhile fun c => c ≠ bracket, ?_, fun mem => ?_⟩
    · rw [← dropped, List.takeWhile_append_dropWhile]
    · simpa using List.all_eq_true.mp List.all_takeWhile bracket mem
  · rintro ⟨inner, rfl, plain⟩
    refine (takeWhile_append_of_head? (fun c mem => ?_) fun c mem => ?_).2
    · exact decide_eq_true fun same => plain (same ▸ mem)
    · cases mem
      exact decide_eq_false fun differs => differs rfl

/-- A line is read as a block anchor exactly if it is spelled as one. -/
theorem ofLine?_eq_some_iff {line id : Text} : Anchor.ofLine? line = some id ↔ Fills line id := by
  unfold Anchor.ofLine?
  simp only [Option.bind_eq_bind, Option.bind_eq_some_iff, after?_eq_some_iff]
  constructor
  · rintro ⟨inner, rfl, ⟨taken, behind⟩, identified, closed⟩
    obtain ⟨rfl, isId, stops⟩ := takeId?_eq_some_iff.mp identified
    dsimp only at closed
    split at closed
    · next label =>
        split at closed
        · next ends =>
            cases closed
            obtain ⟨inner, spelled, plain⟩ := dropWhile_eq_cons_iff.mp ends
            refine ⟨isId, ',' :: inner, ?_, .inr ⟨inner, rfl, plain⟩⟩
            rw [spelled]
            rfl
        · cases closed
    · split at closed
      · next ends =>
          cases closed
          exact ⟨isId, [], congrArg (fun behind => "[[" ++ (id ++ behind)) ends, .inl rfl⟩
      · cases closed
  · rintro ⟨isId, label, rfl, labelled⟩
    refine ⟨_, rfl, (id, label ++ "]]"), takeId?_eq_some_iff.mpr ⟨rfl, isId, fun c mem => ?_⟩, ?_⟩
    · rcases labelled with rfl | ⟨inner, rfl, _⟩ <;> cases mem <;> decide
    · rcases labelled with rfl | ⟨inner, rfl, plain⟩
      · rfl
      · have ends : (inner ++ ']' :: [']']).dropWhile (fun c => c ≠ ']') = "]]" :=
          dropWhile_eq_cons_iff.mpr ⟨inner, rfl, plain⟩
        exact if_pos ends

theorem ofLine?_eq_none {line : Text} (other : ∀ rest, line ≠ '[' :: '[' :: rest) : Anchor.ofLine? line = none := by
  refine Option.eq_none_iff_forall_ne_some.mpr fun id read => ?_
  obtain ⟨_, _, spelled, _⟩ := ofLine?_eq_some_iff.mp read
  exact other _ spelled

theorem inlineAt?_eq_some_iff {text id rest : Text} :
    inlineAt? text = some (id, rest) ↔ IsId isIdPart id ∧
      ∃ label, text = "anchor:" ++ (id ++ ('[' :: (label ++ ']' :: rest))) ∧ ']' ∉ label := by
  unfold inlineAt?
  simp only [Option.bind_eq_bind, Option.bind_eq_some_iff, after?_eq_some_iff]
  constructor
  · rintro ⟨named, rfl, ⟨taken, behind⟩, identified, inner, opened, closed⟩
    obtain ⟨rfl, isId, _⟩ := takeId?_eq_some_iff.mp identified
    change behind = _ at opened
    split at closed
    · cases closed
    · next bracket back ends =>
        cases closed
        have isBracket : bracket = ']' := by
          have stopped : ∀ c ∈ (inner.dropWhile fun c => c ≠ ']').head?, decide (c ≠ ']') = false :=
            head?_dropWhile_eq_false
          rw [ends] at stopped
          simpa using stopped bracket rfl
        subst isBracket
        obtain ⟨label, spelled, plain⟩ := dropWhile_eq_cons_iff.mp ends
        refine ⟨isId, label, ?_, plain⟩
        rw [opened, spelled]
        rfl
  · rintro ⟨isId, label, rfl, plain⟩
    refine ⟨_, rfl, (id, '[' :: (label ++ ']' :: rest)),
      takeId?_eq_some_iff.mpr ⟨rfl, isId, fun c mem => ?_⟩, label ++ ']' :: rest, rfl, ?_⟩
    · cases mem
      decide
    · rw [dropWhile_eq_cons_iff.mpr ⟨label, rfl, plain⟩]

theorem StandsIn.append {text id : Text} (stands : StandsIn text id) (front : Text) :
    StandsIn (front ++ text) id := by
  obtain ⟨isId, before, label, back, rfl, plain⟩ := stands
  exact ⟨isId, front ++ before, label, back, by rw [List.append_assoc], plain⟩

theorem standsIn_of_mem_inline {text id : Text} (mem : id ∈ inline text) : StandsIn text id := by
  fun_induction inline text with
  | case1 => cases mem
  | case2 c rest first behind found ih =>
      obtain ⟨isId, label, spelled, plain⟩ := inlineAt?_eq_some_iff.mp found
      rw [spelled]
      rcases List.mem_cons.mp mem with rfl | later
      · exact ⟨isId, [], label, behind, rfl, plain⟩
      · have stands := (ih later).append ("anchor:" ++ (first ++ ('[' :: (label ++ [']']))))
        simpa only [List.append_assoc, List.cons_append, List.nil_append] using stands
  | case3 c rest missing ih => exact (ih mem).append [c]

theorem shorthand?_eq_some_iff {name id : Text} : shorthand? name = some id ↔ IsShorthand name id := by
  unfold shorthand?
  simp only [Option.bind_eq_bind, Option.bind_eq_some_iff, after?_eq_some_iff, Option.pure_def,
    Option.some.injEq]
  constructor
  · rintro ⟨marked, hash, ⟨taken, behind⟩, identified, rfl⟩
    obtain ⟨rfl, isId, stops⟩ := takeId?_eq_some_iff.mp identified
    refine ⟨isId, name.takeWhile Text.isNamePart, behind, ?_, fun c mem => ?_, stops⟩
    · have whole := List.takeWhile_append_dropWhile (p := Text.isNamePart) (l := name)
      rw [hash] at whole
      exact whole.symm
    · exact List.all_eq_true.mp List.all_takeWhile c mem
  · rintro ⟨isId, style, behind, rfl, parts, stops⟩
    refine ⟨id ++ behind, ?_, (id, behind), takeId?_eq_some_iff.mpr ⟨rfl, isId, stops⟩, rfl⟩
    refine (takeWhile_append_of_head? parts fun c mem => ?_).2
    cases mem
    decide

end Anchor

end Crossref
