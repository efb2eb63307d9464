import Crossref.Proofs.Catalogue
import Crossref.Proofs.Declaration.Line

/-! What the index of a document contains. If no value asks for another line, there is one attribute for every
line outside of verbatim blocks that is an entry, one id for every such line that is a block anchor, and no id
that such a line does not spell. -/

set_option autoImplicit false

namespace Crossref

namespace Lexeme

def isListed (c : Char) : Bool := c ≠ ',' && c ≠ ']'

theorem kind_of_mem_consName {c : Char} {lexemes : List Lexeme}
    (others : ∀ lexeme ∈ lexemes, lexeme.kind ≠ .attributeListStart) :
    ∀ lexeme ∈ consName c lexemes, lexeme.kind ≠ .attributeListStart := by
  unfold consName
  split
  · exact List.forall_mem_cons.mpr ⟨TokenKind.noConfusion, (List.forall_mem_cons.mp others).2⟩
  · exact List.forall_mem_cons.mpr ⟨TokenKind.noConfusion, others⟩

theorem kind_of_mem_ofAttributeList (list : Text) :
    ∀ lexeme ∈ ofAttributeList list, lexeme.kind ≠ .attributeListStart := by
  fun_induction ofAttributeList list with
  | case1 => exact List.forall_mem_nil _
  | case2 rest =>
      refine List.forall_mem_cons.mpr ⟨TokenKind.noConfusion, List.forall_mem_cons.mpr ⟨TokenKind.noConfusion, ?_⟩⟩
      exact List.forall_mem_nil _
  | case3 rest ih => exact List.forall_mem_cons.mpr ⟨TokenKind.noConfusion, ih⟩
  | case4 c rest _ _ ih => exact kind_of_mem_consName ih

/-- A list starts with the name up to the first comma or bracket, unless that name is empty. -/
theorem ofAttributeList_eq (list : Text) :
    ∃ back, ofAttributeList list = nonempty [⟨.attributeName, list.takeWhile isListed⟩] ++ back ∧
      ∀ lexeme ∈ back.head?, lexeme.kind ≠ .attributeName ∧ lexeme.text ≠ [] := by
  fun_induction ofAttributeList list with
  | case1 => exact ⟨[], rfl, fun lexeme mem => by cases mem⟩
  | case2 rest =>
      refine ⟨_, rfl, fun lexeme mem => ?_⟩
      cases mem
      exact ⟨TokenKind.noConfusion, List.cons_ne_nil _ _⟩
  | case3 rest ih =>
      refine ⟨_, rfl, fun lexeme mem => ?_⟩
      cases mem
      exact ⟨TokenKind.noConfusion, List.cons_ne_nil _ _⟩
  | case4 c rest noBracket noComma ih =>
      obtain ⟨back, split, others⟩ := ih
      have listed : isListed c := by
        simp only [isListed, Bool.and_eq_true, decide_eq_true_eq]
        exact ⟨fun comma => noComma comma, fun bracket => noBracket bracket⟩
      refine ⟨back, ?_, others⟩
      rw [List.takeWhile_cons_of_pos listed, nonempty_cons (List.cons_ne_nil _ _), split]
      cases name : rest.takeWhile isListed with
      | nil => exact consName_of_head? (fun lexeme mem => (others lexeme mem).1) c
      | cons next behind => rfl

theorem head?_nonempty_ofAttributeList {list : Text} {lexeme : Lexeme}
    (first : lexeme ∈ (nonempty (ofAttributeList list)).head?) (name : lexeme.kind = .attributeName) :
    lexeme.text = list.takeWhile isListed := by
  obtain ⟨back, split, others⟩ := ofAttributeList_eq list
  rw [split, nonempty_append] at first
  by_cases empty : list.takeWhile isListed = []
  · rw [empty] at first
    cases back with
    | nil => cases first
    | cons next behind =>
        obtain ⟨notName, filled⟩ := others next rfl
        rw [nonempty_cons filled] at first
        cases first
        exact absurd name notName
  · rw [nonempty_cons empty, nonempty_cons empty] at first
    cases first
    rfl

theorem ofContent_starts (content : Text) :
    (∀ lexeme ∈ ofContent content, lexeme.kind ≠ .attributeListStart) ∨
      ∃ list, content = '[' :: list ∧ list.head? ≠ some '[' ∧
        ofContent content = ⟨.attributeListStart, ['[']⟩ :: ofAttributeList list := by
  have shape := isContent_ofContent content
  generalize ofContent content = lexemes at shape
  cases shape with
  | text => exact .inl (List.forall_mem_cons.mpr ⟨TokenKind.noConfusion, List.forall_mem_nil _⟩)
  | whole kinds =>
      refine .inl (List.forall_mem_cons.mpr ⟨?_, List.forall_mem_nil _⟩)
      rcases kinds with rfl | rfl | rfl <;> exact TokenKind.noConfusion
  | list spelled single => exact .inr ⟨_, spelled, single, rfl⟩
  | parts =>
      refine .inl (List.forall_mem_cons.mpr ⟨TokenKind.noConfusion, ?_⟩)
      refine List.forall_mem_cons.mpr ⟨TokenKind.noConfusion, ?_⟩
      exact List.forall_mem_cons.mpr ⟨TokenKind.noConfusion, List.forall_mem_nil _⟩

theorem exists_textOf_of_mem {lexeme : Lexeme} {lexemes : List Lexeme} (mem : lexeme ∈ lexemes) :
    ∃ front back, textOf lexemes = front ++ (lexeme.text ++ back) := by
  obtain ⟨front, back, rfl⟩ := List.append_of_mem mem
  exact ⟨textOf front, textOf back, by rw [textOf_append, textOf_cons]⟩

end Lexeme

namespace Anchor

theorem StandsIn.append_right {text id : Text} (stands : StandsIn text id) (behind : Text) :
    StandsIn (text ++ behind) id := by
  obtain ⟨isId, front, label, back, rfl, plain⟩ := stands
  refine ⟨isId, front, label, back ++ behind, ?_, plain⟩
  simp only [List.append_assoc, List.cons_append]

/-- An id among lexemes without the start of a list stands in a text, or in a name right behind such a start. -/
theorem cases_of_mem_ofLexemes {opensList : Bool} {lexemes : List Lexeme} {id : Text}
    (noStart : ∀ lexeme ∈ lexemes, lexeme.kind ≠ .attributeListStart) (mem : id ∈ ofLexemes opensList lexemes) :
    (∃ lexeme ∈ lexemes, lexeme.kind = .text ∧ id ∈ inline lexeme.text) ∨
      opensList = true ∧ ∃ lexeme ∈ lexemes.head?, lexeme.kind = .attributeName ∧
        shorthand? (Text.trim lexeme.text) = some id := by
  induction lexemes generalizing opensList with
  | nil => cases mem
  | cons lexeme rest ih =>
      obtain ⟨notStart, restNoStart⟩ := List.forall_mem_cons.mp noStart
      rcases List.mem_append.mp mem with here | behind
      · unfold ofLexeme at here
        split at here
        · next kind => exact .inl ⟨lexeme, List.mem_cons_self, kind, here⟩
        · next kind =>
            cases opensList with
            | false => cases here
            | true => exact .inr ⟨rfl, lexeme, rfl, kind, Option.mem_toList.mp here⟩
        · cases here
      · rcases ih restNoStart behind with ⟨other, inRest, found⟩ | ⟨opens, _⟩
        · exact .inl ⟨other, List.mem_cons_of_mem lexeme inRest, found⟩
        · exact absurd (of_decide_eq_true opens) notStart

theorem standsIn_of_mem_text {content id : Text} {lexeme : Lexeme}
    (mem : lexeme ∈ Lexeme.nonempty (Lexeme.ofContent content)) (inText : id ∈ inline lexeme.text) :
    StandsIn content id := by
  obtain ⟨front, back, whole⟩ := Lexeme.exists_textOf_of_mem mem
  rw [Lexeme.nonempty, Lexeme.textOf_filter_nonempty, Lexeme.textOf_ofContent] at whole
  rw [whole]
  exact ((standsIn_of_mem_inline inText).append_right back).append front

/-- Every id of a line, block anchors aside, stands in it as an inline anchor or is its shorthand. -/
theorem cases_of_mem_ids {content id : Text} (mem : id ∈ Line.ids content) :
    StandsIn content id ∨ Abbreviates content id := by
  rcases Verbatim.step_none_cases content with ⟨delimiter, read⟩ | ⟨delimiter, read⟩ | ⟨_, read⟩ | ⟨_, read⟩
  · rw [Line.ids, (read []).2, Lexeme.nonempty_cons (Verbatim.ne_nil_of_isDelimiter delimiter)] at mem
    cases mem
  · have filled : content ++ [] ≠ [] := by simpa using Verbatim.ne_nil_of_isDelimiter delimiter
    rw [Line.ids, (read []).2, Lexeme.nonempty_cons filled] at mem
    cases mem
  · rw [Line.ids, (read []).2] at mem
    cases mem
  · rw [Line.ids_of_step (read []).2] at mem
    -- Without the start of a list no name carries an id, and within a list only the first one does.
    rcases Lexeme.ofContent_starts content with noStart | ⟨list, rfl, single, starts⟩
    · rcases cases_of_mem_ofLexemes (fun lexeme inLine => noStart lexeme (List.mem_filter.mp inLine).1) mem with
        ⟨lexeme, inLine, _, found⟩ | ⟨opens, _⟩
      · exact .inl (standsIn_of_mem_text inLine found)
      · cases opens
    · rw [starts, Lexeme.nonempty_cons (List.cons_ne_nil _ _)] at mem
      have inList : id ∈ ofLexemes true (Lexeme.nonempty (Lexeme.ofAttributeList list)) := mem
      have noStart : ∀ lexeme ∈ Lexeme.nonempty (Lexeme.ofAttributeList list), lexeme.kind ≠ .attributeListStart :=
        fun lexeme inLine => Lexeme.kind_of_mem_ofAttributeList list lexeme (List.mem_filter.mp inLine).1
      rcases cases_of_mem_ofLexemes noStart inList with ⟨lexeme, inLine, _, found⟩ | ⟨_, lexeme, first, kind, found⟩
      · have mem : lexeme ∈ Lexeme.nonempty (Lexeme.ofContent ('[' :: list)) := by
          rw [starts, Lexeme.nonempty_cons (List.cons_ne_nil _ _)]
          exact List.mem_cons_of_mem _ inLine
        exact .inl (standsIn_of_mem_text mem found)
      · rw [Lexeme.head?_nonempty_ofAttributeList first kind] at found
        exact .inr ⟨list, rfl, single, shorthand?_eq_some_iff.mp found⟩

end Anchor

namespace Declared

def attributeOfLine? (file : Text) (numbered : Line × Nat) (following : List Text) : Option IndexedAttribute :=
  (AttributeEntry.ofLine? numbered.1.content).map fun entry =>
    ⟨{ entry with value := entry.value.map (AttributeEntry.extendBy · following) }, ⟨file, numbered.2⟩⟩

theorem filterMap_attribute?_ofLine (file : Text) (numbered : Line × Nat) (following : List Text) :
    (ofLine file numbered.2 numbered.1.content following).filterMap attribute? =
      (attributeOfLine? file numbered following).toList := by
  unfold ofLine attributeOfLine?
  cases AttributeEntry.ofLine? numbered.1.content with
  | some entry => rfl
  | none =>
      cases Anchor.ofLine? numbered.1.content with
      | some id => rfl
      | none =>
          dsimp only
          rw [List.filterMap_map]
          exact List.filterMap_eq_nil_iff.mpr fun id _ => rfl

theorem extendBy_eq_self {value : Text} (complete : ¬ (" \\" : Text) <:+ value) (following : List Text) :
    AttributeEntry.extendBy value following = value := by
  have stops : AttributeEntry.isContinued value = false := by
    rw [AttributeEntry.isContinued]
    exact Bool.eq_false_iff.mpr fun continued => complete (List.isSuffixOf_iff_suffix.mp continued)
  cases following with
  | nil => rfl
  | cons next rest => rw [AttributeEntry.extendBy, if_neg (Bool.eq_false_iff.mp stops)]

theorem filterMap_attribute?_ofSource (path text : Text) :
    (ofSource ⟨path, text⟩).filterMap attribute? =
      (Line.outside none ((Line.ofText text).zipIdx 1)).filterMap fun numbered =>
        attributeOfLine? path numbered (Line.continuations ((Line.ofText text).drop numbered.2)) := by
  rw [ofSource_eq_ofLines, List.filterMap_flatMap, List.filterMap_eq_flatMap_toList]
  exact List.flatMap_congr fun numbered _ => filterMap_attribute?_ofLine path numbered _

theorem ofLine_of_fills {content id : Text} (fills : Anchor.Fills content id) (path : Text) (line : Nat)
    (following : List Text) : ofLine path line content following = [.anchor ⟨⟨path, line⟩, id⟩] := by
  have noEntry : AttributeEntry.ofLine? content = none := by
    obtain ⟨_, _, rfl, _⟩ := fills
    exact AttributeEntry.ofLine?_eq_none fun rest colon => by cases colon
  rw [ofLine, noEntry, Anchor.ofLine?_eq_some_iff.mpr fills]

theorem spelled_of_anchor_mem_ofLine {path content : Text} {line : Nat} {following : List Text}
    {found : IndexedId} (mem : .anchor found ∈ ofLine path line content following) :
    Anchor.Fills content found.id ∨ Anchor.StandsIn content found.id ∨ Anchor.Abbreviates content found.id := by
  unfold ofLine at mem
  split at mem
  · cases List.mem_singleton.mp mem
  · split at mem
    · next id read =>
        cases List.mem_singleton.mp mem
        exact .inl (Anchor.ofLine?_eq_some_iff.mp read)
    · obtain ⟨id, inLine, made⟩ := List.mem_map.mp mem
      cases made
      exact .inr (Anchor.cases_of_mem_ids inLine)

open scoped Classical in
/-- A document declares, in order, one attribute for each line outside of verbatim blocks that is an entry, if
no value asks for another line. A line that is a block anchor declares its id and nothing else, and every
other id is spelled in a line outside as well. -/
theorem declares_what_lines_spell (path text : Text)
    (complete : ∀ numbered ∈ Line.outside none ((Line.ofText text).zipIdx 1), ∀ name value,
      AttributeEntry.Declares numbered.1.content name (some value) → ¬ (" \\" : Text) <:+ value) :
    List.Forall₂
        (fun numbered found => ∃ name value, AttributeEntry.Declares numbered.1.content name value ∧
          found = ⟨⟨Text.lower name, value⟩, ⟨path, numbered.2⟩⟩)
        ((Line.outside none ((Line.ofText text).zipIdx 1)).filter fun numbered =>
          ∃ name value, AttributeEntry.Declares numbered.1.content name value)
        ((ofSource ⟨path, text⟩).filterMap attribute?) ∧
      (∀ numbered ∈ Line.outside none ((Line.ofText text).zipIdx 1), ∀ id,
        Anchor.Fills numbered.1.content id →
          (ofSource ⟨path, text⟩).filter (fun declared => declared.location.line = numbered.2) =
            [.anchor ⟨⟨path, numbered.2⟩, id⟩]) ∧
      ∀ found, .anchor found ∈ ofSource ⟨path, text⟩ → found.file = path ∧
        ∃ line, (line, found.line) ∈ Line.outside none ((Line.ofText text).zipIdx 1) ∧
          (Anchor.Fills line.content found.id ∨ Anchor.StandsIn line.content found.id ∨
            Anchor.Abbreviates line.content found.id) := by
  refine ⟨?_, ?_, ?_⟩
  · rw [filterMap_attribute?_ofSource]
    apply forall₂_filter_filterMap
    · intro numbered outside kept
      obtain ⟨name, value, declares⟩ := of_decide_eq_true kept
      have read := AttributeEntry.ofLine?_eq_some_iff.mpr ⟨name, value, declares, rfl⟩
      refine ⟨_, ?_, name, value, declares, rfl⟩
      rw [attributeOfLine?, read]
      cases value with
      | none => rfl
      | some value =>
          have whole := extendBy_eq_self (complete numbered outside name value declares)
          rw [Option.map_some, Option.map_some, whole]
    · intro numbered _ dropped
      have noEntry : AttributeEntry.ofLine? numbered.1.content = none := by
        refine Option.eq_none_iff_forall_ne_some.mpr fun entry read => ?_
        obtain ⟨name, value, declares, _⟩ := AttributeEntry.ofLine?_eq_some_iff.mp read
        exact of_decide_eq_false dropped ⟨name, value, declares⟩
      rw [attributeOfLine?, noEntry]
      rfl
  · intro numbered outside id fills
    rw [filter_line_ofSource outside, ofLine_of_fills fills]
  · intro found mem
    rw [ofSource_eq_ofLines] at mem
    obtain ⟨⟨line, number⟩, outside, declared⟩ := List.mem_flatMap.mp mem
    have located : found.toLocation = ⟨path, number⟩ := location_of_mem_ofLine declared
    refine ⟨congrArg Location.file located, line, ?_, spelled_of_anchor_mem_ofLine declared⟩
    rw [located]
    exact outside

/-- An entry and an anchor in a listing, and behind it and a fence an entry that is trimmed, one that is unset, an
anchor with a label, a shorthand and an inline anchor. -/
theorem declares_what_lines_spell_behind_listing :
    let text : Text :=
      "----\n:no: x\n----\n====\n:My-Name: \t a value \r\n:!gone: x\n[[id,label]]\n[quote#short.role]\n- anchor:here[]"
    let lines := Line.outside none ((Line.ofText text).zipIdx 1)
    (∀ numbered ∈ lines, ∀ name value,
      AttributeEntry.Declares numbered.1.content name (some value) → ¬ (" \\" : Text) <:+ value) ∧
    (ofSource ⟨"/a.adoc", text⟩).filterMap attribute? =
      [⟨⟨"my-name", some "a value"⟩, ⟨"/a.adoc", 5⟩⟩, ⟨⟨"gone", none⟩, ⟨"/a.adoc", 6⟩⟩] ∧
    (ofSource ⟨"/a.adoc", text⟩).filter (fun declared => declared.location.line = 7) =
      [.anchor ⟨⟨"/a.adoc", 7⟩, "id"⟩] ∧
    ∀ found, .anchor found ∈ ofSource ⟨"/a.adoc", text⟩ → found.file = ("/a.adoc" : Text) ∧
      ∃ line, (line, found.line) ∈ lines ∧
        (Anchor.Fills line.content found.id ∨ Anchor.StandsIn line.content found.id ∨
          Anchor.Abbreviates line.content found.id) := by
  intro text lines
  have read : ∀ numbered ∈ lines, ∀ entry ∈ AttributeEntry.ofLine? numbered.1.content, ∀ value ∈ entry.value,
      ¬ (" \\" : Text) <:+ value := by
    decide +kernel
  have complete : ∀ numbered ∈ lines, ∀ name value,
      AttributeEntry.Declares numbered.1.content name (some value) → ¬ (" \\" : Text) <:+ value := by
    intro numbered outside name value declares
    have entry := AttributeEntry.ofLine?_eq_some_iff.mpr ⟨name, some value, declares, rfl⟩
    exact read numbered outside _ entry value rfl
  have attributes : (ofSource ⟨"/a.adoc", text⟩).filterMap attribute? =
      [⟨⟨"my-name", some "a value"⟩, ⟨"/a.adoc", 5⟩⟩, ⟨⟨"gone", none⟩, ⟨"/a.adoc", 6⟩⟩] := by
    rw [filterMap_attribute?_ofSource]
    decide +kernel
  have here : (⟨"[[id,label]]", "\n"⟩, 7) ∈ lines := by
    decide +kernel
  have fills : Anchor.Fills "[[id,label]]" "id" := Anchor.ofLine?_eq_some_iff.mp (by decide)
  obtain ⟨_, anchors, others⟩ := declares_what_lines_spell "/a.adoc" text complete
  exact ⟨complete, attributes, anchors _ here _ fills, others⟩

end Declared

end Crossref
