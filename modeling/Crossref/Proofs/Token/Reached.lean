import Crossref.Proofs.Token.Boundary

/-! The states that a lexer with a stack reaches. Its stack, its mode and the start of an open comment block are kept
apart and changed in different places; between lines they always agree, since only fences are ever left below the top
of the stack. So it is enough to look at the top to know which block a delimiter closes. -/

set_option autoImplicit false

namespace Crossref

/-- The kinds of block that a lexer in a mode may take a line for the end of. What a listing or a comment block holds
is verbatim, so nothing but this block ends there. -/
def LexerMode.Asks : LexerMode → BlockKind → Prop
  | .listing, kind => kind = .listing
  | .comment, kind => kind = .comment
  | _, _ => True

namespace OpenBlock

/-- The block of a kind that was opened last, if one is open. -/
def innermost? (blocks : List OpenBlock) (kind : BlockKind) : Option OpenBlock :=
  blocks.find? fun block => block.kind = kind

/-- What a delimiter does: it closes the innermost block of its kind if both lines are the same, and opens a block
otherwise. -/
def toggled (blocks : List OpenBlock) (kind : BlockKind) (delimiter : Text) : List OpenBlock :=
  if innermost? blocks kind = some ⟨kind, delimiter⟩ then blocks.eraseP fun block => block.kind = kind
  else ⟨kind, delimiter⟩ :: blocks

/-- The kind of block that a line delimits. Within a listing or a comment block only the line that opened it is a
delimiter. -/
def delimited? (blocks : List OpenBlock) (content : Text) : Option BlockKind :=
  match blocks.head? with
  | some ⟨.listing, opening⟩ => if content = opening then some .listing else none
  | some ⟨.comment, opening⟩ => if content = opening then some .comment else none
  | _ =>
    if isDelimiter '-' content then some .listing
    else if isDelimiter '=' content then some .fence
    else if isDelimiter '/' content then some .comment
    else none

/-- The blocks that are open behind a line. -/
def behindLine (blocks : List OpenBlock) (content : Text) : List OpenBlock :=
  match delimited? blocks content with
  | some kind => toggled blocks kind content
  | none => blocks

/-- A delimiter ends the listing or the comment block on top, or there is none. -/
theorem delimited?_eq_some {blocks : List OpenBlock} {content : Text} {kind : BlockKind}
    (delimits : delimited? blocks content = some kind) :
    (∃ outer, blocks = ⟨kind, content⟩ :: outer) ∨
      (∀ block ∈ blocks.head?, block.kind = .fence) ∧ (kind = .comment → isDelimiter '/' content) := by
  have marked : ∀ {found : BlockKind}, (if isDelimiter '-' content then some .listing
      else if isDelimiter '=' content then some .fence
      else if isDelimiter '/' content then some .comment
      else none) = some found → found = .comment → isDelimiter '/' content := by
    intro found same isComment
    subst isComment
    split at same
    · cases same
    · split at same
      · cases same
      · split at same
        · next slashes => exact slashes
        · cases same
  cases blocks with
  | nil => exact .inr ⟨fun block mem => (Option.not_mem_none block mem).elim, marked delimits⟩
  | cons block outer =>
      obtain ⟨topKind, opening⟩ := block
      cases topKind with
      | fence => exact .inr ⟨fun block mem => by cases mem; rfl, marked delimits⟩
      | listing =>
          obtain ⟨same, found⟩ := Option.ite_none_right_eq_some.mp delimits
          cases found
          exact .inl ⟨outer, by rw [same]⟩
      | comment =>
          obtain ⟨same, found⟩ := Option.ite_none_right_eq_some.mp delimits
          cases found
          exact .inl ⟨outer, by rw [same]⟩

theorem innermost?_cons_self (kind : BlockKind) (opening : Text) (outer : List OpenBlock) :
    innermost? (⟨kind, opening⟩ :: outer) kind = some ⟨kind, opening⟩ :=
  List.find?_cons_of_pos (decide_eq_true rfl)

theorem toggled_cons_self (kind : BlockKind) (opening : Text) (outer : List OpenBlock) :
    toggled (⟨kind, opening⟩ :: outer) kind opening = outer := by
  rw [toggled, if_pos (innermost?_cons_self kind opening outer)]
  exact List.eraseP_cons_of_pos (decide_eq_true rfl)

end OpenBlock

namespace StackLexer

open OpenBlock

/-- The kind of the block on top of the stack. -/
def top? (lexer : StackLexer) : Option BlockKind := lexer.blocks.head?.map OpenBlock.kind

/-- What holds of a lexer between two lines. -/
structure IsSettled (lexer : StackLexer) : Prop where
  fencesBelow : ∀ block ∈ lexer.blocks.tail, block.kind = .fence
  listing : lexer.mode = .listing ↔ lexer.top? = some .listing
  comment : lexer.mode = .comment ↔ lexer.top? = some .comment
  fence : lexer.mode = .fence ↔ lexer.top? = some .fence
  normal : lexer.mode = .normal ↔ lexer.top? = none
  noList : lexer.mode ≠ .attributeList
  started : lexer.commentStart.isSome ↔ lexer.top? = some .comment

/-- A lexer that has read some of the first lines of a document. -/
def afterLines (document : Text) (count : Nat) : StackLexer :=
  ((Line.located 0 (Line.ofText document)).take count).foldl (readLine document) (within [])

theorem isSettled_standing (state : Classifier) (fences : List Text) (tokens : List Token) :
    (standing state fences tokens).IsSettled := by
  have outer : ∀ block ∈ fences.map (⟨.fence, ·⟩ : Text → OpenBlock), block.kind = .fence := by
    intro block mem
    obtain ⟨delimiter, _, rfl⟩ := List.mem_map.mp mem
    rfl
  cases state with
  | outside =>
      cases fences with
      | nil => constructor <;> simp [standing, syncMode, modeOf, top?]
      | cons first rest =>
          have below := (List.forall_mem_cons.mp outer).2
          constructor <;> simp_all [standing, syncMode, modeOf, top?]
  | inListing delimiter => constructor <;> simp_all [standing, syncMode, modeOf, top?]
  | inComment delimiter start => constructor <;> simp_all [standing, syncMode, modeOf, top?]

/-- Every run of lines leaves a lexer that stands where a classifier is, with fences around the block that is open. -/
theorem isSettled_afterLines (document : Text) (count : Nat) : (afterLines document count).IsSettled := by
  obtain ⟨behind, outer, given, reached⟩ := exists_foldl_standing document 0 .none [] []
    ((Line.located 0 (Line.ofText document)).take count)
  have same : afterLines document count = standing (.ofVerbatim behind _) outer given := reached
  rw [same]
  exact isSettled_standing _ outer given

section Line

variable {lexer : StackLexer} {kind : BlockKind} {opening : Text} {outer : List OpenBlock}

theorem top?_of_held (held : lexer.blocks = ⟨kind, opening⟩ :: outer) : lexer.top? = some kind := by
  rw [top?, held]
  rfl

theorem IsSettled.notMem_tail (settled : lexer.IsSettled) : ⟨.comment, opening⟩ ∉ lexer.blocks.tail :=
  fun mem => BlockKind.noConfusion (settled.fencesBelow _ mem)

theorem IsSettled.mode_eq (settled : lexer.IsSettled) : lexer.mode = modeOf lexer.blocks := by
  cases held : lexer.blocks with
  | nil =>
      refine settled.normal.mpr ?_
      rw [top?, held]
      rfl
  | cons block outer =>
      obtain ⟨kind, opening⟩ := block
      cases kind with
      | listing => exact settled.listing.mpr (top?_of_held held)
      | fence => exact settled.fence.mpr (top?_of_held held)
      | comment => exact settled.comment.mpr (top?_of_held held)

theorem IsSettled.syncMode_eq (settled : lexer.IsSettled) : lexer.syncMode = lexer := by
  rw [syncMode, ← settled.mode_eq]

/-- If the top of the stack is of another kind than the one asked for, no block of this kind is open. -/
theorem IsSettled.innermost?_eq_none (settled : lexer.IsSettled) (asks : lexer.mode.Asks kind) {block : OpenBlock}
    (held : lexer.blocks = block :: outer) (other : block.kind ≠ kind) : innermost? lexer.blocks kind = none := by
  have noFence : kind ≠ .fence := by
    rintro rfl
    obtain ⟨topKind, opening⟩ := block
    cases topKind with
    | listing =>
        rw [settled.listing.mpr (top?_of_held held)] at asks
        cases asks
    | fence => exact other rfl
    | comment =>
        rw [settled.comment.mpr (top?_of_held held)] at asks
        cases asks
  have below := settled.fencesBelow
  rw [held, List.tail_cons] at below
  rw [innermost?, held, List.find?_eq_none]
  refine List.forall_mem_cons.mpr ⟨by simpa using other, fun inner mem => ?_⟩
  rw [below inner mem]
  simpa using noFence.symm

/-- Looking at the top of the stack is looking at the innermost block of the kind that is asked for. -/
theorem IsSettled.closes_eq (settled : lexer.IsSettled) (asks : lexer.mode.Asks kind) (content : Text) :
    lexer.closes kind content = decide (innermost? lexer.blocks kind = some ⟨kind, content⟩) := by
  rw [closes]
  refine decide_eq_decide.mpr ?_
  cases held : lexer.blocks with
  | nil => exact iff_of_false (Option.some_ne_none _).symm (Option.some_ne_none _).symm
  | cons block outer =>
      by_cases same : block.kind = kind
      · obtain ⟨_, opening⟩ := block
        subst same
        rw [innermost?_cons_self, List.head?_cons]
      · rw [← held, settled.innermost?_eq_none asks held same, held, List.head?_cons]
        refine iff_of_false (fun top => same ?_) (Option.some_ne_none _).symm
        rw [Option.some.inj top]

theorem IsSettled.blocks_toggle (settled : lexer.IsSettled) (asks : lexer.mode.Asks kind) (content : Text) :
    (lexer.toggle kind content).blocks = toggled lexer.blocks kind content := by
  by_cases closing : lexer.closes kind content
  · obtain ⟨outer, held⟩ := List.head?_eq_some_iff.mp (of_decide_eq_true closing)
    rw [toggle, if_pos closing, held, toggled_cons_self]
    rfl
  · have innermost := of_decide_eq_false ((settled.closes_eq asks content).symm.trans (Bool.eq_false_iff.mpr closing))
    rw [toggle, if_neg closing, toggled, if_neg innermost]
    rfl

theorem commentStart_toggle (kind : BlockKind) (content : Text) :
    (lexer.toggle kind content).commentStart = lexer.commentStart := by
  rw [toggle]
  split <;> rfl

/-- What a line does to the blocks and to the start of an open comment block. -/
structure Turns (lexer next : StackLexer) (content : Text) (start : Nat) : Prop where
  blocks : next.blocks = behindLine lexer.blocks content
  started : next.commentStart =
    if delimited? lexer.blocks content = some .comment then if lexer.mode = .comment then none else some start
    else lexer.commentStart

/-- A line that is no delimiter may give tokens, and leaves the rest as it is. -/
theorem turns_of_none {content : Text} (delimits : delimited? lexer.blocks content = none) (tokens : List Token)
    (start : Nat) : Turns lexer (lexer.give tokens) content start := by
  refine ⟨?_, ?_⟩
  · rw [behindLine, delimits]
    rfl
  · rw [delimits, if_neg (by decide)]
    rfl

/-- The delimiter of a listing or of a fence leaves the start of a comment block as it is. -/
theorem IsSettled.turns_of_toggle (settled : lexer.IsSettled) (asks : lexer.mode.Asks kind)
    (noComment : kind ≠ .comment) {content : Text} (delimits : delimited? lexer.blocks content = some kind)
    (tokens : List Token) (start : Nat) : Turns lexer ((lexer.toggle kind content).give tokens) content start := by
  refine ⟨?_, ?_⟩
  · rw [behindLine, delimits]
    exact settled.blocks_toggle asks content
  · rw [delimits, if_neg (mt Option.some.inj noComment)]
    exact commentStart_toggle kind content

variable (document : Text) (line : Line) (start : Nat)

theorem IsSettled.turns_of_listing (settled : lexer.IsSettled) (held : lexer.blocks = ⟨.listing, opening⟩ :: outer) :
    Turns lexer (readLine document lexer (line, start)) line.content start := by
  have listing : lexer.mode = .listing := settled.listing.mpr (top?_of_held held)
  have noComment : lexer.mode ≠ .comment := by
    rw [listing]
    exact LexerMode.noConfusion
  have asks : lexer.mode.Asks .listing := by
    rw [listing]
    rfl
  have delimits : delimited? lexer.blocks line.content = if line.content = opening then some .listing else none := by
    rw [held]
    rfl
  simp only [readLine, if_neg noComment, if_pos listing, closes_of_held held, decide_eq_true_eq, emit_eq_give,
    give_give]
  split
  · next same => exact settled.turns_of_toggle asks BlockKind.noConfusion (delimits.trans (if_pos same)) _ start
  · next other => exact turns_of_none (delimits.trans (if_neg other)) _ start

theorem IsSettled.turns_of_comment (settled : lexer.IsSettled) (held : lexer.blocks = ⟨.comment, opening⟩ :: outer) :
    Turns lexer (readLine document lexer (line, start)) line.content start := by
  have comment : lexer.mode = .comment := settled.comment.mpr (top?_of_held held)
  have asks : lexer.mode.Asks .comment := by
    rw [comment]
    rfl
  have delimits : delimited? lexer.blocks line.content = if line.content = opening then some .comment else none := by
    rw [held]
    rfl
  simp only [readLine, if_pos comment, closes_of_held held, decide_eq_true_eq, emit_eq_give]
  split
  · next same =>
      rw [if_pos same] at delimits
      refine ⟨?_, ?_⟩
      · rw [behindLine, delimits]
        exact settled.blocks_toggle asks line.content
      · rw [delimits, if_pos rfl, if_pos comment]
        rfl
  · next other =>
      rw [if_neg other] at delimits
      refine ⟨?_, ?_⟩
      · rw [behindLine, delimits]
      · rw [delimits, if_neg (by decide)]

theorem IsSettled.turns_outside (settled : lexer.IsSettled) (noListing : lexer.mode ≠ .listing)
    (noComment : lexer.mode ≠ .comment)
    (delimits : delimited? lexer.blocks line.content =
      if isDelimiter '-' line.content then some .listing
      else if isDelimiter '=' line.content then some .fence
      else if isDelimiter '/' line.content then some .comment
      else none) :
    Turns lexer (readLine document lexer (line, start)) line.content start := by
  have asks : ∀ kind, lexer.mode.Asks kind := by
    intro kind
    cases mode : lexer.mode with
    | listing => exact absurd mode noListing
    | comment => exact absurd mode noComment
    | _ => trivial
  simp only [readLine, if_neg noComment, if_neg noListing, emit_eq_give, give_give]
  split
  · next listing =>
      rw [if_pos listing] at delimits
      exact settled.turns_of_toggle (asks _) BlockKind.noConfusion delimits _ start
  · next noDashes =>
      rw [if_neg noDashes] at delimits
      split
      · next fence =>
          rw [if_pos fence] at delimits
          exact settled.turns_of_toggle (asks _) BlockKind.noConfusion delimits _ start
      · next noFence =>
          rw [if_neg noFence] at delimits
          split
          · next comment =>
              rw [if_pos comment] at delimits
              refine ⟨?_, ?_⟩
              · rw [behindLine, delimits]
                exact settled.blocks_toggle (asks .comment) line.content
              · rw [delimits, if_pos rfl, if_neg noComment]
          · next noSlashes =>
              rw [if_neg noSlashes] at delimits
              rw [readContent_eq_give settled.syncMode_eq, give_give]
              exact turns_of_none delimits _ start

/-- One line, read between settled states. -/
theorem IsSettled.turns (settled : lexer.IsSettled) :
    Turns lexer (readLine document lexer (line, start)) line.content start := by
  cases held : lexer.blocks with
  | nil =>
      have mode : lexer.mode = .normal := by
        rw [settled.mode_eq, held]
        rfl
      refine settled.turns_outside document line start ?_ ?_ (by rw [held]; rfl)
      · rw [mode]
        exact LexerMode.noConfusion
      · rw [mode]
        exact LexerMode.noConfusion
  | cons block outer =>
      obtain ⟨kind, opening⟩ := block
      cases kind with
      | listing => exact settled.turns_of_listing document line start held
      | comment => exact settled.turns_of_comment document line start held
      | fence =>
          have mode : lexer.mode = .fence := settled.fence.mpr (top?_of_held held)
          refine settled.turns_outside document line start ?_ ?_ (by rw [held]; rfl)
          · rw [mode]
            exact LexerMode.noConfusion
          · rw [mode]
            exact LexerMode.noConfusion

/-- A line behind which a comment block is on top has left it there or has opened it. -/
theorem IsSettled.opens_comment (settled : lexer.IsSettled)
    (opened : (readLine document lexer (line, start)).blocks = ⟨.comment, opening⟩ :: outer) :
    lexer.blocks = ⟨.comment, opening⟩ :: outer ∧
        (readLine document lexer (line, start)).commentStart = lexer.commentStart ∨
      line.content = opening ∧ isDelimiter '/' opening ∧ lexer.blocks = outer ∧
        (readLine document lexer (line, start)).commentStart = some start := by
  obtain ⟨blocks, started⟩ := settled.turns document line start
  rw [opened, behindLine] at blocks
  cases delimits : delimited? lexer.blocks line.content with
  | none =>
      rw [delimits] at blocks started
      exact .inl ⟨blocks.symm, started⟩
  | some kind =>
      rw [delimits] at blocks started
      dsimp only at blocks
      rcases delimited?_eq_some delimits with ⟨inner, top⟩ | ⟨topFence, slashes⟩
      · -- the block on top is closed, and there are fences only below it
        have below : ⟨.comment, opening⟩ :: outer = lexer.blocks.tail := by
          rw [blocks, top, toggled_cons_self, List.tail_cons]
        exact (settled.notMem_tail (below ▸ List.mem_cons_self)).elim
      · have fences : ⟨.comment, opening⟩ ∉ lexer.blocks := by
          intro mem
          cases held : lexer.blocks with
          | nil => cases held ▸ mem
          | cons block further =>
              rw [held] at mem topFence
              rcases List.mem_cons.mp mem with rfl | behind
              · exact BlockKind.noConfusion (topFence _ rfl)
              · have mem : ⟨.comment, opening⟩ ∈ lexer.blocks.tail := by
                  rw [held]
                  exact behind
                exact settled.notMem_tail mem
        have noComment : lexer.mode ≠ .comment := by
          intro comment
          obtain ⟨block, top, isComment⟩ := Option.map_eq_some_iff.mp (settled.comment.mp comment)
          exact BlockKind.noConfusion (isComment.symm.trans (topFence block top))
        rw [toggled] at blocks
        split at blocks
        · exact (fences (List.mem_of_mem_eraseP (blocks ▸ List.mem_cons_self))).elim
        · obtain ⟨same, outside⟩ := List.cons.inj blocks
          cases same
          rw [if_pos rfl, if_neg noComment] at started
          exact .inr ⟨rfl, slashes rfl, outside.symm, started⟩

end Line

section Run

variable (document : Text) (count : Nat)

theorem afterLines_succ {line : Line} {start : Nat}
    (read : (Line.located 0 (Line.ofText document))[count]? = some (line, start)) :
    afterLines document (count + 1) = readLine document (afterLines document count) (line, start) := by
  rw [afterLines, List.take_add_one, read, List.foldl_append]
  rfl

theorem afterLines_succ_of_none (ended : (Line.located 0 (Line.ofText document))[count]? = none) :
    afterLines document (count + 1) = afterLines document count := by
  rw [afterLines, List.take_add_one, ended]
  exact congrArg _ (List.append_nil _)

/-- Line `index` has opened the comment block that is on top behind `count` lines. -/
structure OpensComment (index : Nat) (opening : Text) (outer : List OpenBlock) : Prop where
  before : index < count
  line : (Line.ofText document)[index]?.map Line.content = some opening
  delimits : isDelimiter '/' opening
  outside : (afterLines document index).blocks = outer
  stays : ∀ later, index < later → later ≤ count →
    (afterLines document later).blocks = ⟨.comment, opening⟩ :: outer
  start : (afterLines document count).commentStart =
    some (Text.width (((Line.ofText document).take index).flatMap Line.text))

variable {document count}

theorem OpensComment.succ {index : Nat} {opening : Text} {outer : List OpenBlock}
    (opens : OpensComment document count index opening outer)
    (blocks : (afterLines document (count + 1)).blocks = ⟨.comment, opening⟩ :: outer)
    (start : (afterLines document (count + 1)).commentStart = (afterLines document count).commentStart) :
    OpensComment document (count + 1) index opening outer := by
  refine ⟨Nat.lt_succ_of_lt opens.before, opens.line, opens.delimits, opens.outside, fun later behind upTo => ?_,
    start.trans opens.start⟩
  rcases Nat.le_succ_iff.mp upTo with within | rfl
  · exact opens.stays later behind within
  · exact blocks

theorem exists_opensComment {opening : Text} {outer : List OpenBlock}
    (held : (afterLines document count).blocks = ⟨.comment, opening⟩ :: outer) :
    ∃ index, OpensComment document count index opening outer := by
  induction count with
  | zero => cases held
  | succ count ih =>
      cases read : (Line.located 0 (Line.ofText document))[count]? with
      | none =>
          have same := afterLines_succ_of_none document count read
          obtain ⟨index, opens⟩ := ih (same ▸ held)
          exact ⟨index, opens.succ held (congrArg commentStart same)⟩
      | some located =>
          obtain ⟨line, start⟩ := located
          have stepped := afterLines_succ document count read
          have opened := stepped ▸ held
          rcases (isSettled_afterLines document count).opens_comment document line start opened with
            ⟨stood, kept⟩ | ⟨content, delimits, outside, started⟩
          · obtain ⟨index, opens⟩ := ih stood
            exact ⟨index, opens.succ held (stepped ▸ kept)⟩
          · obtain ⟨listed, offset⟩ := Line.getElem?_located_eq_some_iff.mp read
            refine ⟨count, Nat.lt_succ_self count, ?_, delimits, outside, fun later behind upTo => ?_, ?_⟩
            · rw [listed, Option.map_some, content]
            · rw [Nat.le_antisymm upTo behind]
              exact held
            · rw [stepped, started, offset]

end Run

/-- Behind any number of lines of any text only fences are open below the innermost block, which the mode names; and a
comment block is open exactly if it has a start, which is the offset of the line that opened it. So wherever the lexer
asks whether a line closes a block, looking at the top of the stack is looking at the innermost block of that kind, and
every line does to the open blocks what the rule for delimiters says. -/
theorem lines_leave_lexer_settled (document : Text) (count : Nat) :
    (afterLines document count).IsSettled ∧
    (∀ opening outer, (afterLines document count).blocks = ⟨.comment, opening⟩ :: outer →
      ∃ index, OpensComment document count index opening outer) ∧
    (∀ kind content, (afterLines document count).mode.Asks kind →
      (afterLines document count).closes kind content =
        decide (innermost? (afterLines document count).blocks kind = some ⟨kind, content⟩)) ∧
    (∀ line, (Line.ofText document)[count]? = some line →
      (afterLines document (count + 1)).blocks = behindLine (afterLines document count).blocks line.content) ∧
    ((Line.ofText document).length ≤ count →
      ((afterLines document count).finish document).tokens = Token.ofText document) := by
  have settled := isSettled_afterLines document count
  refine ⟨settled, fun opening outer held => exists_opensComment held, fun kind content asks =>
    settled.closes_eq asks content, fun line listed => ?_, fun all => ?_⟩
  · have read := Line.getElem?_located_eq_some_iff.mpr ⟨listed, rfl⟩
    rw [afterLines_succ document count read]
    exact (settled.turns document line _).blocks
  · have long : (Line.located 0 (Line.ofText document)).length ≤ count := by
      rwa [← List.length_map (Prod.fst : Line × Nat → Line), Line.map_fst_located]
    rw [afterLines, List.take_of_length_le long]
    exact tokensWithin_eq_ofText [] document

/-- A comment block within three fences, of which the innermost one is no end of the outermost one: a listing delimiter
is text there, and the last line closes the block. -/
theorem lines_leave_lexer_settled_within_fences :
    let document : Text := "====\n=====\n====\n////\n----\n////"
    let fences : List OpenBlock := [⟨.fence, "===="⟩, ⟨.fence, "====="⟩, ⟨.fence, "===="⟩]
    (afterLines document 5).blocks = ⟨.comment, "////"⟩ :: fences ∧ (afterLines document 5).IsSettled ∧
      (∃ index, OpensComment document 5 index "////" fences) ∧
      (afterLines document 5).closes .comment "////" ∧ ¬ (afterLines document 5).closes .comment "/////" ∧
      (afterLines document 6).blocks = fences ∧
      ((afterLines document 6).finish document).tokens = Token.ofText document := by
  intro document fences
  have held : (afterLines document 5).blocks = ⟨.comment, "////"⟩ :: fences := by decide +kernel
  have asks : (afterLines document 5).mode.Asks .comment := by
    have comment : (afterLines document 5).mode = .comment := by decide +kernel
    rw [comment]
    rfl
  have last : (Line.ofText document)[5]? = some ⟨"////", []⟩ := by decide
  obtain ⟨settled, opens, closes, behind, _⟩ := lines_leave_lexer_settled document 5
  obtain ⟨_, _, _, _, finished⟩ := lines_leave_lexer_settled document 6
  refine ⟨held, settled, opens _ _ held, ?_, ?_, ?_, finished (by decide)⟩
  · rw [closes _ _ asks, held]
    decide
  · rw [closes _ _ asks, held]
    decide
  · rw [behind _ last, held]
    decide

end StackLexer

end Crossref
