import Crossref.Proofs.Line.Cutting
import Crossref.Proofs.Mention

/-! Verbatim blocks: what stands between a delimiter line and its repetition says nothing. Two
documents that differ in such lines only, and not in their number, have the same mentions, so they
declare the same and refer to the same. -/

set_option autoImplicit false

namespace Crossref

/-- Whether a kind is one that only verbatim blocks consist of, line breaks aside. Such a token
ends the continuations of a value and is not the target of a macro. -/
def TokenKind.isVerbatim : TokenKind → Bool
  | .listingDelimiter | .listingText | .blockComment => true
  | _ => false

namespace Lexeme

def nonempty (lexemes : List Lexeme) : List Lexeme :=
  lexemes.filter fun lexeme => !lexeme.text.isEmpty

@[simp] theorem nonempty_append (left right : List Lexeme) :
    nonempty (left ++ right) = nonempty left ++ nonempty right := List.filter_append ..

theorem nonempty_cons {lexeme : Lexeme} (filled : lexeme.text ≠ []) (rest : List Lexeme) :
    nonempty (lexeme :: rest) = lexeme :: nonempty rest :=
  List.filter_cons_of_pos (by simpa using filled)

theorem nonempty_cons_of_eq_nil {lexeme : Lexeme} (empty : lexeme.text = []) (rest : List Lexeme) :
    nonempty (lexeme :: rest) = nonempty rest :=
  List.filter_cons_of_neg (by simp [empty])

/-- Lexemes that begin with a verbatim one, if there are any. -/
def Sealed (lexemes : List Lexeme) : Prop := ∀ lexeme ∈ lexemes.head?, lexeme.kind.isVerbatim

theorem Sealed.continuations_append {rest : List Lexeme} (closed : Sealed rest)
    (front : List Lexeme) : continuations (front ++ rest) = continuations front := by
  have stops : ∀ lexeme behind, rest = lexeme :: behind →
      lexeme.kind ≠ .lineBreak ∧ lexeme.kind ≠ .text := by
    rintro lexeme behind rfl
    have verbatim := closed lexeme rfl
    constructor <;> intro kind <;> simp [kind, TokenKind.isVerbatim] at verbatim
  fun_induction continuations front with
  | case1 ending next tail follows ih =>
      simp only [List.cons_append, continuations, follows, if_true, ih]
  | case2 ending next tail stopped =>
      simp only [List.cons_append, continuations, stopped]
      rfl
  | case3 front short =>
      have nothing : continuations front = [] := continuations.eq_2 front short
      cases rest with
      | nil => rw [List.append_nil, nothing]
      | cons lexeme behind =>
          obtain ⟨noBreak, noText⟩ := stops lexeme behind rfl
          cases front with
          | nil => cases behind <;> simp [continuations, noBreak]
          | cons ending tail =>
              cases tail with
              | nil => simp [continuations, noText]
              | cons next tail => exact (short ending next tail rfl).elim

theorem Sealed.target?_append {rest : List Lexeme} (closed : Sealed rest) (front : List Lexeme) :
    target? (front ++ rest) = target? front := by
  cases front with
  | cons lexeme tail =>
      obtain ⟨kind, text⟩ := lexeme
      cases kind <;> rfl
  | nil =>
      cases rest with
      | nil => rfl
      | cons lexeme behind =>
          have verbatim := closed lexeme rfl
          obtain ⟨kind, text⟩ := lexeme
          cases kind with
          | blockMacroBody => cases verbatim
          | _ => rfl

end Lexeme

namespace Mention

/-- A lexeme that cannot mention anything only counts its line feeds. -/
theorem ofLexemes_cons_silent {lexeme : Lexeme} (silent : lexeme.kind.mentions = false)
    (line : Nat) (startsLine opensList : Bool) (rest : List Lexeme) :
    ofLexemes line startsLine opensList (lexeme :: rest) =
      ofLexemes (line + lexeme.text.count '\n') (lexeme.text.getLast? = some '\n')
        (lexeme.kind = .attributeListStart) rest := by
  simp [ofLexemes, silent]

theorem ofLexemes_eq_nil {lexemes : List Lexeme}
    (silent : ∀ lexeme ∈ lexemes, lexeme.kind.mentions = false) (line : Nat)
    (startsLine opensList : Bool) : ofLexemes line startsLine opensList lexemes = [] := by
  induction lexemes generalizing line startsLine opensList with
  | nil => rfl
  | cons lexeme rest ih =>
      rw [ofLexemes_cons_silent (silent lexeme (List.mem_cons_self ..))]
      exact ih (fun other member => silent other (List.mem_cons_of_mem lexeme member)) _ _ _

/-- What stands before a sealed rest mentions the same whatever the rest is. -/
theorem ofLexemes_append_sealed (line : Nat) (startsLine opensList : Bool) (front : List Lexeme) :
    ∃ restStarts restOpens, ∀ rest, Lexeme.Sealed rest →
      ofLexemes line startsLine opensList (front ++ rest) =
        ofLexemes line startsLine opensList front ++
          ofLexemes (line + (Lexeme.textOf front).count '\n') restStarts restOpens rest := by
  induction front generalizing line startsLine opensList with
  | nil => exact ⟨startsLine, opensList, fun rest _ => rfl⟩
  | cons lexeme tail ih =>
      obtain ⟨restStarts, restOpens, split⟩ := ih (line + lexeme.text.count '\n')
        (lexeme.text.getLast? = some '\n') (lexeme.kind = .attributeListStart)
      refine ⟨restStarts, restOpens, fun rest closed => ?_⟩
      simp only [List.cons_append, ofLexemes, closed.continuations_append, closed.target?_append,
        split rest closed, Lexeme.textOf_cons, List.count_append, Nat.add_assoc]
      split <;> rfl

end Mention

namespace Verbatim

def behind (state : Verbatim) (lines : List Line) : Verbatim :=
  lines.foldl (fun state line => (state.step line).1) state

/-- The lexemes that lines give before the end of the document. -/
def emitted (state : Verbatim) : List Line → List Lexeme
  | [] => []
  | line :: rest => (state.step line).2 ++ (state.step line).1.emitted rest

theorem lexemes_append (state : Verbatim) (front back : List Line) :
    state.lexemes (front ++ back) = state.emitted front ++ (state.behind front).lexemes back := by
  induction front generalizing state with
  | nil => rfl
  | cons line rest ih =>
      simp only [List.cons_append, lexemes, emitted, ih, List.append_assoc]
      rfl

/-- Blocks that the same delimiter closes, after as many line feeds. -/
inductive Alike (delimiter : Text) : Verbatim → Verbatim → Prop where
  | listing : Alike delimiter (.listing delimiter) (.listing delimiter)
  | comment {first second : List Line} :
      (first.flatMap Line.text).count '\n' = (second.flatMap Line.text).count '\n' →
      Alike delimiter (.comment delimiter first) (.comment delimiter second)

/-- The rests of two documents: the same lines, or one line each that ends the document within the
block. -/
inductive Rests (delimiter : Text) : List Line → List Line → Prop where
  | same (lines : List Line) : Rests delimiter lines lines
  | inside {first second : Text} : first ≠ delimiter → second ≠ delimiter →
      Rests delimiter [⟨first, []⟩] [⟨second, []⟩]

/-- The line that closes a comment block gives the block out as one lexeme. -/
theorem nonempty_lexemes_closing {delimiter : Text} (nonempty : delimiter ≠ []) {line : Line}
    (closes : line.content = delimiter) (lines rest : List Line) :
    Lexeme.nonempty ((comment delimiter lines).lexemes (line :: rest)) =
      ⟨.blockComment, lines.flatMap Line.text ++ delimiter⟩ ::
        Lexeme.nonempty (⟨.lineBreak, line.ending⟩ :: Verbatim.none.lexemes rest) := by
  have filled : lines.flatMap Line.text ++ delimiter ≠ [] := List.append_ne_nil_of_right_ne_nil _ nonempty
  rw [lexemes, step, if_pos closes, closes, List.cons_append, Lexeme.nonempty_cons filled]
  rfl

/-- Lexemes that are read within a comment block begin with the block. -/
theorem sealed_comment {delimiter : Text} (nonempty : delimiter ≠ []) (lines rest : List Line) :
    Lexeme.Sealed (Lexeme.nonempty ((comment delimiter lines).lexemes rest)) := by
  induction rest generalizing lines with
  | nil =>
      intro lexeme first
      have member := (List.mem_filter.mp (List.mem_of_mem_head? first)).1
      simp only [lexemes, finish, List.mem_singleton] at member
      rw [member]
      rfl
  | cons line behind ih =>
      by_cases closes : line.content = delimiter
      · rw [nonempty_lexemes_closing nonempty closes]
        intro lexeme first
        cases first
        rfl
      · simpa [lexemes, step, closes] using ih (lines ++ [line])

/-- Comment blocks with as many line feeds mention the same, that is, what follows them. -/
theorem mentions_comment_eq {delimiter : Text} (nonempty : delimiter ≠ []) {first second : List Line}
    (count : (first.flatMap Line.text).count '\n' = (second.flatMap Line.text).count '\n')
    (rest : List Line) (line : Nat) (startsLine opensList : Bool) :
    Mention.ofLexemes line startsLine opensList
        (Lexeme.nonempty ((comment delimiter first).lexemes rest)) =
      Mention.ofLexemes line startsLine opensList
        (Lexeme.nonempty ((comment delimiter second).lexemes rest)) := by
  induction rest generalizing first second with
  | nil =>
      rw [Mention.ofLexemes_eq_nil, Mention.ofLexemes_eq_nil]
      · simp [lexemes, finish, Lexeme.nonempty, TokenKind.mentions]
      · simp [lexemes, finish, Lexeme.nonempty, TokenKind.mentions]
  | cons next behind ih =>
      by_cases closes : next.content = delimiter
      · have ending : delimiter.getLast? = some (delimiter.getLast nonempty) :=
          List.getLast?_eq_some_getLast nonempty
        rw [nonempty_lexemes_closing nonempty closes, nonempty_lexemes_closing nonempty closes,
          Mention.ofLexemes_cons_silent rfl, Mention.ofLexemes_cons_silent rfl]
        simp [count, ending]
      · have grown : ((first ++ [next]).flatMap Line.text).count '\n' =
            ((second ++ [next]).flatMap Line.text).count '\n' := by
          simp [count]
        simpa [lexemes, step, closes] using ih grown

/-- A block in which the document ends mentions nothing more. -/
theorem Alike.mentions_inside {delimiter : Text} {state other : Verbatim}
    (alike : Alike delimiter state other) {last : Text} (inside : last ≠ delimiter) (line : Nat)
    (startsLine opensList : Bool) :
    Mention.ofLexemes line startsLine opensList
        (Lexeme.nonempty (state.lexemes [⟨last, []⟩])) = [] ∧
      Mention.ofLexemes line startsLine opensList
        (Lexeme.nonempty (other.lexemes [⟨last, []⟩])) = [] := by
  cases alike with
  | listing =>
      constructor <;> apply Mention.ofLexemes_eq_nil <;> intro lexeme member
      all_goals
        have read := (List.mem_filter.mp member).1
        simp only [lexemes, step, inside, finish] at read
        rcases read with _ | ⟨_, _ | ⟨_, read⟩⟩
        · rfl
        · rfl
        · cases read
  | comment =>
      constructor <;> apply Mention.ofLexemes_eq_nil <;> intro lexeme member
      all_goals
        have read := (List.mem_filter.mp member).1
        simp only [lexemes, step, inside, finish] at read
        rcases read with _ | ⟨_, read⟩
        · rfl
        · cases read

/-- Behind blocks that are alike, equal rests mention the same. -/
theorem Alike.mentions_eq {delimiter : Text} (nonempty : delimiter ≠ []) {state other : Verbatim}
    (alike : Alike delimiter state other) {rest otherRest : List Line}
    (rests : Rests delimiter rest otherRest) (line : Nat) (startsLine opensList : Bool) :
    Mention.ofLexemes line startsLine opensList (Lexeme.nonempty (state.lexemes rest)) =
      Mention.ofLexemes line startsLine opensList (Lexeme.nonempty (other.lexemes otherRest)) := by
  cases rests with
  | same =>
      cases alike with
      | listing => rfl
      | comment count => exact mentions_comment_eq nonempty count rest line startsLine opensList
  | inside last otherLast =>
      rw [(alike.mentions_inside last line startsLine opensList).1,
        (alike.mentions_inside otherLast line startsLine opensList).2]

/-- A line within a listing is counted and mentions nothing. -/
theorem mentions_listing_ended {delimiter content : Text} (single : '\n' ∉ content)
    (inside : (Line.ended content).content ≠ delimiter) (rest : List Line) (line : Nat)
    (startsLine opensList : Bool) :
    Mention.ofLexemes line startsLine opensList
        (Lexeme.nonempty ((listing delimiter).lexemes (Line.ended content :: rest))) =
      Mention.ofLexemes (line + 1) true false
        (Lexeme.nonempty ((listing delimiter).lexemes rest)) := by
  obtain ⟨ending, one⟩ := Line.ending_ended content
  have zero := Line.count_content_ended single
  have broken : (Line.ended content).ending ≠ [] := by
    intro empty
    simp [empty] at ending
  have breakStep : ∀ startsLine opensList, Mention.ofLexemes line startsLine opensList
      (⟨.lineBreak, (Line.ended content).ending⟩ ::
        Lexeme.nonempty ((listing delimiter).lexemes rest)) =
      Mention.ofLexemes (line + 1) true false
        (Lexeme.nonempty ((listing delimiter).lexemes rest)) := by
    intro startsLine opensList
    rw [Mention.ofLexemes_cons_silent rfl]
    simp [ending, one]
  simp only [lexemes, step, if_neg inside, Lexeme.nonempty_append]
  by_cases empty : (Line.ended content).content = []
  · simpa [Lexeme.nonempty, empty, broken] using breakStep startsLine opensList
  · have kept : Lexeme.nonempty [⟨.listingText, (Line.ended content).content⟩,
          ⟨.lineBreak, (Line.ended content).ending⟩] =
        [⟨.listingText, (Line.ended content).content⟩,
          ⟨.lineBreak, (Line.ended content).ending⟩] := by
      simp [Lexeme.nonempty, empty, broken]
    rw [kept, List.cons_append, Mention.ofLexemes_cons_silent rfl, zero]
    exact breakStep _ _

/-- A listing that goes on for some lines is only as long as they are many. -/
theorem mentions_listing_body {delimiter : Text} {contents : List Text}
    (inside : ∀ content ∈ contents, '\n' ∉ content ∧ (Line.ended content).content ≠ delimiter)
    (rest : List Line) (line : Nat) :
    Mention.ofLexemes line true false
        (Lexeme.nonempty ((listing delimiter).lexemes (contents.map Line.ended ++ rest))) =
      Mention.ofLexemes (line + contents.length) true false
        (Lexeme.nonempty ((listing delimiter).lexemes rest)) := by
  induction contents generalizing line with
  | nil => rfl
  | cons content behind ih =>
      obtain ⟨single, differs⟩ := inside content (List.mem_cons_self ..)
      rw [List.map_cons, List.cons_append, mentions_listing_ended single differs,
        ih fun other member => inside other (List.mem_cons_of_mem content member)]
      simp only [List.length_cons, Nat.add_assoc, Nat.add_comm 1]

/-- A comment block that goes on for some lines keeps them. -/
theorem lexemes_comment_body {delimiter : Text} {contents : List Text}
    (inside : ∀ content ∈ contents, '\n' ∉ content ∧ (Line.ended content).content ≠ delimiter)
    (lines rest : List Line) :
    (comment delimiter lines).lexemes (contents.map Line.ended ++ rest) =
      (comment delimiter (lines ++ contents.map Line.ended)).lexemes rest := by
  induction contents generalizing lines with
  | nil => simp
  | cons content behind ih =>
      have differs := (inside content (List.mem_cons_self ..)).2
      have later := ih (fun other member => inside other (List.mem_cons_of_mem content member))
        (lines ++ [Line.ended content])
      simpa [lexemes, step, differs] using later

theorem count_flatMap_ended {contents : List Text} (single : ∀ content ∈ contents, '\n' ∉ content) :
    ((contents.map Line.ended).flatMap Line.text).count '\n' = contents.length := by
  induction contents with
  | nil => rfl
  | cons content behind ih =>
      have none := List.count_eq_zero.mpr (single content (List.mem_cons_self ..))
      have later := ih fun other member => single other (List.mem_cons_of_mem content member)
      simp [Line.text_ended, none, later]

/-- What stands around the lines of a verbatim block: a document in which no such block is open up
to the delimiter line, and what follows the lines. Without anything behind them the last one ends
the document, also without a line feed. -/
structure Frame where
  before : Text
  mark : Char
  delimiter : Text
  lineBreak : Text
  behind : Option Text
  ended : before = [] ∨ before.getLast? = some '\n'
  closed : Verbatim.none.behind (Line.ofText before).dropLast = .none
  marks : mark = '-' ∨ mark = '/'
  delimits : isDelimiter mark delimiter
  breaks : lineBreak = ['\n'] ∨ lineBreak = ['\r', '\n']

namespace Frame

/-- The document with the given lines in the block. -/
def fill (frame : Frame) (body : List Text) : Text :=
  frame.before ++ frame.delimiter ++ frame.lineBreak ++
    match frame.behind with
    | some behind => body.flatMap (· ++ ['\n']) ++ behind
    | .none => Text.join "\n" body

/-- Whether a line can stand in the block without closing it. -/
def Holds (frame : Frame) (line : Text) : Prop :=
  '\n' ∉ line ∧ line ≠ frame.delimiter ∧ line ≠ frame.delimiter ++ ['\r']

instance (frame : Frame) (line : Text) : Decidable (frame.Holds line) :=
  inferInstanceAs (Decidable (_ ∧ _ ∧ _))

theorem delimiter_spec (frame : Frame) :
    frame.delimiter ≠ [] ∧ '\n' ∉ frame.delimiter ∧ '\r' ∉ frame.delimiter := by
  have delimits := frame.delimits
  simp only [isDelimiter, Bool.and_eq_true, decide_eq_true_eq, List.all_eq_true] at delimits
  obtain ⟨long, all⟩ := delimits
  refine ⟨fun empty => by simp [empty] at long, fun member => ?_, fun member => ?_⟩
  · have same := all _ member
    rcases frame.marks with mark | mark <;> simp [mark] at same
  · have same := all _ member
    rcases frame.marks with mark | mark <;> simp [mark] at same

theorem lineBreak_spec (frame : Frame) :
    frame.lineBreak ≠ [] ∧ frame.lineBreak.getLast? = some '\n' ∧ frame.lineBreak.count '\n' = 1 := by
  rcases frame.breaks with breaks | breaks <;> rw [breaks] <;> simp

/-- The delimiter line opens a listing or a comment block. -/
theorem step_delimiter (frame : Frame) :
    let line : Line := ⟨frame.delimiter, frame.lineBreak⟩
    Verbatim.none.step line = (.listing frame.delimiter,
        [⟨.listingDelimiter, frame.delimiter⟩, ⟨.lineBreak, frame.lineBreak⟩]) ∨
      Verbatim.none.step line = (.comment frame.delimiter [line], []) := by
  have delimits := frame.delimits
  rcases frame.marks with mark | mark
  · rw [mark] at delimits
    exact .inl (by simp [step, delimits])
  · rw [mark] at delimits
    have others : ∀ other, other ≠ '/' → isDelimiter other frame.delimiter = false := by
      intro other differs
      simp only [isDelimiter, Bool.and_eq_true, decide_eq_true_eq, List.all_eq_true] at delimits ⊢
      have first := delimits.2 _ (List.head_mem frame.delimiter_spec.1)
      simp only [Bool.and_eq_false_imp, decide_eq_true_eq, List.all_eq_false]
      exact fun _ => ⟨_, List.head_mem frame.delimiter_spec.1, by simp [first, differs.symm]⟩
    exact .inr (by simp [step, delimits, others '-' (by decide), others '=' (by decide)])

theorem Holds.inside {frame : Frame} {line : Text} (holds : frame.Holds line) :
    '\n' ∉ line ∧ (Line.ended line).content ≠ frame.delimiter :=
  ⟨holds.1, Line.content_ended_ne holds.2.1 holds.2.2⟩

def lines (frame : Frame) (body : List Text) (rest : List Line) : List Line :=
  ⟨frame.delimiter, frame.lineBreak⟩ :: (body.map Line.ended ++ rest)

theorem sealed_lines (frame : Frame) (body : List Text) (rest : List Line) :
    Lexeme.Sealed (Lexeme.nonempty (Verbatim.none.lexemes (frame.lines body rest))) := by
  obtain ⟨nonempty, _⟩ := frame.delimiter_spec
  rcases frame.step_delimiter with opens | opens
  · intro lexeme first
    simp only [lines, lexemes, opens, Lexeme.nonempty, List.cons_append] at first
    rw [List.filter_cons_of_pos (by simp [nonempty])] at first
    cases first
    rfl
  · simpa [lines, lexemes, opens] using sealed_comment nonempty _ _

/-- The step over a whole block: bodies of one length leave the same mentions behind. -/
theorem mentions_lines (frame : Frame) {body other : List Text} (length : body.length = other.length)
    (holds : ∀ line ∈ body, frame.Holds line) (otherHolds : ∀ line ∈ other, frame.Holds line)
    {rest otherRest : List Line} (rests : Rests frame.delimiter rest otherRest) (line : Nat)
    (startsLine opensList : Bool) :
    Mention.ofLexemes line startsLine opensList
        (Lexeme.nonempty (Verbatim.none.lexemes (frame.lines body rest))) =
      Mention.ofLexemes line startsLine opensList
        (Lexeme.nonempty (Verbatim.none.lexemes (frame.lines other otherRest))) := by
  obtain ⟨nonempty, single, _⟩ := frame.delimiter_spec
  obtain ⟨broken, ending, one⟩ := frame.lineBreak_spec
  have zero := List.count_eq_zero.mpr single
  have inside := fun content member => (holds content member).inside
  have otherInside := fun content member => (otherHolds content member).inside
  rcases frame.step_delimiter with opens | opens
  · have listed : ∀ {contents : List Text} (rest : List Line),
        (∀ content ∈ contents, '\n' ∉ content ∧ (Line.ended content).content ≠ frame.delimiter) →
        Mention.ofLexemes line startsLine opensList
            (Lexeme.nonempty (Verbatim.none.lexemes (frame.lines contents rest))) =
          Mention.ofLexemes (line + 1 + contents.length) true false
            (Lexeme.nonempty ((listing frame.delimiter).lexemes rest)) := by
      intro contents rest inside
      have kept : Lexeme.nonempty
            [⟨.listingDelimiter, frame.delimiter⟩, ⟨.lineBreak, frame.lineBreak⟩] =
          [⟨.listingDelimiter, frame.delimiter⟩, ⟨.lineBreak, frame.lineBreak⟩] := by
        simp [Lexeme.nonempty, nonempty, broken]
      simp only [lines, lexemes, opens]
      rw [Lexeme.nonempty_append, kept, List.cons_append, List.cons_append, List.nil_append,
        Mention.ofLexemes_cons_silent rfl, Mention.ofLexemes_cons_silent rfl, zero, one, ending,
        ← mentions_listing_body inside]
      rfl
    rw [listed rest inside, listed otherRest otherInside, length]
    exact Alike.listing.mentions_eq nonempty rests _ _ _
  · have kept : ∀ {contents : List Text} (rest : List Line),
        (∀ content ∈ contents, '\n' ∉ content ∧ (Line.ended content).content ≠ frame.delimiter) →
        Verbatim.none.lexemes (frame.lines contents rest) =
          (comment frame.delimiter (frame.lines contents [])).lexemes rest := by
      intro contents rest inside
      simp only [lines, lexemes, opens, List.append_nil]
      exact lexemes_comment_body inside _ rest
    rw [kept rest inside, kept otherRest otherInside]
    refine Alike.mentions_eq nonempty (.comment ?_) rests _ _ _
    have count := count_flatMap_ended fun content member => (holds content member).1
    have otherCount := count_flatMap_ended fun content member => (otherHolds content member).1
    simp [lines, count, otherCount, length]

theorem ofText_opening (frame : Frame) (rest : Text) :
    Line.ofText (frame.before ++ frame.delimiter ++ frame.lineBreak ++ rest) =
      (Line.ofText frame.before).dropLast ++
        ⟨frame.delimiter, frame.lineBreak⟩ :: Line.ofText rest := by
  obtain ⟨_, noFeed, noReturn⟩ := frame.delimiter_spec
  rw [List.append_assoc, List.append_assoc, Line.ofText_append frame.ended]
  rcases frame.breaks with breaks | breaks <;> rw [breaks]
  · have plain : frame.delimiter.getLast? ≠ some '\r' :=
      fun last => noReturn (List.mem_of_getLast? last)
    rw [List.cons_append, List.nil_append, Line.ofText_ended noFeed]
    simp [Line.ended, plain]
  · have single : '\n' ∉ frame.delimiter ++ ['\r'] := by simp [noFeed]
    have split : frame.delimiter ++ (['\r', '\n'] ++ rest) =
        frame.delimiter ++ ['\r'] ++ '\n' :: rest := by simp
    rw [split, Line.ofText_ended single]
    simp [Line.ended]

end Frame

/-- Lines joined by line feeds: all but the last one are ended. -/
theorem join_concat (front : List Text) (last : Text) :
    Text.join "\n" (front ++ [last]) = front.flatMap (· ++ ['\n']) ++ last := by
  induction front with
  | nil => exact List.intercalate_singleton
  | cons first rest ih =>
      have several : rest ++ [last] ≠ [] := by simp
      simp only [Text.join] at ih ⊢
      rw [List.cons_append, List.intercalate_cons_of_ne_nil several, ih]
      simp

namespace Frame

theorem ofText_fill_behind {frame : Frame} {behind : Text} (continued : frame.behind = some behind)
    {body : List Text} (holds : ∀ line ∈ body, frame.Holds line) :
    Line.ofText (frame.fill body) =
      (Line.ofText frame.before).dropLast ++ frame.lines body (Line.ofText behind) := by
  have single := fun line member => (holds line member).1
  simp only [fill, continued, lines]
  rw [ofText_opening, Line.ofText_flatMap_ended single]

theorem ofText_fill_last {frame : Frame} (finished : frame.behind = .none) {inner : List Text}
    {last : Text} (holds : ∀ line ∈ inner ++ [last], frame.Holds line) :
    Line.ofText (frame.fill (inner ++ [last])) =
      (Line.ofText frame.before).dropLast ++ frame.lines inner [⟨last, []⟩] := by
  have single : ∀ line ∈ inner, '\n' ∉ line := fun line member =>
    (holds line (List.mem_append_left _ member)).1
  have lastSingle : '\n' ∉ last := (holds last (by simp)).1
  simp only [fill, finished, lines]
  rw [join_concat, ofText_opening, Line.ofText_flatMap_ended single,
    Line.ofText_of_notMem lastSingle]

/-- Bodies of one length: the documents mention the same, whatever the lines of the bodies are. -/
theorem mentions_fill (frame : Frame) {body other : List Text} (length : body.length = other.length)
    (holds : ∀ line ∈ body, frame.Holds line) (otherHolds : ∀ line ∈ other, frame.Holds line) :
    Mention.ofText (frame.fill body) = Mention.ofText (frame.fill other) := by
  -- What precedes the delimiter line is read alike, and so are the two blocks with their rests.
  have blocks : ∀ {inner otherInner : List Text} {rest otherRest : List Line},
      inner.length = otherInner.length → (∀ line ∈ inner, frame.Holds line) →
      (∀ line ∈ otherInner, frame.Holds line) → Rests frame.delimiter rest otherRest →
      Line.ofText (frame.fill body) =
        (Line.ofText frame.before).dropLast ++ frame.lines inner rest →
      Line.ofText (frame.fill other) =
        (Line.ofText frame.before).dropLast ++ frame.lines otherInner otherRest →
      Mention.ofText (frame.fill body) = Mention.ofText (frame.fill other) := by
    intro inner otherInner rest otherRest length holds otherHolds rests lines otherLines
    have split := fun inner rest => lexemes_append Verbatim.none
      (Line.ofText frame.before).dropLast (frame.lines inner rest)
    obtain ⟨startsLine, opensList, mentions⟩ := Mention.ofLexemes_append_sealed 1 true false
      (Lexeme.nonempty (Verbatim.none.emitted (Line.ofText frame.before).dropLast))
    change Mention.ofLexemes 1 true false (Lexeme.nonempty _) =
      Mention.ofLexemes 1 true false (Lexeme.nonempty _)
    rw [lines, otherLines, split, split, frame.closed, Lexeme.nonempty_append,
      Lexeme.nonempty_append, mentions _ (frame.sealed_lines inner rest),
      mentions _ (frame.sealed_lines otherInner otherRest),
      frame.mentions_lines length holds otherHolds rests]
  cases continued : frame.behind with
  | some behind =>
      exact blocks length holds otherHolds (.same _) (ofText_fill_behind continued holds)
        (ofText_fill_behind continued otherHolds)
  | none =>
      rcases List.eq_nil_or_concat' body with rfl | ⟨inner, last, rfl⟩
      · rw [List.length_eq_zero_iff.mp length.symm]
      · rcases List.eq_nil_or_concat' other with rfl | ⟨otherInner, otherLast, rfl⟩
        · simp at length
        · have innerLength : inner.length = otherInner.length := by simpa using length
          exact blocks innerLength (fun line member => holds line (List.mem_append_left _ member))
            (fun line member => otherHolds line (List.mem_append_left _ member))
            (.inside (holds last (by simp)).2.1 (otherHolds otherLast (by simp)).2.1)
            (ofText_fill_last continued holds) (ofText_fill_last continued otherHolds)

end Frame

/-- Replacing the lines of a verbatim block by as many others changes neither the index of a set of
documents nor the references that are found in the document, with all that is told about them. -/
theorem content_never_interpreted (frame : Frame) {body other : List Text}
    (length : body.length = other.length) (holds : ∀ line ∈ body, frame.Holds line)
    (otherHolds : ∀ line ∈ other, frame.Holds line) :
    (∀ (front back : List Source) (path : Text),
      Index.ofSources (front ++ ⟨path, frame.fill body⟩ :: back) =
        Index.ofSources (front ++ ⟨path, frame.fill other⟩ :: back)) ∧
    ∀ (project : Project) (disk : Disk) (file : Text),
      project.checkDocument disk file (frame.fill body) =
        project.checkDocument disk file (frame.fill other) := by
  have mentions := frame.mentions_fill length holds otherHolds
  constructor
  · intro front back path
    simp only [Index.ofSources, List.flatMap_append, List.flatMap_cons,
      Declared.ofSource_eq_ofMentions, mentions]
  · intro project disk file
    rw [Project.checkDocument_eq_checkMentions, Project.checkDocument_eq_checkMentions, mentions]

/-- A value that is continued right before a listing, an entry and an anchor in it, and an anchor
behind it. -/
theorem content_never_interpreted_behind_continued_value :
    let frame : Frame := ⟨":a: b \\\n", '-', "----", "\r\n", some "----\n[[id]]\n",
      by decide, by decide, by decide, by decide, by decide⟩
    let body : List Text := [":c: d", "[[no]]\r"]
    let other : List Text := ["----\r\r", ""]
    (∀ line ∈ body, frame.Holds line) ∧ (∀ line ∈ other, frame.Holds line) ∧
    ∀ path, Index.ofSources [⟨path, frame.fill body⟩] = Index.ofSources [⟨path, frame.fill other⟩] := by
  intro frame body other
  have holds : ∀ line ∈ body, frame.Holds line := by decide
  have otherHolds : ∀ line ∈ other, frame.Holds line := by decide
  have length : body.length = other.length := rfl
  have same := (content_never_interpreted frame length holds otherHolds).1 [] []
  exact ⟨holds, otherHolds, by simpa only [List.nil_append] using same⟩

end Verbatim

end Crossref
