import Crossref.Proofs.Declaration
import Crossref.Proofs.Line.Text

/-! The declarations of a document, line by line. What a document declares is what its lines outside of verbatim
blocks declare, each one by its own content and, for the value of an entry, by the lines of text behind it. -/

set_option autoImplicit false

namespace Crossref

/-- Of what items make, each with the number of its item, the part with one number is what one item makes. -/
theorem filter_flatMap_of_ascending {α β : Type} {number : α → Nat} {numberOf : β → Nat} {items : List α}
    (ascending : items.Pairwise fun first second => number first < number second) {make : α → List β}
    (own : ∀ item, ∀ made ∈ make item, numberOf made = number item) {item : α} (mem : item ∈ items) :
    (items.flatMap make).filter (fun made => numberOf made = number item) = make item := by
  have kept : (make item).filter (fun made => numberOf made = number item) = make item :=
    List.filter_eq_self.mpr fun made inMake => decide_eq_true (own item made inMake)
  have dropped : ∀ {other}, number other ≠ number item →
      (make other).filter (fun made => numberOf made = number item) = [] := by
    intro other differs
    refine List.filter_eq_nil_iff.mpr fun made inMake => ?_
    rw [own other made inMake]
    simpa using differs
  induction items with
  | nil => cases mem
  | cons first rest ih =>
      obtain ⟨before, restAscending⟩ := List.pairwise_cons.mp ascending
      rw [List.flatMap_cons, List.filter_append]
      rcases List.mem_cons.mp mem with rfl | inRest
      · have none : (rest.flatMap make).filter (fun made => numberOf made = number item) = [] := by
          rw [List.filter_flatMap]
          refine List.flatMap_eq_nil_iff.mpr fun other inRest => ?_
          exact dropped (Nat.ne_of_gt (before other inRest))
        rw [kept, none, List.append_nil]
      · rw [dropped (Nat.ne_of_lt (before item inRest)), ih restAscending inRest]
        rfl

namespace Anchor

def ofLexeme (opensList : Bool) (lexeme : Lexeme) : List Text :=
  match lexeme.kind with
  | .text => inline lexeme.text
  | .attributeName => if opensList then (shorthand? (Text.trim lexeme.text)).toList else []
  | _ => []

def ofLexemes (opensList : Bool) : List Lexeme → List Text
  | [] => []
  | lexeme :: rest => ofLexeme opensList lexeme ++ ofLexemes (lexeme.kind = .attributeListStart) rest

end Anchor

namespace Line

/-- The ids in a line, block anchors aside. -/
def ids (content : Text) : List Text :=
  Anchor.ofLexemes false (Lexeme.nonempty (Verbatim.none.step ⟨content, []⟩).2)

theorem ids_of_step {content : Text}
    (read : Verbatim.none.step ⟨content, []⟩ = (.none, Lexeme.ofContent content ++ [⟨.lineBreak, []⟩])) :
    ids content = Anchor.ofLexemes false (Lexeme.nonempty (Lexeme.ofContent content)) := by
  rw [ids, read, Lexeme.nonempty_append]
  exact congrArg (Anchor.ofLexemes false) (List.append_nil _)

theorem declares_nothing_of_ofContent {content : Text} (other : Lexeme.ofContent content ≠ [⟨.text, content⟩]) :
    AttributeEntry.ofLine? content = none ∧ Anchor.ofLine? content = none := by
  constructor
  · refine AttributeEntry.ofLine?_eq_none ?_
    rintro rest rfl
    exact other (Lexeme.ofContent_of_colon rest)
  · refine Anchor.ofLine?_eq_none ?_
    rintro rest rfl
    exact other (Lexeme.ofContent_of_brackets rest)

end Line

namespace Declared

def ofLexemes (file : Text) (line : Nat) (startsLine opensList : Bool) (lexemes : List Lexeme) : List Declared :=
  (Mention.ofLexemes line startsLine opensList lexemes).flatMap (ofMention file)

variable (file : Text)

theorem ofLexemes_cons (line : Nat) (startsLine opensList : Bool) (lexeme : Lexeme) (rest : List Lexeme) :
    ofLexemes file line startsLine opensList (lexeme :: rest) =
      ofMention file ⟨line, lexeme.kind, lexeme.text, startsLine, opensList, Lexeme.continuations rest,
          Lexeme.target? rest⟩ ++
        ofLexemes file (line + lexeme.text.count '\n') (lexeme.text.getLast? = some '\n')
          (lexeme.kind = .attributeListStart) rest := by
  rw [ofLexemes, Mention.ofLexemes]
  cases kind : lexeme.kind <;> rfl

theorem ofMention_eq_ofLexeme {mention : Mention} (inner : mention.startsLine = false ∨ mention.kind ≠ .text) :
    ofMention file mention = (Anchor.ofLexeme mention.opensList ⟨mention.kind, mention.text⟩).map fun id =>
      .anchor ⟨⟨file, mention.line⟩, id⟩ := by
  unfold ofMention Anchor.ofLexeme
  cases kind : mention.kind with
  | text =>
      have within : mention.startsLine = false := inner.resolve_right fun other => other kind
      simp [within]
  | attributeName => cases mention.opensList <;> rfl
  | _ => rfl

theorem ofLexemes_startsLine {lexemes : List Lexeme} (other : ∀ lexeme ∈ lexemes.head?, lexeme.kind ≠ .text)
    (line : Nat) (opensList : Bool) :
    ofLexemes file line true opensList lexemes = ofLexemes file line false opensList lexemes := by
  cases lexemes with
  | nil => rfl
  | cons lexeme rest =>
      have notText : lexeme.kind ≠ .text := other lexeme rfl
      rw [ofLexemes_cons, ofLexemes_cons, ofMention_eq_ofLexeme file (.inr notText),
        ofMention_eq_ofLexeme file (.inr notText)]

/-- Lexemes within a line declare ids only, whatever follows them. -/
theorem ofLexemes_append_within {front : List Lexeme} (within : '\n' ∉ Lexeme.textOf front) (line : Nat)
    (opensList : Bool) :
    ∃ backOpens, ∀ back, ofLexemes file line false opensList (front ++ back) =
      ((Anchor.ofLexemes opensList front).map fun id => .anchor ⟨⟨file, line⟩, id⟩) ++
        ofLexemes file line false backOpens back := by
  induction front generalizing opensList with
  | nil => exact ⟨opensList, fun back => rfl⟩
  | cons lexeme rest ih =>
      -- Without a line feed no lexeme starts a line or moves on to the next one.
      rw [Lexeme.textOf_cons, List.mem_append, not_or] at within
      obtain ⟨single, restSingle⟩ := within
      obtain ⟨backOpens, behind⟩ := ih restSingle (lexeme.kind = .attributeListStart)
      refine ⟨backOpens, fun back => ?_⟩
      have notEnded : lexeme.text.getLast? ≠ some '\n' := fun ended => single (List.mem_of_getLast? ended)
      rw [List.cons_append, ofLexemes_cons, ofMention_eq_ofLexeme file (.inl rfl),
        List.count_eq_zero_of_not_mem single, decide_eq_false notEnded, Nat.add_zero, behind, Anchor.ofLexemes,
        List.map_append, List.append_assoc]

/-- The break of a line, if the line has one, starts the next line. -/
theorem ofLexemes_break {ending : Text} {back : List Lexeme}
    (ended : ending.getLast? = some '\n' ∨ ending = [] ∧ back = []) (line : Nat) (startsLine opensList : Bool) :
    ofLexemes file line startsLine opensList (Lexeme.nonempty [⟨.lineBreak, ending⟩] ++ back) =
      ofLexemes file (line + ending.count '\n') true false back := by
  rcases ended with feed | ⟨rfl, rfl⟩
  · have filled : ending ≠ [] := by
      rintro rfl
      cases feed
    rw [Lexeme.nonempty_cons filled, List.cons_append, ofLexemes_cons]
    simp only [feed, decide_true]
    rfl
  · rfl

theorem ofLexemes_silent {lexeme : Lexeme} (silent : lexeme.kind.mentions = false) (line : Nat)
    (startsLine opensList : Bool) (rest : List Lexeme) :
    ∃ restStarts restOpens,
      ofLexemes file line startsLine opensList (Lexeme.nonempty [lexeme] ++ rest) =
        ofLexemes file (line + lexeme.text.count '\n') restStarts restOpens rest := by
  by_cases empty : lexeme.text = []
  · rw [Lexeme.nonempty_cons_of_eq_nil empty, empty]
    exact ⟨startsLine, opensList, rfl⟩
  · rw [Lexeme.nonempty_cons empty, List.cons_append, ofLexemes, Mention.ofLexemes_cons_silent silent]
    exact ⟨_, _, rfl⟩

theorem ofLexemes_silent_line {lexeme : Lexeme} (silent : lexeme.kind.mentions = false) {ending : Text}
    {back : List Lexeme} (ended : ending.getLast? = some '\n' ∨ ending = [] ∧ back = []) (line : Nat) :
    ofLexemes file line true false (Lexeme.nonempty [lexeme, ⟨.lineBreak, ending⟩] ++ back) =
      ofLexemes file (line + (Lexeme.textOf [lexeme, ⟨.lineBreak, ending⟩]).count '\n') true false back := by
  obtain ⟨restStarts, restOpens, counted⟩ := ofLexemes_silent file silent line true false
    (Lexeme.nonempty [⟨.lineBreak, ending⟩] ++ back)
  rw [← List.singleton_append, Lexeme.nonempty_append, List.append_assoc, counted, ofLexemes_break file ended]
  simp [Nat.add_assoc]

/-- What a line declares by its content and by the lines of text behind it. -/
def ofLine (line : Nat) (content : Text) (following : List Text) : List Declared :=
  match AttributeEntry.ofLine? content with
  | some entry =>
    let value := entry.value.map (AttributeEntry.extendBy · following)
    [.attribute ⟨{ entry with value }, ⟨file, line⟩⟩]
  | none =>
    match Anchor.ofLine? content with
    | some id => [.anchor ⟨⟨file, line⟩, id⟩]
    | none => (Line.ids content).map fun id => .anchor ⟨⟨file, line⟩, id⟩

theorem ofLine_of_none {content : Text} (noEntry : AttributeEntry.ofLine? content = none)
    (noAnchor : Anchor.ofLine? content = none) (line : Nat) (following : List Text) :
    ofLine file line content following = (Line.ids content).map fun id => .anchor ⟨⟨file, line⟩, id⟩ := by
  rw [ofLine, noEntry, noAnchor]

theorem ofMention_eq_ofLine {content : Text} (ids : Line.ids content = Anchor.inline content) (line : Nat)
    (following : List Text) (opensList : Bool) (target : Option Text) :
    ofMention file ⟨line, .text, content, true, opensList, following, target⟩ =
      ofLine file line content following := by
  rw [ofLine, ids]
  unfold ofMention
  cases AttributeEntry.ofLine? content with
  | some entry => rfl
  | none => cases Anchor.ofLine? content <;> rfl

theorem ofLexemes_content {content : Text} (single : '\n' ∉ content)
    (ids : Line.ids content = Anchor.ofLexemes false (Lexeme.nonempty (Lexeme.ofContent content)))
    {ending : Text} {back : List Lexeme} (ended : ending.getLast? = some '\n' ∨ ending = [] ∧ back = [])
    (line : Nat) :
    ofLexemes file line true false
        (Lexeme.nonempty (Lexeme.ofContent content) ++ (Lexeme.nonempty [⟨.lineBreak, ending⟩] ++ back)) =
      ofLine file line content (Lexeme.continuations (Lexeme.nonempty [⟨.lineBreak, ending⟩] ++ back)) ++
        ofLexemes file (line + ending.count '\n') true false back := by
  rcases Lexeme.ofContent_cases content with text | ⟨first, rest, starts, notText, filled⟩
  · rw [text] at ids ⊢
    by_cases empty : content = []
    · subst empty
      rw [Lexeme.nonempty_cons_of_eq_nil rfl] at ids ⊢
      rw [ofLine_of_none file rfl rfl, ids]
      exact ofLexemes_break file ended line true false
    · rw [Lexeme.nonempty_cons empty] at ids ⊢
      have notEnded : content.getLast? ≠ some '\n' := fun ended => single (List.mem_of_getLast? ended)
      have counted : line + content.count '\n' = line := by rw [List.count_eq_zero_of_not_mem single]; rfl
      rw [List.cons_append, ofLexemes_cons, ofMention_eq_ofLine file (ids.trans (List.append_nil _)), counted]
      congr 1
      exact ofLexemes_break file ended line _ _
  · have other : Lexeme.ofContent content ≠ [⟨.text, content⟩] := by
      intro read
      cases starts.symm.trans read
      exact notText rfl
    obtain ⟨noEntry, noAnchor⟩ := Line.declares_nothing_of_ofContent other
    have within : '\n' ∉ Lexeme.textOf (Lexeme.nonempty (Lexeme.ofContent content)) := by
      rwa [Lexeme.nonempty, Lexeme.textOf_filter_nonempty, Lexeme.textOf_ofContent]
    obtain ⟨backOpens, declared⟩ := ofLexemes_append_within file within line false
    have inner : ∀ lexeme ∈ (Lexeme.nonempty (Lexeme.ofContent content) ++
        (Lexeme.nonempty [⟨.lineBreak, ending⟩] ++ back)).head?, lexeme.kind ≠ .text := by
      intro lexeme mem
      rw [starts, Lexeme.nonempty_cons filled] at mem
      cases mem
      exact notText
    rw [ofLexemes_startsLine file inner, declared, ofLexemes_break file ended, ofLine_of_none file noEntry noAnchor,
      ids]

end Declared

namespace Verbatim

theorem ended_of_cut {line : Line} {rest : List Line} (cut : Line.Cut (line :: rest)) (state : Verbatim)
    (silent : state.finish = []) :
    line.ending.getLast? = some '\n' ∨ line.ending = [] ∧ Lexeme.nonempty (state.lexemes rest) = [] := by
  cases cut with
  | last =>
      rw [lexemes, silent]
      exact .inr ⟨rfl, rfl⟩
  | cons _ ended _ => exact .inl ended.spec.2.1

/-- What a line declares that no block holds, wherever it stands. -/
def declares (file : Text) (state : Verbatim) (line : Line) (number : Nat) (rest : List Line) : List Declared :=
  (Line.outside state.waiting [(line, number)]).flatMap fun numbered =>
    Declared.ofLine file numbered.2 numbered.1.content (Line.continuations rest)

theorem declares_of_outside_eq_nil {state : Verbatim} {line : Line} {number : Nat}
    (inside : Line.outside state.waiting [(line, number)] = []) (file : Text) (rest : List Line) :
    state.declares file line number rest = [] := by
  rw [declares, inside]
  rfl

theorem ofLine_of_fence {content : Text} (fence : isDelimiter '=' content) (file : Text) (number : Nat)
    (following : List Text) : Declared.ofLine file number content following = [] := by
  have starts : content.head? = some '=' := head?_of_isDelimiter fence
  have noEntry : AttributeEntry.ofLine? content = .none := by
    refine AttributeEntry.ofLine?_eq_none ?_
    rintro rest rfl
    cases starts
  have noAnchor : Anchor.ofLine? content = .none := by
    refine Anchor.ofLine?_eq_none ?_
    rintro rest rfl
    cases starts
  have noIds : Line.ids content = [] := by
    have read : (Verbatim.none.step ⟨content, []⟩).2 = [⟨.exampleDelimiter, content ++ []⟩] := by
      rcases step_none_cases content with ⟨other, _⟩ | ⟨_, read⟩ | ⟨other, _⟩ | ⟨other, _⟩
      · cases starts.symm.trans (head?_of_isDelimiter other)
      · exact congrArg Prod.snd (read []).2
      · cases starts.symm.trans (head?_of_isDelimiter other)
      · cases fence.symm.trans other
    rw [Line.ids, read, Lexeme.nonempty_cons (by simpa using ne_nil_of_isDelimiter fence)]
    rfl
  rw [Declared.ofLine_of_none file noEntry noAnchor, noIds]
  rfl

theorem declares_of_outside {line : Line} (opens : line.opensVerbatim = false) (file : Text) (number : Nat)
    (rest : List Line) :
    declares file .none line number rest =
      Declared.ofLine file number line.content (Line.continuations rest) := by
  simp [declares, waiting, Line.outside, opens]

/-- The token of a fence contains its break. -/
theorem ofLexemes_fence (file : Text) {content ending : Text} {rest : List Line}
    (cut : Line.Cut (⟨content, ending⟩ :: rest)) (fence : isDelimiter '=' content) (line : Nat) :
    Declared.ofLexemes file line true false
        (Lexeme.nonempty [⟨.exampleDelimiter, content ++ ending⟩] ++ Lexeme.nonempty (Verbatim.none.lexemes rest)) =
      Declared.ofLexemes file (line + (content ++ ending).count '\n') true false
        (Lexeme.nonempty (Verbatim.none.lexemes rest)) := by
  have filled : content ++ ending ≠ [] :=
    List.append_ne_nil_of_left_ne_nil (ne_nil_of_isDelimiter fence) ending
  rw [Lexeme.nonempty_cons filled, List.cons_append, Declared.ofLexemes, Mention.ofLexemes_cons_silent rfl]
  cases cut with
  | last => rfl
  | cons _ ended _ =>
      have feed : (content ++ ending).getLast? = some '\n' := by
        rw [List.getLast?_append, ended.spec.2.1]
        rfl
      simp only [feed, decide_true]
      rfl

/-- One line: its lexemes declare what the line declares, if it is outside, and the next line starts behind
them. They start on the line that is read, less the lines that were withheld. -/
theorem ofLexemes_step (file : Text) (state : Verbatim) {line : Line} {rest : List Line}
    (cut : Line.Cut (line :: rest)) {start number : Nat}
    (counted : start + state.withheld.count '\n' = number) :
    Declared.ofLexemes file start true false
        (Lexeme.nonempty (state.step line).2 ++ Lexeme.nonempty ((state.step line).1.lexemes rest)) =
      state.declares file line number rest ++
        Declared.ofLexemes file (start + (Lexeme.textOf (state.step line).2).count '\n') true false
          (Lexeme.nonempty ((state.step line).1.lexemes rest)) := by
  have single : '\n' ∉ line.content := by
    cases cut with
    | last single => exact single
    | cons single _ _ => exact single
  cases state with
  | none =>
      have same : start = number := counted
      subst same
      obtain ⟨content, ending⟩ := line
      rcases step_none_cases content with ⟨_, read⟩ | ⟨fence, read⟩ | ⟨_, read⟩ | ⟨_, read⟩
      · obtain ⟨opens, read⟩ := read ending
        rw [read, declares_of_outside_eq_nil (by simp [waiting, Line.outside, opens])]
        exact Declared.ofLexemes_silent_line file rfl (ended_of_cut cut _ rfl) start
      · obtain ⟨opens, read⟩ := read ending
        rw [declares_of_outside opens, ofLine_of_fence fence, read, ofLexemes_fence file cut fence]
        simp
      · obtain ⟨opens, read⟩ := read ending
        rw [read, declares_of_outside_eq_nil (by simp [waiting, Line.outside, opens])]
        rfl
      · have ids := Line.ids_of_step (read []).2
        obtain ⟨opens, read⟩ := read ending
        have declared := Declared.ofLexemes_content file single ids (ended_of_cut cut .none rfl) start
        rw [Lexeme.continuations_break cut] at declared
        rw [declares_of_outside opens, read, Lexeme.nonempty_append, List.append_assoc, declared,
          Lexeme.textOf_append, Lexeme.textOf_ofContent, List.count_append, List.count_eq_zero_of_not_mem single]
        simp
  | listing delimiter =>
      by_cases closes : line.content = delimiter
      · rw [declares_of_outside_eq_nil (by simp [waiting, Line.outside, closes]), step, if_pos closes]
        exact Declared.ofLexemes_silent_line file rfl (ended_of_cut cut _ rfl) start
      · rw [declares_of_outside_eq_nil (by simp [waiting, Line.outside, closes]), step, if_neg closes]
        exact Declared.ofLexemes_silent_line file rfl (ended_of_cut cut _ rfl) start
  | comment delimiter lines =>
      by_cases closes : line.content = delimiter
      · rw [declares_of_outside_eq_nil (by simp [waiting, Line.outside, closes]), step, if_pos closes]
        exact Declared.ofLexemes_silent_line file rfl (ended_of_cut cut _ rfl) start
      · rw [declares_of_outside_eq_nil (by simp [waiting, Line.outside, closes]), step, if_neg closes]
        rfl

theorem ofLexemes_finish (file : Text) (state : Verbatim) (line : Nat) :
    Declared.ofLexemes file line true false (Lexeme.nonempty (state.lexemes [])) = [] := by
  have silent : ∀ lexeme ∈ Lexeme.nonempty state.finish, lexeme.kind.mentions = false := by
    intro lexeme mem
    have inFinish := (List.mem_filter.mp mem).1
    cases state with
    | none => cases inFinish
    | listing => cases inFinish
    | comment =>
        cases List.mem_singleton.mp inFinish
        rfl
  rw [Declared.ofLexemes, lexemes, Mention.ofLexemes_eq_nil silent]
  rfl

theorem eq_drop_of_cons {all rest : List Line} {line : Line} {before : Nat}
    (here : line :: rest = all.drop before) : rest = all.drop (before + 1) := by
  rw [← List.tail_drop, ← here]
  rfl

theorem declares_eq {all rest : List Line} {number : Nat} (behind : rest = all.drop number) (file : Text)
    (state : Verbatim) (line : Line) :
    state.declares file line number rest =
      (Line.outside state.waiting [(line, number)]).flatMap fun numbered =>
        Declared.ofLine file numbered.2 numbered.1.content (Line.continuations (all.drop numbered.2)) := by
  refine List.flatMap_congr fun numbered mem => ?_
  cases List.mem_singleton.mp ((Line.outside_sublist state.waiting _).mem mem)
  rw [behind]

/-- The whole run: the lexemes of lines declare what the lines outside of blocks declare. The lines are the last
ones of all lines, some of which may be withheld. -/
theorem ofLexemes_lexemes (file : Text) (all : List Line) (state : Verbatim) {lines : List Line}
    (cut : Line.Cut lines) {before start : Nat} (here : lines = all.drop before)
    (counted : start + state.withheld.count '\n' = before + 1) :
    Declared.ofLexemes file start true false (Lexeme.nonempty (state.lexemes lines)) =
      (Line.outside state.waiting (lines.zipIdx (before + 1))).flatMap fun numbered =>
        Declared.ofLine file numbered.2 numbered.1.content (Line.continuations (all.drop numbered.2)) := by
  -- The lines behind the line of a number are what is left of all lines without that many.
  induction cut generalizing state before start with
  | @last content single =>
      have stepped := ofLexemes_step file state (.last single) counted
      rw [ofLexemes_finish, List.append_nil] at stepped
      rw [lexemes, Lexeme.nonempty_append, stepped, declares_eq (eq_drop_of_cons here)]
      rfl
  | @cons line rest single ended cut ih =>
      have advanced := counted_step state (Line.count_text_of_isBreak single ended) counted
      rw [lexemes, Lexeme.nonempty_append, ofLexemes_step file state (.cons single ended cut) counted,
        declares_eq (eq_drop_of_cons here), ih (state.step line).1 (eq_drop_of_cons here) advanced, List.zipIdx_cons,
        outside_cons state line (before + 1) (rest.zipIdx (before + 1 + 1)), List.flatMap_append]

end Verbatim

namespace Declared

/-- A document declares what its lines outside of verbatim blocks declare. -/
theorem ofSource_eq_ofLines (path text : Text) :
    ofSource ⟨path, text⟩ =
      (Line.outside none ((Line.ofText text).zipIdx 1)).flatMap fun numbered =>
        ofLine path numbered.2 numbered.1.content
          (Line.continuations ((Line.ofText text).drop numbered.2)) := by
  rw [ofSource_eq_ofMentions]
  exact Verbatim.none.ofLexemes_lexemes path (Line.ofText text) (Line.cut_ofText text) rfl rfl

def location : Declared → Location
  | .attribute entry => entry.toLocation
  | .anchor found => found.toLocation

theorem location_of_mem_ofLine {file content : Text} {line : Nat} {following : List Text} {declared : Declared}
    (mem : declared ∈ ofLine file line content following) : declared.location = ⟨file, line⟩ := by
  unfold ofLine at mem
  split at mem
  · rw [List.mem_singleton.mp mem]
    rfl
  · split at mem
    · rw [List.mem_singleton.mp mem]
      rfl
    · obtain ⟨id, _, rfl⟩ := List.mem_map.mp mem
      rfl

theorem filter_line_ofSource {path text : Text} {numbered : Line × Nat}
    (outside : numbered ∈ Line.outside none ((Line.ofText text).zipIdx 1)) :
    (ofSource ⟨path, text⟩).filter (fun declared => declared.location.line = numbered.2) =
      ofLine path numbered.2 numbered.1.content
        (Line.continuations ((Line.ofText text).drop numbered.2)) := by
  rw [ofSource_eq_ofLines]
  refine filter_flatMap_of_ascending (Line.pairwise_outside text) (fun other declared mem => ?_) outside
  rw [location_of_mem_ofLine mem]

end Declared

end Crossref
