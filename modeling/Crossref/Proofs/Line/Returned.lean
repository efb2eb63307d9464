import Crossref.Proofs.Line.Outside

/-! Line breaks of two characters. Putting a carriage return in front of every line feed changes breaks only, in the
lines of a document and then in its tokens. All else reads around breaks, so the declarations and the references of
the document stay the same. -/

set_option autoImplicit false

namespace Crossref

namespace Text

/-- Puts a carriage return in front of every line feed. -/
def withReturns (text : Text) : Text := replaceChar '\n' ['\r', '\n'] text

@[simp] theorem withReturns_nil : withReturns [] = [] := rfl

theorem withReturns_cons (c : Char) (rest : Text) :
    withReturns (c :: rest) = (if c = '\n' then ['\r', '\n'] else [c]) ++ withReturns rest := rfl

@[simp] theorem withReturns_append (front back : Text) :
    withReturns (front ++ back) = withReturns front ++ withReturns back := List.flatMap_append

theorem withReturns_of_notMem {text : Text} (single : '\n' ∉ text) : withReturns text = text := by
  induction text with
  | nil => rfl
  | cons c rest ih =>
      obtain ⟨notFeed, restSingle⟩ := List.ne_and_not_mem_of_not_mem_cons single
      rw [withReturns_cons, if_neg notFeed.symm, ih restSingle]
      rfl

theorem withReturns_flatMap {α : Type} (items : List α) (texts : α → Text) :
    withReturns (items.flatMap texts) = items.flatMap fun item => withReturns (texts item) :=
  List.flatMap_assoc

theorem count_withReturns (text : Text) : (withReturns text).count '\n' = text.count '\n' := by
  induction text with
  | nil => rfl
  | cons c rest ih =>
      rw [withReturns_cons, List.count_append, ih, List.count_cons]
      by_cases feed : c = '\n'
      · rw [feed]
        exact Nat.add_comm 1 _
      · simp [feed]

theorem isEmpty_withReturns (text : Text) : (withReturns text).isEmpty = text.isEmpty := by
  cases text with
  | nil => rfl
  | cons c rest =>
      rw [withReturns_cons]
      split <;> rfl

theorem getLast?_withReturns (text : Text) : (withReturns text).getLast? = text.getLast? := by
  rcases List.eq_nil_or_concat' text with rfl | ⟨front, last, rfl⟩
  · rfl
  · have lastReturned : withReturns [last] = (if last = '\n' then ['\r', '\n'] else [last]) :=
      List.append_nil _
    rw [withReturns_append, lastReturned, List.getLast?_append, List.getLast?_concat]
    split
    · next feed =>
        rw [feed]
        rfl
    · rfl

end Text

namespace Line

def withReturns (line : Line) : Line := ⟨Text.withReturns line.content, Text.withReturns line.ending⟩

theorem text_withReturns (line : Line) : line.withReturns.text = Text.withReturns line.text :=
  (Text.withReturns_append _ _).symm

theorem flatMap_text_withReturns (lines : List Line) :
    (lines.map withReturns).flatMap text = Text.withReturns (lines.flatMap text) := by
  rw [List.flatMap_map, Text.withReturns_flatMap]
  exact List.flatMap_congr fun line _ => text_withReturns line

theorem consContent_withReturns {c : Char} (notFeed : c ≠ '\n') (lines : List Line) :
    consContent c (lines.map withReturns) = (consContent c lines).map withReturns := by
  have kept : ∀ content, Text.withReturns (c :: content) = c :: Text.withReturns content := by
    intro content
    rw [Text.withReturns_cons, if_neg notFeed]
    rfl
  cases lines with
  | nil =>
      simp only [List.map_nil, consContent, List.map_cons, withReturns, kept]
      rfl
  | cons line rest => simp only [List.map_cons, consContent, withReturns, kept]

/-- The lines stay the same, but for their breaks. -/
theorem ofText_withReturns {text : Text} (noReturn : '\r' ∉ text) :
    ofText (Text.withReturns text) = (ofText text).map withReturns := by
  fun_induction ofText text with
  | case1 => rfl
  | case2 rest ih =>
      obtain ⟨_, restNoReturn⟩ := List.ne_and_not_mem_of_not_mem_cons noReturn
      rw [Text.withReturns_cons, if_pos rfl, List.map_cons, ← ih restNoReturn]
      rfl
  | case3 rest ih => exact absurd List.mem_cons_self noReturn
  | case4 c rest notFeed _ ih =>
      obtain ⟨notReturn, restNoReturn⟩ := List.ne_and_not_mem_of_not_mem_cons noReturn
      have other : c ≠ '\n' := fun feed => notFeed feed
      rw [Text.withReturns_cons, if_neg other, List.singleton_append,
        ofText_cons other fun isReturn => absurd isReturn.symm notReturn, ih restNoReturn,
        consContent_withReturns other]

end Line

/-- Whether line feeds can stand within tokens of the kind. -/
def TokenKind.spansLines : TokenKind → Bool
  | .lineBreak | .exampleDelimiter | .blockComment => true
  | _ => false

namespace Lexeme

def withReturns (lexeme : Lexeme) : Lexeme := ⟨lexeme.kind, Text.withReturns lexeme.text⟩

/-- Within lexemes of most kinds there is no line feed. -/
def WithinLines (lexemes : List Lexeme) : Prop :=
  ∀ lexeme ∈ lexemes, lexeme.kind.spansLines = false → '\n' ∉ lexeme.text

theorem WithinLines.append {front back : List Lexeme} (within : WithinLines front)
    (backWithin : WithinLines back) : WithinLines (front ++ back) :=
  List.forall_mem_append.mpr ⟨within, backWithin⟩

theorem withinLines_of_spansLines {kind : TokenKind} (spans : kind.spansLines = true) (text : Text) :
    WithinLines [⟨kind, text⟩] := by
  refine List.forall_mem_singleton.mpr fun single => ?_
  cases spans.symm.trans single

theorem withinLines_of_notMem {lexemes : List Lexeme} (single : '\n' ∉ textOf lexemes) : WithinLines lexemes :=
  fun _ mem _ feed => single (List.mem_flatMap_of_mem mem feed)

theorem map_withReturns_of_notMem {lexemes : List Lexeme} (single : '\n' ∉ textOf lexemes) :
    lexemes.map withReturns = lexemes := by
  have kept : ∀ lexeme ∈ lexemes, withReturns lexeme = lexeme := by
    intro lexeme mem
    have within : '\n' ∉ lexeme.text := fun feed => single (List.mem_flatMap_of_mem mem feed)
    rw [withReturns, Text.withReturns_of_notMem within]
  rw [List.map_congr_left kept, List.map_id']

theorem nonempty_map_withReturns (lexemes : List Lexeme) :
    nonempty (lexemes.map withReturns) = (nonempty lexemes).map withReturns := by
  rw [nonempty, nonempty, List.filter_map]
  congr 2
  funext lexeme
  exact congrArg (!·) (Text.isEmpty_withReturns lexeme.text)

end Lexeme

namespace Verbatim

def withReturns : Verbatim → Verbatim
  | .none => .none
  | .listing delimiter => .listing delimiter
  | .comment delimiter lines => .comment delimiter (lines.map Line.withReturns)

theorem withReturns_single {kind : TokenKind} {text : Text} (single : '\n' ∉ text) :
    Lexeme.withReturns ⟨kind, text⟩ = ⟨kind, text⟩ := by
  rw [Lexeme.withReturns, Text.withReturns_of_notMem single]

/-- One line with a break of two characters: the block that is open behind it and its lexemes are those of the line,
but for the breaks in them. -/
theorem step_withReturns (state : Verbatim) {line : Line} (single : '\n' ∉ line.content) :
    state.withReturns.step line.withReturns =
      ((state.step line).1.withReturns, (state.step line).2.map Lexeme.withReturns) := by
  obtain ⟨content, ending⟩ := line
  have same : Line.withReturns ⟨content, ending⟩ = ⟨content, Text.withReturns ending⟩ := by
    rw [Line.withReturns, Text.withReturns_of_notMem single]
  cases state with
  | none =>
      rcases step_none_cases content with ⟨_, read⟩ | ⟨_, read⟩ | ⟨_, read⟩ | ⟨_, read⟩
      · rw [same, withReturns, (read _).2, (read _).2, List.map_cons, withReturns_single single]
        rfl
      · rw [same, withReturns, (read _).2, (read _).2, List.map_singleton, Lexeme.withReturns,
          Text.withReturns_append, Text.withReturns_of_notMem single]
        rfl
      · rw [withReturns, same, (read _).2, (read _).2, withReturns, List.map_singleton, same]
        rfl
      · have kept : (Lexeme.ofContent content).map Lexeme.withReturns = Lexeme.ofContent content :=
          Lexeme.map_withReturns_of_notMem (by rwa [Lexeme.textOf_ofContent])
        rw [same, withReturns, (read _).2, (read _).2, List.map_append, kept]
        rfl
  | listing delimiter =>
      rw [same, withReturns]
      by_cases closes : content = delimiter
      · simp only [step, if_pos closes, List.map_cons, withReturns_single single]
        rfl
      · simp only [step, if_neg closes, List.map_cons, withReturns_single single]
        rfl
  | comment delimiter lines =>
      rw [same, withReturns]
      by_cases closes : content = delimiter
      · simp only [step, if_pos closes, Line.flatMap_text_withReturns, List.map_cons, Lexeme.withReturns,
          Text.withReturns_append, Text.withReturns_of_notMem single]
        rfl
      · simp only [step, if_neg closes, withReturns, List.map_append, List.map_singleton, same]
        rfl

theorem finish_withReturns (state : Verbatim) :
    state.withReturns.finish = state.finish.map Lexeme.withReturns := by
  cases state with
  | none => rfl
  | listing => rfl
  | comment delimiter lines =>
      rw [withReturns, finish, Line.flatMap_text_withReturns]
      rfl

/-- The whole run: the lexemes stay the same, but for the breaks in them. -/
theorem lexemes_withReturns (state : Verbatim) {lines : List Line} (cut : Line.Cut lines) :
    state.withReturns.lexemes (lines.map Line.withReturns) =
      (state.lexemes lines).map Lexeme.withReturns := by
  induction cut generalizing state with
  | @last content single =>
      rw [List.map_singleton, lexemes, step_withReturns state single]
      simp only [lexemes, finish_withReturns, List.map_append]
  | @cons line rest single _ _ ih =>
      rw [List.map_cons, lexemes, step_withReturns state single, ih, ← List.map_append]
      rfl

/-- The lexemes of one line keep to it, except for breaks, fences and comment blocks. -/
theorem withinLines_step (state : Verbatim) {line : Line} (single : '\n' ∉ line.content) :
    Lexeme.WithinLines (state.step line).2 := by
  have broken : ∀ kind, Lexeme.WithinLines [⟨kind, line.content⟩, ⟨.lineBreak, line.ending⟩] := fun kind =>
    List.forall_mem_cons.mpr ⟨fun _ => single, Lexeme.withinLines_of_spansLines rfl _⟩
  have nothing : Lexeme.WithinLines [] := List.forall_mem_nil _
  cases state with
  | none =>
      obtain ⟨content, ending⟩ := line
      rcases step_none_cases content with ⟨_, read⟩ | ⟨_, read⟩ | ⟨_, read⟩ | ⟨_, read⟩
      · rw [(read _).2]
        exact broken _
      · rw [(read _).2]
        exact Lexeme.withinLines_of_spansLines rfl _
      · rw [(read _).2]
        exact nothing
      · rw [(read _).2]
        refine (Lexeme.withinLines_of_notMem ?_).append (Lexeme.withinLines_of_spansLines rfl _)
        rwa [Lexeme.textOf_ofContent]
  | listing delimiter =>
      rw [step]
      split <;> exact broken _
  | comment delimiter lines =>
      rw [step]
      split
      · refine List.forall_mem_cons.mpr ⟨fun inLine => ?_, Lexeme.withinLines_of_spansLines rfl _⟩
        cases inLine
      · exact nothing

theorem withinLines_finish (state : Verbatim) : Lexeme.WithinLines state.finish := by
  cases state with
  | none => exact List.forall_mem_nil _
  | listing => exact List.forall_mem_nil _
  | comment => exact Lexeme.withinLines_of_spansLines rfl _

theorem withinLines_lexemes (state : Verbatim) {lines : List Line} (cut : Line.Cut lines) :
    Lexeme.WithinLines (state.lexemes lines) := by
  induction cut generalizing state with
  | last single => exact (withinLines_step state single).append (withinLines_finish _)
  | cons single _ _ ih => exact (withinLines_step state single).append (ih _)

end Verbatim

namespace Lexeme

theorem withinLines_ofText (text : Text) : WithinLines (ofText text) :=
  fun lexeme mem => Verbatim.none.withinLines_lexemes (Line.cut_ofText text) lexeme (List.mem_filter.mp mem).1

theorem ofText_withReturns {text : Text} (noReturn : '\r' ∉ text) :
    ofText (Text.withReturns text) = (ofText text).map withReturns := by
  have read := Verbatim.none.lexemes_withReturns (Line.cut_ofText text)
  rw [ofText, Line.ofText_withReturns noReturn]
  exact (congrArg nonempty read).trans (nonempty_map_withReturns _)

theorem text_withReturns {lexemes : List Lexeme} (within : WithinLines lexemes) {lexeme : Lexeme}
    (mem : lexeme ∈ lexemes) (inLine : lexeme.kind.spansLines = false) :
    (withReturns lexeme).text = lexeme.text :=
  Text.withReturns_of_notMem (within lexeme mem inLine)

theorem continuations_withReturns {lexemes : List Lexeme} (within : WithinLines lexemes) :
    continuations (lexemes.map withReturns) = continuations lexemes := by
  fun_induction continuations lexemes with
  | case1 ending next rest follows ih =>
      obtain ⟨_, nextWithin, restWithin⟩ := by simpa only [WithinLines, List.forall_mem_cons] using within
      have isText : next.kind = .text := by simp_all
      have kept : Text.withReturns next.text = next.text :=
        Text.withReturns_of_notMem (nextWithin (by rw [isText]; rfl))
      rw [List.map_cons, List.map_cons, continuations]
      exact (if_pos follows).trans (congrArg₂ List.cons kept (ih restWithin))
  | case2 ending next rest stops =>
      rw [List.map_cons, List.map_cons, continuations]
      exact if_neg stops
  | case3 lexemes short =>
      refine continuations.eq_2 _ fun ending next rest spelled => ?_
      obtain ⟨first, others, rfl, _, behind⟩ := List.map_eq_cons_iff.mp spelled
      obtain ⟨second, further, rfl, _, _⟩ := List.map_eq_cons_iff.mp behind
      exact short first second further rfl

theorem target?_withReturns {lexemes : List Lexeme} (within : WithinLines lexemes) :
    target? (lexemes.map withReturns) = target? lexemes := by
  cases lexemes with
  | nil => rfl
  | cons lexeme rest =>
      obtain ⟨kind, text⟩ := lexeme
      cases kind with
      | blockMacroBody => exact congrArg some (text_withReturns within List.mem_cons_self rfl)
      | _ => rfl

end Lexeme

namespace Mention

/-- Breaks of two characters change no mention. -/
theorem ofLexemes_withReturns {lexemes : List Lexeme} (within : Lexeme.WithinLines lexemes) (line : Nat)
    (startsLine opensList : Bool) :
    ofLexemes line startsLine opensList (lexemes.map Lexeme.withReturns) =
      ofLexemes line startsLine opensList lexemes := by
  induction lexemes generalizing line startsLine opensList with
  | nil => rfl
  | cons lexeme rest ih =>
      obtain ⟨firstWithin, restWithin⟩ := List.forall_mem_cons.mp within
      have kind : lexeme.withReturns.kind = lexeme.kind := rfl
      have counted : lexeme.withReturns.text.count '\n' = lexeme.text.count '\n' := Text.count_withReturns _
      have ends : lexeme.withReturns.text.getLast? = lexeme.text.getLast? := Text.getLast?_withReturns _
      rw [List.map_cons, ofLexemes, ofLexemes, kind, counted, ends, ih restWithin,
        Lexeme.continuations_withReturns restWithin, Lexeme.target?_withReturns restWithin]
      by_cases mentions : lexeme.kind.mentions
      · have inLine : lexeme.kind.spansLines = false := by
          cases given : lexeme.kind <;> simp_all [TokenKind.mentions, TokenKind.spansLines]
        rw [Lexeme.text_withReturns within List.mem_cons_self inLine]
      · simp only [mentions, Bool.false_eq_true, if_false]

theorem ofText_withReturns {text : Text} (noReturn : '\r' ∉ text) :
    ofText (Text.withReturns text) = ofText text := by
  rw [ofText, Lexeme.ofText_withReturns noReturn]
  exact ofLexemes_withReturns (Lexeme.withinLines_ofText text) 1 true false

end Mention

/-- With a carriage return in front of every line feed, a document has the same tokens with the same change in their
texts. It declares the same, on the same lines, and all that is found and told about its references is the same. -/
theorem Line.breaks_are_interchangeable {text : Text} (noReturn : '\r' ∉ text) :
    (Token.ofText (Text.withReturns text)).map (·.toLexeme) =
      (Token.ofText text).map (fun token => ⟨token.kind, Text.withReturns token.text⟩) ∧
    (∀ path, Declared.ofSource ⟨path, Text.withReturns text⟩ = Declared.ofSource ⟨path, text⟩) ∧
    ∀ (project : Project) (disk : Disk) (file : Text),
      project.checkDocument disk file (Text.withReturns text) = project.checkDocument disk file text := by
  have lexemes : ∀ text, (Token.ofText text).map (·.toLexeme) = Lexeme.ofText text :=
    fun text => Token.map_toLexeme_place 0 _
  refine ⟨?tokens, fun path => ?declarations, fun project disk file => ?references⟩
  case tokens =>
    rw [lexemes, Lexeme.ofText_withReturns noReturn, ← lexemes, List.map_map]
    rfl
  case declarations =>
    rw [Declared.ofSource_eq_ofMentions, Declared.ofSource_eq_ofMentions, Mention.ofText_withReturns noReturn]
  case references =>
    rw [Project.checkDocument_eq_checkMentions, Project.checkDocument_eq_checkMentions,
      Mention.ofText_withReturns noReturn]

/-- A continued value, a fence, and a comment block that is not closed and holds a blank line. -/
theorem Line.breaks_are_interchangeable_around_comment :
    let document : Text := ":a: b \\\n c\n====\n////\n\n/"
    '\r' ∉ document ∧
    (Token.ofText (Text.withReturns document)).map (·.toLexeme) =
      [⟨.text, ":a: b \\"⟩, ⟨.lineBreak, "\r\n"⟩, ⟨.text, " c"⟩, ⟨.lineBreak, "\r\n"⟩,
        ⟨.exampleDelimiter, "====\r\n"⟩, ⟨.blockComment, "////\r\n\r\n/"⟩] ∧
    ∀ path, Declared.ofSource ⟨path, Text.withReturns document⟩ = Declared.ofSource ⟨path, document⟩ := by
  intro document
  have noReturn : '\r' ∉ document := by decide
  obtain ⟨tokens, declarations, _⟩ := breaks_are_interchangeable noReturn
  exact ⟨noReturn, tokens.trans (by decide), declarations⟩

end Crossref
