import Crossref.Proofs.Verbatim

/-! Block macros outside of verbatim blocks. The macros that a document mentions are those of its lines
outside of listings and comment blocks, each mentioned once and on its own line. -/

set_option autoImplicit false

namespace Crossref

theorem forall₂_filter_filterMap {α β : Type} {kept : α → Bool} {change : α → Option β}
    {relates : α → β → Prop} {items : List α}
    (answered : ∀ item ∈ items, kept item → ∃ result, change item = some result ∧ relates item result)
    (silent : ∀ item ∈ items, kept item = false → change item = none) :
    List.Forall₂ relates (items.filter kept) (items.filterMap change) := by
  induction items with
  | nil => exact .nil
  | cons item rest ih =>
      obtain ⟨first, restAnswered⟩ := List.forall_mem_cons.mp answered
      obtain ⟨firstSilent, restSilent⟩ := List.forall_mem_cons.mp silent
      have behind := ih restAnswered restSilent
      cases keeps : kept item with
      | true =>
          obtain ⟨result, changed, related⟩ := first keeps
          rw [List.filter_cons_of_pos keeps, List.filterMap_cons_some changed]
          exact .cons related behind
      | false =>
          rw [List.filter_cons_of_neg (Bool.eq_false_iff.mp keeps),
            List.filterMap_cons_none (firstSilent keeps)]
          exact behind

/-- A block macro with a target: its line, its name with the colons behind it, and its target. -/
structure Invocation where
  line : Nat
  id : Text
  target : Text

def Mention.invocation? (mention : Mention) : Option Invocation :=
  match mention.kind, mention.target with
  | .blockMacroId, some target => some ⟨mention.line, mention.text, target⟩
  | _, _ => none

namespace Lexeme

/-- The block macros with a target among lexemes the first of which starts on a line. -/
def invocations (line : Nat) : List Lexeme → List Invocation
  | [] => []
  | lexeme :: rest =>
    let behind := invocations (line + lexeme.text.count '\n') rest
    match lexeme.kind, target? rest with
    | .blockMacroId, some target => ⟨line, lexeme.text, target⟩ :: behind
    | _, _ => behind

theorem filterMap_invocation?_ofLexemes (line : Nat) (startsLine opensList : Bool)
    (lexemes : List Lexeme) :
    (Mention.ofLexemes line startsLine opensList lexemes).filterMap Mention.invocation? =
      invocations line lexemes := by
  induction lexemes generalizing line startsLine opensList with
  | nil => rfl
  | cons lexeme rest ih =>
      rw [Mention.ofLexemes, invocations]
      cases kind : lexeme.kind with
      | blockMacroId =>
          simp only [TokenKind.mentions, if_true, List.filterMap_cons, Mention.invocation?, ih]
          cases target? rest <;> rfl
      | _ => simp only [TokenKind.mentions, if_true, if_false, Bool.false_eq_true, List.filterMap_cons,
          Mention.invocation?, ih]

theorem invocations_cons_of_ne {lexeme : Lexeme} (other : lexeme.kind ≠ .blockMacroId) (line : Nat)
    (rest : List Lexeme) :
    invocations line (lexeme :: rest) = invocations (line + lexeme.text.count '\n') rest := by
  rw [invocations]
  split
  · next isId _ => exact absurd isId other
  · rfl

/-- Lexemes none of which is the name of a macro. -/
def Unnamed (lexemes : List Lexeme) : Prop := ∀ lexeme ∈ lexemes, lexeme.kind ≠ .blockMacroId

theorem Unnamed.invocations_eq_nil {lexemes : List Lexeme} (unnamed : Unnamed lexemes) (line : Nat) :
    invocations line lexemes = [] := by
  induction lexemes generalizing line with
  | nil => rfl
  | cons lexeme rest ih =>
      obtain ⟨first, behind⟩ := List.forall_mem_cons.mp unnamed
      rw [invocations_cons_of_ne first]
      exact ih behind _

/-- Lexemes that do not end between the name of a macro and its target. -/
def Complete (lexemes : List Lexeme) : Prop :=
  ∀ lexeme ∈ lexemes.getLast?, lexeme.kind ≠ .blockMacroId

theorem invocations_append {front : List Lexeme} (complete : Complete front) (line : Nat)
    (back : List Lexeme) :
    invocations line (front ++ back) =
      invocations line front ++ invocations (line + (textOf front).count '\n') back := by
  induction front generalizing line with
  | nil => rfl
  | cons lexeme rest ih =>
      cases rest with
      | nil =>
          have other : lexeme.kind ≠ .blockMacroId := complete lexeme rfl
          rw [List.singleton_append, invocations_cons_of_ne other, invocations_cons_of_ne other,
            textOf_cons, textOf_nil, List.append_nil]
          rfl
      | cons next behind =>
          have restComplete : Complete (next :: behind) := by
            intro last mem
            exact complete last (by rwa [List.getLast?_cons_cons])
          have sameTarget : target? (next :: behind ++ back) = target? (next :: behind) := by
            obtain ⟨kind, text⟩ := next
            cases kind <;> rfl
          have counted : (textOf (lexeme :: next :: behind)).count '\n' =
              lexeme.text.count '\n' + (textOf (next :: behind)).count '\n' := by
            rw [textOf_cons, List.count_append]
          rw [List.cons_append, invocations, invocations, sameTarget, ih restComplete, counted,
            Nat.add_assoc]
          split <;> rfl

theorem Complete.append {front back : List Lexeme} (complete : Complete front)
    (backComplete : Complete back) : Complete (front ++ back) := by
  intro last mem
  rw [List.getLast?_append, Option.mem_def, Option.or_eq_some_iff] at mem
  rcases mem with behind | ⟨_, before⟩
  · exact backComplete last behind
  · exact complete last before

theorem Unnamed.complete {lexemes : List Lexeme} (unnamed : Unnamed lexemes) : Complete lexemes :=
  fun last mem => unnamed last (List.mem_of_getLast? mem)

theorem Unnamed.nonempty {lexemes : List Lexeme} (unnamed : Unnamed lexemes) :
    Unnamed (nonempty lexemes) :=
  fun lexeme mem => unnamed lexeme (List.mem_filter.mp mem).1

theorem Unnamed.cons {lexeme : Lexeme} {rest : List Lexeme} (other : lexeme.kind ≠ .blockMacroId)
    (unnamed : Unnamed rest) : Unnamed (lexeme :: rest) :=
  List.forall_mem_cons.mpr ⟨other, unnamed⟩

theorem Unnamed.consName {lexemes : List Lexeme} (unnamed : Unnamed lexemes) (c : Char) :
    Unnamed (consName c lexemes) := by
  unfold Lexeme.consName
  split
  · exact .cons TokenKind.noConfusion (List.forall_mem_cons.mp unnamed).2
  · exact .cons TokenKind.noConfusion unnamed

theorem unnamed_ofAttributeList (content : Text) : Unnamed (ofAttributeList content) := by
  fun_induction ofAttributeList content with
  | case1 => exact List.forall_mem_nil _
  | case2 rest => exact .cons TokenKind.noConfusion (.cons TokenKind.noConfusion (List.forall_mem_nil _))
  | case3 rest ih => exact .cons TokenKind.noConfusion ih
  | case4 c rest _ _ ih => exact ih.consName c

theorem head?_of_headingLevel {line : Text} (positive : 0 < headingLevel line) :
    line.head? = some '=' := by
  cases line with
  | nil => cases positive
  | cons first rest =>
      by_cases mark : first = '='
      · rw [mark]
        rfl
      · have none : (first :: rest).takeWhile (fun c => decide (c = '=')) = [] :=
          List.takeWhile_cons_of_neg (by simpa using mark)
        rw [headingLevel, none] at positive
        split at positive <;> cases positive

/-- A line that is a macro is nothing else. -/
theorem ofContent_of_ofLine? {content : Text} {found : BlockMacro}
    (read : BlockMacro.ofLine? content = some found) :
    ofContent content = [⟨.blockMacroId, found.id⟩, ⟨.blockMacroBody, found.target⟩,
      ⟨.blockMacroAttributes, found.attributes⟩] := by
  have noMark : ∀ c, Text.isWord c = false → content.head? ≠ some c := by
    intro c other starts
    rw [BlockMacro.ofLine?_of_head? fun first mem => Option.some.inj (starts.symm.trans mem) ▸ other]
      at read
    cases read
  have noHeading : ¬ 0 < headingLevel content := fun positive =>
    noMark '=' (by decide) (head?_of_headingLevel positive)
  unfold ofContent
  rw [if_neg noHeading]
  split
  · exact absurd rfl (noMark '/' (by decide))
  · exact absurd rfl (noMark '.' (by decide))
  · exact absurd rfl (noMark '[' (by decide))
  · exact absurd rfl (noMark '[' (by decide))
  · rw [read]

theorem unnamed_ofContent {content : Text} (noMacro : BlockMacro.ofLine? content = none) :
    Unnamed (ofContent content) := by
  have shape := isContent_ofContent content
  generalize ofContent content = lexemes at shape
  cases shape with
  | text => exact .cons TokenKind.noConfusion (List.forall_mem_nil _)
  | whole kinds =>
      refine .cons ?_ (List.forall_mem_nil _)
      rcases kinds with rfl | rfl | rfl <;> exact TokenKind.noConfusion
  | list => exact .cons TokenKind.noConfusion (unnamed_ofAttributeList _)
  | parts read => cases noMacro.symm.trans read

end Lexeme

namespace Line

/-- The macro with a target that a line is. -/
def invocation? (numbered : Line × Nat) : Option Invocation :=
  match BlockMacro.ofLine? numbered.1.content with
  | none => none
  | some found => if found.target.isEmpty then none else some ⟨numbered.2, found.id, found.target⟩

/-- Whether a line opens a listing or a comment block. -/
def opensVerbatim (line : Line) : Bool := isDelimiter '-' line.content || isDelimiter '/' line.content

/-- The lines outside of listings and comment blocks, whose delimiter lines are left out too. A block that
is open ends with the line that waits for it. -/
def outside : Option Text → List (Line × Nat) → List (Line × Nat)
  | _, [] => []
  | some delimiter, numbered :: rest =>
    if numbered.1.content = delimiter then outside none rest else outside (some delimiter) rest
  | none, numbered :: rest =>
    if numbered.1.opensVerbatim then outside (some numbered.1.content) rest
    else numbered :: outside none rest

theorem outside_sublist (waiting : Option Text) (numbered : List (Line × Nat)) :
    (outside waiting numbered).Sublist numbered := by
  induction numbered generalizing waiting with
  | nil => cases waiting <;> exact .slnil
  | cons first rest ih =>
      cases waiting with
      | none =>
          rw [outside]
          split
          · exact (ih _).cons _
          · exact (ih _).cons_cons _
      | some delimiter =>
          rw [outside]
          split
          · exact (ih _).cons _
          · exact (ih _).cons _

/-- Lines are numbered in ascending order. -/
theorem pairwise_outside (text : Text) :
    (outside none ((ofText text).zipIdx 1)).Pairwise fun first second => first.2 < second.2 := by
  have numbers : (((ofText text).zipIdx 1).map (·.2)).Pairwise (· < ·) := by
    rw [List.zipIdx_map_snd]
    exact List.pairwise_lt_range'
  exact (List.pairwise_map.mp numbers).sublist (outside_sublist none _)

end Line

namespace Lexeme

theorem nonempty_ofContent_of_ofLine? {content : Text} {found : BlockMacro}
    (read : BlockMacro.ofLine? content = some found) :
    nonempty (ofContent content) = ⟨.blockMacroId, found.id⟩ ::
      (nonempty [⟨.blockMacroBody, found.target⟩] ++ [⟨.blockMacroAttributes, found.attributes⟩]) := by
  obtain ⟨name, attributes, _, whole⟩ := BlockMacro.exists_invokes_of_ofLine? read
  have noName : found.id.isEmpty = false := by
    rw [whole]
    simp
  have noAttributes : found.attributes.isEmpty = false := by
    rw [whole]
    rfl
  rw [ofContent_of_ofLine? read]
  change nonempty ([⟨.blockMacroId, found.id⟩] ++
    ([⟨.blockMacroBody, found.target⟩] ++ [⟨.blockMacroAttributes, found.attributes⟩])) = _
  rw [nonempty_append, nonempty_append]
  simp [nonempty, noName, noAttributes]

/-- The lexemes of a line invoke the macro that the line is. -/
theorem invocations_ofContent (line : Line) (number : Nat) :
    invocations number (nonempty (ofContent line.content ++ [⟨.lineBreak, line.ending⟩])) =
        (Line.invocation? (line, number)).toList ∧
      Complete (nonempty (ofContent line.content ++ [⟨.lineBreak, line.ending⟩])) := by
  have lineBreak : Unnamed [⟨.lineBreak, line.ending⟩] :=
    .cons TokenKind.noConfusion (List.forall_mem_nil _)
  rw [nonempty_append, Line.invocation?]
  dsimp only
  cases read : BlockMacro.ofLine? line.content with
  | none =>
      have unnamed := (unnamed_ofContent read).nonempty
      refine ⟨?_, unnamed.complete.append lineBreak.nonempty.complete⟩
      rw [invocations_append unnamed.complete, unnamed.invocations_eq_nil,
        lineBreak.nonempty.invocations_eq_nil]
      rfl
  | some found =>
      rw [nonempty_ofContent_of_ofLine? read]
      have complete : Complete (⟨.blockMacroId, found.id⟩ ::
          (nonempty [⟨.blockMacroBody, found.target⟩] ++
            [⟨.blockMacroAttributes, found.attributes⟩])) := by
        intro last mem
        rw [← List.cons_append, List.getLast?_concat] at mem
        cases mem
        exact TokenKind.noConfusion
      refine ⟨?_, complete.append lineBreak.nonempty.complete⟩
      rw [invocations_append complete, lineBreak.nonempty.invocations_eq_nil, List.append_nil]
      by_cases empty : found.target.isEmpty
      · simp [nonempty, empty, invocations, target?]
      · simp [nonempty, empty, invocations, target?]

end Lexeme

namespace Verbatim

/-- The delimiter that ends the block that is open. -/
def waiting : Verbatim → Option Text
  | .none => .none
  | .listing delimiter => some delimiter
  | .comment delimiter _ => some delimiter

theorem head?_of_isDelimiter {mark : Char} {line : Text} (delimiter : isDelimiter mark line) :
    line.head? = some mark := by
  simp only [isDelimiter, Bool.and_eq_true, decide_eq_true_eq, List.all_eq_true] at delimiter
  obtain ⟨long, marks⟩ := delimiter
  cases line with
  | nil => cases long
  | cons first rest =>
      rw [marks first List.mem_cons_self]
      rfl

theorem ne_nil_of_isDelimiter {mark : Char} {line : Text} (delimiter : isDelimiter mark line) : line ≠ [] := by
  rintro rfl
  cases head?_of_isDelimiter delimiter

/-- What a line is that no block holds: the start of a listing, a fence, the start of a comment block, or
content. -/
theorem step_none_cases (content : Text) :
    (isDelimiter '-' content ∧ ∀ ending, Line.opensVerbatim ⟨content, ending⟩ = true ∧
      step .none ⟨content, ending⟩ =
        (.listing content, [⟨.listingDelimiter, content⟩, ⟨.lineBreak, ending⟩])) ∨
    (isDelimiter '=' content ∧ ∀ ending, Line.opensVerbatim ⟨content, ending⟩ = false ∧
      step .none ⟨content, ending⟩ = (.none, [⟨.exampleDelimiter, content ++ ending⟩])) ∨
    (isDelimiter '/' content ∧ ∀ ending, Line.opensVerbatim ⟨content, ending⟩ = true ∧
      step .none ⟨content, ending⟩ = (.comment content [⟨content, ending⟩], [])) ∨
    (isDelimiter '=' content = false ∧ ∀ ending, Line.opensVerbatim ⟨content, ending⟩ = false ∧
      step .none ⟨content, ending⟩ = (.none, Lexeme.ofContent content ++ [⟨.lineBreak, ending⟩])) := by
  have only : ∀ {mark other : Char}, isDelimiter mark content → mark ≠ other →
      isDelimiter other content = false := by
    intro mark other delimiter differs
    refine Bool.eq_false_iff.mpr fun also => differs ?_
    exact Option.some.inj ((head?_of_isDelimiter delimiter).symm.trans (head?_of_isDelimiter also))
  by_cases listing : isDelimiter '-' content
  · refine .inl ⟨listing, fun ending => ?_⟩
    simp [Line.opensVerbatim, step, listing]
  · by_cases fence : isDelimiter '=' content
    · have noComment := only fence (show '=' ≠ '/' by decide)
      refine .inr (.inl ⟨fence, fun ending => ?_⟩)
      simp [Line.opensVerbatim, step, listing, fence, noComment, Line.text]
    · by_cases comment : isDelimiter '/' content
      · refine .inr (.inr (.inl ⟨comment, fun ending => ?_⟩))
        simp [Line.opensVerbatim, step, listing, fence, comment]
      · refine .inr (.inr (.inr ⟨Bool.eq_false_iff.mpr fence, fun ending => ?_⟩))
        simp [Line.opensVerbatim, step, listing, fence, comment]

/-- A line is outside or not by what is open in front of it, and the lines behind it are by what is open
behind it. -/
theorem outside_cons (state : Verbatim) (line : Line) (number : Nat) (rest : List (Line × Nat)) :
    Line.outside state.waiting ((line, number) :: rest) =
      Line.outside state.waiting [(line, number)] ++ Line.outside (state.step line).1.waiting rest := by
  cases state with
  | none =>
      obtain ⟨content, ending⟩ := line
      rcases step_none_cases content with ⟨_, read⟩ | ⟨_, read⟩ | ⟨_, read⟩ | ⟨_, read⟩
      all_goals
        obtain ⟨opens, read⟩ := read ending
        rw [read]
        simp [waiting, Line.outside, opens]
  | listing delimiter =>
      by_cases closes : line.content = delimiter <;> simp [waiting, Line.outside, step, closes]
  | comment delimiter lines =>
      by_cases closes : line.content = delimiter <;> simp [waiting, Line.outside, step, closes]

/-- One line: its lexemes invoke the macro that it is, if it is outside. They start on the line that is
read, less the lines that were withheld. -/
theorem invocations_step (state : Verbatim) (line : Line) {start number : Nat}
    (counted : start + state.withheld.count '\n' = number) :
    Lexeme.invocations start (Lexeme.nonempty (state.step line).2) =
        (Line.outside state.waiting [(line, number)]).filterMap Line.invocation? ∧
      Lexeme.Complete (Lexeme.nonempty (state.step line).2) := by
  have silent : Line.outside state.waiting [(line, number)] = [] → Lexeme.Unnamed (state.step line).2 →
      Lexeme.invocations start (Lexeme.nonempty (state.step line).2) =
          (Line.outside state.waiting [(line, number)]).filterMap Line.invocation? ∧
        Lexeme.Complete (Lexeme.nonempty (state.step line).2) := by
    intro inside unnamed
    rw [inside, unnamed.nonempty.invocations_eq_nil]
    exact ⟨rfl, unnamed.nonempty.complete⟩
  cases state with
  | none =>
      have same : start = number := counted
      subst same
      obtain ⟨content, ending⟩ := line
      rcases step_none_cases content with ⟨_, read⟩ | ⟨fence, read⟩ | ⟨_, read⟩ | ⟨_, read⟩
      all_goals obtain ⟨opens, read⟩ := read ending
      · apply silent
        · simp [waiting, Line.outside, opens]
        · simp [Lexeme.Unnamed, read]
      · have others : ∀ first ∈ content.head?, Text.isWord first = false := by
          intro first mem
          rw [Option.some.inj (mem.symm.trans (head?_of_isDelimiter fence))]
          decide
        have unnamed : Lexeme.Unnamed [⟨.exampleDelimiter, content ++ ending⟩] :=
          .cons TokenKind.noConfusion (List.forall_mem_nil _)
        rw [read, unnamed.nonempty.invocations_eq_nil]
        simp [waiting, Line.outside, opens, Line.invocation?, BlockMacro.ofLine?_of_head? others,
          unnamed.nonempty.complete]
      · apply silent
        · simp [waiting, Line.outside, opens]
        · simp [Lexeme.Unnamed, read]
      · obtain ⟨invoked, complete⟩ := Lexeme.invocations_ofContent ⟨content, ending⟩ start
        have outside : Line.outside .none [(⟨content, ending⟩, start)] = [(⟨content, ending⟩, start)] := by
          simp [Line.outside, opens]
        rw [read, invoked, waiting, outside, List.filterMap_cons]
        refine ⟨?_, complete⟩
        cases Line.invocation? (⟨content, ending⟩, start) <;> rfl
  | listing delimiter =>
      by_cases closes : line.content = delimiter
      all_goals
        apply silent
        · simp [waiting, Line.outside, closes]
        · simp [Lexeme.Unnamed, step, closes]
  | comment delimiter lines =>
      by_cases closes : line.content = delimiter
      all_goals
        apply silent
        · simp [waiting, Line.outside, closes]
        · simp [Lexeme.Unnamed, step, closes]

theorem unnamed_finish (state : Verbatim) : Lexeme.Unnamed state.finish := by
  cases state with
  | none => exact List.forall_mem_nil _
  | listing => exact List.forall_mem_nil _
  | comment => exact .cons TokenKind.noConfusion (List.forall_mem_nil _)

/-- A line with its break is one more line that was read or withheld. -/
theorem counted_step (state : Verbatim) {line : Line} (one : line.text.count '\n' = 1) {start number : Nat}
    (counted : start + state.withheld.count '\n' = number) :
    start + (Lexeme.textOf (state.step line).2).count '\n' + (state.step line).1.withheld.count '\n' =
      number + 1 := by
  have accounted := congrArg (List.count '\n') (withheld_step state line)
  rw [List.count_append, List.count_append, one] at accounted
  omega

/-- The whole run: the lexemes of lines invoke the macros that the lines outside of blocks are. -/
theorem invocations_lexemes (state : Verbatim) {lines : List Line} (cut : Line.Cut lines) {start number : Nat}
    (counted : start + state.withheld.count '\n' = number) :
    Lexeme.invocations start (Lexeme.nonempty (state.lexemes lines)) =
      (Line.outside state.waiting (lines.zipIdx number)).filterMap Line.invocation? := by
  induction cut generalizing state start number with
  | @last content single =>
      obtain ⟨invoked, complete⟩ := invocations_step state ⟨content, []⟩ counted
      rw [lexemes, Lexeme.nonempty_append, Lexeme.invocations_append complete, invoked, lexemes,
        (unnamed_finish _).nonempty.invocations_eq_nil, List.append_nil]
      rfl
  | @cons line rest single ended cut ih =>
      obtain ⟨invoked, complete⟩ := invocations_step state line counted
      have advanced := counted_step state (Line.count_text_of_isBreak single ended) counted
      rw [lexemes, Lexeme.nonempty_append, Lexeme.invocations_append complete, invoked, Lexeme.nonempty,
        Lexeme.textOf_filter_nonempty, List.zipIdx_cons,
        outside_cons state line number (rest.zipIdx (number + 1)), List.filterMap_append]
      exact congrArg _ (ih (state.step line).1 advanced)

end Verbatim

/-- The macros with a target that a document mentions are the lines outside of verbatim blocks that are such
macros, in order. -/
theorem Mention.filterMap_invocation?_ofText (text : Text) :
    (ofText text).filterMap invocation? =
      (Line.outside none ((Line.ofText text).zipIdx 1)).filterMap Line.invocation? := by
  rw [ofText, Lexeme.filterMap_invocation?_ofLexemes]
  exact Verbatim.none.invocations_lexemes (Line.cut_ofText text) rfl

end Crossref
