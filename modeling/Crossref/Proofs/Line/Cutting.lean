import Crossref.Line

/-! Cutting a text into lines, piece by piece: a text that ends in a line feed is cut into lines
independently of what follows it. -/

set_option autoImplicit false

namespace Crossref.Line

theorem consContent_append (c : Char) {front : List Line} (nonempty : front ≠ [])
    (back : List Line) : consContent c (front ++ back) = consContent c front ++ back := by
  cases front with
  | nil => exact absurd rfl nonempty
  | cons line rest => rfl

theorem length_consContent (c : Char) {lines : List Line} (nonempty : lines ≠ []) :
    (consContent c lines).length = lines.length := by
  cases lines with
  | nil => exact absurd rfl nonempty
  | cons line rest => rfl

theorem dropLast_consContent (c : Char) {lines : List Line} (several : 2 ≤ lines.length) :
    (consContent c lines).dropLast = consContent c lines.dropLast := by
  match lines, several with
  | first :: second :: rest, _ => rfl

/-- Every line feed ends a line, and one more line follows the last of them. -/
theorem length_ofText (text : Text) : (ofText text).length = text.count '\n' + 1 := by
  fun_induction ofText text with
  | case1 => rfl
  | case2 rest ih => simp [ih]
  | case3 rest ih => simp [ih]
  | case4 c rest notFeed _ ih =>
      have nonempty : ofText rest ≠ [] := by
        intro empty
        simp [empty] at ih
      have other : c ≠ '\n' := fun feed => notFeed feed
      rw [length_consContent c nonempty, ih, List.count_cons_of_ne other]

theorem ofText_ne_nil (text : Text) : ofText text ≠ [] := by
  intro empty
  have length := length_ofText text
  simp [empty] at length

def IsBreak (ending : Text) : Prop := ending = ['\n'] ∨ ending = ['\r', '\n']

theorem IsBreak.spec {ending : Text} (isBreak : IsBreak ending) :
    ending ≠ [] ∧ ending.getLast? = some '\n' ∧ ending.count '\n' = 1 := by
  rcases isBreak with rfl | rfl
  · exact ⟨List.cons_ne_nil _ _, rfl, rfl⟩
  · exact ⟨List.cons_ne_nil _ _, rfl, rfl⟩

/-- The lines that a text is cut into: no content holds a line feed, and every line but the last one has a
break. -/
inductive Cut : List Line → Prop where
  | last {content : Text} : '\n' ∉ content → Cut [⟨content, []⟩]
  | cons {line : Line} {rest : List Line} :
      '\n' ∉ line.content → IsBreak line.ending → Cut rest → Cut (line :: rest)

theorem count_text_of_isBreak {line : Line} (single : '\n' ∉ line.content) (ended : IsBreak line.ending) :
    line.text.count '\n' = 1 := by
  rw [text, List.count_append, List.count_eq_zero_of_not_mem single, ended.spec.2.2]

theorem Cut.consContent {c : Char} (notFeed : c ≠ '\n') {lines : List Line} (cut : Cut lines) :
    Cut (consContent c lines) := by
  cases cut with
  | last single => exact .last (List.not_mem_cons_of_ne_of_not_mem notFeed.symm single)
  | cons single ended rest => exact .cons (List.not_mem_cons_of_ne_of_not_mem notFeed.symm single) ended rest

theorem cut_ofText (text : Text) : Cut (ofText text) := by
  fun_induction ofText text with
  | case1 => exact .last List.not_mem_nil
  | case2 rest ih => exact .cons List.not_mem_nil (.inl rfl) ih
  | case3 rest ih => exact .cons List.not_mem_nil (.inr rfl) ih
  | case4 c rest notFeed _ ih => exact ih.consContent fun feed => notFeed feed

/-- A character that neither is a line feed nor makes one a break of two characters belongs to the
content of the first line. -/
theorem ofText_cons {c : Char} {rest : Text} (notFeed : c ≠ '\n')
    (notReturn : c = '\r' → rest.head? ≠ some '\n') :
    ofText (c :: rest) = consContent c (ofText rest) := by
  rw [ofText]
  · exact notFeed
  · intro behind isReturn follows
    exact notReturn isReturn (by simp [follows])

/-- Where a text is empty or ends in a line feed, what follows it is cut on its own. -/
theorem ofText_append {front : Text} (ended : front = [] ∨ front.getLast? = some '\n')
    (back : Text) : ofText (front ++ back) = (ofText front).dropLast ++ ofText back := by
  have tailEnded : ∀ (c : Char) (rest : Text), c :: rest = [] ∨ (c :: rest).getLast? = some '\n' →
      rest = [] ∧ c = '\n' ∨ rest ≠ [] ∧ rest.getLast? = some '\n' := by
    intro c rest ended
    cases rest with
    | nil => simpa using ended
    | cons next behind =>
        refine .inr ⟨List.cons_ne_nil _ _, ?_⟩
        simpa [List.getLast?_cons_cons] using ended
  fun_induction ofText front with
  | case1 => rfl
  | case2 rest ih =>
      have restEnded : rest = [] ∨ rest.getLast? = some '\n' := by
        rcases tailEnded _ _ ended with ⟨empty, _⟩ | ⟨_, feed⟩
        · exact .inl empty
        · exact .inr feed
      rw [List.dropLast_cons_of_ne_nil (ofText_ne_nil rest)]
      simp only [List.cons_append, ofText, ih restEnded]
  | case3 rest ih =>
      have restEnded : rest = [] ∨ rest.getLast? = some '\n' := by
        rcases tailEnded _ _ ended with ⟨empty, _⟩ | ⟨_, feed⟩
        · cases empty
        · rcases tailEnded _ _ (.inr feed) with ⟨empty, _⟩ | ⟨_, feed⟩
          · exact .inl empty
          · exact .inr feed
      rw [List.dropLast_cons_of_ne_nil (ofText_ne_nil rest)]
      simp only [List.cons_append, ofText, ih restEnded]
  | case4 c rest notFeed notReturn ih =>
      have other : c ≠ '\n' := fun feed => notFeed feed
      rcases tailEnded _ _ ended with ⟨_, feed⟩ | ⟨nonempty, feed⟩
      · exact absurd feed other
      · have several : 2 ≤ (ofText rest).length := by
          have positive := List.count_pos_iff.mpr (List.mem_of_getLast? feed)
          rw [length_ofText]
          omega
        have kept : (ofText rest).dropLast ≠ [] := by
          intro empty
          have length : (ofText rest).dropLast.length = (ofText rest).length - 1 := List.length_dropLast
          rw [empty] at length
          simp only [List.length_nil] at length
          omega
        have noBreak : c = '\r' → (rest ++ back).head? ≠ some '\n' := by
          intro isReturn follows
          cases rest with
          | nil => exact nonempty rfl
          | cons next behind =>
              have isFeed : next = '\n' := by simpa using follows
              exact notReturn behind isReturn (by rw [isFeed])
        rw [List.cons_append, ofText_cons other noBreak, ih (.inr feed),
          consContent_append c kept, dropLast_consContent c several]

/-- The line that a line feed ends: a carriage return before the feed belongs to the break. -/
def ended (content : Text) : Line :=
  if content.getLast? = some '\r' then ⟨content.dropLast, ['\r', '\n']⟩ else ⟨content, ['\n']⟩

theorem text_ended (content : Text) : (ended content).text = content ++ ['\n'] := by
  unfold ended text
  split
  · rename_i isReturn
    obtain ⟨front, rfl⟩ := List.getLast?_eq_some_iff.mp isReturn
    simp
  · rfl

/-- The break of an ended line ends in its only line feed. -/
theorem ending_ended (content : Text) :
    (ended content).ending.getLast? = some '\n' ∧ (ended content).ending.count '\n' = 1 := by
  unfold ended
  split <;> exact ⟨rfl, rfl⟩

theorem count_content_ended {content : Text} (single : '\n' ∉ content) :
    (ended content).content.count '\n' = 0 := by
  have whole := congrArg (List.count '\n') (text_ended content)
  have none := List.count_eq_zero.mpr single
  have one := (ending_ended content).2
  simp only [text, List.count_append, none, one] at whole
  simpa using whole

theorem ended_cons (c : Char) {rest : Text} (nonempty : rest ≠ []) :
    ended (c :: rest) = ⟨c :: (ended rest).content, (ended rest).ending⟩ := by
  cases rest with
  | nil => exact absurd rfl nonempty
  | cons next behind =>
      unfold ended
      rw [List.getLast?_cons_cons]
      split <;> rfl

/-- The content of an ended line is one of two texts only if the text before the feed is. -/
theorem content_ended_ne {content delimiter : Text} (plain : content ≠ delimiter)
    (returned : content ≠ delimiter ++ ['\r']) : (ended content).content ≠ delimiter := by
  unfold ended
  split
  · rename_i isReturn
    obtain ⟨front, rfl⟩ := List.getLast?_eq_some_iff.mp isReturn
    intro same
    simp only [List.dropLast_concat] at same
    exact returned (by rw [same])
  · exact plain

theorem ofText_of_notMem {content : Text} (single : '\n' ∉ content) :
    ofText content = [⟨content, []⟩] := by
  induction content with
  | nil => rfl
  | cons c rest ih =>
      simp only [List.mem_cons, not_or] at single
      have noBreak : c = '\r' → rest.head? ≠ some '\n' :=
        fun _ follows => single.2 (List.mem_of_mem_head? follows)
      rw [ofText_cons (Ne.symm single.1) noBreak, ih single.2]
      rfl

theorem ofText_ended {content : Text} (single : '\n' ∉ content) (rest : Text) :
    ofText (content ++ '\n' :: rest) = ended content :: ofText rest := by
  induction content with
  | nil => rfl
  | cons c tail ih =>
      simp only [List.mem_cons, not_or] at single
      cases tail with
      | nil =>
          by_cases isReturn : c = '\r'
          · subst isReturn
            rfl
          · rw [List.cons_append, ofText_cons (Ne.symm single.1) (fun same => absurd same isReturn)]
            simp [ofText, consContent, ended, isReturn]
      | cons next behind =>
          have noBreak : c = '\r' → (next :: behind ++ '\n' :: rest).head? ≠ some '\n' := by
            intro _ follows
            simp only [List.cons_append, List.head?_cons, Option.some.injEq] at follows
            exact single.2 (by simp [follows])
          rw [List.cons_append, ofText_cons (Ne.symm single.1) noBreak, ih single.2,
            ended_cons c (List.cons_ne_nil _ _)]
          rfl

/-- Contents, each ended by a line feed, are as many lines. -/
theorem ofText_flatMap_ended {contents : List Text} (single : ∀ content ∈ contents, '\n' ∉ content)
    (rest : Text) :
    ofText (contents.flatMap (· ++ ['\n']) ++ rest) = contents.map ended ++ ofText rest := by
  induction contents with
  | nil => rfl
  | cons content behind ih =>
      have first := single content (List.mem_cons_self ..)
      have others := fun other member => single other (List.mem_cons_of_mem content member)
      rw [List.flatMap_cons, List.append_assoc, List.append_assoc, List.singleton_append,
        ofText_ended first, ih others]
      rfl

end Crossref.Line
