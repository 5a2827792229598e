import Stylesheet.Proofs.Reading

set_option autoImplicit false

namespace Stylesheet

namespace Scan

/-- The texts that the reader keeps, and whether they belong to an at-rule. -/
structure Texts where
  pending : Text
  key : Option Text
  aside : Option Text
  tokens : List Token
  inHeader : Bool

def texts (s : Scan) : Texts :=
  ⟨s.pending, s.key, s.aside, s.tokens, s.frames.any (·.construct = .header)⟩

def Texts.parts (x : Texts) : Text × Text :=
  match x.key with
  | some name => (Text.trim name, Text.trim x.pending.reverse)
  | none => (Text.trim x.pending.reverse, [])

/-- What the end of a declaration or an at-rule makes of the texts. -/
inductive Ends (x : Texts) (line : Nat) : List Token → Prop
  | nothing (noKey : x.key = none) : Ends x line []
  | dropped {key : Text} (isKey : x.key = some key) (empty : Text.trim key = []) : Ends x line []
  | property {key : Text} (isKey : x.key = some key) (visible : Text.trim key ≠ []) :
      Ends x line [.property (Text.trim key) (Text.trim x.pending.reverse) line]
  | statement (inHeader : x.inHeader)
      (started : x.key = none → x.pending.getLast? = some '@') :
      Ends x line [.statement x.parts.1 x.parts.2 line]

/-- One step of the reader, as far as its texts are concerned: it adds to the pending text, stores
it as a name or a key, sets it aside for a comment, or makes a token of it. -/
inductive Turn (x : Texts) : Text → Texts → Text → Prop
  | done : Turn x [] x []
  | write {c d : Char} {rest : Text} (same : d = c ∨ isGap c ∧ d = ' ') :
      Turn x (c :: rest) { x with pending := d :: x.pending } rest
  | escape {d : Char} {rest : Text} :
      Turn x ('\\' :: d :: rest) { x with pending := d :: '\\' :: x.pending } rest
  | endName {c : Char} {rest : Text} (gap : isGap c) (inHeader : x.inHeader)
      (started : x.pending.getLast? = some '@') :
      Turn x (c :: rest) { x with key := some x.pending.reverse, pending := [' '] } rest
  | startHeader {rest : Text} :
      Turn x ('@' :: rest) { x with key := none, pending := ['@'], inHeader := true } rest
  | startValue {rest : Text} (outside : x.inHeader = false) :
      Turn x (':' :: rest) { x with key := some x.pending.reverse, pending := [] } rest
  | openRule {selector rest : Text} {line : Nat} :
      Turn x ('{' :: rest)
        { x with key := none, pending := [], tokens := .rule selector line :: x.tokens } rest
  | openAtBlock {rest : Text} {line : Nat} (inHeader : x.inHeader)
      (started : x.key = none → x.pending.getLast? = some '@') :
      Turn x ('{' :: rest)
        { x with
          key := none, pending := [], inHeader := false,
          tokens := .atBlock x.parts.1 x.parts.2 line :: x.tokens } rest
  | endClause {c : Char} {rest : Text} {line : Nat} {ended closing : List Token}
      (delimiter : c = ';' ∧ closing = [] ∨ c = '}' ∧ closing = [.close line])
      (ends : Ends x line ended) :
      Turn x (c :: rest)
        { x with
          key := none, pending := [], inHeader := false,
          tokens := closing ++ (ended ++ x.tokens) } rest
  | openComment {rest : Text} :
      Turn x ('/' :: '*' :: rest) { x with aside := some x.pending, pending := [] } rest
  | closeComment {rest : Text} {line : Nat} :
      Turn x ('*' :: '/' :: rest)
        { x with
          pending := x.aside.getD [], aside := none,
          tokens := .comment (Text.trim x.pending.reverse) line :: x.tokens } rest

variable {s next : Scan} {blocks : List Construct} {clause verbatim : Option Construct}

/-- The reader is in an at-rule exactly if that is the clause. -/
theorem Layered.inHeader_eq (h : s.Layered blocks clause verbatim) :
    s.texts.inHeader = decide (clause = some .header) := by
  have inStack : s.texts.inHeader = (s.frames.map Frame.construct).any (· = .header) := by
    rw [List.any_map]
    rfl
  have notBlock : blocks.any (· = .header) = false := by
    rw [List.any_eq_false]
    intro c member isHeader
    have isBlock := h.inBlocks c member
    rw [of_decide_eq_true isHeader] at isBlock
    cases isBlock
  have notVerbatim : verbatim.toList.any (· = .header) = false := by
    rw [List.any_eq_false]
    intro c member isHeader
    have isVerbatim := h.isVerbatim c (by simpa using member)
    rw [of_decide_eq_true isHeader] at isVerbatim
    cases isVerbatim
  rw [inStack, h.stack, List.any_append, List.any_append, notBlock, notVerbatim]
  cases clause <;> simp

theorem Layered.texts_eq (h : s.Layered blocks clause verbatim) :
    s.texts = ⟨s.pending, s.key, s.aside, s.tokens, decide (clause = some .header)⟩ := by
  rw [← h.inHeader_eq]
  rfl

theorem headerParts_eq (s : Scan) : s.headerParts = s.texts.parts := by
  unfold headerParts Texts.parts texts text
  cases s.key <;> rfl

/-- The name of an at-rule starts at the beginning of the pending text. -/
theorem Layered.started (h : s.Layered blocks (some .header) none) :
    s.key = none → s.pending.getLast? = some '@' := by
  intro unnamed
  have first := h.name rfl unnamed
  rwa [h.noAside] at first

/-- At the end of a string or a comment the texts stay as they are. -/
theorem texts_leave {c : Construct} (top : s.top = some c) (notHeader : c ≠ .header) :
    s.leave.texts = s.texts := by
  unfold Scan.top at top
  obtain ⟨frame, first, rfl⟩ := Option.map_eq_some_iff.mp top
  obtain ⟨frames, framed⟩ := List.head?_eq_some_iff.mp first
  simp [texts, Scan.leave, framed, notHeader]

namespace Turn

theorem blank (formed : s.WellFormed) {c : Char} (gap : isGap c) (rest : Text) :
    Turn s.texts (c :: rest) s.blank.texts rest := by
  unfold Scan.blank
  split
  · rename_i ends
    simp only [Bool.and_eq_true, decide_eq_true_eq, Option.isNone_iff_eq_none] at ends
    obtain ⟨blocks, clause, verbatim, h⟩ := formed
    rcases h.top_cases with ⟨v, -, isVerbatim, top⟩ | ⟨rfl, rfl, -⟩ | ⟨-, -, top⟩ | ⟨rfl, rfl, -⟩
    · rw [ends.1] at top
      cases top
      cases isVerbatim
    · exact .endName gap (by simp [h.inHeader_eq]) (h.started ends.2)
    · rw [ends.1] at top
      cases top
    · rcases h.top_block with top | ⟨top | top, -⟩ <;> simp [ends.1] at top
  · exact .write (.inr ⟨gap, rfl⟩)

theorem openBrace (formed : s.WellFormed) (rest : Text) :
    Turn s.texts ('{' :: rest) s.openBrace.texts rest := by
  obtain ⟨blocks, clause, verbatim, h⟩ := formed
  unfold Scan.openBrace
  rcases h.top_cases with ⟨v, rfl, isVerbatim, top⟩ | ⟨rfl, rfl, top⟩ | ⟨rfl, rfl, top⟩ |
    ⟨rfl, rfl, -⟩
  · cases v with
    | singleQuoted | doubleQuoted | comment =>
      rw [top]
      exact .write (.inl rfl)
    | rule | atBlock | header | value => cases isVerbatim
  · rw [top]
    have entered : s.enterAtBlock.Layered (.atBlock :: blocks) none none :=
      (h.leave_clause []).enter_block rfl fun _ => rfl
    change Turn s.texts _ s.enterAtBlock.texts _
    rw [entered.texts_eq]
    have opened := @openAtBlock s.texts rest s.position.line (by simp [h.inHeader_eq]) h.started
    rwa [← headerParts_eq] at opened
  · rw [top]
    have entered : s.reclassify.enterRule.Layered (.rule :: blocks) none none :=
      (h.leave_clause _).clear.enter_block rfl fun _ => rfl
    change Turn s.texts _ s.reclassify.enterRule.texts _
    rw [h.texts_eq, entered.texts_eq]
    exact .openRule
  · have entered : s.enterRule.Layered (.rule :: blocks) none none :=
      h.clear.enter_block rfl fun _ => rfl
    have opened : Turn s.texts ('{' :: rest) s.enterRule.texts rest := by
      have noKey : s.enterRule.key = none := h.noKey rfl
      rw [h.texts_eq, entered.texts_eq, noKey]
      exact .openRule
    rcases h.top_block with top | ⟨top | top, -⟩ <;> rw [top] <;> exact opened

theorem colon (formed : s.WellFormed) (more rest : Text) :
    Turn s.texts (':' :: rest) (s.colon more).texts rest := by
  have written : Turn s.texts (':' :: rest) (s.write ':').texts rest := .write (.inl rfl)
  obtain ⟨blocks, clause, verbatim, h⟩ := formed
  unfold Scan.colon
  rcases h.top_cases with ⟨v, rfl, isVerbatim, top⟩ | ⟨rfl, rfl, top⟩ | ⟨rfl, rfl, top⟩ |
    ⟨rfl, rfl, -⟩
  · cases v with
    | singleQuoted | doubleQuoted | comment =>
      rw [top]
      exact written
    | rule | atBlock | header | value => cases isVerbatim
  · rw [top]
    exact written
  · rw [top]
    exact written
  · have started : Turn s.texts (':' :: rest) s.startValue.texts rest :=
      .startValue (by simp [h.inHeader_eq])
    rcases h.top_block with top | ⟨top | top, -⟩
    · rw [top]
      exact written
    · rw [top]
      exact started
    · rw [top]
      dsimp only
      split
      · exact written
      · exact started

theorem atSign (formed : s.WellFormed) (rest : Text) :
    Turn s.texts ('@' :: rest) s.atSign.texts rest := by
  have written : Turn s.texts ('@' :: rest) (s.write '@').texts rest := .write (.inl rfl)
  obtain ⟨blocks, clause, verbatim, h⟩ := formed
  unfold Scan.atSign
  rcases h.top_cases with ⟨v, rfl, isVerbatim, top⟩ | ⟨rfl, rfl, top⟩ | ⟨rfl, rfl, top⟩ |
    ⟨rfl, rfl, -⟩
  · cases v with
    | singleQuoted | doubleQuoted | comment =>
      rw [top]
      exact written
    | rule | atBlock | header | value => cases isVerbatim
  · rw [top]
    exact written
  · rw [top]
    exact written
  · rcases h.top_block with top | ⟨top | top, -⟩ <;> rw [top] <;> exact .startHeader

/-- A quotation mark is pending, whether it begins a string, ends it or stands in it. -/
theorem quote {c : Char} {string : Construct} (marks : Mark.of c = .quote string) (rest : Text) :
    Turn s.texts (c :: rest) (s.quote c string).texts rest := by
  have notHeader : string ≠ .header := by
    rcases Mark.of_eq_quote marks with rfl | rfl <;> decide
  have written : Turn s.texts (c :: rest) (s.write c).texts rest := .write (.inl rfl)
  have begun : ((s.enter string).write c).texts = (s.write c).texts := by
    simp [texts, Scan.write, Scan.enter, notHeader]
  have ended : s.top = some string → (s.leave.write c).texts = (s.write c).texts := fun top =>
    congrArg (fun x => { x with pending := c :: s.pending }) (texts_leave top notHeader)
  unfold Scan.quote
  split
  · exact written
  · split
    · rw [ended ‹_›]
      exact written
    · exact written
  · split
    · rw [ended ‹_›]
      exact written
    · exact written
  · rw [begun]
    exact written

end Turn

/-- The end of a clause makes at most one token of the texts. -/
theorem WellFormed.ends (formed : s.WellFormed) (outside : s.inVerbatim = false) :
    ∃ ended blocks, Ends s.texts s.position.line ended ∧ s.endClause.Layered blocks none none ∧
      s.endClause.aside = s.aside ∧ s.endClause.tokens = ended ++ s.tokens ∧
      s.endClause.position = s.position := by
  obtain ⟨within, layered⟩ := formed.endClause outside
  obtain ⟨blocks, clause, verbatim, h⟩ := formed
  have noVerbatim := h.not_inVerbatim outside
  subst noVerbatim
  rcases h.top_cases with ⟨v, missing, -⟩ | ⟨-, rfl, top⟩ | ⟨-, rfl, top⟩ | ⟨-, rfl, -⟩
  · cases missing
  · have ended : s.endClause = s.endStatement := by simp only [Scan.endClause, top]
    rw [ended] at layered ⊢
    refine ⟨_, within, .statement (by simp [h.inHeader_eq]) h.started, layered, rfl, ?_, rfl⟩
    rw [← headerParts_eq]
    rfl
  · have ended : s.endClause = s.endProperty := by simp only [Scan.endClause, top]
    rw [ended] at layered ⊢
    obtain ⟨key, isKey⟩ := Option.isSome_iff_exists.mp (h.valueKey rfl)
    by_cases empty : Text.trim key = []
    · refine ⟨[], within, .dropped isKey empty, layered, ?_⟩
      simp [endProperty, isKey, empty, leave]
    · refine ⟨_, within, .property isKey empty, layered, ?_⟩
      simp [endProperty, isKey, empty, emit, leave, text, texts]
  · have kept : s.endClause = s := by
      unfold Scan.endClause
      rcases h.top_block with top | ⟨top | top, -⟩ <;> rw [top]
    rw [kept] at layered ⊢
    exact ⟨[], within, .nothing (h.noKey rfl), layered, rfl, rfl, rfl⟩

namespace Turn

theorem semicolon (formed : s.WellFormed) (rest : Text) :
    Turn s.texts (';' :: rest) s.semicolon.texts rest := by
  unfold Scan.semicolon
  split
  · exact .write (.inl rfl)
  · rename_i outside
    obtain ⟨ended, blocks, ends, layered, aside, tokens, -⟩ := formed.ends (by simpa using outside)
    have after : s.endClause.clear.texts = ⟨[], none, s.aside, ended ++ s.tokens, false⟩ := by
      rw [layered.clear.texts_eq, ← aside, ← tokens]
      simp [Scan.clear, layered.noKey rfl]
    rw [after]
    exact @endClause s.texts ';' rest s.position.line ended [] (.inl ⟨rfl, rfl⟩) ends

theorem closeBrace (formed : s.WellFormed) (rest : Text) :
    Turn s.texts ('}' :: rest) s.closeBrace.texts rest := by
  unfold Scan.closeBrace
  split
  · exact .write (.inl rfl)
  · rename_i outside
    obtain ⟨ended, blocks, ends, layered, aside, tokens, position⟩ :=
      formed.ends (by simpa using outside)
    have after : s.endClause.closeBlock.texts =
        ⟨[], none, s.aside, [.close s.position.line] ++ (ended ++ s.tokens), false⟩ := by
      rw [layered.closeBlock.texts_eq, ← aside, ← tokens, ← position]
      unfold Scan.closeBlock
      split <;> simp [Scan.clear, Scan.emit, Scan.leave, layered.noKey rfl]
    rw [after]
    exact .endClause (.inr ⟨rfl, rfl⟩) ends

theorem of_single (formed : s.WellFormed) {c : Char} {more rest : Text}
    (read : s.single c more = .ok next) : Turn s.texts (c :: rest) next.texts rest := by
  have advanced := formed.advance c
  change Turn (s.advance c).texts _ _ _
  cases lone_of_eq_ok read with
  | layout marks =>
    split
    · exact .write (.inl rfl)
    · exact blank advanced (by simp [isGap, marks]) rest
  | space => exact blank advanced rfl rest
  | openBrace => exact openBrace advanced rest
  | closeBrace => exact closeBrace advanced rest
  | colon => exact colon advanced more rest
  | semicolon => exact semicolon advanced rest
  | atSign => exact atSign advanced rest
  | quote marks => exact quote marks rest
  | plain marks => exact .write (.inl rfl)

theorem of_pair {c d : Char} (read : s.pair? c d = some next) (rest : Text) :
    Turn s.texts (c :: d :: rest) next.texts rest := by
  cases paired_of_eq_some read with
  | escape d => exact .escape
  | openComment outside => exact .openComment
  | closeComment inside =>
    have left := congrArg Texts.inHeader (texts_leave inside (by decide))
    have closed : Turn s.texts ('*' :: '/' :: rest)
        ⟨s.aside.getD [], s.key, none,
          .comment s.text ((s.advance '*').advance '/').position.line :: s.tokens,
          s.texts.inHeader⟩ rest := .closeComment
    rwa [← left] at closed

/-- What every step keeps holds at the end of a text if it holds at its beginning. -/
theorem run {P : Texts → Text → Prop}
    (turn : ∀ {x y : Texts} {t rest : Text}, Turn x t y rest → P x t → P y rest)
    (formed : s.WellFormed) {t : Text} (read : s.run t = .ok next) (now : P s.texts t) :
    P next.texts [] := by
  induction s, t using Scan.run.induct with
  | case1 s =>
    cases read
    exact now
  | case2 s c => exact turn (of_single formed read) now
  | case3 s c d rest after pair ih =>
    rw [Scan.run, pair] at read
    exact ih (formed.pair pair) read (turn (of_pair pair rest) now)
  | case4 s c d rest pair error single =>
    rw [Scan.run, pair] at read
    simp only [single] at read
    cases read
  | case5 s c d rest pair after single ih =>
    rw [Scan.run, pair] at read
    simp only [single] at read
    exact ih (formed.single single) read (turn (of_single formed single) now)

end Turn

/-- What every step keeps holds of the tokens of a text. -/
theorem exists_texts_of_scan {P : Texts → Text → Prop}
    (turn : ∀ {x y : Texts} {t rest : Text}, Turn x t y rest → P x t → P y rest)
    {source : Text} {tokens : List Token} (read : scan source = .ok tokens)
    (begins : P start.texts (Text.unifyLineEnds source)) :
    ∃ x, P x [] ∧ x.tokens = tokens.reverse := by
  unfold scan at read
  cases ran : start.run (Text.unifyLineEnds source) with
  | error => rw [ran] at read; cases read
  | ok last =>
    rw [ran] at read
    change last.finish = _ at read
    unfold Scan.finish at read
    cases frames : last.frames with
    | cons frame frames => rw [frames] at read; cases read
    | nil =>
      rw [frames] at read
      cases read
      have ended := Turn.run turn ⟨_, _, _, start_layered⟩ ran begins
      exact ⟨last.texts, ended, last.tokens.reverse_reverse.symm⟩

end Scan

/-- The fields of a token as the reader makes them: the name of an at-rule begins with its sign,
and the key of a declaration with something visible. -/
def Token.Shaped : Token → Prop
  | atBlock name _ _ | statement name _ _ => name.head? = some '@'
  | property key _ _ => ∃ c ∈ key.head?, Text.isBlank c = false
  | rule _ _ | comment _ _ | close _ => True

/-- A text that begins with something visible is not cut there. -/
theorem Text.head?_trim {t : Text} {c : Char} (first : t.head? = some c)
    (visible : isBlank c = false) : (trim t).head? = some c := by
  have kept : trimStart t = t := trimStart_eq_self fun d isFirst => by
    rw [first] at isFirst
    cases isFirst
    exact visible
  have nonempty : trim t ≠ [] := by
    rw [Ne, trim_eq_nil_iff]
    intro blank
    simp [blank c (List.mem_of_mem_head? first)] at visible
  have before : trim t <+: t := by
    unfold trim
    rw [kept]
    exact trimEnd_prefix t
  obtain ⟨d, rest, split⟩ := List.exists_cons_of_ne_nil nonempty
  obtain ⟨after, whole⟩ := before
  rw [← whole, split] at first
  rw [split]
  exact first

namespace Scan

/-- The tokens so far are well shaped, and so is the name of the at-rule that is being read. -/
structure Texts.Shaped (x : Texts) : Prop where
  tokens : ∀ token ∈ x.tokens, token.Shaped
  name : x.inHeader → ∀ name ∈ x.key, name.head? = some '@'

theorem Texts.Shaped.parts {x : Texts} (shaped : x.Shaped) (inHeader : x.inHeader)
    (started : x.key = none → x.pending.getLast? = some '@') :
    x.parts.1.head? = some '@' := by
  unfold Texts.parts
  cases named : x.key with
  | some name => exact Text.head?_trim (shaped.name inHeader name named) rfl
  | none =>
    refine Text.head?_trim (c := '@') ?_ rfl
    rw [List.head?_reverse]
    exact started named

theorem Ends.shaped {x : Texts} {line : Nat} {ended : List Token} (ends : Ends x line ended)
    (shaped : x.Shaped) : ∀ token ∈ ended, token.Shaped := by
  cases ends with
  | nothing noKey => simp
  | dropped isKey empty => simp
  | @property key isKey visible =>
    rw [List.forall_mem_singleton]
    obtain ⟨c, rest, split⟩ := List.exists_cons_of_ne_nil visible
    have first : c ∈ (Text.trim key).head? := by rw [split]; rfl
    exact ⟨c, first, Text.isBlank_head_trim first⟩
  | statement inHeader started =>
    rw [List.forall_mem_singleton]
    exact shaped.parts inHeader started

theorem Turn.shaped {x y : Texts} {t rest : Text} (turn : Turn x t y rest) (shaped : x.Shaped) :
    y.Shaped := by
  cases turn with
  | done | write _ | escape | openComment => exact ⟨shaped.tokens, shaped.name⟩
  | endName gap inHeader started =>
    refine ⟨shaped.tokens, fun _ name isName => ?_⟩
    cases isName
    rw [List.head?_reverse]
    exact started
  | startHeader => exact ⟨shaped.tokens, by simp⟩
  | startValue outside => exact ⟨shaped.tokens, by simp [outside]⟩
  | openRule => exact ⟨List.forall_mem_cons.mpr ⟨trivial, shaped.tokens⟩, by simp⟩
  | openAtBlock inHeader started =>
    exact ⟨List.forall_mem_cons.mpr ⟨shaped.parts inHeader started, shaped.tokens⟩, by simp⟩
  | endClause delimiter ends =>
    refine ⟨?_, by simp⟩
    simp only [List.forall_mem_append]
    refine ⟨?_, ends.shaped shaped, shaped.tokens⟩
    rcases delimiter with ⟨-, rfl⟩ | ⟨-, rfl⟩ <;> simp [Token.Shaped]
  | closeComment => exact ⟨List.forall_mem_cons.mpr ⟨trivial, shaped.tokens⟩, shaped.name⟩

end Scan

/-- The tokens of a text are well shaped. -/
theorem shaped_of_scan {source : Text} {tokens : List Token} (read : scan source = .ok tokens) :
    ∀ token ∈ tokens, token.Shaped := by
  obtain ⟨x, shaped, same⟩ := Scan.exists_texts_of_scan (P := fun x _ => x.Shaped)
    (fun turn => turn.shaped) read
    ⟨by simp [Scan.texts, Scan.start], by simp [Scan.texts, Scan.start]⟩
  intro token member
  exact shaped.tokens token (by rw [same]; exact List.mem_reverse.mpr member)

end Stylesheet
