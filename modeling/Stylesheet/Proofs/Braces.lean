import Stylesheet.Proofs.ScanLayers

set_option autoImplicit false

namespace Stylesheet

/-- A brace that opens or closes a block, with its line. -/
inductive Brace where
  | opening (line : Nat)
  | closing (line : Nat)
  deriving DecidableEq, Repr

namespace Brace

def isOpening : Brace → Bool
  | opening _ => true
  | closing _ => false

def isClosing : Brace → Bool
  | opening _ => false
  | closing _ => true

/-- The number of open blocks after one more brace. A brace that closes nothing does not count. -/
def nest (depth : Nat) : Brace → Nat
  | opening _ => depth + 1
  | closing _ => depth - 1

end Brace

/-- What is known of a text of which only strings, comments, escapes and braces are told apart. -/
structure Outline where
  position : Position
  /-- The string or the comment that is being read. -/
  verbatim : Option Construct
  /-- The braces outside strings, comments and escapes, latest first. -/
  braces : List Brace
  deriving DecidableEq, Repr

namespace Outline

def start : Outline := ⟨.start, none, []⟩

def advance (o : Outline) (c : Char) : Outline := { o with position := o.position.advance c }

def add (o : Outline) (brace : Brace) : Outline := { o with braces := brace :: o.braces }

def single (o : Outline) (c : Char) : Outline :=
  let o := o.advance c
  match o.verbatim with
  | some verbatim => if Mark.of c = .quote verbatim then { o with verbatim := none } else o
  | none =>
    match Mark.of c with
    | .openBrace => o.add (.opening o.position.line)
    | .closeBrace => o.add (.closing o.position.line)
    | .quote string => { o with verbatim := some string }
    | _ => o

/-- Two characters that are read together: an escape, or a mark that opens or closes a comment. -/
def pair? (o : Outline) (c d : Char) : Option Outline :=
  let after := (o.advance c).advance d
  if c = '\\' then some after
  else if c = '/' && d = '*' && o.verbatim.isNone then some { after with verbatim := some .comment }
  else if c = '*' && d = '/' && o.verbatim = some .comment then some { after with verbatim := none }
  else none

def run (o : Outline) : Text → Outline
  | [] => o
  | [c] => o.single c
  | c :: d :: rest =>
    match o.pair? c d with
    | some o => o.run rest
    | none => (o.single c).run (d :: rest)

theorem single_inside {o : Outline} {v : Construct} (inside : o.verbatim = some v) (c : Char) :
    o.single c =
      if Mark.of c = .quote v then { o.advance c with verbatim := none } else o.advance c := by
  have advanced : (o.advance c).verbatim = some v := inside
  simp only [single, advanced]

/-- Outside strings and comments, where a character is neither a brace nor a quote. -/
theorem single_outside {o : Outline} (outside : o.verbatim = none) {c : Char}
    (other : Mark.of c ≠ .openBrace ∧ Mark.of c ≠ .closeBrace ∧
      ∀ string, Mark.of c ≠ .quote string) :
    o.single c = o.advance c := by
  have advanced : (o.advance c).verbatim = none := outside
  simp only [single, advanced]
  split <;> simp_all

end Outline

namespace Text

/-- The braces of a text that open or close a block, in their order. -/
def braces (t : Text) : List Brace := (Outline.start.run (unifyLineEnds t)).braces.reverse

/-- The number of blocks that are open at the end of a text. -/
def unclosed (t : Text) : Nat := t.braces.foldl Brace.nest 0

/-- The characters of a text that belong to no escape. -/
def unescaped : Text → Text
  | [] => []
  | [c] => [c]
  | c :: d :: t => if c = '\\' then unescaped t else c :: unescaped (d :: t)

theorem unescaped_cons {c : Char} (plain : c ≠ '\\') (t : Text) :
    unescaped (c :: t) = c :: unescaped t := by
  cases t with
  | nil => rfl
  | cons d t => rw [unescaped, if_neg plain]

/-- Whether no control character stands outside the escapes of a text. -/
def Legal (t : Text) : Prop := ∀ c ∈ (unifyLineEnds t).unescaped, Mark.of c ≠ .control

end Text

namespace Token

def brace? : Token → Option Brace
  | rule _ line | atBlock _ _ line => some (.opening line)
  | close line => some (.closing line)
  | statement _ _ _ | property _ _ _ | comment _ _ => none

theorem nesting_eq_foldl (tokens : List Token) :
    nesting tokens = (tokens.filterMap brace?).foldl Brace.nest 0 := by
  unfold nesting
  generalize 0 = depth
  induction tokens generalizing depth with
  | nil => rfl
  | cons token tokens ih =>
    cases token <;> exact ih _

end Token

namespace Scan

def outline (s : Scan) : Outline :=
  ⟨s.position, s.top.filter Construct.isVerbatim, s.tokens.filterMap Token.brace?⟩

variable {s : Scan} {blocks : List Construct} {clause verbatim : Option Construct}

theorem inVerbatim_eq_isSome (s : Scan) : s.inVerbatim = s.outline.verbatim.isSome := by
  simp only [inVerbatim, outline]
  cases s.top with
  | none => rfl
  | some construct => cases construct <;> rfl

theorem Layered.outline_verbatim (h : s.Layered blocks clause verbatim) :
    s.outline.verbatim = verbatim := by
  unfold outline
  rcases h.top_cases with ⟨v, rfl, isVerbatim, top⟩ | ⟨rfl, rfl, top⟩ | ⟨rfl, rfl, top⟩ |
    ⟨rfl, rfl, -⟩
  · rw [top]
    simp [isVerbatim]
  · rw [top]
    rfl
  · rw [top]
    rfl
  · rcases h.top_block with top | ⟨top | top, -⟩ <;> rw [top] <;> rfl

theorem outline_blank (s : Scan) : s.blank.outline = s.outline := by
  unfold blank
  split <;> rfl

section Inside

variable {v : Construct} (inside : s.outline.verbatim = some v)

include inside

theorem top_inside :
    s.top = some v ∧ (v = .singleQuoted ∨ v = .doubleQuoted ∨ v = .comment) := by
  simp only [outline, Option.filter_eq_some_iff] at inside
  refine ⟨inside.1, ?_⟩
  cases v with
  | singleQuoted | doubleQuoted | comment => simp
  | rule | atBlock | header | value => cases inside.2

theorem openBrace_inside : s.openBrace = s.write '{' := by
  obtain ⟨top, rfl | rfl | rfl⟩ := top_inside inside <;> simp only [openBrace, top]

theorem colon_inside (rest : Text) : s.colon rest = s.write ':' := by
  obtain ⟨top, rfl | rfl | rfl⟩ := top_inside inside <;> simp only [colon, top]

theorem atSign_inside : s.atSign = s.write '@' := by
  obtain ⟨top, rfl | rfl | rfl⟩ := top_inside inside <;> simp only [atSign, top]

theorem closeBrace_inside : s.closeBrace = s.write '}' := by
  simp only [closeBrace, inVerbatim_eq_isSome, inside, Option.isSome_some, ↓reduceIte]

theorem semicolon_inside : s.semicolon = s.write ';' := by
  simp only [semicolon, inVerbatim_eq_isSome, inside, Option.isSome_some, ↓reduceIte]

theorem quote_inside {c : Char} {string : Construct}
    (isString : string = .singleQuoted ∨ string = .doubleQuoted) :
    s.quote c string = if string = v then s.leave.write c else s.write c := by
  unfold quote
  obtain ⟨top, rfl | rfl | rfl⟩ := top_inside inside
  · simp only [top, Option.some.injEq, eq_comm]
  · simp only [top, Option.some.injEq, eq_comm]
  · rw [top]
    rcases isString with rfl | rfl <;> rfl

theorem outline_leave (formed : s.WellFormed) (isString : v = .singleQuoted ∨ v = .doubleQuoted) :
    s.leave.outline = { s.outline with verbatim := none } := by
  obtain ⟨blocks, clause, verbatim, h⟩ := formed
  obtain rfl := h.outline_verbatim.symm.trans inside
  have kept : s.aside = none := by
    have missing := h.asideIff
    rcases isString with rfl | rfl <;> simpa using missing
  have left := (h.leave_verbatim kept).outline_verbatim
  unfold outline at left ⊢
  exact congrArg (Outline.mk _ · _) left

end Inside

section Outside

variable (outside : s.outline.verbatim = none)

include outside

theorem top_outside :
    s.top = none ∨ s.top = some .rule ∨ s.top = some .atBlock ∨ s.top = some .header ∨
      s.top = some .value := by
  unfold outline at outside
  cases top : s.top with
  | none => simp
  | some construct =>
    rw [top] at outside
    cases construct with
    | singleQuoted | doubleQuoted | comment => cases outside
    | rule | atBlock | header | value => simp

theorem outline_eq : s.outline = ⟨s.position, none, s.tokens.filterMap Token.brace?⟩ := by
  rw [← outside]
  rfl

theorem inVerbatim_outside : s.inVerbatim = false := by
  rw [inVerbatim_eq_isSome, outside]
  rfl

theorem outline_openBrace : s.openBrace.outline = s.outline.add (.opening s.position.line) := by
  rw [outline_eq outside]
  unfold openBrace
  rcases top_outside outside with top | top | top | top | top <;> rw [top] <;> rfl

theorem outline_endClause (formed : s.WellFormed) : s.endClause.outline = s.outline := by
  obtain ⟨blocks, ended⟩ := formed.endClause (inVerbatim_outside outside)
  rw [outline_eq ended.outline_verbatim, outline_eq outside]
  unfold endClause
  rcases top_outside outside with top | top | top | top | top <;> rw [top]
  · rfl
  · unfold endProperty
    dsimp only
    split <;> rfl

theorem outline_closeBrace (formed : s.WellFormed) :
    s.closeBrace.outline = s.outline.add (.closing s.position.line) := by
  obtain ⟨blocks, ended⟩ := formed.endClause (inVerbatim_outside outside)
  have same := outline_endClause outside formed
  have line : s.endClause.position = s.position := congrArg Outline.position same
  unfold closeBrace
  rw [inVerbatim_outside outside, ← same, ← line, outline_eq ended.outline_verbatim]
  change s.endClause.closeBlock.outline = _
  rw [outline_eq ended.closeBlock.outline_verbatim]
  unfold closeBlock
  split <;> rfl

theorem outline_startValue : s.startValue.outline = s.outline := by
  rw [outline_eq outside]
  rfl

theorem outline_colon (rest : Text) : (s.colon rest).outline = s.outline := by
  unfold colon
  rcases top_outside outside with top | top | top | top | top <;> rw [top]
  · rfl
  · exact outline_startValue outside
  · dsimp only
    split
    · rfl
    · exact outline_startValue outside
  · rfl
  · rfl

theorem outline_semicolon (formed : s.WellFormed) : s.semicolon.outline = s.outline := by
  unfold semicolon
  rw [inVerbatim_outside outside]
  exact outline_endClause outside formed

theorem outline_atSign : s.atSign.outline = s.outline := by
  have entered : ({ s with key := none, pending := ['@'] }.enter .header).outline = s.outline := by
    rw [outline_eq outside]
    rfl
  unfold atSign
  rcases top_outside outside with top | top | top | top | top <;> rw [top]
  · exact entered
  · exact entered
  · exact entered
  · rfl
  · rfl

theorem outline_quote (c : Char) {string : Construct}
    (isString : string = .singleQuoted ∨ string = .doubleQuoted) :
    (s.quote c string).outline = { s.outline with verbatim := some string } := by
  unfold quote
  rcases top_outside outside with top | top | top | top | top <;> rw [top] <;>
    rcases isString with rfl | rfl <;> rfl

end Outside

variable {next : Scan}

/-- In a string or a comment only its end counts. -/
theorem outline_single_inside {v : Construct} (inside : s.outline.verbatim = some v)
    (formed : s.WellFormed) {c : Char} {rest : Text} (read : s.single c rest = .ok next) :
    next.outline = s.outline.single c := by
  have advanced : (s.advance c).outline.verbatim = some v := inside
  have kept : Mark.of c ≠ .quote v → s.outline.single c = (s.advance c).outline := by
    intro other
    rw [Outline.single_inside inside, if_neg other]
    rfl
  cases lone_of_eq_ok read with
  | @quote _ string marks =>
    have isString := Mark.of_eq_quote marks
    rw [quote_inside advanced isString]
    by_cases ends : string = v
    · subst ends
      rw [if_pos rfl, Outline.single_inside inside, if_pos marks]
      exact outline_leave advanced (formed.advance c) isString
    · rw [if_neg ends, kept (by simpa [marks] using ends)]
      rfl
  | layout marks =>
    rw [kept (by simp [marks]), inVerbatim_eq_isSome, advanced]
    rfl
  | space => rw [kept (by simp [Mark.of]), outline_blank]
  | openBrace => rw [kept (by simp [Mark.of]), openBrace_inside advanced]; rfl
  | closeBrace => rw [kept (by simp [Mark.of]), closeBrace_inside advanced]; rfl
  | colon => rw [kept (by simp [Mark.of]), colon_inside advanced]; rfl
  | semicolon => rw [kept (by simp [Mark.of]), semicolon_inside advanced]; rfl
  | atSign => rw [kept (by simp [Mark.of]), atSign_inside advanced]; rfl
  | plain marks => rw [kept (by simp [marks])]; rfl

/-- Outside strings and comments, braces and the beginnings of strings count. -/
theorem outline_single_outside (outside : s.outline.verbatim = none) (formed : s.WellFormed)
    {c : Char} {rest : Text} (read : s.single c rest = .ok next) :
    next.outline = s.outline.single c := by
  have advanced : (s.advance c).outline.verbatim = none := outside
  have advancedOutline : (s.outline.advance c).verbatim = none := outside
  have formed := formed.advance c
  have kept (other : Mark.of c ≠ .openBrace ∧ Mark.of c ≠ .closeBrace ∧
      ∀ string, Mark.of c ≠ .quote string) : s.outline.single c = (s.advance c).outline :=
    Outline.single_outside outside other
  cases lone_of_eq_ok read with
  | openBrace =>
    rw [outline_openBrace advanced]
    simp only [Outline.single, advancedOutline]
    rfl
  | closeBrace =>
    rw [outline_closeBrace advanced formed]
    simp only [Outline.single, advancedOutline]
    rfl
  | quote marks =>
    rw [outline_quote advanced c (Mark.of_eq_quote marks)]
    simp only [Outline.single, advancedOutline, marks]
    rfl
  | layout marks =>
    rw [kept (by simp [marks]), inVerbatim_outside advanced]
    exact outline_blank _
  | space => rw [kept (by simp [Mark.of]), outline_blank]
  | colon => rw [kept (by simp [Mark.of]), outline_colon advanced]
  | semicolon => rw [kept (by simp [Mark.of]), outline_semicolon advanced formed]
  | atSign => rw [kept (by simp [Mark.of]), outline_atSign advanced]
  | plain marks => rw [kept (by simp [marks])]; rfl

theorem outline_single (formed : s.WellFormed) {c : Char} {rest : Text}
    (read : s.single c rest = .ok next) : next.outline = s.outline.single c := by
  cases verbatim : s.outline.verbatim with
  | some v => exact outline_single_inside verbatim formed read
  | none => exact outline_single_outside verbatim formed read

theorem outline_verbatim_eq_comment_iff (s : Scan) :
    s.outline.verbatim = some .comment ↔ s.top = some .comment := by
  simp only [outline, Option.filter_eq_some_iff, Construct.isVerbatim, and_true]

theorem outline_closeComment (formed : s.WellFormed) (inside : s.top = some .comment) :
    s.closeComment.outline = { s.outline with verbatim := none } := by
  obtain ⟨blocks, clause, verbatim, h⟩ := formed
  obtain rfl := h.top_comment inside
  rw [outline_eq h.closeComment.outline_verbatim]
  rfl

theorem outline_pair (formed : s.WellFormed) (c d : Char) :
    (s.pair? c d).map outline = s.outline.pair? c d := by
  have advanced := (formed.advance c).advance d
  have inVerbatim : (!s.inVerbatim) = s.outline.verbatim.isNone := by
    rw [inVerbatim_eq_isSome, Option.not_isSome]
  unfold pair? Outline.pair?
  simp only [inVerbatim, outline_verbatim_eq_comment_iff]
  split
  · rfl
  · split
    · rfl
    · split
      · rename_i closes
        simp only [Bool.and_eq_true, decide_eq_true_eq] at closes
        exact congrArg some (outline_closeComment advanced closes.2)
      · rfl

/-- The outline of what was read is that of the text. -/
theorem outline_run (formed : s.WellFormed) {t : Text} (read : s.run t = .ok next) :
    next.outline = s.outline.run t := by
  induction s, t using run.induct with
  | case1 s =>
    cases read
    rfl
  | case2 s c => exact outline_single formed read
  | case3 s c d rest after pair ih =>
    have together := outline_pair formed c d
    rw [pair] at together
    rw [run, pair] at read
    rw [Outline.run, ← together]
    exact ih (formed.pair pair) read
  | case4 s c d rest pair error single =>
    rw [run, pair] at read
    simp only [single] at read
    cases read
  | case5 s c d rest pair after single ih =>
    have apart := outline_pair formed c d
    rw [pair] at apart
    rw [run, pair] at read
    simp only [single] at read
    rw [Outline.run, ← apart]
    change next.outline = (s.outline.single c).run (d :: rest)
    rw [← outline_single formed single]
    exact ih (formed.single single) read

/-- Only control characters cannot be read. -/
theorem single_eq_ok (s : Scan) {c : Char} (legal : Mark.of c ≠ .control) (rest : Text) :
    ∃ next, s.single c rest = .ok next := by
  unfold single
  cases marks : Mark.of c with
  | control => exact absurd marks legal
  | _ => exact ⟨_, rfl⟩

theorem ne_of_pair_eq_none {c d : Char} (apart : s.pair? c d = none) : c ≠ '\\' := by
  rintro rfl
  simp [pair?] at apart

theorem run_eq_ok (s : Scan) {t : Text} (legal : ∀ c ∈ t.unescaped, Mark.of c ≠ .control) :
    ∃ next, s.run t = .ok next := by
  induction s, t using run.induct with
  | case1 s => exact ⟨s, rfl⟩
  | case2 s c => exact single_eq_ok s (legal c List.mem_cons_self) []
  | case3 s c d rest after pair ih =>
    rw [run, pair]
    refine ih fun e member => legal e ?_
    by_cases escape : c = '\\'
    · rwa [Text.unescaped, if_pos escape]
    · have mark : d ≠ '\\' := by
        rintro rfl
        simp [pair?, escape] at pair
      rw [Text.unescaped_cons escape, Text.unescaped_cons mark]
      exact List.mem_cons_of_mem _ (List.mem_cons_of_mem _ member)
  | case4 s c d rest pair error single =>
    rw [Text.unescaped_cons (ne_of_pair_eq_none pair)] at legal
    obtain ⟨next, read⟩ := single_eq_ok s (legal c List.mem_cons_self) (d :: rest)
    rw [single] at read
    cases read
  | case5 s c d rest pair after single ih =>
    rw [Text.unescaped_cons (ne_of_pair_eq_none pair)] at legal
    rw [run, pair]
    simp only [single]
    exact ih fun e member => legal e (List.mem_cons_of_mem _ member)

theorem WellFormed.run (formed : s.WellFormed) {t : Text} (read : s.run t = .ok next) :
    next.WellFormed := by
  rw [run_eq_steps s t t.length (Nat.le_refl _)] at read
  cases reached : Scan.steps t.length s t with
  | error => rw [reached] at read; cases read
  | ok last =>
    rw [reached] at read
    cases read
    exact formed.steps reached

end Scan

/-- The tokens of a text open and close blocks where the text has braces, and leave no block
open. -/
theorem brace_of_scan {source : Text} {tokens : List Token} (read : scan source = .ok tokens) :
    tokens.filterMap Token.brace? = source.braces ∧ source.unclosed = 0 := by
  unfold scan at read
  cases ran : Scan.start.run (Text.unifyLineEnds source) with
  | error => rw [ran] at read; cases read
  | ok last =>
    have started : Scan.start.WellFormed := ⟨_, _, _, Scan.start_layered⟩
    have braces : last.outline.braces.reverse = source.braces :=
      congrArg (·.braces.reverse) (Scan.outline_run started ran)
    rw [ran] at read
    change last.finish = _ at read
    unfold Scan.finish at read
    cases frames : last.frames with
    | cons frame frames => rw [frames] at read; cases read
    | nil =>
      rw [frames] at read
      cases read
      have same : last.tokens.reverse.filterMap Token.brace? = source.braces := by
        rw [← braces, List.filterMap_reverse]
        rfl
      refine ⟨same, ?_⟩
      obtain ⟨blocks, clause, verbatim, h⟩ := started.run ran
      have empty := h.stack
      rw [frames, List.map_nil, eq_comm, List.append_eq_nil_iff, List.append_eq_nil_iff] at empty
      rw [Text.unclosed, ← same, ← Token.nesting_eq_foldl, ← h.depth, empty.2.2]
      rfl

/-- A text without control characters can be divided into tokens unless something stays open. -/
theorem scan_eq_unterminated {source : Text} {error : ScanError}
    (failed : scan source = .error error) (legal : source.Legal) :
    ∃ construct line, error = .unterminated construct line := by
  obtain ⟨last, ran⟩ := Scan.run_eq_ok .start legal
  unfold scan at failed
  rw [ran] at failed
  change last.finish = _ at failed
  unfold Scan.finish at failed
  cases frames : last.frames with
  | nil => rw [frames] at failed; cases failed
  | cons frame frames =>
    rw [frames] at failed
    cases failed
    exact ⟨frame.construct, frame.line, rfl⟩

end Stylesheet
