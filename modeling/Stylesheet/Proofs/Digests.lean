import Stylesheet.Proofs.Strokes

set_option autoImplicit false

namespace Stylesheet

open Cell (render strokes stroke openAfter)
open Stylesheet.Compact (isBrace isCombinator isMark)

/-- What the reader of strokes is in the middle of. A key is kept with the colon after it. -/
inductive Clause where
  | between
  | header
  | value (key : List Stroke) (colon : Stroke)
  deriving DecidableEq, Repr

def Clause.constructs : Clause → List Construct
  | between => []
  | header => [.header]
  | value _ _ => [.value]

/-- The state of a reader of strokes. It does what a reader of characters does outside strings and
comments, with the strokes of the pending text in its place. -/
structure Digest where
  /-- The blocks that are open, innermost first. -/
  blocks : List Construct
  clause : Clause
  /-- The strokes since the last token, or since the colon. -/
  field : List Stroke
  /-- The tokens read so far, latest first. -/
  gists : List Gist
  deriving DecidableEq, Repr

namespace Digest

def start : Digest := ⟨[], .between, [], []⟩

def openBrace (d : Digest) : Digest :=
  match d.clause with
  | .between => ⟨.rule :: d.blocks, .between, [], .rule d.field :: d.gists⟩
  | .header => ⟨.atBlock :: d.blocks, .between, [], .atBlock d.field :: d.gists⟩
  | .value key colon =>
    ⟨.rule :: d.blocks, .between, [], .rule (key ++ colon :: d.field) :: d.gists⟩

def endClause (d : Digest) : Digest :=
  match d.clause with
  | .between => { d with field := [] }
  | .header => ⟨d.blocks, .between, [], .statement d.field :: d.gists⟩
  | .value key _ =>
    ⟨d.blocks, .between, [], if key = [] then d.gists else .property key d.field :: d.gists⟩

def closeBrace (d : Digest) : Digest :=
  ⟨d.blocks.tail, .between, [], .close :: d.endClause.gists⟩

def top (d : Digest) : Option Construct := (d.clause.constructs ++ d.blocks).head?

def step (d : Digest) (x : Stroke) (rest : Text) : Digest :=
  if x.ink = ['{'] then d.openBrace
  else if x.ink = ['}'] then d.closeBrace
  else if x.ink = [';'] then d.endClause
  else if x.ink = [':'] && !Scan.keepsColon d.top rest then
    { d with clause := .value d.field x, field := [] }
  else if x.ink = ['@'] && d.clause = .between then
    { d with clause := .header, field := [⟨false, ['@']⟩] }
  else { d with field := d.field ++ [x] }

def gather : Digest → List Stroke → Digest
  | d, [] => d
  | d, x :: k => gather (d.step x (k.flatMap Stroke.ink)) k

end Digest

/-- The only blank that is a control character is a carriage return. -/
theorem Scan.gap_or_plain_of_isBlank {c : Char} (blank : Text.isBlank c) (notReturn : c ≠ '\r') :
    isGap c ∨ Mark.of c = .plain := by
  by_cases gap : isGap c
  · exact .inl gap
  · have other (d : Char) (visible : Text.isBlank d = false) : c ≠ d := by
      rintro rfl
      simp [visible] at blank
    simp only [isGap_iff, not_or] at gap
    have code (d : Char) (different : c ≠ d) : c.toNat ≠ d.toNat :=
      fun same => different (Char.toNat_inj.mp same)
    have high : ¬ c.toNat < 0x20 := by
      have := code '\n' gap.1
      have := code '\t' gap.2.1
      have := code '\x0b' gap.2.2.1
      have := code '\x0c' gap.2.2.2.1
      have := code '\r' notReturn
      simp only [Text.isBlank, Bool.or_eq_true, Bool.and_eq_true, decide_eq_true_eq,
        beq_iff_eq, Char.reduceToNat] at *
      omega
    right
    simp [Mark.of, gap, other '{' rfl, other '}' rfl, other ':' rfl, other ';' rfl, other '@' rfl,
      other '"' rfl, other '\'' rfl, high]

/-- The text that a reader keeps, in cells. The cells are those of the pending text, after those
of the name of an at-rule. -/
inductive Held : Option Text → Text → Clause → List Cell → Text → Prop
  | between {k : List Cell} {r : Text} : Held none (render k ++ r) .between k r
  | name {k : List Cell} {r : Text} : Held none (render k ++ r) .header k r
  | params {k l : List Cell} {r s : Text} (solid : ∀ x ∈ k, x.Solid)
      (blank : ∀ c ∈ r, Text.isBlank c) (apart : ∀ x ∈ l.head?, x.gap ≠ [])
      (begun : l = [] → s ≠ []) :
      Held (some (render k ++ r)) (render l ++ s) .header (k ++ l) s
  | value {k l : List Cell} {r s : Text} (solid : ∀ x ∈ k, x.Solid)
      (blank : ∀ c ∈ r, Text.isBlank c) :
      Held (some (render k ++ r)) (render l ++ s)
        (.value (strokes true k) (stroke (openAfter true k) ⟨r, [':']⟩)) l s

namespace Held

variable {key : Option Text} {w r : Text} {clause : Clause} {k : List Cell}

theorem blank (held : Held key w clause k r) (c : Char) :
    Held key (w ++ [c]) clause k (r ++ [c]) := by
  cases held with
  | between => rw [List.append_assoc]; exact .between
  | name => rw [List.append_assoc]; exact .name
  | params solid blank apart begun =>
    rw [List.append_assoc]
    exact .params solid blank apart (by simp)
  | value solid blank => rw [List.append_assoc]; exact .value solid blank

theorem ink (held : Held key w clause k r) (ink : Text) :
    Held key (w ++ ink) clause (k ++ [⟨r, ink⟩]) [] := by
  have whole (l : List Cell) (s : Text) :
      render l ++ s ++ ink = render (l ++ [⟨s, ink⟩]) ++ [] := by
    simp [render, Cell.text]
  cases held with
  | between => rw [whole]; exact .between
  | name => rw [whole]; exact .name
  | @params k l r s solid blank apart begun =>
    rw [whole, List.append_assoc]
    refine .params solid blank ?_ (by simp)
    cases l with
    | nil => simpa using begun rfl
    | cons y l => simpa using apart
  | value solid blank => rw [whole]; exact .value solid blank

end Held

/-- A reader at a spot, with some pending text and tokens, is in the state of a reader of strokes.
The pending text is given in its order here. -/
structure Digest.Matches (d : Digest) (k : List Cell) (r : Text) (x : Spot) (w : Text)
    (tokens : List Token) : Prop where
  held : Held x.key w d.clause k r
  solid : ∀ y ∈ k, y.Solid
  blank : ∀ c ∈ r, Text.isBlank c
  field : d.field = strokes true k
  frames : x.frames.map Frame.construct = d.clause.constructs ++ d.blocks
  inBlocks : ∀ b ∈ d.blocks, b.isBlock
  gists : tokens.filterMap Token.gist = d.gists

namespace Digest.Matches

variable {d : Digest} {k : List Cell} {r w : Text} {x : Spot} {tokens : List Token} {p : Position}

theorem top_eq (m : d.Matches k r x w tokens) : x.top = d.top := by
  rw [Spot.top, ← List.head?_map, m.frames, Digest.top]

theorem isBetween (m : d.Matches k r x w tokens) (between : d.clause = .between) :
    x.isBetween := by
  have top := m.top_eq
  rw [Digest.top, between] at top
  rw [Spot.isBetween_iff]
  cases first : d.blocks with
  | nil => exact .inl (by simp [top, first, Clause.constructs])
  | cons b blocks =>
    have isBlock := m.inBlocks b (by simp [first])
    rw [first] at top
    simp only [Clause.constructs, List.nil_append, List.head?_cons] at top
    cases b <;> simp_all [Construct.isBlock]

/-- A blank is kept, or it ends the name of an at-rule. -/
theorem run_blank (m : d.Matches k r x w tokens) {c : Char} (isBlank : Text.isBlank c)
    (notReturn : c ≠ '\r') (rest : Text) :
    ∃ x' w' r', (x.reader p w.reverse tokens).run (c :: rest) =
        (x'.reader (p.advance c) w'.reverse tokens).run rest ∧
      d.Matches k r' x' w' tokens ∧ r' ≠ [] := by
  have lone : c ≠ '\\' ∧ c ≠ '/' ∧ c ≠ '*' := by
    refine ⟨?_, ?_, ?_⟩ <;> rintro rfl <;> cases isBlank
  have kept (e : Char) (blank : Text.isBlank e) : d.Matches k (r ++ [e]) x (w ++ [e]) tokens :=
    { m with
      held := m.held.blank e
      blank := by simpa [or_imp, forall_and] using ⟨m.blank, blank⟩ }
  rw [Scan.run_cons _ c rest lone]
  rcases Scan.gap_or_plain_of_isBlank isBlank notReturn with gap | plain
  · rw [Spot.single_gap gap]
    by_cases unnamed : x.isUnnamed
    · refine ⟨x.named w, [' '], [' '], ?_, ?_, by simp⟩
      · rw [Spot.blank_unnamed unnamed, List.reverse_reverse]
        rfl
      · simp only [Spot.isUnnamed, Bool.and_eq_true, decide_eq_true_eq,
          Option.isNone_iff_eq_none] at unnamed
        have top := m.top_eq
        have held := m.held
        rw [unnamed.1, Digest.top] at top
        rw [unnamed.2] at held
        refine { m with held := ?_, blank := List.forall_mem_singleton.mpr rfl }
        generalize d.clause = clause at held top ⊢
        cases held with
        | between =>
          have member : Construct.header ∈ d.blocks := List.mem_of_mem_head? top.symm
          exact absurd (m.inBlocks _ member) (by decide)
        | name =>
          have named : Held (some (render k ++ r)) (render [] ++ [' ']) .header (k ++ []) [' '] :=
            .params m.solid m.blank (by simp) (by simp)
          rwa [List.append_nil] at named
    · refine ⟨x, w ++ [' '], r ++ [' '], ?_, kept ' ' rfl, by simp⟩
      rw [Spot.blank_reader (by simpa using unnamed)]
      simp [Except.bind]
  · refine ⟨x, w ++ [c], r ++ [c], ?_, kept c isBlank, by simp⟩
    rw [Spot.single_plain plain]
    simp [Except.bind]

theorem run_gap (m : d.Matches k r x w tokens) {gap : Text} (isBlank : ∀ c ∈ gap, Text.isBlank c)
    (notReturn : '\r' ∉ gap) (rest : Text) :
    ∃ p' x' w' r', (x.reader p w.reverse tokens).run (gap ++ rest) =
        (x'.reader p' w'.reverse tokens).run rest ∧
      d.Matches k r' x' w' tokens ∧ (r' = [] ↔ r = [] ∧ gap = []) := by
  induction gap generalizing x w r p with
  | nil => exact ⟨p, x, w, r, rfl, m, by simp⟩
  | cons c gap ih =>
    obtain ⟨first, later⟩ := List.forall_mem_cons.mp isBlank
    simp only [List.mem_cons, not_or] at notReturn
    obtain ⟨y, v, s, read, matched, filled⟩ := m.run_blank (p := p) first (Ne.symm notReturn.1)
      (gap ++ rest)
    obtain ⟨p', y', v', s', read', matched', empty⟩ := ih matched later notReturn.2
    refine ⟨p', y', v', s', ?_, matched', ?_⟩
    · rw [List.cons_append, read, read']
    · simp [empty, filled]

/-- Ink that does nothing is written. -/
theorem write (m : d.Matches k r x w tokens) {ink : Text} (solid : Cell.Solid ⟨r, ink⟩) :
    Matches { d with field := d.field ++ [stroke (openAfter true k) ⟨r, ink⟩] }
      (k ++ [⟨r, ink⟩]) [] x (w ++ ink) tokens :=
  { m with
    held := m.held.ink ink
    solid := by simpa [or_imp, forall_and] using ⟨m.solid, solid⟩
    blank := by simp
    field := by
      rw [Cell.strokes_append m.solid, Cell.strokes_cons solid, m.field]
      rfl }

/-- The state after a token that leaves nothing pending. -/
theorem settled {d : Digest} (between : d.clause = .between) (field : d.field = [])
    (key : x.key = none) (frames : x.frames.map Frame.construct = d.blocks)
    (inBlocks : ∀ b ∈ d.blocks, b.isBlock) (gists : tokens.filterMap Token.gist = d.gists) :
    d.Matches [] [] x [] tokens where
  held := by
    rw [key, between]
    exact .between (k := []) (r := [])
  solid := by simp
  blank := by simp
  field := field
  frames := by rw [frames, between]; rfl
  inBlocks := inBlocks
  gists := gists

theorem strokes_parts (m : d.Matches k r x w tokens) (isHeader : d.clause = .header) :
    Text.strokes ((x.parts w.reverse).1 ++ ' ' :: (x.parts w.reverse).2) = d.field := by
  have held := m.held
  have solid := m.solid
  rw [m.field]
  rw [isHeader] at held
  unfold Spot.parts
  generalize x.key = key at held ⊢
  cases held with
  | name =>
    have empty : Text.trim [] = [] := rfl
    simpa [empty] using
      Cell.strokes_header (l := []) (r := []) solid m.blank (by simp) (by simp) (by simp)
  | params first blank apart begun =>
    simp only [List.reverse_reverse]
    exact Cell.strokes_header first blank (fun y member => solid y (by simp [member])) m.blank apart

theorem strokes_pending (m : d.Matches k r x w tokens) (other : d.clause ≠ .header) :
    (Text.trim w).strokes = d.field := by
  have held := m.held
  rw [m.field]
  generalize x.key = key at held
  cases clause : d.clause with
  | header => exact absurd clause other
  | between =>
    rw [clause] at held
    cases held
    exact Cell.strokes_trim m.solid m.blank
  | value _ colon =>
    rw [clause] at held
    cases held
    exact Cell.strokes_trim m.solid m.blank

theorem key_eq_none (m : d.Matches k r x w tokens) (between : d.clause = .between) :
    x.key = none := by
  have held := m.held
  rw [between] at held
  generalize x.key = key at held ⊢
  cases held
  rfl

theorem frames_between (m : d.Matches k r x w tokens) (between : d.clause = .between) :
    x.frames.map Frame.construct = d.blocks := by
  rw [m.frames, between]
  rfl

theorem frames_leave (m : d.Matches k r x w tokens) (inside : d.clause ≠ .between)
    (key : Option Text) : (x.leave key).frames.map Frame.construct = d.blocks := by
  have frames := congrArg List.tail m.frames
  rw [← List.map_tail] at frames
  cases clause : d.clause with
  | between => exact absurd clause inside
  | header | value => rwa [clause] at frames

/-- The key of a declaration, and the selector that it turns out to be part of. -/
theorem strokes_key (m : d.Matches k r x w tokens) {key : List Stroke} {colon : Stroke}
    (inValue : d.clause = .value key colon) :
    (Text.trim (x.key.getD [])).strokes = key ∧ (Text.trim (x.key.getD []) = [] ↔ key = []) ∧
      (Text.trim (x.key.getD [] ++ ':' :: w)).strokes = key ++ colon :: d.field := by
  have held := m.held
  rw [m.field]
  rw [inValue] at held
  generalize x.key = own at held ⊢
  cases held with
  | @value l _ s _ solid blank =>
    have isColon : Cell.Solid ⟨s, [':']⟩ := .letter blank rfl (by decide)
    refine ⟨Cell.strokes_trim solid blank, ?_, ?_⟩
    · rw [Option.getD_some, Cell.trim_render solid blank]
      cases l with
      | nil => simp [Cell.strokes]
      | cons y l =>
        obtain ⟨first, later⟩ := List.forall_mem_cons.mp solid
        simp [Cell.strokes_cons first, first.ink_ne_nil]
    · have whole : render l ++ s ++ ':' :: (render k ++ r) =
          render (l ++ ⟨s, [':']⟩ :: k) ++ r := by simp [render, Cell.text]
      have both : ∀ y ∈ l ++ ⟨s, [':']⟩ :: k, y.Solid := by
        simp only [List.mem_append, List.mem_cons]
        rintro y (member | rfl | member)
        · exact solid y member
        · exact isColon
        · exact m.solid y member
      rw [Option.getD_some, whole, Cell.strokes_trim both m.blank, Cell.strokes_append solid,
        Cell.strokes_cons isColon]
      rfl

theorem openBrace (m : d.Matches k r x w tokens) :
    ∃ x' tokens', (x.reader p w.reverse tokens).openBrace = x'.reader p [] tokens' ∧
      d.openBrace.Matches [] [] x' [] tokens' := by
  have inBlocks (b : Construct) (isBlock : b.isBlock) : ∀ c ∈ b :: d.blocks, c.isBlock :=
    List.forall_mem_cons.mpr ⟨isBlock, m.inBlocks⟩
  cases clause : d.clause with
  | between =>
    refine ⟨_, _, Spot.openBrace_between (m.isBetween clause), ?_⟩
    rw [Digest.openBrace, clause]
    refine settled rfl rfl (m.key_eq_none clause) ?_ (inBlocks _ rfl) ?_
    · exact congrArg (Construct.rule :: ·) (m.frames_between clause)
    · simp [Token.gist, m.gists, m.strokes_pending (by simp [clause])]
  | header =>
    have top : x.top = some .header := by rw [m.top_eq, Digest.top, clause]; rfl
    refine ⟨_, _, Spot.openBrace_header top, ?_⟩
    rw [Digest.openBrace, clause]
    refine settled rfl rfl rfl ?_ (inBlocks _ rfl) ?_
    · exact congrArg (Construct.atBlock :: ·) (m.frames_leave (by simp [clause]) none)
    · simp [Token.gist, m.gists, m.strokes_parts clause]
  | value key colon =>
    have top : x.top = some .value := by rw [m.top_eq, Digest.top, clause]; rfl
    refine ⟨_, _, Spot.openBrace_value top, ?_⟩
    rw [Digest.openBrace, clause]
    refine settled rfl rfl rfl ?_ (inBlocks _ rfl) ?_
    · exact congrArg (Construct.rule :: ·) (m.frames_leave (by simp [clause]) none)
    · simp [Token.gist, m.gists, (m.strokes_key clause).2.2]

/-- What is left when a clause ends. -/
theorem endClause (m : d.Matches k r x w tokens) :
    ∃ x' w' tokens', (x.reader p w.reverse tokens).endClause = x'.reader p w' tokens' ∧
      d.endClause.Matches [] [] x' [] tokens' := by
  cases clause : d.clause with
  | between =>
    refine ⟨x, _, tokens, Spot.endClause_between (m.isBetween clause), ?_⟩
    rw [Digest.endClause, clause]
    exact settled rfl rfl (m.key_eq_none clause) (m.frames_between clause) m.inBlocks m.gists
  | header =>
    have top : x.top = some .header := by rw [m.top_eq, Digest.top, clause]; rfl
    refine ⟨_, _, _, Spot.endClause_header top, ?_⟩
    rw [Digest.endClause, clause]
    refine settled rfl rfl rfl (m.frames_leave (by simp [clause]) none) m.inBlocks ?_
    simp [Token.gist, m.gists, m.strokes_parts clause]
  | value key colon =>
    have top : x.top = some .value := by rw [m.top_eq, Digest.top, clause]; rfl
    obtain ⟨own, empty, -⟩ := m.strokes_key clause
    refine ⟨_, _, _, Spot.endClause_value top, ?_⟩
    rw [Digest.endClause, clause]
    refine settled rfl rfl rfl (m.frames_leave (by simp [clause]) none) m.inBlocks ?_
    unfold Spot.property
    rw [List.reverse_reverse]
    by_cases keyless : key = []
    · simp [empty, keyless, m.gists]
    · simp [empty, keyless, m.gists, Token.gist, own, m.strokes_pending (by simp [clause])]

theorem endClause_clause (d : Digest) : d.endClause.clause = .between := by
  cases clause : d.clause <;> simp [Digest.endClause, clause]

theorem blocks_endClause (d : Digest) : d.endClause.blocks = d.blocks := by
  cases clause : d.clause <;> simp [Digest.endClause, clause]

theorem semicolon (m : d.Matches k r x w tokens) :
    ∃ x' tokens', (x.reader p w.reverse tokens).semicolon = x'.reader p [] tokens' ∧
      d.endClause.Matches [] [] x' [] tokens' := by
  obtain ⟨x', w', tokens', ended, matched⟩ := m.endClause (p := p)
  refine ⟨x', tokens', ?_, matched⟩
  simp only [Scan.semicolon, Spot.inVerbatim_reader, Bool.false_eq_true, ↓reduceIte, ended]
  rfl

theorem closeBrace (m : d.Matches k r x w tokens) :
    ∃ x' tokens', (x.reader p w.reverse tokens).closeBrace = x'.reader p [] tokens' ∧
      d.closeBrace.Matches [] [] x' [] tokens' := by
  obtain ⟨x', w', tokens', ended, matched⟩ := m.endClause (p := p)
  have between := endClause_clause d
  have frames := matched.frames_between between
  have key := matched.key_eq_none between
  have top := matched.top_eq
  rw [blocks_endClause] at frames
  rw [Digest.top, between, blocks_endClause] at top
  have closed : ∃ y : Spot, y.key = none ∧ y.frames.map Frame.construct = d.blocks.tail ∧
      (x'.reader p w' tokens').closeBlock = y.reader p [] (.close p.line :: tokens') := by
    cases blocks : d.blocks with
    | nil =>
      rw [blocks] at top frames
      refine ⟨x', key, frames, ?_⟩
      simp [Scan.closeBlock, top, Clause.constructs]
      rfl
    | cons b blocks' =>
      have isBlock := m.inBlocks b (by simp [blocks])
      rw [blocks] at top frames
      refine ⟨x'.leave x'.key, key, ?_, ?_⟩
      · have := congrArg List.tail frames
        rwa [← List.map_tail] at this
      · simp [Scan.closeBlock, top, Clause.constructs, isBlock]
        rfl
  obtain ⟨y, keyless, inner, closed⟩ := closed
  refine ⟨y, .close p.line :: tokens', ?_, settled rfl rfl keyless inner ?_ ?_⟩
  · simp only [Scan.closeBrace, Spot.inVerbatim_reader, Bool.false_eq_true, ↓reduceIte, ended,
      closed]
  · exact fun b member => m.inBlocks b (List.mem_of_mem_tail member)
  · simp [Token.gist, matched.gists, Digest.closeBrace]

theorem startValue (m : d.Matches k r x w tokens) (between : d.clause = .between) :
    ∃ x', (x.reader p w.reverse tokens).startValue = x'.reader p [] tokens ∧
      Matches { d with
          clause := .value d.field (stroke (openAfter true k) ⟨r, [':']⟩), field := [] }
        [] [] x' [] tokens := by
  have held := m.held
  refine ⟨x.enter (some w.reverse.reverse) ⟨.value, p.line⟩ rfl, rfl, ?_⟩
  rw [between] at held
  generalize x.key = key at held
  cases held
  exact {
    held := by
      rw [List.reverse_reverse, m.field]
      exact .value (l := []) (s := []) m.solid m.blank
    solid := by simp
    blank := by simp
    field := rfl
    frames := congrArg (Construct.value :: ·) (m.frames_between between)
    inBlocks := m.inBlocks
    gists := m.gists }

theorem atSign (m : d.Matches k r x w tokens) (between : d.clause = .between) :
    ∃ x', (x.reader p w.reverse tokens).atSign = x'.reader p ['@'] tokens ∧
      Matches { d with clause := .header, field := [⟨false, ['@']⟩] } [⟨[], ['@']⟩] [] x' ['@']
        tokens := by
  refine ⟨_, Spot.atSign_between (m.isBetween between), ?_⟩
  exact {
    held := .name (k := [⟨[], ['@']⟩]) (r := [])
    solid := by simpa using Cell.Solid.letter (by simp) rfl (by decide)
    blank := by simp
    field := rfl
    frames := congrArg (Construct.header :: ·) (m.frames_between between)
    inBlocks := m.inBlocks
    gists := m.gists }

theorem step_write {y : Stroke} (other : y.ink ∉ [['{'], ['}'], [';'], [':'], ['@']])
    (d : Digest) (ahead : Text) : d.step y ahead = { d with field := d.field ++ [y] } := by
  simp only [List.mem_cons, List.not_mem_nil, or_false, not_or] at other
  simp [step, other]

/-- What a run comes to after some ink. The reader is in the state of a reader of strokes, and after
a semicolon or a brace nothing is pending. -/
def Resumes (d : Digest) (ink : Text) (ran : Except ScanError Scan) (rest : Text) : Prop :=
  ∃ p k x w tokens, ran = (x.reader p w.reverse tokens).run rest ∧ d.Matches k [] x w tokens ∧
    openAfter true k = Cell.is isMark ⟨[], ink⟩ ∧
    (ink = [';'] ∨ Cell.is isBrace ⟨[], ink⟩ → k = [])

/-- Ink that does nothing becomes a part of the field. -/
theorem resumes_write (m : d.Matches k r x w tokens) {ink rest ahead : Text}
    (solid : Cell.Solid ⟨r, ink⟩) (other : ¬ (ink = [';'] ∨ Cell.is isBrace ⟨[], ink⟩))
    (step : d.step (stroke (openAfter true k) ⟨r, ink⟩) ahead =
      { d with field := d.field ++ [stroke (openAfter true k) ⟨r, ink⟩] })
    {ran : Except ScanError Scan} {q : Position}
    (read : ran = (x.reader q (ink.reverse ++ w.reverse) tokens).run rest) :
    Resumes (d.step (stroke (openAfter true k) ⟨r, ink⟩) ahead) ink ran rest := by
  refine ⟨q, k ++ [⟨r, ink⟩], x, w ++ ink, tokens, ?_, ?_, ?_, (absurd · other)⟩
  · rw [read, List.reverse_append]
  · rw [step]
    exact m.write solid
  · rw [Cell.openAfter_append]
    rfl

/-- A mark that leaves nothing pending. -/
theorem resumes_mark {d : Digest} (m : d.Matches [] [] x [] tokens) {c : Char} (marks : isMark c)
    {rest : Text} {ran : Except ScanError Scan} {q : Position}
    (read : ran = (x.reader q [] tokens).run rest) : Resumes d [c] ran rest :=
  ⟨q, [], x, [], tokens, read, m, by simp [openAfter, Cell.is, marks], fun _ => rfl⟩

section Letter

variable {c : Char} {rest ahead : Text}

theorem resumes_plain (m : d.Matches k r x w tokens) (solid : Cell.Solid ⟨r, [c]⟩)
    (marks : Mark.of c = .plain) :
    Resumes (d.step (stroke (openAfter true k) ⟨r, [c]⟩) ahead) [c]
      (((x.reader p w.reverse tokens).single c rest).bind fun next => next.run rest) rest := by
  have other (e : Char) (acts : Mark.of e ≠ .plain) : c ≠ e := by
    rintro rfl
    exact acts marks
  have passed : c ≠ '{' ∧ c ≠ '}' ∧ c ≠ ';' ∧ c ≠ ':' ∧ c ≠ '@' :=
    ⟨other '{' (by decide), other '}' (by decide), other ';' (by decide), other ':' (by decide),
      other '@' (by decide)⟩
  refine m.resumes_write (q := p.advance c) solid ?_ (step_write ?_ d ahead) ?_
  · simp [Cell.is, isBrace, passed]
  · simp [stroke, passed]
  · rw [Spot.single_plain marks rest]
    rfl

/-- A colon is kept, or it starts a value. -/
theorem resumes_colon (m : d.Matches k r x w tokens)
    (sameAhead : Scan.opensBlock rest = Scan.opensBlock ahead) :
    Resumes (d.step (stroke (openAfter true k) ⟨r, [':']⟩) ahead) [':']
      ((x.reader p w.reverse tokens).run (':' :: rest)) rest := by
  have sameKeeps : Scan.keepsColon x.top rest = Scan.keepsColon d.top ahead := by
    unfold Scan.keepsColon
    rw [m.top_eq, sameAhead]
  by_cases keeps : Scan.keepsColon d.top ahead
  · refine m.resumes_write (q := p.advance ':') (.letter m.blank rfl (by decide)) (by decide)
      (by simp [step, stroke, keeps]) ?_
    have colon := Scan.colon_eq_write (s := x.reader (p.advance ':') w.reverse tokens)
      (sameKeeps.trans keeps)
    rw [Scan.run_cons _ ':' rest (by decide)]
    simp only [Scan.single, show Mark.of ':' = .colon from rfl, Spot.advance_reader, colon]
    rfl
  · have between : d.clause = .between := by
      cases clause : d.clause with
      | between => rfl
      | header | value => simp [Digest.top, clause, Clause.constructs, Scan.keepsColon] at keeps
    have starts : Scan.keepsColon (x.reader p w.reverse tokens).top rest = false :=
      sameKeeps.trans (by simpa using keeps)
    obtain ⟨x', read, matched⟩ := m.startValue (p := p.advance ':') between
    have resumes : Resumes _ [':'] ((x.reader p w.reverse tokens).run (':' :: rest)) rest :=
      resumes_mark matched rfl (by rw [Scan.run_startValue _ _ starts, Spot.advance_reader, read])
    simpa [step, stroke, keeps] using resumes

/-- An at-sign begins an at-rule, unless it stands in one or in a value. -/
theorem resumes_atSign (m : d.Matches k r x w tokens) :
    Resumes (d.step (stroke (openAfter true k) ⟨r, ['@']⟩) ahead) ['@']
      (((x.reader p w.reverse tokens).single '@' rest).bind fun next => next.run rest) rest := by
  have single : (x.reader p w.reverse tokens).single '@' rest =
      .ok (x.reader (p.advance '@') w.reverse tokens).atSign := rfl
  by_cases between : d.clause = .between
  · obtain ⟨x', read, matched⟩ := m.atSign (p := p.advance '@') between
    refine ⟨p.advance '@', [⟨[], ['@']⟩], x', ['@'], tokens, ?_, ?_, rfl, by decide⟩
    · rw [single, read]
      rfl
    · simpa [step, stroke, between] using matched
  · refine m.resumes_write (q := p.advance '@') (.letter m.blank rfl (by decide)) (by decide)
      (by simp [step, stroke, between]) ?_
    have top := m.top_eq
    rw [single]
    unfold Scan.atSign
    cases clause : d.clause with
    | between => exact absurd clause between
    | header | value =>
      rw [Digest.top, clause] at top
      simp only [Spot.top_reader, top, Clause.constructs, List.cons_append, List.head?_cons]
      rfl

/-- A letter is read as a stroke. -/
theorem run_letter (m : d.Matches k r x w tokens) (visible : Text.isBlank c = false)
    (bare : c ≠ '\\' ∧ Text.isQuote c = false) (legal : Mark.of c ≠ .control)
    (unopened : ¬ ['/', '*'] <+: c :: rest)
    (sameAhead : c = ':' → Scan.opensBlock rest = Scan.opensBlock ahead) :
    Resumes (d.step (stroke (openAfter true k) ⟨r, [c]⟩) ahead) [c]
      ((x.reader p w.reverse tokens).run (c :: rest)) rest := by
  have own := Mark.char_of c
  have lone : (x.reader p w.reverse tokens).run (c :: rest) =
      ((x.reader p w.reverse tokens).single c rest).bind fun next => next.run rest :=
    Spot.run_lone bare.1 unopened
  cases marks : Mark.of c with
  | layout | space =>
    have gap : Scan.isGap c := by simp [Scan.isGap, marks]
    simp [Scan.isBlank_of_isGap gap] at visible
  | control => exact absurd marks legal
  | quote string =>
    rw [mark_of_eq_quote_iff] at marks
    have unquoted := bare.2
    simp only [Text.isQuote, Bool.or_eq_false_iff, decide_eq_false_iff_not] at unquoted
    simp [string?, unquoted] at marks
  | plain =>
    rw [lone]
    exact m.resumes_plain (.letter m.blank visible bare) marks
  | openBrace =>
    cases own '{' (by rw [marks]; rfl)
    obtain ⟨x', tokens', read, matched⟩ := m.openBrace (p := p.advance '{')
    refine resumes_mark (q := p.advance '{') matched rfl ?_
    simp only [lone, Scan.single, marks, Spot.advance_reader, read]
    rfl
  | closeBrace =>
    cases own '}' (by rw [marks]; rfl)
    obtain ⟨x', tokens', read, matched⟩ := m.closeBrace (p := p.advance '}')
    refine resumes_mark (q := p.advance '}') matched rfl ?_
    simp only [lone, Scan.single, marks, Spot.advance_reader, read]
    rfl
  | semicolon =>
    cases own ';' (by rw [marks]; rfl)
    obtain ⟨x', tokens', read, matched⟩ := m.semicolon (p := p.advance ';')
    refine resumes_mark (q := p.advance ';') matched rfl ?_
    simp only [lone, Scan.single, marks, Spot.advance_reader, read]
    rfl
  | colon =>
    cases own ':' (by rw [marks]; rfl)
    exact m.resumes_colon (sameAhead rfl)
  | atSign =>
    cases own '@' (by rw [marks]; rfl)
    rw [lone]
    exact m.resumes_atSign

end Letter

/-- Solid ink is read as a stroke. -/
theorem run_solid (m : d.Matches k r x w tokens) {ink : Text} (solid : Cell.Solid ⟨r, ink⟩)
    (legal : ∀ c ∈ ink.unescaped, Mark.of c ≠ .control) {rest ahead : Text}
    (unopened : ¬ ['/', '*'] <+: ink ++ rest)
    (sameAhead : ink = [':'] → Scan.opensBlock rest = Scan.opensBlock ahead) :
    Resumes (d.step (stroke (openAfter true k) ⟨r, ink⟩) ahead) ink
      ((x.reader p w.reverse tokens).run (ink ++ rest)) rest := by
  -- Longer ink is not divided, so it does nothing but be written.
  have written (several : 2 ≤ ink.length) {p' : Position}
      (read : (x.reader p w.reverse tokens).run (ink ++ rest) =
        (x.reader p' (ink.reverse ++ w.reverse) tokens).run rest) :
      Resumes (d.step (stroke (openAfter true k) ⟨r, ink⟩) ahead) ink
        ((x.reader p w.reverse tokens).run (ink ++ rest)) rest := by
    have notOne (c : Char) : ink ≠ [c] := by
      rintro rfl
      simp at several
    have unbraced : ¬ Cell.is isBrace ⟨[], ink⟩ := by
      intro isOne
      obtain ⟨c, one, -⟩ := Cell.exists_of_is isOne
      exact notOne c one
    exact m.resumes_write solid (not_or.mpr ⟨notOne ';', unbraced⟩)
      (step_write (by simp [stroke, notOne]) d ahead) read
  cases solid with
  | @letter _ c _ visible bare =>
    have allowed := legal c (by simp [Text.unescaped])
    exact m.run_letter visible bare allowed unopened fun isColon => sameAhead (by rw [isColon])
  | @string _ v q _ quotes closes =>
    obtain ⟨string, marks⟩ := Scan.mark_of_isQuote quotes
    have plain := (Scan.ne_of_quote marks).1
    rw [Text.unescaped_cons plain] at legal
    have read : ∃ p', (x.reader p w.reverse tokens).run (q :: (v ++ rest)) =
        (x.reader p' ((q :: v).reverse ++ w.reverse) tokens).run rest :=
      Spot.run_string marks closes (fun c member => legal c (List.mem_cons_of_mem q member)) rest
    obtain ⟨p', read⟩ := read
    refine written ?_ read
    have := List.length_pos_iff.mpr (closes.ne_nil (Text.mem_endMarks quotes))
    simp only [List.length_cons]
    omega
  | escape => exact written (by simp) (Spot.run_escape _ rest)

end Digest.Matches

end Stylesheet
