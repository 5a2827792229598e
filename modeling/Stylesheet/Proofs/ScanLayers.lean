import Stylesheet.Token.Scan

set_option autoImplicit false

namespace Stylesheet

namespace Mark

/-- The characters with a mark that is neither of control characters nor plain. -/
def marked : List Char := ['\n', '\t', '\x0b', '\x0c', ' ', '{', '}', ':', ';', '@', '"', '\'']

theorem of_cases (c : Char) : c ∈ marked ∨ Mark.of c = .control ∨ Mark.of c = .plain := by
  by_cases listed : c ∈ marked
  · exact .inl listed
  · right
    simp only [marked, List.mem_cons, List.not_mem_nil, or_false, not_or] at listed
    simp only [Mark.of, listed, decide_false, Bool.or_self, Bool.false_eq_true, ↓reduceIte]
    by_cases low : c.toNat < 0x20
    · exact .inl (if_pos low)
    · exact .inr (if_neg low)

/-- What holds for the marked characters and for the other two marks holds for all characters. -/
theorem forall_of {P : Char → Mark → Prop} (listed : ∀ c ∈ marked, P c (Mark.of c))
    (control : ∀ c, P c .control) (plain : ∀ c, P c .plain) (c : Char) : P c (Mark.of c) := by
  rcases of_cases c with own | isControl | isPlain
  · exact listed c own
  · rw [isControl]
    exact control c
  · rw [isPlain]
    exact plain c

theorem of_eq_quote {c : Char} {string : Construct} (marks : Mark.of c = .quote string) :
    string = .singleQuoted ∨ string = .doubleQuoted := by
  refine forall_of (P := fun _ mark => mark = .quote string → _) ?_ ?_ ?_ c marks
  · suffices (.doubleQuoted = string → _) ∧ (.singleQuoted = string → _) by simpa [marked, Mark.of]
    exact ⟨fun same => .inr same.symm, fun same => .inl same.symm⟩
  · simp
  · simp

/-- The character of a mark that only one character has. -/
def char? : Mark → Option Char
  | space => some ' '
  | openBrace => some '{'
  | closeBrace => some '}'
  | colon => some ':'
  | semicolon => some ';'
  | atSign => some '@'
  | layout | quote _ | control | plain => none

theorem char_of (c : Char) : ∀ d ∈ (Mark.of c).char?, c = d := by
  refine forall_of (P := fun c mark => ∀ d ∈ mark.char?, c = d) ?_ ?_ ?_ c
  · simp [marked, Mark.of, char?]
  · simp [char?]
  · simp [char?]

end Mark

namespace Token

/-- The number of open blocks after one more token. A brace that closes nothing does not count. -/
def nest (depth : Nat) : Token → Nat
  | rule _ _ | atBlock _ _ _ => depth + 1
  | close _ => depth - 1
  | _ => depth

def nesting (tokens : List Token) : Nat := tokens.foldl nest 0

end Token

namespace Scan

/-- One step of the reader, with the text that is left after it. -/
def step (s : Scan) : Text → Except ScanError (Scan × Text)
  | [] => .ok (s, [])
  | [c] => (s.single c []).map (·, [])
  | c :: d :: rest =>
    match s.pair? c d with
    | some next => .ok (next, rest)
    | none => (s.single c (d :: rest)).map (·, d :: rest)

def steps : Nat → Scan → Text → Except ScanError (Scan × Text)
  | 0, s, t => .ok (s, t)
  | n + 1, s, t => (s.step t).bind fun (next, rest) => steps n next rest

/-- Reading a text to its end takes at most one step for each character. -/
theorem run_eq_steps (s : Scan) (t : Text) (n : Nat) (enough : t.length ≤ n) :
    s.run t = (steps n s t).map Prod.fst := by
  induction n generalizing s t with
  | zero =>
    have empty : t = [] := List.length_eq_zero_iff.mp (Nat.le_zero.mp enough)
    subst empty
    rfl
  | succ n ih =>
    match t, enough with
    | [], _ =>
      have rest := ih s [] (Nat.zero_le n)
      simpa only [steps, step, Except.bind] using rest
    | [c], _ =>
      simp only [run, steps, step]
      cases s.single c [] with
      | error => rfl
      | ok next => exact ih next [] (Nat.zero_le n)
    | c :: d :: rest, enough =>
      simp only [List.length_cons] at enough
      simp only [run, steps, step]
      cases s.pair? c d with
      | some next => exact ih next rest (by omega)
      | none =>
        cases s.single c (d :: rest) with
        | error => rfl
        | ok next => exact ih next (d :: rest) (by simp only [List.length_cons]; omega)

/-- The open constructs of a state, and what it keeps for them. From the outside these are blocks,
then at most one at-rule or value, then at most one string or comment. -/
structure Layered (s : Scan) (blocks : List Construct) (clause verbatim : Option Construct) :
    Prop where
  stack : s.frames.map Frame.construct = verbatim.toList ++ (clause.toList ++ blocks)
  inBlocks : ∀ c ∈ blocks, c.isBlock
  isClause : ∀ c ∈ clause, c = .header ∨ c = .value
  isVerbatim : ∀ c ∈ verbatim, c.isVerbatim
  valueInside : clause = some .value → blocks ≠ []
  asideIff : s.aside.isSome ↔ verbatim = some .comment
  valueKey : clause = some .value → s.key.isSome
  noKey : clause = none → s.key = none
  /-- The pending text is latest first, so it starts at its end. -/
  name : clause = some .header → s.key = none → (s.aside.getD s.pending).getLast? = some '@'
  depth : blocks.length = Token.nesting s.tokens.reverse

def WellFormed (s : Scan) : Prop := ∃ blocks clause verbatim, s.Layered blocks clause verbatim

theorem start_layered : start.Layered [] none none where
  stack := rfl
  inBlocks := by simp
  isClause := by simp
  isVerbatim := by simp
  valueInside := by simp
  asideIff := by decide
  valueKey := by simp
  noKey := fun _ => rfl
  name := by simp
  depth := rfl

namespace Layered

variable {s : Scan} {blocks : List Construct} {clause verbatim : Option Construct}

theorem top_eq (h : s.Layered blocks clause verbatim) :
    s.top = (verbatim.toList ++ (clause.toList ++ blocks)).head? := by
  rw [← h.stack, List.head?_map, top]

theorem noAside (h : s.Layered blocks clause none) : s.aside = none := by
  have missing := h.asideIff
  cases set : s.aside with
  | none => rfl
  | some text => simp [set] at missing

theorem advance (h : s.Layered blocks clause verbatim) (c : Char) :
    (s.advance c).Layered blocks clause verbatim := { h with }

theorem write (h : s.Layered blocks clause verbatim) (c : Char) :
    (s.write c).Layered blocks clause verbatim := by
  refine { h with name := ?_ }
  intro isHeader noKey
  have started := h.name isHeader noKey
  change (s.aside.getD (c :: s.pending)).getLast? = some '@'
  cases set : s.aside with
  | some text =>
    rw [set] at started
    exact started
  | none =>
    rw [set] at started
    change (c :: s.pending).getLast? = some '@'
    rw [List.getLast?_cons, show s.pending.getLast? = some '@' from started]
    rfl

theorem clear (h : s.Layered blocks none verbatim) : s.clear.Layered blocks none verbatim :=
  { h with name := by simp }

/-- Tokens that neither open nor close a block. -/
theorem emit (h : s.Layered blocks clause verbatim) {token : Token}
    (flat : ∀ depth, Token.nest depth token = depth) :
    (s.emit token).Layered blocks clause verbatim := by
  refine { h with depth := ?_ }
  rw [h.depth]
  simp [Scan.emit, Token.nesting, flat]

theorem leave_verbatim {string : Construct} (h : s.Layered blocks clause (some string))
    (kept : s.aside = none) : s.leave.Layered blocks clause none := by
  refine { h with stack := ?_, isVerbatim := by simp, asideIff := by simp [Scan.leave, kept] }
  change s.frames.tail.map Frame.construct = _
  rw [List.map_tail, h.stack]
  rfl

/-- Ends the clause that is being read, whatever text becomes pending. -/
theorem leave_clause {c : Construct} (h : s.Layered blocks (some c) none) (pending : Text) :
    ({ s with key := none, pending }.leave).Layered blocks none none := by
  refine { h with
    stack := ?_, isClause := by simp, valueInside := by simp, valueKey := by simp,
    noKey := fun _ => rfl, name := by simp }
  change s.frames.tail.map Frame.construct = _
  rw [List.map_tail, h.stack]
  rfl

theorem enter_block {token : Token} {c : Construct} (h : s.Layered blocks none none)
    (isBlock : c.isBlock) (opens : ∀ depth, Token.nest depth token = depth + 1) :
    ((s.emit token).enter c).Layered (c :: blocks) none none := by
  refine { h with stack := ?_, inBlocks := ?_, valueInside := by simp, depth := ?_ }
  · change c :: s.frames.map Frame.construct = _
    rw [h.stack]
    rfl
  · intro d member
    rcases List.mem_cons.mp member with rfl | outer
    · exact isBlock
    · exact h.inBlocks d outer
  · rw [List.length_cons, h.depth]
    simp [Scan.enter, Scan.emit, Token.nesting, opens]

theorem closeBlock (h : s.Layered blocks none none) :
    s.closeBlock.Layered blocks.tail none none := by
  have closes : Token.nesting (s.clear.emit (.close s.position.line)).tokens.reverse =
      blocks.length - 1 := by
    rw [h.depth]
    simp [Scan.clear, Scan.emit, Token.nesting, Token.nest]
  unfold Scan.closeBlock
  cases blocks with
  | nil =>
    have top : s.top = none := h.top_eq
    simp only [top, Option.any_none, Bool.false_eq_true, ↓reduceIte]
    exact { h.clear with depth := closes.symm }
  | cons b outer =>
    have top : s.top = some b := h.top_eq
    simp only [top, Option.any_some, h.inBlocks b List.mem_cons_self, ↓reduceIte]
    refine { h.clear with stack := ?_, inBlocks := ?_, valueInside := by simp, depth := ?_ }
    · change s.frames.tail.map Frame.construct = _
      rw [List.map_tail, h.stack]
      rfl
    · exact fun c member => h.inBlocks c (List.mem_cons_of_mem b member)
    · exact closes.symm

theorem startValue (h : s.Layered blocks none none) (inside : blocks ≠ []) :
    s.startValue.Layered blocks (some .value) none := by
  refine { h with
    stack := ?_, isClause := by simp, valueInside := fun _ => inside, valueKey := fun _ => rfl,
    noKey := by simp, name := by simp }
  change Construct.value :: s.frames.map Frame.construct = _
  rw [h.stack]
  rfl

theorem startHeader (h : s.Layered blocks none none) :
    ({ s with key := none, pending := ['@'] }.enter .header).Layered blocks
      (some .header) none := by
  refine { h with
    stack := ?_, isClause := by simp, valueInside := by simp, valueKey := by simp,
    noKey := by simp, name := ?_ }
  · change Construct.header :: s.frames.map Frame.construct = _
    rw [h.stack]
    rfl
  · intro _ _
    change (s.aside.getD ['@']).getLast? = some '@'
    rw [h.noAside]
    rfl

theorem enterString {string : Construct} (h : s.Layered blocks clause none)
    (isString : string = .singleQuoted ∨ string = .doubleQuoted) :
    (s.enter string).Layered blocks clause (some string) := by
  refine { h with stack := ?_, isVerbatim := ?_, asideIff := ?_ }
  · change string :: s.frames.map Frame.construct = _
    rw [h.stack]
    rfl
  · rintro c ⟨⟩
    rcases isString with rfl | rfl <;> rfl
  · change s.aside.isSome ↔ _
    rw [h.noAside]
    rcases isString with rfl | rfl <;> simp

theorem openComment (h : s.Layered blocks clause none) :
    s.openComment.Layered blocks clause (some .comment) := by
  refine { h with
    stack := ?_, isVerbatim := by simp [Construct.isVerbatim], asideIff := ?_, name := ?_ }
  · change Construct.comment :: s.frames.map Frame.construct = _
    rw [h.stack]
    rfl
  · simp [Scan.openComment, Scan.enter]
  · intro isHeader noKey
    have started := h.name isHeader noKey
    rw [h.noAside] at started
    exact started

theorem closeComment (h : s.Layered blocks clause (some .comment)) :
    s.closeComment.Layered blocks clause none := by
  have kept : (s.emit (.comment s.text s.position.line)).Layered blocks clause (some .comment) :=
    h.emit fun _ => rfl
  refine { kept with stack := ?_, isVerbatim := by simp, asideIff := ?_, name := ?_ }
  · change s.frames.tail.map Frame.construct = _
    rw [List.map_tail, h.stack]
    rfl
  · simp [Scan.closeComment, Scan.leave]
  · intro isHeader noKey
    have started := h.name isHeader noKey
    change (s.aside.getD []).getLast? = some '@'
    obtain ⟨text, set⟩ := Option.isSome_iff_exists.mp (h.asideIff.mpr rfl)
    rw [set] at started ⊢
    exact started

/-- What is innermost decides which layers there are. -/
theorem top_cases (h : s.Layered blocks clause verbatim) :
    (∃ v, verbatim = some v ∧ v.isVerbatim ∧ s.top = some v) ∨
    (verbatim = none ∧ clause = some .header ∧ s.top = some .header) ∨
    (verbatim = none ∧ clause = some .value ∧ s.top = some .value) ∨
    (verbatim = none ∧ clause = none ∧ s.top = blocks.head?) := by
  have top := h.top_eq
  cases verbatim with
  | some v => exact .inl ⟨v, rfl, h.isVerbatim v rfl, top⟩
  | none =>
    cases clause with
    | none => exact .inr (.inr (.inr ⟨rfl, rfl, top⟩))
    | some c =>
      rcases h.isClause c rfl with rfl | rfl
      · exact .inr (.inl ⟨rfl, rfl, top⟩)
      · exact .inr (.inr (.inl ⟨rfl, rfl, top⟩))

/-- Outside clauses, strings and comments the reader is in a block, or in none. -/
theorem top_block (h : s.Layered blocks none none) :
    s.top = none ∨ (s.top = some .rule ∨ s.top = some .atBlock) ∧ blocks ≠ [] := by
  have top := h.top_eq
  cases blocks with
  | nil => exact .inl top
  | cons b outer =>
    have isBlock := h.inBlocks b List.mem_cons_self
    cases b with
    | rule => exact .inr ⟨.inl top, by simp⟩
    | atBlock => exact .inr ⟨.inr top, by simp⟩
    | header | value | singleQuoted | doubleQuoted | comment => cases isBlock

theorem not_inVerbatim (h : s.Layered blocks clause verbatim) (outside : s.inVerbatim = false) :
    verbatim = none := by
  cases verbatim with
  | none => rfl
  | some v =>
    have top : s.top = some v := h.top_eq
    rw [Scan.inVerbatim, top, Option.any_some, h.isVerbatim v rfl] at outside
    cases outside

theorem top_comment (h : s.Layered blocks clause verbatim) (top : s.top = some .comment) :
    verbatim = some .comment := by
  rcases h.top_cases with ⟨v, rfl, -, isTop⟩ | ⟨-, -, isTop⟩ | ⟨-, -, isTop⟩ | ⟨rfl, rfl, -⟩
  · rw [← top, isTop]
  · rw [top] at isTop
    cases isTop
  · rw [top] at isTop
    cases isTop
  · rcases h.top_block with isTop | ⟨isTop | isTop, -⟩ <;> simp [top] at isTop

end Layered

namespace WellFormed

variable {s : Scan}

theorem advance (h : s.WellFormed) (c : Char) : (s.advance c).WellFormed := by
  obtain ⟨blocks, clause, verbatim, h⟩ := h
  exact ⟨_, _, _, h.advance c⟩

theorem write (h : s.WellFormed) (c : Char) : (s.write c).WellFormed := by
  obtain ⟨blocks, clause, verbatim, h⟩ := h
  exact ⟨_, _, _, h.write c⟩

theorem blank (h : s.WellFormed) : s.blank.WellFormed := by
  unfold Scan.blank
  split
  · rename_i ends
    obtain ⟨blocks, clause, verbatim, h⟩ := h
    simp only [Bool.and_eq_true, decide_eq_true_eq] at ends
    rcases h.top_cases with ⟨v, -, isVerbatim, top⟩ | ⟨rfl, rfl, -⟩ | ⟨-, -, top⟩ | ⟨rfl, rfl, -⟩
    · rw [ends.1] at top
      cases top
      cases isVerbatim
    · exact ⟨_, _, _, { h with valueKey := by simp, noKey := by simp, name := by simp }⟩
    · rw [ends.1] at top
      cases top
    · rcases h.top_block with top | ⟨top | top, -⟩ <;> simp [ends.1] at top
  · exact h.write ' '

theorem openBrace (h : s.WellFormed) : s.openBrace.WellFormed := by
  obtain ⟨blocks, clause, verbatim, h⟩ := h
  unfold Scan.openBrace
  rcases h.top_cases with ⟨v, rfl, isVerbatim, top⟩ | ⟨rfl, rfl, top⟩ | ⟨rfl, rfl, top⟩ |
    ⟨rfl, rfl, -⟩
  · cases v with
    | singleQuoted | doubleQuoted | comment =>
      rw [top]
      exact ⟨_, _, _, h.write '{'⟩
    | rule | atBlock | header | value => cases isVerbatim
  · rw [top]
    exact ⟨_, _, _, (h.leave_clause []).enter_block rfl fun _ => rfl⟩
  · rw [top]
    exact ⟨_, _, _, (h.leave_clause _).clear.enter_block rfl fun _ => rfl⟩
  · have entered : s.enterRule.WellFormed := ⟨_, _, _, h.clear.enter_block rfl fun _ => rfl⟩
    rcases h.top_block with top | ⟨top | top, -⟩ <;> rw [top] <;> exact entered

/-- After a clause, the reader is outside clauses. -/
theorem endClause (h : s.WellFormed) (outside : s.inVerbatim = false) :
    ∃ blocks, s.endClause.Layered blocks none none := by
  obtain ⟨blocks, clause, verbatim, h⟩ := h
  have noVerbatim := h.not_inVerbatim outside
  subst noVerbatim
  refine ⟨blocks, ?_⟩
  unfold Scan.endClause
  rcases h.top_cases with ⟨v, missing, -⟩ | ⟨-, rfl, top⟩ | ⟨-, rfl, top⟩ | ⟨-, rfl, -⟩
  · cases missing
  · rw [top]
    exact (h.leave_clause []).emit fun _ => rfl
  · rw [top]
    change s.endProperty.Layered blocks none none
    unfold Scan.endProperty
    dsimp only
    split
    · exact h.leave_clause []
    · exact (h.leave_clause []).emit fun _ => rfl
  · rcases h.top_block with top | ⟨top | top, -⟩ <;> rw [top] <;> exact h

theorem closeBrace (h : s.WellFormed) : s.closeBrace.WellFormed := by
  unfold Scan.closeBrace
  split
  · exact h.write '}'
  · rename_i outside
    obtain ⟨blocks, ended⟩ := h.endClause (by simpa using outside)
    exact ⟨_, _, _, ended.closeBlock⟩

theorem semicolon (h : s.WellFormed) : s.semicolon.WellFormed := by
  unfold Scan.semicolon
  split
  · exact h.write ';'
  · rename_i outside
    obtain ⟨blocks, ended⟩ := h.endClause (by simpa using outside)
    exact ⟨_, _, _, ended.clear⟩

theorem colon (h : s.WellFormed) (rest : Text) : (s.colon rest).WellFormed := by
  have written := h.write ':'
  obtain ⟨blocks, clause, verbatim, h⟩ := h
  unfold Scan.colon
  rcases h.top_cases with ⟨v, rfl, isVerbatim, top⟩ | ⟨rfl, rfl, top⟩ | ⟨rfl, rfl, top⟩ |
    ⟨rfl, rfl, -⟩
  · cases v with
    | singleQuoted | doubleQuoted | comment =>
      rw [top]
      exact written
    | rule | atBlock | header | value => cases isVerbatim
  · rw [top]
    exact written
  · rw [top]
    exact written
  · rcases h.top_block with top | ⟨top | top, inside⟩
    · rw [top]
      exact written
    · rw [top]
      exact ⟨_, _, _, h.startValue inside⟩
    · rw [top]
      dsimp only
      split
      · exact written
      · exact ⟨_, _, _, h.startValue inside⟩

theorem atSign (h : s.WellFormed) : s.atSign.WellFormed := by
  have written := h.write '@'
  obtain ⟨blocks, clause, verbatim, h⟩ := h
  unfold Scan.atSign
  rcases h.top_cases with ⟨v, rfl, isVerbatim, top⟩ | ⟨rfl, rfl, top⟩ | ⟨rfl, rfl, top⟩ |
    ⟨rfl, rfl, -⟩
  · cases v with
    | singleQuoted | doubleQuoted | comment =>
      rw [top]
      exact written
    | rule | atBlock | header | value => cases isVerbatim
  · rw [top]
    exact written
  · rw [top]
    exact written
  · rcases h.top_block with top | ⟨top | top, -⟩ <;> rw [top] <;> exact ⟨_, _, _, h.startHeader⟩

theorem quote (h : s.WellFormed) (c : Char) {string : Construct}
    (isString : string = .singleQuoted ∨ string = .doubleQuoted) :
    (s.quote c string).WellFormed := by
  have written := h.write c
  obtain ⟨blocks, clause, verbatim, h⟩ := h
  have inString (v : Construct) (h : s.Layered blocks clause (some v)) (other : v ≠ .comment) :
      (if s.top = some string then s.leave.write c else s.write c).WellFormed := by
    split
    · have kept : s.aside = none := by
        have missing := h.asideIff
        simpa [other] using missing
      exact ⟨_, _, _, (h.leave_verbatim kept).write c⟩
    · exact written
  unfold Scan.quote
  rcases h.top_cases with ⟨v, rfl, isVerbatim, top⟩ | ⟨rfl, rfl, top⟩ | ⟨rfl, rfl, top⟩ |
    ⟨rfl, rfl, -⟩
  · cases v with
    | singleQuoted | doubleQuoted =>
      simp only [top] at inString ⊢
      exact inString _ h (by simp)
    | comment =>
      rw [top]
      exact written
    | rule | atBlock | header | value => cases isVerbatim
  · rw [top]
    exact ⟨_, _, _, (h.enterString isString).write c⟩
  · rw [top]
    exact ⟨_, _, _, (h.enterString isString).write c⟩
  · rcases h.top_block with top | ⟨top | top, -⟩ <;> rw [top] <;>
      exact ⟨_, _, _, (h.enterString isString).write c⟩

end WellFormed

variable {s next : Scan} {c d : Char} {rest : Text}

/-- How one character is read on its own. Only a colon looks at what follows it. -/
inductive Lone (s : Scan) (rest : Text) : Char → Scan → Prop
  | layout {c : Char} (marks : Mark.of c = .layout) :
      Lone s rest c
        (if (s.advance c).inVerbatim then (s.advance c).write c else (s.advance c).blank)
  | space : Lone s rest ' ' (s.advance ' ').blank
  | openBrace : Lone s rest '{' (s.advance '{').openBrace
  | closeBrace : Lone s rest '}' (s.advance '}').closeBrace
  | colon : Lone s rest ':' ((s.advance ':').colon rest)
  | semicolon : Lone s rest ';' (s.advance ';').semicolon
  | atSign : Lone s rest '@' (s.advance '@').atSign
  | quote {c : Char} {string : Construct} (marks : Mark.of c = .quote string) :
      Lone s rest c ((s.advance c).quote c string)
  | plain {c : Char} (marks : Mark.of c = .plain) : Lone s rest c ((s.advance c).write c)

theorem lone_of_eq_ok (read : s.single c rest = .ok next) : s.Lone rest c next := by
  have own := Mark.char_of c
  unfold single at read
  dsimp only at read
  cases marks : Mark.of c with
  | layout => rw [marks] at read; cases read; exact .layout marks
  | space => rw [marks] at read own; cases own ' ' rfl; cases read; exact .space
  | openBrace => rw [marks] at read own; cases own '{' rfl; cases read; exact .openBrace
  | closeBrace => rw [marks] at read own; cases own '}' rfl; cases read; exact .closeBrace
  | colon => rw [marks] at read own; cases own ':' rfl; cases read; exact .colon
  | semicolon => rw [marks] at read own; cases own ';' rfl; cases read; exact .semicolon
  | atSign => rw [marks] at read own; cases own '@' rfl; cases read; exact .atSign
  | quote string => rw [marks] at read; cases read; exact .quote marks
  | control => rw [marks] at read; cases read
  | plain => rw [marks] at read; cases read; exact .plain marks

/-- How two characters are read together. -/
inductive Paired (s : Scan) : Char → Char → Scan → Prop
  | escape (d : Char) :
      Paired s '\\' d ((((s.advance '\\').advance d).write '\\').write d)
  | openComment (outside : s.inVerbatim = false) :
      Paired s '/' '*' ((s.advance '/').advance '*').openComment
  | closeComment (inside : s.top = some .comment) :
      Paired s '*' '/' ((s.advance '*').advance '/').closeComment

theorem paired_of_eq_some (pair : s.pair? c d = some next) : s.Paired c d next := by
  unfold pair? at pair
  dsimp only at pair
  split at pair
  · rename_i escape
    cases pair
    rw [escape]
    exact .escape d
  · split at pair
    · rename_i opens
      simp only [Bool.and_eq_true, decide_eq_true_eq, Bool.not_eq_true'] at opens
      obtain ⟨⟨rfl, rfl⟩, outside⟩ := opens
      cases pair
      exact .openComment outside
    · split at pair
      · rename_i closes
        simp only [Bool.and_eq_true, decide_eq_true_eq] at closes
        obtain ⟨⟨rfl, rfl⟩, inside⟩ := closes
        cases pair
        exact .closeComment inside
      · cases pair

theorem WellFormed.single (h : s.WellFormed) (read : s.single c rest = .ok next) :
    next.WellFormed := by
  have advanced := h.advance c
  cases lone_of_eq_ok read with
  | layout marks =>
    split
    · exact advanced.write c
    · exact advanced.blank
  | space => exact advanced.blank
  | openBrace => exact advanced.openBrace
  | closeBrace => exact advanced.closeBrace
  | colon => exact advanced.colon rest
  | semicolon => exact advanced.semicolon
  | atSign => exact advanced.atSign
  | quote marks => exact advanced.quote c (Mark.of_eq_quote marks)
  | plain marks => exact advanced.write c

theorem WellFormed.pair (h : s.WellFormed) (read : s.pair? c d = some next) :
    next.WellFormed := by
  have advanced := (h.advance c).advance d
  cases paired_of_eq_some read with
  | escape d => exact (advanced.write '\\').write d
  | openComment outside =>
    obtain ⟨blocks, clause, verbatim, advanced⟩ := advanced
    have noVerbatim := advanced.not_inVerbatim outside
    subst noVerbatim
    exact ⟨_, _, _, advanced.openComment⟩
  | closeComment inside =>
    obtain ⟨blocks, clause, verbatim, advanced⟩ := advanced
    have inComment := advanced.top_comment inside
    subst inComment
    exact ⟨_, _, _, advanced.closeComment⟩

theorem WellFormed.step (h : s.WellFormed) {t rest : Text} (read : s.step t = .ok (next, rest)) :
    next.WellFormed := by
  match t, read with
  | [], read =>
    cases read
    exact h
  | [c], read =>
    simp only [Scan.step] at read
    cases single : s.single c [] with
    | error => rw [single] at read; cases read
    | ok after => rw [single] at read; cases read; exact h.single single
  | c :: d :: more, read =>
    simp only [Scan.step] at read
    cases pair : s.pair? c d with
    | some after => rw [pair] at read; cases read; exact h.pair pair
    | none =>
      rw [pair] at read
      dsimp only at read
      cases single : s.single c (d :: more) with
      | error => rw [single] at read; cases read
      | ok after => rw [single] at read; cases read; exact h.single single

theorem WellFormed.steps (h : s.WellFormed) {n : Nat} {t rest : Text}
    (read : Scan.steps n s t = .ok (next, rest)) : next.WellFormed := by
  induction n generalizing s t with
  | zero =>
    cases read
    exact h
  | succ n ih =>
    rw [Scan.steps] at read
    cases first : s.step t with
    | error => rw [first] at read; cases read
    | ok after =>
      rw [first] at read
      exact ih (h.step first) read

/-- Where a key or text set aside is taken, there is one. -/
theorem WellFormed.taken (h : s.WellFormed) :
    (s.top = some .value → s.key.isSome) ∧ (s.top = some .comment → s.aside.isSome) := by
  obtain ⟨blocks, clause, verbatim, h⟩ := h
  constructor
  · intro top
    rcases h.top_cases with ⟨v, -, isVerbatim, isTop⟩ | ⟨-, -, isTop⟩ | ⟨-, rfl, -⟩ | ⟨rfl, rfl, -⟩
    · rw [top] at isTop
      cases isTop
      cases isVerbatim
    · rw [top] at isTop
      cases isTop
    · exact h.valueKey rfl
    · rcases h.top_block with isTop | ⟨isTop | isTop, -⟩ <;> simp [top] at isTop
  · intro top
    exact h.asideIff.mpr (h.top_comment top)

/-- Where a key is stored or text is set aside, there is none yet. -/
theorem WellFormed.stored (h : s.WellFormed) :
    (s.top.all Construct.isBlock → s.key = none) ∧ (s.inVerbatim = false → s.aside = none) := by
  obtain ⟨blocks, clause, verbatim, h⟩ := h
  constructor
  · intro inBlock
    rcases h.top_cases with ⟨v, -, isVerbatim, top⟩ | ⟨-, -, top⟩ | ⟨-, -, top⟩ | ⟨-, rfl, -⟩
    · rw [top] at inBlock
      cases v with
      | rule | atBlock | header | value => cases isVerbatim
      | singleQuoted | doubleQuoted | comment => cases inBlock
    · rw [top] at inBlock
      cases inBlock
    · rw [top] at inBlock
      cases inBlock
    · exact h.noKey rfl
  · intro outside
    have noVerbatim := h.not_inVerbatim outside
    subst noVerbatim
    exact h.noAside

/-- The reader is well-formed after every number of steps, and reading a text is a number of
steps. -/
theorem steps_wellFormed (source : Text) :
    start.run (Text.unifyLineEnds source) =
      (steps (Text.unifyLineEnds source).length start (Text.unifyLineEnds source)).map Prod.fst ∧
    ∀ n s rest, steps n start (Text.unifyLineEnds source) = .ok (s, rest) →
      s.WellFormed ∧
      (s.top = some .value → s.key.isSome) ∧ (s.top = some .comment → s.aside.isSome) ∧
      (s.top.all Construct.isBlock → s.key = none) ∧ (s.inVerbatim = false → s.aside = none) := by
  refine ⟨run_eq_steps _ _ _ (Nat.le_refl _), ?_⟩
  intro n s rest reached
  have formed := WellFormed.steps ⟨_, _, _, start_layered⟩ reached
  exact ⟨formed, formed.taken.1, formed.taken.2, formed.stored.1, formed.stored.2⟩

/-- A comment in an at-rule in the body of a rule. -/
theorem steps_wellFormed_comment :
    ∃ s rest,
      steps 5 start (Text.unifyLineEnds ['a', '{', '@', 'm', '/', '*', 'x']) = .ok (s, rest) ∧
      s.frames.map Frame.construct = [.comment, .header, .rule] ∧ s.WellFormed :=
  ⟨_, _, rfl, rfl,
    ((steps_wellFormed ['a', '{', '@', 'm', '/', '*', 'x']).2 5 _ _ rfl).1⟩

end Scan

end Stylesheet
