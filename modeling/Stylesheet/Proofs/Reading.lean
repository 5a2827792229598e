import Stylesheet.Proofs.Blanks
import Stylesheet.Proofs.ScanLayers

set_option autoImplicit false

namespace Stylesheet

def Token.unlined : Token → Token
  | rule selector _ => rule selector 0
  | atBlock name params _ => atBlock name params 0
  | statement name params _ => statement name params 0
  | property key value _ => property key value 0
  | comment text _ => comment text 0
  | close _ => close 0

namespace Scan

/-- Characters that stand for themselves wherever they are. -/
def isPlain (c : Char) : Bool :=
  Mark.of c = .plain && c ≠ '\\' && c ≠ '/' && c ≠ '*' && !Text.isBlank c

/-- Characters that read as a space outside strings and comments. -/
def isGap (c : Char) : Bool := Mark.of c = .layout || Mark.of c = .space

/-- Characters of a text in which a colon may stand. -/
def isRunning (c : Char) : Bool := isPlain c || isGap c || c = ':'

/-- A text as it becomes pending outside strings and comments. -/
def spaced (t : Text) : Text := t.map fun c => if isGap c then ' ' else c

@[simp] theorem spaced_nil : spaced [] = [] := rfl

@[simp] theorem spaced_append (t u : Text) :
    spaced (t ++ u) = spaced t ++ spaced u := List.map_append

@[simp] theorem spaced_cons (c : Char) (t : Text) :
    spaced (c :: t) = (if isGap c then ' ' else c) :: spaced t := rfl

theorem spaced_eq_self {t : Text} (single : ∀ c ∈ t, isGap c → c = ' ') : spaced t = t := by
  induction t with
  | nil => rfl
  | cons c t ih =>
    rw [spaced_cons, ih fun d member => single d (List.mem_cons_of_mem c member)]
    by_cases gap : isGap c
    · rw [if_pos gap, single c List.mem_cons_self gap]
    · rw [if_neg gap]

theorem isGap_iff (c : Char) :
    isGap c = true ↔ c = '\n' ∨ c = '\t' ∨ c = '\x0b' ∨ c = '\x0c' ∨ c = ' ' := by
  constructor
  · refine Mark.forall_of (P := fun c mark => (mark = .layout || mark = .space) = true →
      c = '\n' ∨ c = '\t' ∨ c = '\x0b' ∨ c = '\x0c' ∨ c = ' ') ?_ ?_ ?_ c
    · simp [Mark.marked, Mark.of]
    · simp
    · simp
  · rintro (rfl | rfl | rfl | rfl | rfl) <;> rfl

theorem isGap_of_isBlank {c : Char} (running : isRunning c) (isBlank : Text.isBlank c) :
    isGap c := by
  simp only [isRunning, isPlain, Bool.or_eq_true, Bool.and_eq_true, isBlank] at running
  rcases running with (⟨_, visible⟩ | gap) | colon
  · cases visible
  · exact gap
  · rw [of_decide_eq_true colon] at isBlank
    cases isBlank

/-- Whether a colon stands for itself. -/
def keepsColon (top : Option Construct) (rest : Text) : Bool :=
  match top with
  | some .rule => false
  | some .atBlock => opensBlock rest
  | _ => true

theorem colon_eq_write {s : Scan} {rest : Text} (keeps : keepsColon s.top rest) :
    s.colon rest = s.write ':' := by
  unfold colon
  unfold keepsColon at keeps
  split <;> simp_all

/-- A character that is not read together with the next one. -/
theorem run_cons_of_unpaired (s : Scan) (c : Char) (rest : Text)
    (unpaired : ∀ d, s.pair? c d = none) :
    s.run (c :: rest) = (s.single c rest).bind fun next => next.run rest := by
  cases rest with
  | nil =>
    simp only [run]
    cases s.single c [] <;> rfl
  | cons d rest =>
    simp only [run, unpaired d]
    cases s.single c (d :: rest) <;> rfl

/-- A character that is not the first one of a pair. -/
theorem run_cons (s : Scan) (c : Char) (rest : Text) (lone : c ≠ '\\' ∧ c ≠ '/' ∧ c ≠ '*') :
    s.run (c :: rest) = (s.single c rest).bind fun next => next.run rest := by
  obtain ⟨escape, slash, star⟩ := lone
  apply run_cons_of_unpaired
  intro d
  simp [pair?, escape, slash, star]

theorem run_plain (s : Scan) (c : Char) (rest : Text) (plain : isPlain c) :
    s.run (c :: rest) = ((s.advance c).write c).run rest := by
  simp only [isPlain, Bool.and_eq_true, decide_eq_true_eq] at plain
  obtain ⟨⟨⟨⟨marks, escape⟩, slash⟩, star⟩, _⟩ := plain
  rw [run_cons s c rest ⟨escape, slash, star⟩]
  simp only [single, marks, Except.bind]

theorem run_gap (s : Scan) (c : Char) (rest : Text) (gap : isGap c)
    (outside : s.inVerbatim = false) :
    s.run (c :: rest) = (s.advance c).blank.run rest := by
  have lone : c ≠ '\\' ∧ c ≠ '/' ∧ c ≠ '*' := by
    rcases (isGap_iff c).mp gap with rfl | rfl | rfl | rfl | rfl <;> decide
  have same : (s.advance c).inVerbatim = false := outside
  rw [run_cons s c rest lone]
  simp only [isGap, Bool.or_eq_true, decide_eq_true_eq] at gap
  rcases gap with marks | marks <;> simp [single, marks, Except.bind, same]

theorem run_colon (s : Scan) (rest : Text) (keeps : keepsColon s.top rest) :
    s.run (':' :: rest) = ((s.advance ':').write ':').run rest := by
  have same : keepsColon (s.advance ':').top rest := keeps
  rw [run_cons s ':' rest (by decide), single, show Mark.of ':' = .colon from rfl]
  simp only [Except.bind, colon_eq_write same]

/-- A running text becomes pending, if a space in it does not end the name of an at-rule. -/
theorem run_running (s : Scan) (t rest : Text) (running : ∀ c ∈ t, isRunning c)
    (outside : s.inVerbatim = false)
    (gaps : (∃ c ∈ t, isGap c) → ¬ (s.top = some .header ∧ s.key = none))
    (keeps : ∀ u v, t = u ++ ':' :: v → keepsColon s.top (v ++ rest)) :
    ∃ position, s.run (t ++ rest) =
      ({ s with position, pending := (spaced t).reverse ++ s.pending }).run rest := by
  induction t generalizing s with
  | nil => exact ⟨s.position, rfl⟩
  | cons c t ih =>
    have first := running c List.mem_cons_self
    have later : ∀ d ∈ t, isRunning d := fun d member => running d (List.mem_cons_of_mem c member)
    have step : s.run (c :: (t ++ rest)) =
        ((s.advance c).write (if isGap c then ' ' else c)).run (t ++ rest) := by
      by_cases gap : isGap c
      · rw [run_gap s c _ gap outside, if_pos gap, blank]
        have begun := gaps ⟨c, List.mem_cons_self, gap⟩
        have same :
            (decide ((s.advance c).top = some .header) && (s.advance c).key.isNone) = false := by
          change (decide (s.top = some .header) && s.key.isNone) = false
          simpa [Option.isSome_iff_ne_none] using begun
        rw [same]
        rfl
      · rw [if_neg gap]
        simp only [isRunning, Bool.or_eq_true, decide_eq_true_eq] at first
        rcases first with (plain | gapped) | rfl
        · exact run_plain s c _ plain
        · exact absurd gapped gap
        · exact run_colon s _ (keeps [] t rfl)
    obtain ⟨position, onward⟩ := ih ((s.advance c).write (if isGap c then ' ' else c)) later outside
      (fun ⟨d, member, gap⟩ => gaps ⟨d, List.mem_cons_of_mem c member, gap⟩)
      (fun u v split => keeps (c :: u) v (by rw [split]; rfl))
    refine ⟨position, ?_⟩
    rw [List.cons_append, step, onward]
    simp [Scan.write, Scan.advance]

/-- The reader between two entries: inside some blocks, after some tokens (latest first, without
their lines), with nothing but spaces pending. -/
structure Rests (blocks : List Construct) (tokens : List Token) (s : Scan) : Prop where
  pending : ∀ c ∈ s.pending, c = ' '
  key : s.key = none
  aside : s.aside = none
  frames : s.frames.map Frame.construct = blocks
  tokens : s.tokens.map Token.unlined = tokens

theorem start_rests : start.Rests [] [] := ⟨by simp [start], rfl, rfl, rfl, rfl⟩

namespace Rests

variable {s : Scan} {blocks : List Construct} {tokens : List Token}

theorem top_eq (h : s.Rests blocks tokens) : s.top = blocks.head? := by
  rw [← h.frames, List.head?_map, top]

theorem inVerbatim_eq (h : s.Rests blocks tokens) (inBlock : ∀ c ∈ blocks.head?, c.isBlock) :
    s.inVerbatim = false := by
  rw [Scan.inVerbatim, h.top_eq]
  cases first : blocks.head? with
  | none => rfl
  | some c =>
    have isBlock := inBlock c first
    cases c with
    | rule | atBlock => rfl
    | header | value | singleQuoted | doubleQuoted | comment => cases isBlock

theorem blank_pending (h : s.Rests blocks tokens) : ∀ c ∈ s.pending.reverse, Text.isBlank c := by
  intro c member
  rw [h.pending c (List.mem_reverse.mp member)]
  rfl

/-- The pending text after a running text is that text. -/
theorem text_eq (h : s.Rests blocks tokens) (t : Text) :
    Text.trim (t.reverse ++ s.pending).reverse = Text.trim t := by
  rw [List.reverse_append, List.reverse_reverse, Text.trim_append_of_blank_left h.blank_pending]

end Rests

theorem keepsColon_of_opensBlock {top : Option Construct} {rest : Text} (notRule : top ≠ some .rule)
    (opens : opensBlock rest) : keepsColon top rest := by
  unfold keepsColon
  split
  · exact absurd rfl notRule
  · exact opens
  · rfl

/-- A running text has no delimiter. -/
theorem find_running {t : Text} (running : ∀ c ∈ t, isRunning c) (rest : Text) :
    (t ++ rest).find? (fun c => c = ';' || c = '}' || c = '{') =
      rest.find? (fun c => c = ';' || c = '}' || c = '{') := by
  rw [List.find?_append, List.find?_eq_none.mpr, Option.none_or]
  intro c member delimiter
  have run := running c member
  simp only [Bool.or_eq_true, decide_eq_true_eq] at delimiter
  rcases delimiter with (rfl | rfl) | rfl <;> revert run <;> decide

theorem opensBlock_running {t : Text} (running : ∀ c ∈ t, isRunning c) (rest : Text) :
    opensBlock (t ++ '{' :: rest) = true := by
  simp [opensBlock, find_running running]

theorem opensBlock_value {t : Text} (running : ∀ c ∈ t, isRunning c) (rest : Text) :
    opensBlock (t ++ ';' :: rest) = false := by
  simp [opensBlock, find_running running]

namespace Rests

variable {s : Scan} {blocks : List Construct} {tokens : List Token}

theorem top_cases (h : s.Rests blocks tokens) (inBlock : ∀ c ∈ blocks.head?, c.isBlock) :
    s.top = none ∨ s.top = some .rule ∨ s.top = some .atBlock := by
  rw [h.top_eq]
  cases first : blocks.head? with
  | none => exact .inl rfl
  | some c =>
    have isBlock := inBlock c first
    cases c with
    | rule => exact .inr (.inl rfl)
    | atBlock => exact .inr (.inr rfl)
    | header | value | singleQuoted | doubleQuoted | comment => cases isBlock

theorem not_header (h : s.Rests blocks tokens) (inBlock : ∀ c ∈ blocks.head?, c.isBlock) :
    s.top ≠ some .header := by
  rcases h.top_cases inBlock with top | top | top <;> simp [top]

end Rests

theorem openBrace_eq_enterRule {s : Scan}
    (top : s.top = none ∨ s.top = some .rule ∨ s.top = some .atBlock) :
    s.openBrace = s.enterRule := by
  unfold openBrace
  rcases top with top | top | top <;> rw [top]

theorem run_openBrace (s : Scan) (rest : Text) :
    s.run ('{' :: rest) = (s.advance '{').openBrace.run rest := by
  rw [run_cons s '{' rest (by decide), single, show Mark.of '{' = .openBrace from rfl]
  rfl

theorem run_closeBrace (s : Scan) (rest : Text) :
    s.run ('}' :: rest) = (s.advance '}').closeBrace.run rest := by
  rw [run_cons s '}' rest (by decide), single, show Mark.of '}' = .closeBrace from rfl]
  rfl

theorem run_semicolon (s : Scan) (rest : Text) :
    s.run (';' :: rest) = (s.advance ';').semicolon.run rest := by
  rw [run_cons s ';' rest (by decide), single, show Mark.of ';' = .semicolon from rfl]
  rfl

theorem run_atSign (s : Scan) (rest : Text) :
    s.run ('@' :: rest) = (s.advance '@').atSign.run rest := by
  rw [run_cons s '@' rest (by decide), single, show Mark.of '@' = .atSign from rfl]
  rfl

theorem run_startValue (s : Scan) (rest : Text) (starts : keepsColon s.top rest = false) :
    s.run (':' :: rest) = (s.advance ':').startValue.run rest := by
  have begins : (s.advance ':').colon rest = (s.advance ':').startValue := by
    unfold colon
    change (match s.top with | some .rule => _ | some .atBlock => _ | _ => _) = _
    unfold keepsColon at starts
    split at starts <;> simp_all
  rw [run_cons s ':' rest (by decide), single, show Mark.of ':' = .colon from rfl]
  simp only [Except.bind, begins]

/-- A value is read up to its end, whatever is in it. -/
theorem run_value (s : Scan) (value rest : Text) (running : ∀ c ∈ value, isRunning c)
    (inValue : s.top = some .value) :
    ∃ position, s.run (value ++ rest) =
      ({ s with position, pending := (spaced value).reverse ++ s.pending }).run rest := by
  apply run_running s value rest running
  · simp [Scan.inVerbatim, inValue, Construct.isVerbatim]
  · simp [inValue]
  · intro u v _
    simp [inValue, keepsColon]

namespace Rests

variable {s : Scan} {blocks : List Construct} {tokens : List Token}

/-- A selector whose first colon starts a value, which the brace makes a part of the selector
again. -/
theorem openRule_of_colon (h : s.Rests blocks tokens) (inBlock : ∀ c ∈ blocks.head?, c.isBlock)
    (isRule : s.top = some .rule) {u v : Text} (first : ':' ∉ u)
    (running : ∀ c ∈ u ++ ':' :: v, isRunning c) (rest : Text) :
    ∃ next : Scan,
      next.Rests (.rule :: blocks) (.rule (Text.trim (spaced (u ++ ':' :: v))) 0 :: tokens) ∧
      s.run (u ++ ':' :: v ++ '{' :: rest) = next.run rest := by
  obtain ⟨position, read⟩ := run_running s u (':' :: (v ++ '{' :: rest))
    (fun c member => running c (by simp [member])) (h.inVerbatim_eq inBlock)
    (fun _ clash => h.not_header inBlock clash.1)
    (fun x y split => absurd (by simp [split]) first)
  let before : Scan := { s with position, pending := (spaced u).reverse ++ s.pending }
  have started := run_startValue before (v ++ '{' :: rest)
    (by
      simp [before, Scan.top, keepsColon,
        show s.frames.head?.map Frame.construct = _ from isRule])
  obtain ⟨after, readValue⟩ := run_value (before.advance ':').startValue v ('{' :: rest)
    (fun c member => running c (by simp [member])) rfl
  let value : Scan := { (before.advance ':').startValue with
    position := after, pending := (spaced v).reverse ++ [] }
  refine ⟨(value.advance '{').reclassify.enterRule, ?_, ?_⟩
  · refine ⟨by simp [Scan.enterRule, Scan.enter, Scan.emit, Scan.clear], rfl, h.aside, ?_, ?_⟩
    · change Construct.rule :: s.frames.map Frame.construct = _
      rw [h.frames]
    · have joined : (value.pending ++ ':' :: before.pending.reverse.reverse).reverse =
          ((spaced (u ++ ':' :: v)).reverse ++ s.pending).reverse := by
        simp [value, before, show isGap ':' = false from rfl]
      change Token.rule (Text.trim
          (value.pending ++ ':' :: before.pending.reverse.reverse).reverse) 0 ::
        s.tokens.map Token.unlined = _
      rw [joined, h.tokens, h.text_eq]
  · rw [List.append_assoc, List.cons_append, read, started, readValue, run_openBrace]
    rfl

/-- A selector whose colons start no values. -/
theorem openRule_of_keepsColon (h : s.Rests blocks tokens)
    (inBlock : ∀ c ∈ blocks.head?, c.isBlock) {selector : Text}
    (running : ∀ c ∈ selector, isRunning c) {rest : Text}
    (keeps : ∀ u v, selector = u ++ ':' :: v → keepsColon s.top (v ++ '{' :: rest)) :
    ∃ next : Scan, next.Rests (.rule :: blocks) (.rule (Text.trim (spaced selector)) 0 :: tokens) ∧
      s.run (selector ++ '{' :: rest) = next.run rest := by
  obtain ⟨position, read⟩ := run_running s selector ('{' :: rest) running (h.inVerbatim_eq inBlock)
    (fun _ clash => h.not_header inBlock clash.1) keeps
  let before : Scan := { s with position, pending := (spaced selector).reverse ++ s.pending }
  have entered : (before.advance '{').openBrace = (before.advance '{').enterRule :=
    openBrace_eq_enterRule (h.top_cases inBlock)
  refine ⟨(before.advance '{').enterRule, ?_, by rw [read, run_openBrace, entered]⟩
  refine ⟨by simp [Scan.enterRule, Scan.enter, Scan.emit, Scan.clear], h.key, h.aside, ?_, ?_⟩
  · change Construct.rule :: s.frames.map Frame.construct = _
    rw [h.frames]
  · change Token.rule (Text.trim before.pending.reverse) 0 :: s.tokens.map Token.unlined = _
    rw [h.tokens, h.text_eq]

/-- A selector and the brace after it. -/
theorem openRule (h : s.Rests blocks tokens) (inBlock : ∀ c ∈ blocks.head?, c.isBlock)
    {selector : Text} (running : ∀ c ∈ selector, isRunning c) (rest : Text) :
    ∃ next : Scan, next.Rests (.rule :: blocks) (.rule (Text.trim (spaced selector)) 0 :: tokens) ∧
      s.run (selector ++ '{' :: rest) = next.run rest := by
  by_cases inRule : s.top = some .rule ∧ ':' ∈ selector
  · obtain ⟨isRule, colon⟩ := inRule
    obtain ⟨u, v, rfl, first⟩ := List.eq_append_cons_of_mem colon
    exact h.openRule_of_colon inBlock isRule first running rest
  · refine h.openRule_of_keepsColon inBlock running fun u v split => ?_
    apply keepsColon_of_opensBlock
    · intro isRule
      exact inRule ⟨isRule, by simp [split]⟩
    · apply opensBlock_running
      intro c member
      exact running c (by simp [split, member])

/-- A blank between two entries. -/
theorem gap (h : s.Rests blocks tokens) (inBlock : ∀ c ∈ blocks.head?, c.isBlock) {c : Char}
    (isGap : isGap c) (rest : Text) :
    ∃ next : Scan, next.Rests blocks tokens ∧ s.run (c :: rest) = next.run rest := by
  refine ⟨(s.advance c).write ' ', ⟨?_, h.key, h.aside, h.frames, h.tokens⟩, ?_⟩
  · intro d member
    rcases List.mem_cons.mp member with rfl | older
    · rfl
    · exact h.pending d older
  · rw [run_gap s c rest isGap (h.inVerbatim_eq inBlock), blank, if_neg]
    have header := h.not_header inBlock
    change ¬ (decide (s.top = some .header) && s.key.isNone) = true
    simp [header]

/-- The brace at the end of a block. -/
theorem close {c : Construct} (h : s.Rests (c :: blocks) tokens) (isBlock : c.isBlock)
    (rest : Text) :
    ∃ next : Scan, next.Rests blocks (.close 0 :: tokens) ∧
      s.run ('}' :: rest) = next.run rest := by
  have inBlock : ∀ d ∈ (c :: blocks).head?, d.isBlock := by simp [isBlock]
  have topEq : (s.advance '}').top = some c := h.top_eq
  have ended : (s.advance '}').endClause = s.advance '}' := by
    unfold endClause
    rw [topEq]
    cases c <;> first | rfl | cases isBlock
  have closed : (s.advance '}').closeBrace =
      (((s.advance '}').clear.emit (.close (s.advance '}').position.line)).leave) := by
    have outside : (s.advance '}').inVerbatim = false := h.inVerbatim_eq inBlock
    rw [closeBrace, outside, ended]
    simp [closeBlock, topEq, isBlock]
  refine ⟨_, ⟨?_, ?_, ?_, ?_, ?_⟩, by rw [run_closeBrace, closed]⟩
  · simp [Scan.clear, Scan.emit, Scan.leave]
  · exact h.key
  · exact h.aside
  · change s.frames.tail.map Frame.construct = blocks
    rw [List.map_tail, h.frames, List.tail_cons]
  · change Token.close 0 :: s.tokens.map Token.unlined = _
    rw [h.tokens]

/-- A declaration whose value is read to its semicolon. -/
theorem declaration_of_value (h : s.Rests blocks tokens) (inBlock : ∀ c ∈ blocks.head?, c.isBlock)
    (inside : blocks ≠ []) {key value read rest : Text} (keyRuns : ∀ c ∈ key, isRunning c)
    (uncut : ':' ∉ key) (visible : Text.trim (spaced key) ≠ [])
    (ends : blocks.head? = some .atBlock → opensBlock (value ++ ';' :: rest) = false)
    (reads : ∀ s : Scan, s.top = some .value → ∃ position, s.run (value ++ ';' :: rest) =
      ({ s with position, pending := read.reverse ++ s.pending }).run (';' :: rest)) :
    ∃ next : Scan,
      next.Rests blocks (.property (Text.trim (spaced key)) (Text.trim read) 0 :: tokens) ∧
        s.run (key ++ ':' :: (value ++ ';' :: rest)) = next.run rest := by
  have header := h.not_header inBlock
  obtain ⟨position, readKey⟩ := run_running s key (':' :: (value ++ ';' :: rest)) keyRuns
    (h.inVerbatim_eq inBlock) (fun _ clash => header clash.1)
    (fun x y split => absurd (by simp [split]) uncut)
  let before : Scan := { s with position, pending := (spaced key).reverse ++ s.pending }
  have starts : keepsColon before.top (value ++ ';' :: rest) = false := by
    change keepsColon s.top _ = false
    rcases h.top_cases inBlock with top | top | top
    · rw [h.top_eq, List.head?_eq_none_iff] at top
      exact absurd top inside
    · rw [top]
      rfl
    · rw [top]
      exact ends (h.top_eq ▸ top)
  obtain ⟨after, readValue⟩ := reads (before.advance ':').startValue rfl
  let done : Scan := { (before.advance ':').startValue with
    position := after, pending := read.reverse ++ [] }
  have keyText : Text.trim ((done.advance ';').key.getD []) = Text.trim (spaced key) :=
    h.text_eq (spaced key)
  let next : Scan := ({ done.advance ';' with key := none, pending := [] }.leave).emit
    (.property (Text.trim (spaced key)) (done.advance ';').text (done.advance ';').position.line)
  have ended : (done.advance ';').semicolon = next.clear := by
    change (done.advance ';').endProperty.clear = _
    rw [endProperty, keyText]
    simp only [visible, ↓reduceIte, next]
  refine ⟨next.clear, ⟨?_, rfl, h.aside, h.frames, ?_⟩, ?_⟩
  · simp [Scan.clear]
  · change Token.property _ (Text.trim (read.reverse ++ []).reverse) 0 ::
      s.tokens.map Token.unlined = _
    rw [h.tokens, List.append_nil, List.reverse_reverse]
  · rw [readKey, run_startValue before _ starts, readValue, run_semicolon]
    exact congrArg (Scan.run · rest) ended

/-- A declaration without strings. -/
theorem declaration (h : s.Rests blocks tokens) (inBlock : ∀ c ∈ blocks.head?, c.isBlock)
    (inside : blocks ≠ []) {key value : Text} (keyRuns : ∀ c ∈ key, isRunning c)
    (uncut : ':' ∉ key) (visible : Text.trim (spaced key) ≠ [])
    (valueRuns : ∀ c ∈ value, isRunning c) (rest : Text) :
    ∃ next : Scan, next.Rests blocks
        (.property (Text.trim (spaced key)) (Text.trim (spaced value)) 0 :: tokens) ∧
      s.run (key ++ ':' :: (value ++ ';' :: rest)) = next.run rest :=
  h.declaration_of_value inBlock inside keyRuns uncut visible
    (fun _ => opensBlock_value valueRuns rest)
    (fun s inValue => run_value s value (';' :: rest) valueRuns inValue)

/-- An at-rule up to the delimiter after it. -/
theorem header (h : s.Rests blocks tokens) (inBlock : ∀ c ∈ blocks.head?, c.isBlock)
    {name params : Text} (nameRuns : ∀ c ∈ name, isRunning c ∧ isGap c = false)
    (paramsRun : ∀ c ∈ params, isRunning c) (apart : ∀ c ∈ params.head?, isGap c) (rest : Text) :
    ∃ next : Scan, s.run ('@' :: (name ++ (params ++ rest))) = next.run rest ∧
      next.headerParts = (Text.trim ('@' :: name), Text.trim (spaced params)) ∧
      next.aside = none ∧ next.tokens.map Token.unlined = tokens ∧
      next.frames.map Frame.construct = .header :: blocks := by
  have entered : (s.advance '@').atSign =
      { s.advance '@' with key := none, pending := ['@'] }.enter .header := by
    have sameTop : (s.advance '@').top = s.top := rfl
    rcases h.top_cases inBlock with top | top | top <;> simp only [atSign, sameTop, top]
  have unspaced : spaced name = name :=
    spaced_eq_self fun c member gap => by simp [(nameRuns c member).2] at gap
  let started : Scan := { s.advance '@' with key := none, pending := ['@'] }.enter .header
  obtain ⟨position, read⟩ := run_running started name (params ++ rest)
    (fun c member => (nameRuns c member).1) rfl
    (by
      rintro ⟨c, member, gap⟩
      simp [(nameRuns c member).2] at gap)
    (fun _ _ _ => rfl)
  rw [unspaced] at read
  let named : Scan := { started with position, pending := name.reverse ++ ['@'] }
  have framed : named.frames.map Frame.construct = .header :: blocks :=
    congrArg (Construct.header :: ·) h.frames
  have begun : s.run ('@' :: (name ++ (params ++ rest))) = named.run (params ++ rest) := by
    rw [run_atSign, entered, read]
    rfl
  cases params with
  | nil =>
    refine ⟨named, begun, ?_, h.aside, h.tokens, framed⟩
    change (Text.trim (name.reverse ++ ['@']).reverse, ([] : Text)) = _
    simp only [List.reverse_append, List.reverse_reverse, List.reverse_singleton,
      List.singleton_append]
    rfl
  | cons g params =>
    have isGap := apart g rfl
    let keyed : Scan := { named.advance g with
      key := some (name.reverse ++ ['@']).reverse, pending := [' '] }
    have ended : named.run (g :: (params ++ rest)) = keyed.run (params ++ rest) :=
      run_gap named g (params ++ rest) isGap rfl
    obtain ⟨after, readParams⟩ := run_running keyed params rest
      (fun c member => paramsRun c (List.mem_cons_of_mem g member)) rfl
      (fun _ clash => by cases clash.2) (fun _ _ _ => rfl)
    refine ⟨_, begun.trans (ended.trans readParams), ?_, h.aside, h.tokens, framed⟩
    change (Text.trim (name.reverse ++ ['@']).reverse,
      Text.trim ((spaced params).reverse ++ [' ']).reverse) = _
    simp only [List.reverse_append, List.reverse_reverse, List.reverse_singleton,
      List.singleton_append, spaced_cons, isGap, ↓reduceIte]

/-- An at-rule without a block. -/
theorem statement (h : s.Rests blocks tokens) (inBlock : ∀ c ∈ blocks.head?, c.isBlock)
    {name params : Text} (nameRuns : ∀ c ∈ name, isRunning c ∧ isGap c = false)
    (paramsRun : ∀ c ∈ params, isRunning c) (apart : ∀ c ∈ params.head?, isGap c) (rest : Text) :
    ∃ next : Scan, next.Rests blocks
        (.statement (Text.trim ('@' :: name)) (Text.trim (spaced params)) 0 :: tokens) ∧
      s.run ('@' :: (name ++ (params ++ ';' :: rest))) = next.run rest := by
  obtain ⟨before, read, parts, aside, older, framed⟩ :=
    h.header inBlock nameRuns paramsRun apart (';' :: rest)
  have isHeader : before.top = some .header := by
    rw [top, ← List.head?_map, framed, List.head?_cons]
  have ended : (before.advance ';').semicolon = (before.advance ';').endStatement.clear := by
    have sameTop : (before.advance ';').top = some .header := isHeader
    simp [semicolon, inVerbatim, endClause, sameTop, Construct.isVerbatim]
  refine ⟨_, ⟨?_, ?_, ?_, ?_, ?_⟩, by rw [read, run_semicolon, ended]⟩
  · simp [Scan.clear]
  · rfl
  · exact aside
  · change before.frames.tail.map Frame.construct = blocks
    rw [List.map_tail, framed, List.tail_cons]
  · change Token.statement before.headerParts.1 before.headerParts.2 0 ::
      before.tokens.map Token.unlined = _
    rw [parts, older]

/-- An at-rule and the brace after it. -/
theorem openAtBlock (h : s.Rests blocks tokens) (inBlock : ∀ c ∈ blocks.head?, c.isBlock)
    {name params : Text} (nameRuns : ∀ c ∈ name, isRunning c ∧ isGap c = false)
    (paramsRun : ∀ c ∈ params, isRunning c) (apart : ∀ c ∈ params.head?, isGap c) (rest : Text) :
    ∃ next : Scan, next.Rests (.atBlock :: blocks)
        (.atBlock (Text.trim ('@' :: name)) (Text.trim (spaced params)) 0 :: tokens) ∧
      s.run ('@' :: (name ++ (params ++ '{' :: rest))) = next.run rest := by
  obtain ⟨before, read, parts, aside, older, framed⟩ :=
    h.header inBlock nameRuns paramsRun apart ('{' :: rest)
  have isHeader : before.top = some .header := by
    rw [top, ← List.head?_map, framed, List.head?_cons]
  have opened : (before.advance '{').openBrace = (before.advance '{').enterAtBlock := by
    have sameTop : (before.advance '{').top = some .header := isHeader
    simp only [openBrace, sameTop]
  refine ⟨_, ⟨?_, ?_, ?_, ?_, ?_⟩, by rw [read, run_openBrace, opened]⟩
  · simp [Scan.enterAtBlock, Scan.emit, Scan.leave, Scan.enter]
  · rfl
  · exact aside
  · change Construct.atBlock :: before.frames.tail.map Frame.construct = _
    rw [List.map_tail, framed, List.tail_cons]
  · change Token.atBlock before.headerParts.1 before.headerParts.2 0 ::
      before.tokens.map Token.unlined = _
    rw [parts, older]

end Rests

/-- The characters of a comment that cannot end it and that the reader takes as they are. -/
def isRemark (c : Char) : Bool := Mark.of c ≠ .control && c ≠ '\\' && c ≠ '/'

/-- Inside a string or a comment a character stands for itself, unless it ends the string. -/
theorem single_verbatim (s : Scan) (c : Char) (rest : Text) {inside : Construct}
    (isTop : s.top = some inside) (isVerbatim : inside.isVerbatim)
    (legal : Mark.of c ≠ .control) (goesOn : Mark.of c ≠ .quote inside) :
    s.single c rest = .ok ((s.advance c).write c) := by
  have sameTop : (s.advance c).top = some inside := isTop
  have verbatim : (s.advance c).inVerbatim = true := by
    rw [inVerbatim, sameTop]
    exact isVerbatim
  have kinds : inside = .singleQuoted ∨ inside = .doubleQuoted ∨ inside = .comment := by
    cases inside <;> simp [Construct.isVerbatim] at isVerbatim ⊢
  have own := Mark.char_of c
  unfold single
  cases marks : Mark.of c with
  | layout => simp only [verbatim, ↓reduceIte]
  | space =>
    cases own ' ' (by rw [marks]; rfl)
    rcases kinds with rfl | rfl | rfl <;> simp [blank, sameTop]
  | openBrace =>
    cases own '{' (by rw [marks]; rfl)
    rcases kinds with rfl | rfl | rfl <;> simp only [openBrace, sameTop]
  | closeBrace =>
    cases own '}' (by rw [marks]; rfl)
    simp only [closeBrace, verbatim, ↓reduceIte]
  | colon =>
    cases own ':' (by rw [marks]; rfl)
    rcases kinds with rfl | rfl | rfl <;> simp only [colon, sameTop]
  | semicolon =>
    cases own ';' (by rw [marks]; rfl)
    simp only [semicolon, verbatim, ↓reduceIte]
  | atSign =>
    cases own '@' (by rw [marks]; rfl)
    rcases kinds with rfl | rfl | rfl <;> simp only [atSign, sameTop]
  | quote string =>
    have other : inside ≠ string := by
      rintro rfl
      exact goesOn marks
    rcases kinds with rfl | rfl | rfl <;> simp [quote, sameTop, other]
  | control => exact absurd marks legal
  | plain => rfl

theorem single_remark (s : Scan) (c : Char) (rest : Text) (inComment : s.top = some .comment)
    (legal : Mark.of c ≠ .control) : s.single c rest = .ok ((s.advance c).write c) := by
  refine single_verbatim s c rest inComment rfl legal fun marks => ?_
  rcases Mark.of_eq_quote marks with string | string <;> cases string

/-- The text of a comment becomes pending as it is, up to the mark that ends the comment. -/
theorem run_unclosed (s : Scan) {text : Text}
    (taken : ∀ c ∈ text, Mark.of c ≠ .control ∧ c ≠ '\\') (unclosed : ¬ ['*', '/'] <:+: text)
    (inComment : s.top = some .comment) (rest : Text) :
    ∃ position, s.run (text ++ '*' :: '/' :: rest) =
      ({ s with position, pending := text.reverse ++ s.pending }).run ('*' :: '/' :: rest) := by
  induction text generalizing s with
  | nil => exact ⟨s.position, rfl⟩
  | cons c text ih =>
    obtain ⟨legal, escape⟩ := taken c List.mem_cons_self
    have later : ∀ d ∈ text, Mark.of d ≠ .control ∧ d ≠ '\\' :=
      fun d member => taken d (List.mem_cons_of_mem c member)
    have inVerbatim : s.inVerbatim = true := by rw [Scan.inVerbatim, inComment]; rfl
    obtain ⟨d, more, next, goesOn⟩ :
        ∃ d more, text ++ '*' :: '/' :: rest = d :: more ∧ ¬ (c = '*' ∧ d = '/') := by
      cases text with
      | nil => exact ⟨'*', '/' :: rest, rfl, by simp⟩
      | cons d text =>
        refine ⟨d, text ++ '*' :: '/' :: rest, rfl, ?_⟩
        rintro ⟨rfl, rfl⟩
        exact unclosed ⟨[], text, rfl⟩
    have unpaired : s.pair? c d = none := by
      simp only [pair?, escape, inVerbatim, Bool.not_true, Bool.and_false, Bool.false_eq_true,
        ↓reduceIte, ← Bool.decide_and, goesOn, decide_false, Bool.false_and]
    obtain ⟨position, read⟩ := ih ((s.advance c).write c) later
      (fun closed => unclosed (closed.trans (List.suffix_cons c text).isInfix)) inComment
    refine ⟨position, ?_⟩
    have step : s.run (c :: d :: more) = ((s.advance c).write c).run (d :: more) := by
      simp only [run, unpaired, single_remark s c (d :: more) inComment legal]
    rw [List.cons_append, next, step, ← next, read]
    simp [Scan.write, Scan.advance]

/-- A comment becomes a token, and nothing else changes. -/
theorem run_comment (s : Scan) (outside : s.inVerbatim = false) {text : Text}
    (taken : ∀ c ∈ text, Mark.of c ≠ .control ∧ c ≠ '\\') (unclosed : ¬ ['*', '/'] <:+: text)
    (rest : Text) :
    ∃ position, s.run ('/' :: '*' :: (text ++ '*' :: '/' :: rest)) =
      Scan.run ⟨position, s.pending, s.key, none, s.frames,
        .comment (Text.trim text) position.line :: s.tokens⟩ rest := by
  let opened := ((s.advance '/').advance '*').openComment
  have opens : s.run ('/' :: '*' :: (text ++ '*' :: '/' :: rest)) =
      opened.run (text ++ '*' :: '/' :: rest) := by
    simp [run, pair?, outside, opened]
  obtain ⟨position, read⟩ := run_unclosed opened taken unclosed rfl rest
  let done : Scan := { opened with position, pending := text.reverse ++ [] }
  have closes : done.run ('*' :: '/' :: rest) =
      ((done.advance '*').advance '/').closeComment.run rest := by
    simp [run, pair?, show done.top = some .comment from rfl]
  have written : done.text = Text.trim text := by
    rw [Scan.text, show done.pending = text.reverse ++ [] from rfl, List.append_nil,
      List.reverse_reverse]
  refine ⟨(position.advance '*').advance '/', (opens.trans (read.trans closes)).trans ?_⟩
  rw [← written]
  rfl

/-- A comment between two entries. -/
theorem Rests.comment {s : Scan} {blocks : List Construct} {tokens : List Token}
    (h : s.Rests blocks tokens) (inBlock : ∀ c ∈ blocks.head?, c.isBlock) {text : Text}
    (taken : ∀ c ∈ text, Mark.of c ≠ .control ∧ c ≠ '\\') (unclosed : ¬ ['*', '/'] <:+: text)
    (rest : Text) :
    ∃ next : Scan, next.Rests blocks (.comment (Text.trim text) 0 :: tokens) ∧
      s.run ('/' :: '*' :: (text ++ '*' :: '/' :: rest)) = next.run rest := by
  obtain ⟨position, read⟩ := run_comment s (h.inVerbatim_eq inBlock) taken unclosed rest
  refine ⟨_, ?_, read⟩
  refine ⟨h.pending, h.key, rfl, h.frames, ?_⟩
  change Token.comment (Text.trim text) 0 :: s.tokens.map Token.unlined = _
  rw [h.tokens]

theorem taken_of_isRemark {c : Char} (remark : isRemark c) : Mark.of c ≠ .control ∧ c ≠ '\\' := by
  simp only [isRemark, Bool.and_eq_true, decide_eq_true_eq] at remark
  exact remark.1

theorem unclosed_of_isRemark {text : Text} (remark : ∀ c ∈ text, isRemark c) :
    ¬ ['*', '/'] <:+: text := by
  intro closed
  have slash := remark '/' (closed.subset (by simp))
  revert slash
  decide

/-- The reader takes a text inside a block, or outside all blocks, for some tokens, whatever
follows. -/
def ReadsAs (place : Option Construct) (tokens : List Token) (t : Text) : Prop :=
  ∀ ⦃s : Scan⦄ ⦃blocks : List Construct⦄ ⦃before : List Token⦄, s.Rests blocks before →
    (∀ c ∈ blocks.head?, c.isBlock) → blocks.head? = place → ∀ rest : Text,
      ∃ next : Scan, next.Rests blocks (tokens.reverse ++ before) ∧
        s.run (t ++ rest) = next.run rest

/-- The reader takes a text for the beginning of a block, whatever follows. -/
def OpensAs (construct : Construct) (token : Token) (t : Text) : Prop :=
  ∀ ⦃s : Scan⦄ ⦃blocks : List Construct⦄ ⦃before : List Token⦄, s.Rests blocks before →
    (∀ c ∈ blocks.head?, c.isBlock) → ∀ rest : Text,
      ∃ next : Scan, next.Rests (construct :: blocks) (token :: before) ∧
        s.run (t ++ rest) = next.run rest

namespace ReadsAs

variable {place : Option Construct} {tokens more : List Token} {t u : Text}

theorem nil : ReadsAs place [] [] := fun s _ _ h _ _ _ => ⟨s, h, rfl⟩

theorem gap {c : Char} (isGap : isGap c) : ReadsAs place [] [c] :=
  fun _ _ _ h inBlock _ rest => h.gap inBlock isGap rest

theorem append (first : ReadsAs place tokens t) (later : ReadsAs place more u) :
    ReadsAs place (tokens ++ more) (t ++ u) := by
  intro s blocks before h inBlock placed rest
  obtain ⟨between, rests, read⟩ := first h inBlock placed (u ++ rest)
  obtain ⟨next, done, readMore⟩ := later rests inBlock placed rest
  refine ⟨next, ?_, ?_⟩
  · rw [List.reverse_append, List.append_assoc]
    exact done
  · rw [List.append_assoc, read, readMore]

theorem gaps {t : Text} (gaps : ∀ c ∈ t, isGap c) : ReadsAs place [] t := by
  induction t with
  | nil => exact nil
  | cons c t ih =>
    obtain ⟨first, later⟩ := List.forall_mem_cons.mp gaps
    exact (gap first).append (ih later)

theorem comment {text : Text} (taken : ∀ c ∈ text, Mark.of c ≠ .control ∧ c ≠ '\\')
    (unclosed : ¬ ['*', '/'] <:+: text) :
    ReadsAs place [.comment (Text.trim text) 0] ('/' :: '*' :: (text ++ ['*', '/'])) := by
  intro s blocks before h inBlock placed rest
  simpa using h.comment inBlock taken unclosed rest

theorem block {construct : Construct} {token : Token} (opened : OpensAs construct token t)
    (isBlock : construct.isBlock) (inside : ReadsAs (some construct) tokens u) :
    ReadsAs place (token :: (tokens ++ [.close 0])) (t ++ (u ++ ['}'])) := by
  intro s blocks before h inBlock placed rest
  obtain ⟨within, withinRests, readOpening⟩ := opened h inBlock (u ++ '}' :: rest)
  obtain ⟨ending, endingRests, readInner⟩ :=
    inside withinRests (by simp [isBlock]) rfl ('}' :: rest)
  obtain ⟨next, done, readClose⟩ := endingRests.close isBlock rest
  refine ⟨next, ?_, ?_⟩
  · simpa using done
  · simpa using readOpening.trans (readInner.trans readClose)

end ReadsAs

end Scan

end Stylesheet
