import Mathlib.Data.List.Forall2
import Stylesheet.Proofs.Reading

set_option autoImplicit false

namespace Stylesheet

theorem Token.eq_of_unlined {t u : Token} (unlined : t.unlined = u.unlined)
    (line : t.line = u.line) : t = u := by
  cases t <;> cases u <;> simp_all [Token.unlined, Token.line]

/-- What two readers may differ in: which positions go together, and whether the body of a rule may
go with the body of an at-rule. -/
structure Gauge where
  positions : Position → Position → Prop
  crossed : Prop
  advance : ∀ {p q : Position}, positions p q → ∀ c : Char, positions (p.advance c) (q.advance c)

namespace Gauge

variable (g : Gauge)

def lines (m n : Nat) : Prop := ∃ p q, g.positions p q ∧ p.line = m ∧ q.line = n

/-- Tokens that differ in their lines at most. -/
structure Same (t u : Token) : Prop where
  unlined : t.unlined = u.unlined
  lines : g.lines t.line u.line

/-- Tokens, latest first, of which those after some others are the same. -/
def Since (before before' tokens tokens' : List Token) : Prop :=
  ∃ new new', tokens = new ++ before ∧ tokens' = new' ++ before' ∧ List.Forall₂ g.Same new new'

structure Fits (f f' : Frame) : Prop where
  lines : g.lines f.line f'.line
  construct : f.construct = f'.construct ∨
    g.crossed ∧ f.construct = .rule ∧ f'.construct = .atBlock

inductive Failure : ScanError → ScanError → Prop
  | control {c : Char} {p q : Position} (positions : g.positions p q) :
      Failure (.controlCharacter c p) (.controlCharacter c q)
  | unterminated {f f' : Frame} (fits : g.Fits f f') :
      Failure (.unterminated f.construct f.line) (.unterminated f'.construct f'.line)

variable {g} {before before' tokens tokens' : List Token}

theorem lines_of_positions {p q : Position} (positions : g.positions p q) :
    g.lines p.line q.line := ⟨p, q, positions, rfl, rfl⟩

theorem tops_of_fits {frames frames' : List Frame} (fits : List.Forall₂ g.Fits frames frames') :
    frames.head?.map Frame.construct = frames'.head?.map Frame.construct ∨
      g.crossed ∧ frames.head?.map Frame.construct = some .rule ∧
        frames'.head?.map Frame.construct = some .atBlock := by
  cases fits with
  | nil => exact .inl rfl
  | cons first rest =>
    simp only [List.head?_cons, Option.map_some, Option.some.injEq]
    exact first.construct

theorem tail_fits {frames frames' : List Frame} (fits : List.Forall₂ g.Fits frames frames') :
    List.Forall₂ g.Fits frames.tail frames'.tail := by
  cases fits with
  | nil => exact .nil
  | cons first rest => exact rest

theorem Since.refl (before before' : List Token) : g.Since before before' before before' :=
  ⟨[], [], rfl, rfl, .nil⟩

theorem Since.emit (since : g.Since before before' tokens tokens') {t u : Token}
    (unlined : t.unlined = u.unlined) (lines : g.lines t.line u.line) :
    g.Since before before' (t :: tokens) (u :: tokens') := by
  obtain ⟨new, new', rfl, rfl, same⟩ := since
  exact ⟨t :: new, u :: new', rfl, rfl, .cons ⟨unlined, lines⟩ same⟩

end Gauge

/-- Two computations concur if they succeed with results that go together, or fail with errors
that do. -/
inductive Concur {α β : Type} (E : ScanError → ScanError → Prop) (R : α → β → Prop) :
    Except ScanError α → Except ScanError β → Prop
  | ok {a : α} {b : β} (related : R a b) : Concur E R (.ok a) (.ok b)
  | error {e f : ScanError} (related : E e f) : Concur E R (.error e) (.error f)

theorem Concur.bind {α β γ δ : Type} {E : ScanError → ScanError → Prop} {R : α → β → Prop}
    {S : γ → δ → Prop} {x : Except ScanError α} {y : Except ScanError β}
    {f : α → Except ScanError γ} {h : β → Except ScanError δ} (first : Concur E R x y)
    (later : ∀ a b, R a b → Concur E S (f a) (h b)) : Concur E S (x.bind f) (y.bind h) := by
  cases first with
  | ok related => exact later _ _ related
  | error related => exact .error related

theorem Concur.imp {α β : Type} {E : ScanError → ScanError → Prop} {R S : α → β → Prop}
    {x : Except ScanError α} {y : Except ScanError β} (concur : Concur E R x y)
    (weaker : ∀ a b, x = .ok a → R a b → S a b) : Concur E S x y := by
  cases concur with
  | ok related => exact .ok (weaker _ _ rfl related)
  | error related => exact .error related

theorem Concur.ok_or_error {α β : Type} {E : ScanError → ScanError → Prop} {R : α → β → Prop}
    {x : Except ScanError α} {y : Except ScanError β} (concur : Concur E R x y) :
    (∃ a b, x = .ok a ∧ y = .ok b ∧ R a b) ∨ ∃ e f, x = .error e ∧ y = .error f ∧ E e f := by
  cases concur with
  | ok related => exact .inl ⟨_, _, rfl, rfl, related⟩
  | error related => exact .inr ⟨_, _, rfl, rfl, related⟩

theorem optionRel_imp {α β : Type} {R S : α → β → Prop} {x : Option α} {y : Option β}
    (related : Option.Rel R x y) (weaker : ∀ a b, x = some a → R a b → S a b) :
    Option.Rel S x y := by
  cases related with
  | none => exact .none
  | some related => exact .some (weaker _ _ rfl related)

namespace Scan

/-- What goes together before each step goes together at the end. -/
theorem concur_run {E : ScanError → ScanError → Prop} {R : Text → Scan → Scan → Prop}
    (pair : ∀ {c d : Char} {rest : Text} {s s' : Scan}, R (c :: d :: rest) s s' →
      Option.Rel (R rest) (s.pair? c d) (s'.pair? c d))
    (single : ∀ {c : Char} {rest : Text} {s s' : Scan}, R (c :: rest) s s' →
      (∀ d ∈ rest.head?, s.pair? c d = none) →
      Concur E (R rest) (s.single c rest) (s'.single c rest))
    {t : Text} {s s' : Scan} (related : R t s s') :
    Concur E (R []) (s.run t) (s'.run t) := by
  induction s, t using run.induct generalizing s' with
  | case1 s => exact .ok related
  | case2 s c => exact single related (by simp)
  | case3 s c d rest next paired ih =>
    have both := pair related
    rw [paired] at both
    rw [run, run, paired]
    generalize s'.pair? c d = paired' at both ⊢
    cases both with
    | some related => exact ih related
  | case4 s c d rest unpaired error failed =>
    have both := pair related
    have taken := single related (by simpa using unpaired)
    rw [unpaired] at both
    rw [failed] at taken
    simp only [run, unpaired, failed]
    generalize s'.pair? c d = unpaired' at both ⊢
    generalize s'.single c (d :: rest) = failed' at taken ⊢
    cases both with
    | none =>
      cases taken with
      | error related => exact .error related
  | case5 s c d rest unpaired next read ih =>
    have both := pair related
    have taken := single related (by simpa using unpaired)
    rw [unpaired] at both
    rw [read] at taken
    simp only [run, unpaired, read]
    generalize s'.pair? c d = unpaired' at both ⊢
    generalize s'.single c (d :: rest) = read' at taken ⊢
    cases both with
    | none =>
      cases taken with
      | ok related => exact ih related

end Scan

/-- What a reader keeps outside strings and comments. -/
structure Spot where
  key : Option Text
  frames : List Frame
  outside : ∀ f ∈ frames, f.construct.isVerbatim = false

namespace Spot

variable (x : Spot)

/-- A reader at a spot, outside strings and comments. -/
def reader (position : Position) (pending : Text) (tokens : List Token) : Scan :=
  ⟨position, pending, x.key, none, x.frames, tokens⟩

def top : Option Construct := x.frames.head?.map Frame.construct

/-- Whether the name of an at-rule is being read. -/
def isUnnamed : Bool := x.top = some .header && x.key.isNone

def enter (key : Option Text) (f : Frame) (bare : f.construct.isVerbatim = false) : Spot :=
  ⟨key, f :: x.frames, List.forall_mem_cons.mpr ⟨bare, x.outside⟩⟩

def leave (key : Option Text) : Spot :=
  ⟨key, x.frames.tail, fun f member => x.outside f (List.mem_of_mem_tail member)⟩

variable {x} {p : Position} {w : Text} {tokens : List Token}

@[simp] theorem top_reader : (x.reader p w tokens).top = x.top := rfl

theorem top_cases (x : Spot) :
    x.top = none ∨ x.top = some .rule ∨ x.top = some .atBlock ∨ x.top = some .header ∨
      x.top = some .value := by
  unfold top
  cases first : x.frames.head? with
  | none => exact .inl rfl
  | some f =>
    have bare := x.outside f (List.mem_of_mem_head? first)
    cases kind : f.construct with
    | rule | atBlock | header | value => simp [kind]
    | singleQuoted | doubleQuoted | comment => rw [kind] at bare; cases bare

theorem top_ne_of_isVerbatim (x : Spot) {c : Construct} (isVerbatim : c.isVerbatim) :
    x.top ≠ some c := by
  intro isTop
  rcases x.top_cases with top | top | top | top | top <;> rw [isTop] at top <;> cases top <;>
    cases isVerbatim

@[simp] theorem inVerbatim_reader : (x.reader p w tokens).inVerbatim = false := by
  rw [Scan.inVerbatim, top_reader]
  rcases x.top_cases with top | top | top | top | top <;> rw [top] <;> rfl

theorem advance_reader (c : Char) :
    (x.reader p w tokens).advance c = x.reader (p.advance c) w tokens := rfl

theorem blank_reader (named : x.isUnnamed = false) :
    (x.reader p w tokens).blank = x.reader p (' ' :: w) tokens := by
  have same : (decide ((x.reader p w tokens).top = some .header) &&
      (x.reader p w tokens).key.isNone) = x.isUnnamed := rfl
  rw [Scan.blank, same, named]
  rfl

/-- A spot in an at-rule once its name has been read. -/
def named (x : Spot) (name : Text) : Spot := { x with key := some name }

theorem blank_unnamed (unnamed : x.isUnnamed) :
    (x.reader p w tokens).blank = (x.named w.reverse).reader p [' '] tokens := by
  have same : (decide ((x.reader p w tokens).top = some .header) &&
      (x.reader p w tokens).key.isNone) = x.isUnnamed := rfl
  rw [Scan.blank, same, unnamed]
  rfl

theorem single_gap {c : Char} (gap : Scan.isGap c) (rest : Text) :
    (x.reader p w tokens).single c rest = .ok (x.reader (p.advance c) w tokens).blank := by
  simp only [Scan.isGap, Bool.or_eq_true, decide_eq_true_eq] at gap
  rcases gap with marks | marks
  · simp only [Scan.single, marks, advance_reader, inVerbatim_reader, Bool.false_eq_true,
      ↓reduceIte]
  · simp only [Scan.single, marks, advance_reader]

theorem single_quote {c : Char} {string : Construct} (marks : Mark.of c = .quote string)
    (rest : Text) :
    (x.reader p w tokens).single c rest = .ok
      ⟨p.advance c, c :: w, x.key, none, ⟨string, (p.advance c).line⟩ :: x.frames, tokens⟩ := by
  have begun : (x.reader (p.advance c) w tokens).quote c string =
      ((x.reader (p.advance c) w tokens).enter string).write c := by
    unfold Scan.quote
    rcases x.top_cases with top | top | top | top | top <;> simp only [top_reader, top]
  simp only [Scan.single, marks, advance_reader, begun]
  rfl

theorem single_plain {c : Char} (marks : Mark.of c = .plain) (rest : Text) :
    (x.reader p w tokens).single c rest = .ok (x.reader (p.advance c) (c :: w) tokens) := by
  simp only [Scan.single, marks]
  rfl

/-- A letter that opens no comment is read by itself. -/
theorem run_lone {c : Char} {rest : Text} (plain : c ≠ '\\')
    (unopened : ¬ ['/', '*'] <+: c :: rest) :
    (x.reader p w tokens).run (c :: rest) =
      ((x.reader p w tokens).single c rest).bind fun next => next.run rest := by
  cases rest with
  | nil =>
    rw [Scan.run]
    cases (x.reader p w tokens).single c [] <;> rfl
  | cons e rest =>
    have opens : ¬ (c = '/' ∧ e = '*') := by
      rintro ⟨rfl, rfl⟩
      exact unopened ⟨rest, rfl⟩
    have unpaired : (x.reader p w tokens).pair? c e = none := by
      have inComment := x.top_ne_of_isVerbatim (c := .comment) rfl
      simp [Scan.pair?, plain, opens, inComment, ← Bool.decide_and]
    rw [Scan.run, unpaired]
    cases (x.reader p w tokens).single c (e :: rest) <;> rfl

/-- Whether a reader at a spot is in no at-rule and in no value. -/
def isBetween (x : Spot) : Bool := x.top = none || x.top = some .rule || x.top = some .atBlock

theorem isBetween_iff :
    x.isBetween ↔ x.top = none ∨ x.top = some .rule ∨ x.top = some .atBlock := by
  simp only [isBetween, Bool.or_eq_true, decide_eq_true_eq, or_assoc]

theorem openBrace_between (between : x.isBetween) :
    (x.reader p w tokens).openBrace =
      (x.enter x.key ⟨.rule, p.line⟩ rfl).reader p []
        (.rule (Text.trim w.reverse) p.line :: tokens) := by
  unfold Scan.openBrace
  rcases isBetween_iff.mp between with top | top | top <;> simp only [top_reader, top] <;> rfl

/-- The name and the parameters of an at-rule that is being read. -/
def parts (x : Spot) (pending : Text) : Text × Text :=
  match x.key with
  | some name => (Text.trim name, Text.trim pending.reverse)
  | none => (Text.trim pending.reverse, [])

theorem openBrace_header (isTop : x.top = some .header) :
    (x.reader p w tokens).openBrace =
      ((x.leave none).enter none ⟨.atBlock, p.line⟩ rfl).reader p []
        (.atBlock (x.parts w).1 (x.parts w).2 p.line :: tokens) := by
  unfold Scan.openBrace
  simp only [top_reader, isTop]
  rfl

theorem openBrace_value (isTop : x.top = some .value) :
    (x.reader p w tokens).openBrace =
      ((x.leave none).enter none ⟨.rule, p.line⟩ rfl).reader p []
        (.rule (Text.trim (w ++ ':' :: (x.key.getD []).reverse).reverse) p.line :: tokens) := by
  unfold Scan.openBrace
  simp only [top_reader, isTop]
  rfl

theorem endClause_between (between : x.isBetween) :
    (x.reader p w tokens).endClause = x.reader p w tokens := by
  unfold Scan.endClause
  rcases isBetween_iff.mp between with top | top | top <;> simp only [top_reader, top]

theorem endClause_header (isTop : x.top = some .header) :
    (x.reader p w tokens).endClause =
      (x.leave none).reader p [] (.statement (x.parts w).1 (x.parts w).2 p.line :: tokens) := by
  unfold Scan.endClause
  simp only [top_reader, isTop]
  rfl

/-- The declaration that ends with a value, if it has a key. -/
def property (x : Spot) (pending : Text) (line : Nat) : List Token :=
  if Text.trim (x.key.getD []) = [] then []
  else [.property (Text.trim (x.key.getD [])) (Text.trim pending.reverse) line]

theorem endClause_value (isTop : x.top = some .value) :
    (x.reader p w tokens).endClause =
      (x.leave none).reader p [] (x.property w p.line ++ tokens) := by
  have ended : (x.reader p w tokens).endClause = (x.reader p w tokens).endProperty := by
    unfold Scan.endClause
    simp only [top_reader, isTop]
  have key : (x.reader p w tokens).key = x.key := rfl
  rw [ended, Scan.endProperty, property, key]
  by_cases empty : Text.trim (x.key.getD []) = []
  · rw [if_pos empty, if_pos empty]
    rfl
  · rw [if_neg empty, if_neg empty]
    rfl

theorem atSign_between (between : x.isBetween) :
    (x.reader p w tokens).atSign =
      (x.enter none ⟨.header, p.line⟩ rfl).reader p ['@'] tokens := by
  unfold Scan.atSign
  rcases isBetween_iff.mp between with top | top | top <;> simp only [top_reader, top] <;> rfl

end Spot

/-- Every state outside strings and comments is that of a reader at some spot. -/
theorem Scan.WellFormed.exists_spot {s : Scan} (formed : s.WellFormed)
    (outside : s.inVerbatim = false) :
    ∃ x : Spot, x.key = s.key ∧ x.frames = s.frames ∧
      s = x.reader s.position s.pending s.tokens := by
  have aside := formed.stored.2 outside
  obtain ⟨blocks, clause, verbatim, h⟩ := formed
  cases h.not_inVerbatim outside
  have bare : ∀ c ∈ s.frames.map Frame.construct, c.isVerbatim = false := by
    intro c member
    rw [h.stack] at member
    simp only [Option.toList_none, List.nil_append, List.mem_append, Option.mem_toList] at member
    rcases member with isClause | isBlock
    · rcases h.isClause c isClause with rfl | rfl <;> rfl
    · have := h.inBlocks c isBlock
      cases c <;> simp_all [Construct.isBlock, Construct.isVerbatim]
  refine ⟨⟨s.key, s.frames, fun f member => bare _ (List.mem_map_of_mem member)⟩, rfl, rfl, ?_⟩
  rw [Spot.reader, ← aside]

/-- Two readers at two spots, or in a string or a comment there. Of the pending text outside
comments, the second reader has an older part that the first one does not have. -/
inductive Abreast (g : Gauge) (x x' : Spot) (older : Text) (before before' : List Token) :
    Scan → Scan → Prop
  | outside {p q : Position} {w : Text} {tokens tokens' : List Token}
      (positions : g.positions p q) (since : g.Since before before' tokens tokens') :
      Abreast g x x' older before before' (x.reader p w tokens)
        (x'.reader q (w ++ older) tokens')
  | string {p q : Position} {w : Text} {tokens tokens' : List Token} {m n : Nat}
      {string : Construct} (positions : g.positions p q)
      (since : g.Since before before' tokens tokens') (lines : g.lines m n)
      (isString : string = .singleQuoted ∨ string = .doubleQuoted) :
      Abreast g x x' older before before'
        ⟨p, w, x.key, none, ⟨string, m⟩ :: x.frames, tokens⟩
        ⟨q, w ++ older, x'.key, none, ⟨string, n⟩ :: x'.frames, tokens'⟩
  | comment {p q : Position} {w aside : Text} {tokens tokens' : List Token} {m n : Nat}
      (positions : g.positions p q) (since : g.Since before before' tokens tokens')
      (lines : g.lines m n) :
      Abreast g x x' older before before'
        ⟨p, w, x.key, some aside, ⟨.comment, m⟩ :: x.frames, tokens⟩
        ⟨q, w, x'.key, some (aside ++ older), ⟨.comment, n⟩ :: x'.frames, tokens'⟩

/-- The characters that do something outside strings and comments. -/
def Mark.delimiters : List Char := ['{', '}', ':', ';', '@']

/-- What two readers that are abreast do with a character. -/
inductive Abreast.Taken (g : Gauge) (x x' : Spot) (older : Text) (before before' : List Token)
    (s s' : Scan) (c : Char) (rest : Text) : Prop
  | control {p q : Position} (positions : g.positions p q)
      (read : s.single c rest = .error (.controlCharacter c p))
      (read' : s'.single c rest = .error (.controlCharacter c q))
  | quiet {next next' : Scan} (read : s.single c rest = .ok next)
      (read' : s'.single c rest = .ok next')
      (abreast : Abreast g x x' older before before' next next')
  | delimiter {p q : Position} {w : Text} {tokens tokens' : List Token}
      (positions : g.positions p q) (since : g.Since before before' tokens tokens')
      (reader : s = x.reader p w tokens) (reader' : s' = x'.reader q (w ++ older) tokens')
      (acts : c ∈ Mark.delimiters ∨ Scan.isGap c ∧ (x.isUnnamed ∨ x'.isUnnamed))

namespace Abreast

open Scan (isGap)

variable {g : Gauge} {x x' : Spot} {older : Text} {before before' : List Token} {s s' : Scan}

variable {p q : Position} {w : Text} {tokens tokens' : List Token}

theorem advance_positions (positions : g.positions p q) (c d : Char) :
    g.positions ((p.advance c).advance d) ((q.advance c).advance d) :=
  g.advance (g.advance positions c) d

/-- Escapes and comment marks are read alike. -/
theorem pair (abreast : Abreast g x x' older before before' s s') (c d : Char) :
    Option.Rel (Abreast g x x' older before before') (s.pair? c d) (s'.pair? c d) := by
  unfold Scan.pair?
  by_cases escape : c = '\\'
  · simp only [escape, ↓reduceIte]
    cases abreast with
    | @outside p q w _ _ positions since =>
      exact .some (.outside (w := d :: '\\' :: w) (advance_positions positions _ _) since)
    | @string p q w _ _ m n _ positions since lines isString =>
      exact .some (.string (w := d :: '\\' :: w) (advance_positions positions _ _) since lines
        isString)
    | comment positions since lines =>
      exact .some (.comment (advance_positions positions _ _) since lines)
  · simp only [escape, ↓reduceIte]
    cases abreast with
    | outside positions since =>
      have inComment := x.top_ne_of_isVerbatim (c := .comment) rfl
      have inComment' := x'.top_ne_of_isVerbatim (c := .comment) rfl
      by_cases opens : c = '/' ∧ d = '*'
      · obtain ⟨rfl, rfl⟩ := opens
        simp only [Spot.inVerbatim_reader]
        have advanced := advance_positions positions '/' '*'
        exact .some (.comment advanced since (Gauge.lines_of_positions advanced))
      · simp [opens, inComment, inComment', ← Bool.decide_and]
    | string positions since lines isString =>
      rcases isString with rfl | rfl <;> simp [Scan.inVerbatim, Scan.top, Construct.isVerbatim]
    | comment positions since lines =>
      by_cases closes : c = '*' ∧ d = '/'
      · obtain ⟨rfl, rfl⟩ := closes
        have advanced := advance_positions positions '*' '/'
        exact .some (.outside advanced (since.emit rfl (Gauge.lines_of_positions advanced)))
      · simp [Scan.inVerbatim, Scan.top, Construct.isVerbatim, closes, ← Bool.decide_and]

theorem positions (abreast : Abreast g x x' older before before' s s') :
    g.positions s.position s'.position := by
  cases abreast <;> assumption

theorem since (abreast : Abreast g x x' older before before' s s') :
    g.Since before before' s.tokens s'.tokens := by
  cases abreast <;> assumption

theorem frames (abreast : Abreast g x x' older before before' s s')
    (fits : List.Forall₂ g.Fits x.frames x'.frames) : List.Forall₂ g.Fits s.frames s'.frames := by
  cases abreast with
  | outside => exact fits
  | string _ _ lines => exact .cons ⟨lines, .inl rfl⟩ fits
  | comment _ _ lines => exact .cons ⟨lines, .inl rfl⟩ fits

/-- At the end of a text, both readers have read the same tokens or have the same open. -/
theorem finish (abreast : Abreast g x x' older before before' s s')
    (fits : List.Forall₂ g.Fits x.frames x'.frames) :
    Concur g.Failure
      (fun tokens tokens' => ∃ new new', tokens = before.reverse ++ new ∧
        tokens' = before'.reverse ++ new' ∧ List.Forall₂ g.Same new new')
      s.finish s'.finish := by
  have frames := abreast.frames fits
  unfold Scan.finish
  generalize s.frames = opened at frames ⊢
  generalize s'.frames = opened' at frames ⊢
  cases frames with
  | nil =>
    obtain ⟨new, new', tokens, tokens', same⟩ := abreast.since
    refine .ok ⟨new.reverse, new'.reverse, ?_, ?_, List.rel_reverse same⟩
    · rw [tokens, List.reverse_append]
    · rw [tokens', List.reverse_append]
  | cons first rest => exact .error (.unterminated first)

/-- In a string or a comment, a character is written or ends the string. -/
theorem single_inside (abreast : Abreast g x x' older before before' s s')
    (inside : s.inVerbatim) {c : Char} (legal : Mark.of c ≠ .control) (rest : Text) :
    Taken g x x' older before before' s s' c rest := by
  cases abreast with
  | outside positions since => simp at inside
  | @string p q w tokens tokens' m n string positions since lines isString =>
    have isVerbatim : string.isVerbatim := by rcases isString with rfl | rfl <;> rfl
    by_cases ends : Mark.of c = .quote string
    · have ended (y : Spot) (p : Position) (w : Text) (n : Nat) (tokens : List Token) :
          Scan.single ⟨p, w, y.key, none, ⟨string, n⟩ :: y.frames, tokens⟩ c rest =
            .ok (y.reader (p.advance c) (c :: w) tokens) := by
        simp only [Scan.single, ends]
        rcases isString with rfl | rfl <;> rfl
      exact .quiet (ended x p w m tokens) (ended x' q (w ++ older) n tokens')
        (.outside (w := c :: w) (g.advance positions c) since)
    · exact .quiet (Scan.single_verbatim _ c rest rfl isVerbatim legal ends)
        (Scan.single_verbatim _ c rest rfl isVerbatim legal ends)
        (.string (w := c :: w) (g.advance positions c) since lines isString)
  | comment positions since lines =>
    exact .quiet (Scan.single_remark _ c rest rfl legal) (Scan.single_remark _ c rest rfl legal)
      (.comment (g.advance positions c) since lines)

/-- Outside strings and comments, a character is written, begins a string or delimits. -/
theorem single_outside (positions : g.positions p q) (since : g.Since before before' tokens tokens')
    {c : Char} (legal : Mark.of c ≠ .control) (rest : Text) :
    Taken g x x' older before before' (x.reader p w tokens) (x'.reader q (w ++ older) tokens') c
      rest := by
  have advanced := g.advance positions c
  have own := Mark.char_of c
  have acts (member : c ∈ Mark.delimiters) : Taken g x x' older before before'
      (x.reader p w tokens) (x'.reader q (w ++ older) tokens') c rest :=
    .delimiter positions since rfl rfl (.inl member)
  have blank (gap : isGap c) : Taken g x x' older before before'
      (x.reader p w tokens) (x'.reader q (w ++ older) tokens') c rest := by
    by_cases unnamed : x.isUnnamed ∨ x'.isUnnamed
    · exact .delimiter positions since rfl rfl (.inr ⟨gap, unnamed⟩)
    · simp only [not_or, Bool.not_eq_true] at unnamed
      refine .quiet (Spot.single_gap gap rest) (Spot.single_gap gap rest) ?_
      rw [Spot.blank_reader unnamed.1, Spot.blank_reader unnamed.2]
      exact .outside (w := ' ' :: w) advanced since
  cases marks : Mark.of c with
  | layout | space => exact blank (by simp [isGap, marks])
  | openBrace => cases own '{' (by rw [marks]; rfl); exact acts (by decide)
  | closeBrace => cases own '}' (by rw [marks]; rfl); exact acts (by decide)
  | colon => cases own ':' (by rw [marks]; rfl); exact acts (by decide)
  | semicolon => cases own ';' (by rw [marks]; rfl); exact acts (by decide)
  | atSign => cases own '@' (by rw [marks]; rfl); exact acts (by decide)
  | quote string =>
    exact .quiet (Spot.single_quote marks rest) (Spot.single_quote marks rest)
      (.string (w := c :: w) advanced since (Gauge.lines_of_positions advanced)
        (Mark.of_eq_quote marks))
  | control => exact absurd marks legal
  | plain =>
    exact .quiet (Spot.single_plain marks rest) (Spot.single_plain marks rest)
      (.outside (w := c :: w) advanced since)

theorem single (abreast : Abreast g x x' older before before' s s') (c : Char) (rest : Text) :
    Taken g x x' older before before' s s' c rest := by
  by_cases legal : Mark.of c = .control
  · refine .control (g.advance abreast.positions c) ?_ ?_ <;> simp only [Scan.single, legal] <;> rfl
  · by_cases inside : s.inVerbatim
    · exact abreast.single_inside inside legal rest
    · cases abreast with
      | outside positions since => exact single_outside positions since legal rest
      | string _ _ _ isString =>
        rcases isString with rfl | rfl <;> exact absurd rfl inside
      | comment => exact absurd rfl inside

end Abreast

/-- Spots at which two readers take delimiters alike. -/
structure Spot.Fits (g : Gauge) (x x' : Spot) : Prop where
  key : x.key = x'.key
  frames : List.Forall₂ g.Fits x.frames x'.frames

/-- Two readers at spots that fit, or in a string or a comment there. -/
def Alike (g : Gauge) (before before' : List Token) (s s' : Scan) : Prop :=
  ∃ x x', Spot.Fits g x x' ∧ Abreast g x x' [] before before' s s'

namespace Spot.Fits

open Scan (isGap opensBlock)

variable {g : Gauge} {x x' : Spot} {before before' : List Token} {p q : Position} {w : Text}
  {tokens tokens' : List Token}

theorem tops (fits : Fits g x x') :
    x.top = x'.top ∨ g.crossed ∧ x.top = some .rule ∧ x'.top = some .atBlock :=
  Gauge.tops_of_fits fits.frames

/-- Both readers are between clauses, in an at-rule or in a value. -/
theorem clause_cases (fits : Fits g x x') :
    (x.isBetween ∧ x'.isBetween) ∨ (x.top = some .header ∧ x'.top = some .header) ∨
      (x.top = some .value ∧ x'.top = some .value) := by
  rcases fits.tops with same | ⟨-, top, top'⟩
  · rw [isBetween_iff, isBetween_iff, ← same]
    rcases x.top_cases with top | top | top | top | top <;> simp [top]
  · exact .inl ⟨isBetween_iff.mpr (.inr (.inl top)), isBetween_iff.mpr (.inr (.inr top'))⟩

theorem parts (fits : Fits g x x') (w : Text) : x.parts w = x'.parts w := by
  unfold Spot.parts
  rw [fits.key]

theorem any_isBlock (fits : Fits g x x') :
    x.top.any Construct.isBlock = x'.top.any Construct.isBlock := by
  rcases fits.tops with same | ⟨-, top, top'⟩
  · rw [same]
  · rw [top, top']
    rfl

theorem enter (fits : Fits g x x') (key : Option Text) {c : Construct} {m n : Nat}
    (bare : c.isVerbatim = false) (lines : g.lines m n) :
    Fits g (x.enter key ⟨c, m⟩ bare) (x'.enter key ⟨c, n⟩ bare) :=
  ⟨rfl, .cons ⟨lines, .inl rfl⟩ fits.frames⟩

theorem leave (fits : Fits g x x') (key : Option Text) : Fits g (x.leave key) (x'.leave key) :=
  ⟨rfl, Gauge.tail_fits fits.frames⟩

theorem alike (fits : Fits g x x') (positions : g.positions p q)
    (since : g.Since before before' tokens tokens') (w : Text) :
    Alike g before before' (x.reader p w tokens) (x'.reader q w tokens') := by
  refine ⟨x, x', fits, ?_⟩
  have abreast : Abreast g x x' [] before before' (x.reader p w tokens)
      (x'.reader q (w ++ []) tokens') := .outside positions since
  rwa [List.append_nil] at abreast

theorem openBrace (fits : Fits g x x') (positions : g.positions p q)
    (since : g.Since before before' tokens tokens') :
    Alike g before before' (x.reader p w tokens).openBrace (x'.reader q w tokens').openBrace := by
  have lines := Gauge.lines_of_positions positions
  rcases fits.clause_cases with ⟨between, between'⟩ | ⟨top, top'⟩ | ⟨top, top'⟩
  · rw [openBrace_between between, openBrace_between between', fits.key]
    apply alike _ positions
    · exact since.emit rfl lines
    · exact fits.enter _ rfl lines
  · rw [openBrace_header top, openBrace_header top', fits.parts]
    apply alike _ positions
    · exact since.emit rfl lines
    · exact (fits.leave none).enter none rfl lines
  · rw [openBrace_value top, openBrace_value top', fits.key]
    apply alike _ positions
    · exact since.emit rfl lines
    · exact (fits.leave none).enter none rfl lines

/-- What is left when a clause ends is at spots that fit. -/
theorem endClause (fits : Fits g x x') (positions : g.positions p q)
    (since : g.Since before before' tokens tokens') :
    ∃ y y' v more more', Fits g y y' ∧ g.Since before before' more more' ∧
      (x.reader p w tokens).endClause = y.reader p v more ∧
      (x'.reader q w tokens').endClause = y'.reader q v more' := by
  have lines := Gauge.lines_of_positions positions
  rcases fits.clause_cases with ⟨between, between'⟩ | ⟨top, top'⟩ | ⟨top, top'⟩
  · exact ⟨x, x', w, tokens, tokens', fits, since, endClause_between between,
      endClause_between between'⟩
  · refine ⟨x.leave none, x'.leave none, [], _, _, fits.leave none, ?_, endClause_header top,
      endClause_header top'⟩
    rw [fits.parts]
    exact since.emit rfl lines
  · refine ⟨x.leave none, x'.leave none, [], _, _, fits.leave none, ?_, endClause_value top,
      endClause_value top'⟩
    unfold property
    rw [fits.key]
    split
    · exact since
    · exact since.emit rfl lines

theorem closeBlock (fits : Fits g x x') (positions : g.positions p q)
    (since : g.Since before before' tokens tokens') :
    Alike g before before' (x.reader p w tokens).closeBlock (x'.reader q w tokens').closeBlock := by
  have closed : g.Since before before' (.close p.line :: tokens) (.close q.line :: tokens') :=
    since.emit rfl (Gauge.lines_of_positions positions)
  have left : Fits g (x.leave x.key) (x'.leave x'.key) := by
    rw [fits.key]
    exact fits.leave _
  by_cases inBlock : x.top.any Construct.isBlock
  · have inBlock' := fits.any_isBlock.symm.trans inBlock
    simp only [Scan.closeBlock, top_reader, inBlock, inBlock', ↓reduceIte]
    exact left.alike positions closed []
  · have inBlock' : ¬ x'.top.any Construct.isBlock := fits.any_isBlock ▸ inBlock
    simp only [Scan.closeBlock, top_reader, inBlock, inBlock']
    exact fits.alike positions closed []

theorem closeBrace (fits : Fits g x x') (positions : g.positions p q)
    (since : g.Since before before' tokens tokens') :
    Alike g before before' (x.reader p w tokens).closeBrace (x'.reader q w tokens').closeBrace := by
  obtain ⟨y, y', v, more, more', ended, since, read, read'⟩ :=
    fits.endClause (w := w) positions since
  simp only [Scan.closeBrace, inVerbatim_reader, Bool.false_eq_true, ↓reduceIte, read, read']
  exact ended.closeBlock positions since

theorem semicolon (fits : Fits g x x') (positions : g.positions p q)
    (since : g.Since before before' tokens tokens') :
    Alike g before before' (x.reader p w tokens).semicolon (x'.reader q w tokens').semicolon := by
  obtain ⟨y, y', v, more, more', ended, since, read, read'⟩ :=
    fits.endClause (w := w) positions since
  simp only [Scan.semicolon, inVerbatim_reader, Bool.false_eq_true, ↓reduceIte, read, read']
  exact ended.alike positions since []

theorem atSign (fits : Fits g x x') (positions : g.positions p q)
    (since : g.Since before before' tokens tokens') :
    Alike g before before' (x.reader p w tokens).atSign (x'.reader q w tokens').atSign := by
  have lines := Gauge.lines_of_positions positions
  rcases fits.clause_cases with ⟨between, between'⟩ | ⟨top, top'⟩ | ⟨top, top'⟩
  · rw [atSign_between between, atSign_between between']
    apply alike _ positions since
    exact fits.enter none rfl lines
  · simp only [Scan.atSign, top_reader, top, top']
    exact fits.alike positions since ('@' :: w)
  · simp only [Scan.atSign, top_reader, top, top']
    exact fits.alike positions since ('@' :: w)

theorem startValue (fits : Fits g x x') (positions : g.positions p q)
    (since : g.Since before before' tokens tokens') :
    Alike g before before' (x.reader p w tokens).startValue (x'.reader q w tokens').startValue :=
  alike (fits.enter (some w.reverse) rfl (Gauge.lines_of_positions positions)) positions since []

theorem colon (fits : Fits g x x') (positions : g.positions p q)
    (since : g.Since before before' tokens tokens') {rest : Text}
    (settled : x.top = x'.top ∨ opensBlock rest = false) :
    Alike g before before' ((x.reader p w tokens).colon rest)
      ((x'.reader q w tokens').colon rest) := by
  have started := fits.startValue (w := w) positions since
  have written := fits.alike positions since (':' :: w)
  rcases fits.tops with same | ⟨-, top, top'⟩
  · unfold Scan.colon
    simp only [top_reader, ← same]
    rcases x.top_cases with top | top | top | top | top <;> simp only [top]
    · exact written
    · exact started
    · split
      · exact written
      · exact started
    · exact written
    · exact written
  · have decided : opensBlock rest = false := by
      rcases settled with same | decided
      · rw [same, top'] at top
        cases top
      · exact decided
    simp only [Scan.colon, top_reader, top, top', decided, Bool.false_eq_true, ↓reduceIte]
    exact started

/-- The blank after the name of an at-rule. -/
theorem blank (fits : Fits g x x') (positions : g.positions p q)
    (since : g.Since before before' tokens tokens') :
    Alike g before before' (x.reader p w tokens).blank (x'.reader q w tokens').blank := by
  have same : x.isUnnamed = x'.isUnnamed := by
    unfold isUnnamed
    rcases fits.tops with same | ⟨-, top, top'⟩
    · rw [same, fits.key]
    · simp [top, top']
  by_cases unnamed : x.isUnnamed
  · rw [blank_unnamed unnamed, blank_unnamed (same ▸ unnamed)]
    apply alike _ positions since
    exact ⟨rfl, fits.frames⟩
  · simp only [Bool.not_eq_true] at unnamed
    rw [blank_reader unnamed, blank_reader (same ▸ unnamed)]
    exact fits.alike positions since (' ' :: w)

/-- Both readers take a delimiter alike, unless a colon may mean different things to them. -/
theorem single (fits : Fits g x x') (positions : g.positions p q)
    (since : g.Since before before' tokens tokens') {c : Char} {rest : Text}
    (acts : c ∈ Mark.delimiters ∨ isGap c)
    (settled : c = ':' → x.top = x'.top ∨ opensBlock rest = false) :
    Concur g.Failure (Alike g before before') ((x.reader p w tokens).single c rest)
      ((x'.reader q w tokens').single c rest) := by
  have advanced := g.advance positions c
  rcases acts with delimits | gap
  · simp only [Mark.delimiters, List.mem_cons, List.not_mem_nil, or_false] at delimits
    rcases delimits with rfl | rfl | rfl | rfl | rfl
    · exact .ok (fits.openBrace advanced since)
    · exact .ok (fits.closeBrace advanced since)
    · exact .ok (fits.colon advanced since (settled rfl))
    · exact .ok (fits.semicolon advanced since)
    · exact .ok (fits.atSign advanced since)
  · rw [single_gap gap, single_gap gap]
    exact .ok (fits.blank advanced since)

end Spot.Fits

namespace Alike

variable {g : Gauge} {before before' : List Token} {s s' : Scan}

theorem frames (alike : Alike g before before' s s') :
    List.Forall₂ g.Fits s.frames s'.frames := by
  obtain ⟨x, x', fits, abreast⟩ := alike
  exact abreast.frames fits.frames

theorem pair (alike : Alike g before before' s s') (c d : Char) :
    Option.Rel (Alike g before before') (s.pair? c d) (s'.pair? c d) := by
  obtain ⟨x, x', fits, abreast⟩ := alike
  exact optionRel_imp (abreast.pair c d) fun _ _ _ abreast => ⟨x, x', fits, abreast⟩

theorem single (alike : Alike g before before' s s') {c : Char} {rest : Text}
    (settled : c = ':' → s.top = s'.top ∨ Scan.opensBlock rest = false) :
    Concur g.Failure (Alike g before before') (s.single c rest) (s'.single c rest) := by
  obtain ⟨x, x', fits, abreast⟩ := alike
  cases abreast.single c rest with
  | control positions read read' =>
    rw [read, read']
    exact .error (.control positions)
  | quiet read read' abreast =>
    rw [read, read']
    exact .ok ⟨x, x', fits, abreast⟩
  | delimiter positions since reader reader' acts =>
    subst reader reader'
    rw [List.append_nil]
    exact fits.single positions since (acts.imp_right And.left) settled

/-- Where the body of a rule cannot go with that of an at-rule, a colon means the same. -/
theorem single_of_uncrossed (uncrossed : ¬ g.crossed) (alike : Alike g before before' s s')
    (c : Char) (rest : Text) :
    Concur g.Failure (Alike g before before') (s.single c rest) (s'.single c rest) := by
  refine alike.single fun _ => .inl ?_
  rcases Gauge.tops_of_fits alike.frames with same | ⟨crossed, -⟩
  · exact same
  · exact absurd crossed uncrossed

theorem run (uncrossed : ¬ g.crossed) (alike : Alike g before before' s s') (t : Text) :
    Concur g.Failure (Alike g before before') (s.run t) (s'.run t) :=
  Scan.concur_run (R := fun _ => Alike g before before') (fun alike => alike.pair _ _)
    (fun alike _ => alike.single_of_uncrossed uncrossed _ _) alike

theorem finish (alike : Alike g before before' s s') :
    Concur g.Failure
      (fun tokens tokens' => ∃ new new', tokens = before.reverse ++ new ∧
        tokens' = before'.reverse ++ new' ∧ List.Forall₂ g.Same new new')
      s.finish s'.finish := by
  obtain ⟨x, x', fits, abreast⟩ := alike
  exact abreast.finish fits.frames

end Alike

end Stylesheet
