import Stylesheet.Proofs.Abreast
import Stylesheet.Proofs.Braces

set_option autoImplicit false

namespace Stylesheet

namespace Text

theorem unifyLineEnds_cons {c : Char} (other : c ≠ '\r') (t : Text) :
    unifyLineEnds (c :: t) = c :: unifyLineEnds t := by
  rw [unifyLineEnds, if_neg other]
  exact fun _ clash _ => other clash

theorem unifyLineEnds_return {t : Text} (apart : t.head? ≠ some '\n') :
    unifyLineEnds ('\r' :: t) = '\n' :: unifyLineEnds t := by
  rw [unifyLineEnds, if_pos rfl]
  rintro rest - rfl
  exact apart rfl

/-- Ends of lines are unified apart unless the seam is in the middle of one. -/
theorem unifyLineEnds_append {a b : Text}
    (seam : ¬ (a.getLast? = some '\r' ∧ b.head? = some '\n')) :
    unifyLineEnds (a ++ b) = unifyLineEnds a ++ unifyLineEnds b := by
  match a, seam with
  | [], _ => rfl
  | [c], seam =>
    by_cases isReturn : c = '\r'
    · subst isReturn
      have apart : b.head? ≠ some '\n' := fun begins => seam ⟨rfl, begins⟩
      rw [List.cons_append, List.nil_append, unifyLineEnds_return apart]
      rfl
    · rw [List.cons_append, List.nil_append, unifyLineEnds_cons isReturn,
        unifyLineEnds_cons isReturn]
      rfl
  | c :: d :: t, seam =>
    by_cases isReturn : c = '\r'
    · subst isReturn
      by_cases isBreak : d = '\n'
      · subst isBreak
        have later : unifyLineEnds (t ++ b) = unifyLineEnds t ++ unifyLineEnds b := by
          cases t with
          | nil => rfl
          | cons e t => exact unifyLineEnds_append seam
        simp only [List.cons_append, unifyLineEnds, later]
      · have later := unifyLineEnds_append (a := d :: t) seam
        have apart (u : Text) : (d :: u).head? ≠ some '\n' := by simpa using isBreak
        rw [List.cons_append, List.cons_append, unifyLineEnds_return (apart _), ← List.cons_append,
          later, unifyLineEnds_return (apart _), List.cons_append]
    · have later := unifyLineEnds_append (a := d :: t) seam
      rw [List.cons_append, unifyLineEnds_cons isReturn, later, unifyLineEnds_cons isReturn,
        List.cons_append]

/-- Whether a text ends in a line break, however it is written. -/
def EndsLine (t : Text) : Prop := t.getLast? = some '\n' ∨ t.getLast? = some '\r'

theorem EndsLine.getLast?_unifyLineEnds {a : Text} (ends : a.EndsLine) :
    (unifyLineEnds a).getLast? = some '\n' := by
  rcases ends with ends | ends
  · obtain ⟨t, rfl⟩ := List.getLast?_eq_some_iff.mp ends
    by_cases returns : t.getLast? = some '\r'
    · obtain ⟨u, rfl⟩ := List.getLast?_eq_some_iff.mp returns
      have apart : ¬ (u.getLast? = some '\r' ∧ ['\r', '\n'].head? = some '\n') := by simp
      rw [List.append_assoc, List.singleton_append, unifyLineEnds_append apart]
      exact List.getLast?_concat
    · rw [unifyLineEnds_append fun clash => returns clash.1]
      exact List.getLast?_concat
  · obtain ⟨t, rfl⟩ := List.getLast?_eq_some_iff.mp ends
    rw [unifyLineEnds_append (by simp)]
    exact List.getLast?_concat

/-- The number of line breaks in a text, however they are written. -/
def breaks (t : Text) : Nat := (unifyLineEnds t).count '\n'

end Text

namespace Position

theorem line_after (p : Position) (t : Text) : (p.after t).line = p.line + t.count '\n' := by
  induction t generalizing p with
  | nil => rfl
  | cons c t ih =>
    have next : (p.after (c :: t)).line = ((p.advance c).after t).line := rfl
    rw [next, ih, List.count_cons]
    unfold advance
    by_cases isBreak : c = '\n'
    · simp only [isBreak, ↓reduceIte, BEq.rfl]
      omega
    · simp [isBreak]

/-- A line break leads to the beginning of a line. -/
theorem column_after {p : Position} {t : Text} (ends : t.getLast? = some '\n') :
    (p.after t).column = 0 := by
  obtain ⟨before, rfl⟩ := List.getLast?_eq_some_iff.mp ends
  unfold after
  rw [List.foldl_append]
  rfl

end Position

namespace Outline

variable {o next : Outline}

theorem position_single (o : Outline) (c : Char) :
    (o.single c).position = o.position.advance c := by
  unfold single
  dsimp only
  split
  · split <;> rfl
  · split <;> rfl

theorem braces_single {c : Char} (unbraced : c ≠ '{' ∧ c ≠ '}') :
    (o.single c).braces = o.braces := by
  have own := Mark.char_of c
  unfold single
  dsimp only
  split
  · split <;> rfl
  · cases marks : Mark.of c with
    | openBrace => exact absurd (own '{' (by rw [marks]; rfl)) unbraced.1
    | closeBrace => exact absurd (own '}' (by rw [marks]; rfl)) unbraced.2
    | _ => rfl

theorem of_pair {c d : Char} (paired : o.pair? c d = some next) :
    next.position = (o.position.advance c).advance d ∧ next.braces = o.braces := by
  unfold pair? at paired
  dsimp only at paired
  split at paired
  · cases paired
    exact ⟨rfl, rfl⟩
  · split at paired
    · cases paired
      exact ⟨rfl, rfl⟩
    · split at paired
      · cases paired
        exact ⟨rfl, rfl⟩
      · cases paired

theorem position_run (o : Outline) (t : Text) : (o.run t).position = o.position.after t := by
  induction o, t using run.induct with
  | case1 o => rfl
  | case2 o c => exact position_single o c
  | case3 o c d rest next paired ih =>
    rw [run, paired]
    change (next.run rest).position = _
    rw [ih, (of_pair paired).1]
    rfl
  | case4 o c d rest unpaired ih =>
    rw [run, unpaired]
    change ((o.single c).run (d :: rest)).position = _
    rw [ih, position_single]
    rfl

theorem braces_run {t : Text} (unbraced : '{' ∉ t ∧ '}' ∉ t) : (o.run t).braces = o.braces := by
  induction o, t using run.induct with
  | case1 o => rfl
  | case2 o c =>
    refine braces_single ⟨?_, ?_⟩
    · rintro rfl
      exact unbraced.1 List.mem_cons_self
    · rintro rfl
      exact unbraced.2 List.mem_cons_self
  | case3 o c d rest next paired ih =>
    rw [run, paired]
    change (next.run rest).braces = _
    rw [ih, (of_pair paired).2]
    exact ⟨fun member => unbraced.1 (by simp [member]), fun member => unbraced.2 (by simp [member])⟩
  | case4 o c d rest unpaired ih =>
    simp only [List.mem_cons, not_or] at unbraced ih
    rw [run, unpaired]
    change ((o.single c).run (d :: rest)).braces = _
    rw [ih ⟨unbraced.1.2, unbraced.2.2⟩]
    exact braces_single ⟨Ne.symm unbraced.1.1, Ne.symm unbraced.2.1⟩

end Outline

namespace Scan

variable {s last : Scan}

/-- Blocks stay open where a text has no brace. -/
theorem frames_ne_nil_of_run (formed : s.WellFormed) (inBlock : s.top = some .atBlock) {t : Text}
    (read : s.run t = .ok last) (unbraced : '{' ∉ t ∧ '}' ∉ t) : last.frames ≠ [] := by
  have braces : last.outline.braces = s.outline.braces := by
    rw [outline_run formed read, Outline.braces_run unbraced]
  have nesting (r : Scan) : Token.nesting r.tokens.reverse =
      r.outline.braces.reverse.foldl Brace.nest 0 := by
    rw [Token.nesting_eq_foldl, List.filterMap_reverse]
    rfl
  obtain ⟨blocks, clause, verbatim, h⟩ := formed.run read
  obtain ⟨outer, outerClause, outerVerbatim, outerH⟩ := formed
  have same : blocks.length = outer.length := by
    rw [h.depth, outerH.depth, nesting, nesting, braces]
  have inside : outer ≠ [] := by
    rintro rfl
    rcases outerH.top_cases with ⟨v, -, isVerbatim, top⟩ | ⟨-, -, top⟩ | ⟨-, -, top⟩ | ⟨-, -, top⟩
    · rw [inBlock] at top
      cases top
      cases isVerbatim
    all_goals
      rw [inBlock] at top
      cases top
  intro closed
  have empty := h.stack
  rw [closed, List.map_nil, eq_comm, List.append_eq_nil_iff, List.append_eq_nil_iff] at empty
  rw [empty.2.2, List.length_nil, eq_comm, List.length_eq_zero_iff] at same
  exact inside same

/-- The next delimiter after a colon does not depend on what follows it. -/
theorem opensBlock_append {t : Text} (delimited : ';' ∈ t ∨ '}' ∈ t ∨ '{' ∈ t) (rest : Text) :
    opensBlock (t ++ rest) = opensBlock t := by
  unfold opensBlock
  rw [List.find?_append]
  cases found : t.find? (fun c => c = ';' || c = '}' || c = '{') with
  | some c => rfl
  | none =>
    rw [List.find?_eq_none] at found
    rcases delimited with member | member | member <;> exact absurd rfl (found _ member)

/-- Only a colon in the body of an at-rule looks ahead. -/
theorem single_congr (s : Scan) {c : Char} {rest rest' : Text}
    (same : c = ':' → s.top = some .atBlock → opensBlock rest = opensBlock rest') :
    s.single c rest = s.single c rest' := by
  have own := Mark.char_of c
  unfold single
  dsimp only
  cases marks : Mark.of c with
  | colon =>
    have isColon := own ':' (by rw [marks]; rfl)
    dsimp only
    unfold colon
    split
    · rfl
    · rename_i inAtBlock
      rw [same isColon inAtBlock]
    · rfl
  | _ => rfl

/-- The first character of a pair is pending if the second one is missing. -/
theorem single_of_paired {c d : Char} {paired : Scan} (pair : s.pair? c d = some paired)
    {rest : Text} (read : s.single c rest = .ok last) :
    Text.isBlank c = false ∧ c ∈ last.pending := by
  have plain : Mark.of c = .plain ∧ Text.isBlank c = false := by
    cases paired_of_eq_some pair <;> exact ⟨rfl, rfl⟩
  simp only [single, plain.1] at read
  cases read
  exact ⟨plain.2, List.mem_cons_self⟩

/-- A text that leaves nothing open and nothing visible pending is read without regard to what
follows it. -/
theorem run_append_of_closed (formed : s.WellFormed) {a : Text} (read : s.run a = .ok last)
    (closed : last.frames = []) (blank : ∀ c ∈ last.pending, Text.isBlank c) (b : Text) :
    s.run (a ++ b) = last.run b := by
  -- A colon that looks ahead is in a block, so a brace that closes the block comes after it.
  have ahead {r : Scan} (formed : r.WellFormed) {c : Char} {t : Text}
      (read : r.run (c :: t) = .ok last) :
      c = ':' → r.top = some .atBlock → opensBlock (t ++ b) = opensBlock t := by
    rintro rfl inBlock
    refine opensBlock_append ?_ b
    by_contra unbraced
    simp only [not_or] at unbraced
    refine frames_ne_nil_of_run formed inBlock read ?_ closed
    simpa using unbraced.2.symm
  induction s, a using run.induct with
  | case1 s =>
    cases read
    rfl
  | case2 s c =>
    have unpaired : ∀ d, s.pair? c d = none := by
      intro d
      cases pair : s.pair? c d with
      | none => rfl
      | some paired =>
        obtain ⟨visible, pending⟩ := single_of_paired pair read
        rw [blank c pending] at visible
        cases visible
    have same : s.single c b = s.single c [] := single_congr s (ahead formed read)
    rw [List.singleton_append, run_cons_of_unpaired s c b unpaired, same,
      show s.single c [] = .ok last from read]
    rfl
  | case3 s c d rest next pair ih =>
    simp only [run, pair] at read
    simp only [List.cons_append, run, pair]
    exact ih (formed.pair pair) read
  | case4 s c d rest unpaired error failed =>
    simp only [run, unpaired, failed] at read
    cases read
  | case5 s c d rest unpaired next single ih =>
    have same := single_congr s (ahead formed read)
    simp only [run, unpaired, single] at read
    rw [single] at same
    simp only [List.cons_append] at same ⊢
    simp only [run, unpaired, same]
    exact ih (formed.single single) read

end Scan

def Token.lowered (lines : Nat) : Token → Token
  | rule selector n => rule selector (n + lines)
  | atBlock name params n => atBlock name params (n + lines)
  | statement name params n => statement name params (n + lines)
  | property key value n => property key value (n + lines)
  | comment text n => comment text (n + lines)
  | close n => close (n + lines)

theorem Token.eq_lowered {t u : Token} {lines : Nat} (unlined : t.unlined = u.unlined)
    (line : u.line = t.line + lines) : u = t.lowered lines := by
  refine Token.eq_of_unlined ?_ ?_
  · rw [← unlined]
    cases t <;> rfl
  · rw [line]
    cases t <;> rfl

namespace ScanError

def lowered (lines : Nat) : ScanError → ScanError
  | controlCharacter c position => controlCharacter c ⟨position.line + lines, position.column⟩
  | unterminated construct n => unterminated construct (n + lines)

def uncolumned : ScanError → ScanError
  | controlCharacter c position => controlCharacter c ⟨position.line, 0⟩
  | unterminated construct n => unterminated construct n

end ScanError

/-- A reader that is some lines further down than another one. The columns differ on the first line
at most, and not even there if the lines are aligned. -/
def Gauge.below (lines : Nat) (aligned : Prop) : Gauge where
  positions p q := 1 ≤ p.line ∧ q.line = p.line + lines ∧
    (aligned ∨ 1 < p.line → q.column = p.column)
  crossed := False
  advance := by
    rintro p q ⟨least, line, column⟩ c
    unfold Position.advance
    by_cases isBreak : c = '\n'
    · simp only [isBreak, ↓reduceIte]
      exact ⟨by omega, by omega, fun _ => trivial⟩
    · simp only [isBreak, ↓reduceIte]
      exact ⟨least, line, fun settled => by rw [column settled]⟩

namespace Gauge

variable {lines : Nat} {aligned : Prop}

theorem lines_below {m n : Nat} (related : (below lines aligned).lines m n) : n = m + lines := by
  obtain ⟨p, q, ⟨-, line, -⟩, rfl, rfl⟩ := related
  exact line

theorem tokens_below {new new' : List Token}
    (same : List.Forall₂ (below lines aligned).Same new new') :
    new' = new.map (Token.lowered lines) := by
  induction same with
  | nil => rfl
  | cons first rest ih =>
    rw [List.map_cons, ← ih, Token.eq_lowered first.unlined (lines_below first.lines)]

theorem error_below {e e' : ScanError} (failed : (below lines aligned).Failure e e') :
    e'.uncolumned = (e.lowered lines).uncolumned ∧
      (aligned ∨ 1 < e.line → e' = e.lowered lines) := by
  cases failed with
  | @control c p q positions =>
    obtain ⟨-, line, column⟩ := positions
    refine ⟨by simp [ScanError.uncolumned, ScanError.lowered, line], fun settled => ?_⟩
    have place : q = ⟨p.line + lines, p.column⟩ := by
      rw [← line, ← column settled]
    rw [place]
    rfl
  | @unterminated f f' fits =>
    have line := lines_below fits.lines
    have construct : f.construct = f'.construct := by
      rcases fits.construct with same | ⟨⟨⟩, -⟩
      exact same
    rw [line, ← construct]
    exact ⟨rfl, fun _ => rfl⟩

end Gauge

def Spot.outermost : Spot := ⟨none, [], by simp⟩

theorem Spot.outermost_fits (g : Gauge) : Spot.Fits g .outermost .outermost := ⟨rfl, .nil⟩

/-- Outside all constructs, blanks that are pending change nothing for what follows. -/
theorem single_padded {g : Gauge} {pad : Text} (blank : ∀ c ∈ pad, Text.isBlank c)
    {before before' : List Token} {s s' : Scan}
    (padded : Abreast g .outermost .outermost pad before before' s s') (c : Char) (rest : Text) :
    Concur g.Failure
      (fun next next' => Alike g before before' next next' ∨
        Abreast g .outermost .outermost pad before before' next next')
      (s.single c rest) (s'.single c rest) := by
  have fits := Spot.outermost_fits g
  cases padded.single c rest with
  | control positions read read' =>
    rw [read, read']
    exact .error (.control positions)
  | quiet read read' padded =>
    rw [read, read']
    exact .ok (.inr padded)
  | @delimiter p q w tokens tokens' positions since reader reader' acts =>
    subst reader reader'
    have advanced := g.advance positions c
    have lines := Gauge.lines_of_positions advanced
    have unpadded : Text.trim (w ++ pad).reverse = Text.trim w.reverse := by
      rw [List.reverse_append, Text.trim_append_of_blank_left]
      simpa using blank
    simp only [Mark.delimiters, List.mem_cons, List.not_mem_nil, or_false,
      show Spot.outermost.isUnnamed = false from rfl, Bool.false_eq_true, and_false] at acts
    rcases acts with rfl | rfl | rfl | rfl | rfl
    · refine .ok (.inl ?_)
      rw [Spot.advance_reader, Spot.advance_reader, Spot.openBrace_between rfl,
        Spot.openBrace_between rfl, unpadded]
      apply Spot.Fits.alike _ advanced
      · exact since.emit rfl lines
      · exact fits.enter _ rfl lines
    · have closed : g.Since before before' (.close (p.advance '}').line :: tokens)
          (.close (q.advance '}').line :: tokens') := since.emit rfl lines
      exact .ok (.inl (fits.alike advanced closed []))
    · exact .ok (.inr (.outside (w := ':' :: w) advanced since))
    · exact .ok (.inl (fits.alike advanced since []))
    · exact .ok (.inl (Spot.Fits.alike (fits.enter none rfl lines) advanced since ['@']))

/-- Readers outside all constructs read the same tokens, whatever blanks are pending. -/
theorem concur_padded {g : Gauge} (uncrossed : ¬ g.crossed) {pad : Text}
    (blank : ∀ c ∈ pad, Text.isBlank c) (before before' : List Token) {p q : Position}
    (positions : g.positions p q) (t : Text) :
    Concur g.Failure
      (fun tokens tokens' => ∃ new new', tokens = before.reverse ++ new ∧
        tokens' = before'.reverse ++ new' ∧ List.Forall₂ g.Same new new')
      (((Spot.outermost.reader p [] before).run t).bind Scan.finish)
      (((Spot.outermost.reader q pad before').run t).bind Scan.finish) := by
  let related (s s' : Scan) : Prop := Alike g before before' s s' ∨
    Abreast g .outermost .outermost pad before before' s s'
  have begins : related (Spot.outermost.reader p [] before) (Spot.outermost.reader q pad before') :=
    .inr (.outside (w := []) positions (.refl before before'))
  have ran : Concur g.Failure related ((Spot.outermost.reader p [] before).run t)
      ((Spot.outermost.reader q pad before').run t) := by
    refine Scan.concur_run (R := fun _ => related) ?_ ?_ begins
    · intro c d rest s s' now
      rcases now with alike | padded
      · exact optionRel_imp (alike.pair c d) fun _ _ _ => .inl
      · exact optionRel_imp (padded.pair c d) fun _ _ _ => .inr
    · intro c rest s s' now unpaired
      rcases now with alike | padded
      · exact (alike.single_of_uncrossed uncrossed c rest).imp fun _ _ _ => .inl
      · exact single_padded blank padded c rest
  refine ran.bind fun s s' now => ?_
  rcases now with alike | padded
  · exact alike.finish
  · exact padded.finish .nil

theorem Scan.finish_eq_ok {s : Scan} {tokens : List Token} (read : s.finish = .ok tokens) :
    s.frames = [] ∧ s.tokens.reverse = tokens := by
  unfold Scan.finish at read
  split at read
  · rename_i closed
    exact ⟨closed, by simpa using read⟩
  · cases read

/-- A reader that has closed everything is outside all constructs. -/
theorem Scan.eq_outermost {s : Scan} (formed : s.WellFormed) (closed : s.frames = []) :
    s = Spot.outermost.reader s.position s.pending s.tokens := by
  have top : s.top = none := by rw [Scan.top, closed]; rfl
  have key : s.key = none := formed.stored.1 (by rw [top]; rfl)
  obtain ⟨⟨x, frames, outside⟩, sameKey, sameFrames, reader⟩ :=
    formed.exists_spot (by rw [Scan.inVerbatim, top]; rfl)
  dsimp only at sameKey sameFrames
  rw [key] at sameKey
  rw [closed] at sameFrames
  subst sameKey sameFrames
  exact reader

theorem concur_scan_append {a b : Text} {tokens : List Token} {s : Scan}
    (read : scan a = .ok tokens)
    (ran : Scan.start.run (Text.unifyLineEnds a) = .ok s) (settled : s.text = [])
    (seam : ¬ (a.getLast? = some '\r' ∧ b.head? = some '\n')) :
    Concur (Gauge.below a.breaks a.EndsLine).Failure
      (fun more all => all = tokens ++ more.map (Token.lowered a.breaks)) (scan b)
      (scan (a ++ b)) := by
  have begins : Scan.start.WellFormed := ⟨_, _, _, Scan.start_layered⟩
  have formed := begins.run ran
  obtain ⟨closed, rfl⟩ : s.frames = [] ∧ s.tokens.reverse = tokens := by
    rw [scan, ran] at read
    exact Scan.finish_eq_ok read
  have blank : ∀ c ∈ s.pending, Text.isBlank c := by
    have blank := (Text.trim_eq_nil_iff _).mp settled
    simpa using blank
  have position : s.position = Position.start.after (Text.unifyLineEnds a) := by
    have outline := congrArg Outline.position (Scan.outline_run begins ran)
    rwa [Outline.position_run] at outline
  have positions : (Gauge.below a.breaks a.EndsLine).positions .start s.position := by
    rw [position]
    refine ⟨le_refl _, Position.line_after _ _, ?_⟩
    rintro (ends | later)
    · exact Position.column_after ends.getLast?_unifyLineEnds
    · exact absurd later (lt_irrefl 1)
  have moved : Scan.start.run (Text.unifyLineEnds (a ++ b)) =
      (Spot.outermost.reader s.position s.pending s.tokens).run (Text.unifyLineEnds b) := by
    rw [Text.unifyLineEnds_append seam, Scan.run_append_of_closed begins ran closed blank,
      ← Scan.eq_outermost formed closed]
  have concur := concur_padded (g := Gauge.below _ _) id blank [] s.tokens positions
    (Text.unifyLineEnds b)
  rw [scan, scan, moved]
  refine concur.imp ?_
  rintro more all - ⟨new, new', rfl, rfl, same⟩
  rw [Gauge.tokens_below same]

/-- Where a text leaves nothing open and nothing visible pending, another text can follow: both are
read iff the second one is, and all that is said about the second one is said some lines further
down. -/
theorem scan_append {a b : Text} {tokens : List Token} {s : Scan} (read : scan a = .ok tokens)
    (ran : Scan.start.run (Text.unifyLineEnds a) = .ok s) (settled : s.text = [])
    (seam : ¬ (a.getLast? = some '\r' ∧ b.head? = some '\n')) :
    ((∃ all, scan (a ++ b) = .ok all) ↔ ∃ more, scan b = .ok more) ∧
      (∀ more, scan b = .ok more →
        scan (a ++ b) = .ok (tokens ++ more.map (Token.lowered a.breaks))) ∧
      ∀ error, scan b = .error error → ∃ error', scan (a ++ b) = .error error' ∧
        error'.uncolumned = (error.lowered a.breaks).uncolumned ∧
        (a.EndsLine ∨ 1 < error.line → error' = error.lowered a.breaks) := by
  rcases (concur_scan_append read ran settled seam).ok_or_error with
    ⟨more, all, alone, both, same⟩ | ⟨e, e', alone, both, failed⟩
  · rw [alone, both, same]
    simp
  · rw [alone, both]
    refine ⟨by simp, by simp, ?_⟩
    rintro error ⟨⟩
    exact ⟨e', rfl, Gauge.error_below failed⟩

/-- A first text whose colon looks ahead, before a second text that is read and before one that is
not. -/
theorem scan_append_lookahead :
    scan (['@', 'm', '{', 'p', ':', 'q', '{', '}', '}', '\r', '\n', ' '] ++
        ['\r', 'x', '{', 'k', ':', 'v', '}']) =
      .ok [.atBlock ['@', 'm'] [] 1, .rule ['p', ':', 'q'] 1, .close 1, .close 1, .rule ['x'] 3,
        .property ['k'] ['v'] 3, .close 3] ∧
    scan (['@', 'm', '{', 'p', ':', 'q', '{', '}', '}', '\r', '\n', ' '] ++
        ['x', '\n', '\x01']) = .error (.controlCharacter '\x01' ⟨3, 1⟩) := by
  have read : scan ['@', 'm', '{', 'p', ':', 'q', '{', '}', '}', '\r', '\n', ' '] =
      .ok [.atBlock ['@', 'm'] [] 1, .rule ['p', ':', 'q'] 1, .close 1, .close 1] := rfl
  have before := scan_append (b := ['\r', 'x', '{', 'k', ':', 'v', '}']) read rfl rfl (by decide)
  have fails := scan_append (b := ['x', '\n', '\x01']) read rfl rfl (by decide)
  obtain ⟨error, failed, -, place⟩ := fails.2.2 (.controlCharacter '\x01' ⟨2, 1⟩) rfl
  refine ⟨before.2.1 _ rfl, ?_⟩
  rw [failed, place (.inr (by decide))]
  rfl

end Stylesheet
