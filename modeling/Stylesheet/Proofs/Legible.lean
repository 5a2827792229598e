import Stylesheet.Proofs.Digests
import Stylesheet.Proofs.Lookahead

set_option autoImplicit false

namespace Stylesheet

open Cell (render strokes stroke openAfter)
open Stylesheet.Compact (isBrace isMark)

/-- Cells that a reader outside strings takes one after the other. Comments stand by themselves:
the flag says whether only blanks and comments come after the start, a semicolon or a brace. -/
inductive Legible : Bool → List Cell → Prop
  | finish {fresh : Bool} {gap : Text} (blank : ∀ c ∈ gap, Text.isBlank c) :
      Legible fresh [⟨gap, []⟩]
  | solid {fresh : Bool} {x : Cell} {k : List Cell} (solid : x.Solid)
      (unopened : ¬ ['/', '*'] <+: x.ink ++ render k)
      (rest : Legible (x.ink = [';'] || x.is isBrace) k) : Legible fresh (x :: k)
  | remark {gap w : Text} {k : List Cell} (blank : ∀ c ∈ gap, Text.isBlank c)
      (closes : Text.Closes ['*', '/'] w) (rest : Legible true k) :
      Legible true (⟨gap, '/' :: '*' :: w⟩ :: k)

namespace Legible

variable {fresh : Bool} {K : List Cell}

/-- A colon is read with the same delimiter ahead in a text and in its strokes. -/
theorem find_render {p : Char → Bool} (visible : ∀ c, Text.isBlank c → p c = false)
    (ends : p ';' ∧ p '{' ∧ p '}') (legible : Legible fresh K) (begun : fresh = false)
    (opened : Bool) :
    (render K).find? p = ((strokes opened K).flatMap Stroke.ink).find? p := by
  have skip {gap : Text} (blank : ∀ c ∈ gap, Text.isBlank c) (t : Text) :
      (gap ++ t).find? p = t.find? p := by
    have none : gap.find? p = none :=
      List.find?_eq_none.mpr fun c member => by simp [visible c (blank c member)]
    rw [List.find?_append, none, Option.none_or]
  induction legible generalizing opened with
  | finish blank => simpa [Cell.strokes] using skip blank []
  | @solid _ x k solid _ rest ih =>
    rw [Cell.render_cons, skip solid.blank, Cell.strokes_cons solid, List.flatMap_cons,
      List.find?_append, List.find?_append]
    by_cases isEnd : x.ink = [';'] ∨ x.is isBrace
    · -- The search ends here.
      have found : ∃ c, x.ink.find? p = some c := by
        rcases isEnd with ink | isOne
        · exact ⟨';', by simp [ink, ends]⟩
        · obtain ⟨c, ink, isBrace⟩ := Cell.exists_of_is isOne
          simp only [Compact.isBrace, Bool.or_eq_true, decide_eq_true_eq] at isBrace
          rcases isBrace with rfl | rfl
          · exact ⟨_, by simp [ink, ends]; rfl⟩
          · exact ⟨_, by simp [ink, ends]; rfl⟩
      obtain ⟨c, found⟩ := found
      simp [stroke, found]
    · rw [ih (by simpa using isEnd)]
      rfl
  | remark => cases begun

theorem opensBlock_render (legible : Legible false K) (opened : Bool) :
    Scan.opensBlock (render K) =
      Scan.opensBlock ((strokes opened K).flatMap Stroke.ink) := by
  unfold Scan.opensBlock
  rw [find_render ?_ (by decide) legible rfl opened]
  intro c blank
  have other (e : Char) (visible : Text.isBlank e = false) : c ≠ e := by
    rintro rfl
    simp [visible] at blank
  simp [other ';' rfl, other '}' rfl, other '{' rfl]

/-- A text is read as its strokes are. -/
theorem run_render {d : Digest} {k : List Cell} {r w : Text} {x : Spot} {tokens : List Token}
    {p : Position} (legible : Legible fresh K) (m : d.Matches k r x w tokens)
    (settled : k ≠ [] → r = []) (begun : fresh → k = []) (noReturn : ∀ y ∈ K, '\r' ∉ y.gap)
    (legal : ∀ y ∈ K, ∀ c ∈ y.ink.unescaped, Mark.of c ≠ .control) :
    ∃ p' k' r' x' w' tokens', (x.reader p w.reverse tokens).run (render K) =
        .ok (x'.reader p' w'.reverse tokens') ∧
      (d.gather (strokes (openAfter true k) K)).Matches k' r' x' w' tokens' := by
  induction legible generalizing d k r w x tokens p with
  | @finish _ gap blank =>
    obtain ⟨p', x', w', r', read, matched, -⟩ := m.run_gap (p := p) blank
      (noReturn ⟨gap, []⟩ (by simp)) []
    refine ⟨p', k, r', x', w', tokens, ?_, by simpa [Cell.strokes, Digest.gather] using matched⟩
    rw [Cell.render_cons, Cell.render_nil, List.append_nil, read]
    rfl
  | @solid _ y K solid unopened rest ih =>
    obtain ⟨own, later⟩ := List.forall_mem_cons.mp legal
    obtain ⟨returnless, returnless'⟩ := List.forall_mem_cons.mp noReturn
    obtain ⟨p₁, x₁, w₁, r₁, read, matched, empty⟩ :=
      m.run_gap (p := p) solid.blank returnless (y.ink ++ render K)
    have sameStroke : stroke (openAfter true k) ⟨r₁, y.ink⟩ = y.stroke (openAfter true k) := by
      cases k with
      | nil => simp [stroke, openAfter, Cell.is]
      | cons z k =>
        have : r₁ = [] ↔ y.gap = [] := by simp [empty, settled]
        simp [stroke, this, Cell.is]
    have sameAhead (isColon : y.ink = [':']) : Scan.opensBlock (render K) =
        Scan.opensBlock ((strokes (y.is isMark) K).flatMap Stroke.ink) := by
      have goesOn : (y.ink = [';'] || y.is isBrace) = false := by
        simp [isColon, Cell.is, isBrace]
      exact opensBlock_render (goesOn ▸ rest) _
    obtain ⟨p₂, k₂, x₂, w₂, tokens₂, read₂, matched₂, after, cleared⟩ :=
      matched.run_solid (p := p₁) (solid.gapped matched.blank) own unopened sameAhead
    have sameMark : Cell.is isMark ⟨[], y.ink⟩ = y.is isMark := rfl
    have sameBrace : Cell.is isBrace ⟨[], y.ink⟩ = y.is isBrace := rfl
    rw [sameStroke] at matched₂
    obtain ⟨p', k', r', x', w', tokens', read', matched'⟩ := ih (p := p₂) matched₂
      (fun _ => rfl) (fun isEnd => cleared (by simpa [sameBrace] using isEnd)) returnless' later
    refine ⟨p', k', r', x', w', tokens', ?_, ?_⟩
    · rw [Cell.render_cons, read, read₂, read']
    · rw [after, sameMark] at matched'
      rwa [Cell.strokes_cons solid, Digest.gather]
  | @remark gap v K blank closes rest ih =>
    obtain ⟨own, later⟩ := List.forall_mem_cons.mp legal
    obtain ⟨returnless, returnless'⟩ := List.forall_mem_cons.mp noReturn
    obtain rfl := begun rfl
    have inside : ∀ c ∈ v.unescaped, Mark.of c ≠ .control := by
      rw [Text.unescaped_cons (by decide), Text.unescaped_cons (by decide)] at own
      exact fun c member => own c (by simp [member])
    obtain ⟨p₁, x₁, w₁, r₁, read, matched, -⟩ :=
      m.run_gap (p := p) blank returnless ('/' :: '*' :: (v ++ render K))
    obtain ⟨p₂, read₂⟩ :=
      Spot.run_remark (x := x₁) (p := p₁) (w := v) closes inside (render K)
    have commented : d.Matches [] r₁ x₁ w₁ (.comment (Text.trim v.inRemark) p₂.line :: tokens) :=
      { matched with gists := matched.gists }
    obtain ⟨p', k', r', x', w', tokens', read', matched'⟩ :=
      ih (p := p₂) commented (by simp) (fun _ => rfl) returnless' later
    refine ⟨p', k', r', x', w', tokens', ?_, ?_⟩
    · rw [Cell.render_cons]
      exact read.trans (read₂.trans read')
    · simpa [Cell.strokes, Cell.isRemark] using matched'

end Legible

def Cell.unify (x : Cell) : Cell := ⟨Text.unifyLineEnds x.gap, Text.unifyLineEnds x.ink⟩

def Stroke.unify (x : Stroke) : Stroke := ⟨x.apart, Text.unifyLineEnds x.ink⟩

namespace Text

theorem return_not_mem_unifyLineEnds (t : Text) : '\r' ∉ unifyLineEnds t := by
  induction t with
  | nil => simp [unifyLineEnds]
  | cons c t ih =>
    by_cases isReturn : c = '\r'
    · subst isReturn
      by_cases joined : t.head? = some '\n'
      · obtain ⟨u, rfl⟩ := List.head?_eq_some_iff.mp joined
        exact ih
      · simpa [unifyLineEnds_return joined] using ih
    · simpa [unifyLineEnds_cons isReturn, Ne.symm isReturn] using ih

theorem isBlank_unifyLineEnds {t : Text} (blank : ∀ c ∈ t, isBlank c) :
    ∀ c ∈ unifyLineEnds t, isBlank c := by
  intro c member
  by_cases isBreak : c = '\n'
  · rw [isBreak]
    rfl
  · have notReturn : c ≠ '\r' := by
      rintro rfl
      exact return_not_mem_unifyLineEnds t member
    exact blank c ((mem_unifyLineEnds ⟨isBreak, notReturn⟩).mp member)

theorem unifyLineEnds_eq_nil_iff {t : Text} : unifyLineEnds t = [] ↔ t = [] := by
  cases t with
  | nil => simp [unifyLineEnds]
  | cons c t =>
    by_cases isReturn : c = '\r'
    · obtain ⟨u, unified⟩ := exists_unifyLineEnds_return t
      simp [isReturn, unified]
    · simp [unifyLineEnds_cons isReturn]

theorem ne_return_of_visible {c : Char} (visible : isBlank c = false) : c ≠ '\r' := by
  rintro rfl
  cases visible

end Text

namespace Cell

variable {x : Cell}

/-- Letters and escapes are kept, and a string stays one. -/
theorem Solid.unify (solid : x.Solid) : x.unify.Solid := by
  have blank := Text.isBlank_unifyLineEnds solid.blank
  cases solid with
  | @letter gap c _ visible bare =>
    have same : Text.unifyLineEnds [c] = [c] :=
      Text.unifyLineEnds_cons (Text.ne_return_of_visible visible) []
    rw [Cell.unify, same]
    exact .letter blank visible bare
  | @string gap w q _ quotes closes =>
    have same : Text.unifyLineEnds (q :: w) = q :: Text.unifyLineEnds w :=
      Text.unifyLineEnds_cons (Text.ne_return_of_visible (Text.isBlank_of_isQuote quotes)) w
    rw [Cell.unify, same]
    exact .string blank quotes (closes.unifyLineEnds (Text.mem_endMarks quotes))
  | @escape gap d _ visible =>
    have same : Text.unifyLineEnds ['\\', d] = ['\\', d] := by
      rw [Text.unifyLineEnds_cons (by decide),
        Text.unifyLineEnds_cons (Text.ne_return_of_visible visible)]
      rfl
    rw [Cell.unify, same]
    exact .escape blank visible

theorem Solid.unify_ink_eq_iff (solid : x.Solid) (c : Char) : x.unify.ink = [c] ↔ x.ink = [c] := by
  have unified : x.unify.ink = Text.unifyLineEnds x.ink := rfl
  obtain ⟨e, w, ink, visible⟩ := solid.exists_first
  rw [unified, ink, Text.unifyLineEnds_cons (Text.ne_return_of_visible visible)]
  simp [Text.unifyLineEnds_eq_nil_iff]

theorem Solid.unify_is (solid : x.Solid) (p : Char → Bool) : x.unify.is p = x.is p := by
  rw [Bool.eq_iff_iff]
  constructor
  · intro isOne
    obtain ⟨c, ink, holds⟩ := exists_of_is isOne
    simp [is, (solid.unify_ink_eq_iff c).mp ink, holds]
  · intro isOne
    obtain ⟨c, ink, holds⟩ := exists_of_is isOne
    simp [is, (solid.unify_ink_eq_iff c).mpr ink, holds]

end Cell

namespace Legible

variable {fresh : Bool} {K : List Cell}

/-- Line ends can be unified cell by cell. -/
theorem unify (legible : Legible fresh K) : Legible fresh (K.map Cell.unify) ∧
    Text.unifyLineEnds (render K) = render (K.map Cell.unify) := by
  have seams {gap ink t : Text} (first : ∀ c ∈ (ink ++ t).head?, Text.isBlank c = false)
      (last : ∀ c ∈ ink.getLast?, Text.isBlank c = false) :
      Text.unifyLineEnds (gap ++ (ink ++ t)) = Text.unifyLineEnds gap ++
        (Text.unifyLineEnds ink ++ Text.unifyLineEnds t) := by
    rw [Text.unifyLineEnds_append fun clash => absurd (first _ clash.2) (by decide),
      Text.unifyLineEnds_append fun clash => absurd (last _ clash.1) (by decide)]
  induction legible with
  | finish blank => exact ⟨.finish (Text.isBlank_unifyLineEnds blank), by
      simp [Cell.unify, Text.unifyLineEnds]⟩
  | @solid _ x K solid unopened rest ih =>
    have whole : Text.unifyLineEnds (render (x :: K)) = render ((x :: K).map Cell.unify) := by
      obtain ⟨c, w, ink, visible⟩ := solid.exists_first
      rw [Cell.render_cons, seams (by simpa [ink] using visible) solid.visible_last, ih.2]
      simp [Cell.unify]
    refine ⟨.solid solid.unify (fun opened => unopened ?_) ?_, whole⟩
    · apply Text.prefix_of_prefix_unifyLineEnds (by simp)
      rw [Text.unifyLineEnds_append fun clash =>
        absurd (solid.visible_last _ clash.1) (by decide), ih.2]
      exact opened
    · simpa only [solid.unify_ink_eq_iff, solid.unify_is] using ih.1
  | @remark gap w K blank closes rest ih =>
    have unified : Text.unifyLineEnds ('/' :: '*' :: w) = '/' :: '*' :: Text.unifyLineEnds w := by
      rw [Text.unifyLineEnds_cons (by decide), Text.unifyLineEnds_cons (by decide)]
    refine ⟨?_, ?_⟩
    · rw [List.map_cons, Cell.unify, unified]
      exact .remark (Text.isBlank_unifyLineEnds blank) (closes.unifyLineEnds (by decide)) ih.1
    · have visible : Text.isBlank '/' = false := rfl
      obtain ⟨v, rfl⟩ := closes.suffix
      rw [Cell.render_cons, seams (by simpa using visible)
        (by simpa [List.getLast?_cons] using visible), ih.2]
      simp [Cell.unify]

theorem strokes_unify (legible : Legible fresh K) (opened : Bool) :
    strokes opened (K.map Cell.unify) = (strokes opened K).map Stroke.unify := by
  induction legible generalizing opened with
  | finish => simp [strokes, Cell.unify, Text.unifyLineEnds]
  | @solid _ x K solid _ _ ih =>
    have same : x.unify.stroke opened = (x.stroke opened).unify := by
      have gapless : x.unify.gap = [] ↔ x.gap = [] := Text.unifyLineEnds_eq_nil_iff
      simp only [stroke, Stroke.unify, solid.unify_is, ne_eq, gapless]
      rfl
    rw [List.map_cons, Cell.strokes_cons solid.unify, Cell.strokes_cons solid, List.map_cons, same,
      solid.unify_is, ih]
  | @remark gap w K _ _ _ ih =>
    have unified : Text.unifyLineEnds ('/' :: '*' :: w) = '/' :: '*' :: Text.unifyLineEnds w := by
      rw [Text.unifyLineEnds_cons (by decide), Text.unifyLineEnds_cons (by decide)]
    simpa [strokes, Cell.unify, Cell.isRemark, unified] using ih opened

end Legible

namespace Text

theorem unescaped_append_of_not_mem {w : Text} (plain : '\\' ∉ w) (t : Text) :
    (w ++ t).unescaped = w ++ t.unescaped := by
  induction w with
  | nil => rfl
  | cons c w ih =>
    simp only [List.mem_cons, not_or] at plain
    rw [List.cons_append, unescaped_cons (Ne.symm plain.1), ih plain.2, List.cons_append]

end Text

theorem Legible.mem_unescaped {fresh : Bool} {K : List Cell} (legible : Legible fresh K) {x : Cell}
    (member : x ∈ K) {c : Char} (inside : c ∈ x.ink.unescaped) : c ∈ (render K).unescaped := by
  have plain {gap : Text} (blank : ∀ c ∈ gap, Text.isBlank c) : '\\' ∉ gap :=
    fun member => absurd (blank _ member) (by decide)
  induction legible with
  | finish blank =>
    cases List.mem_singleton.mp member
    simp [Text.unescaped] at inside
  | @solid _ y K solid unopened rest ih =>
    have split : (y.ink ++ render K).unescaped = y.ink.unescaped ++ (render K).unescaped := by
      cases solid with
      | letter _ _ bare => simp [Text.unescaped_cons bare.1, Text.unescaped]
      | string _ quotes closes =>
        have plain := (Scan.ne_of_quote (Scan.mark_of_isQuote quotes).choose_spec).1
        simp [Text.unescaped_cons plain, closes.unescaped_append (Text.mem_endMarks quotes)]
      | escape => simp [Text.unescaped]
    rw [Cell.render_cons, Text.unescaped_append_of_not_mem (plain solid.blank), split]
    rcases List.mem_cons.mp member with rfl | later
    · simp [inside]
    · simp [ih later]
  | @remark gap w K blank closes rest ih =>
    rw [Cell.render_cons, Text.unescaped_append_of_not_mem (plain blank)]
    simp only [List.cons_append]
    rw [Text.unescaped_cons (by decide), Text.unescaped_cons (by decide),
      closes.unescaped_append (by decide)]
    rcases List.mem_cons.mp member with rfl | later
    · rw [Text.unescaped_cons (by decide), Text.unescaped_cons (by decide)] at inside
      simp only [List.mem_cons, List.mem_append] at inside ⊢
      tauto
    · simp [ih later]

theorem Digest.matches_start : start.Matches [] [] Spot.outermost [] [] :=
  .settled rfl rfl rfl rfl (by simp [start]) rfl

namespace Legible

variable {K L : List Cell}

/-- A text without control characters is read as its strokes are. -/
theorem run_start (legible : Legible true K)
    (legal : ∀ x ∈ K.map Cell.unify, ∀ c ∈ x.ink.unescaped, Mark.of c ≠ .control) :
    ∃ p k r x w tokens, Scan.start.run (Text.unifyLineEnds (render K)) =
        .ok (Spot.reader x p w tokens) ∧
      (Digest.start.gather ((strokes true K).map Stroke.unify)).Matches k r x w.reverse tokens := by
  obtain ⟨unified, whole⟩ := legible.unify
  have noReturn : ∀ y ∈ K.map Cell.unify, '\r' ∉ y.gap := by
    intro y member
    obtain ⟨x, -, rfl⟩ := List.mem_map.mp member
    exact Text.return_not_mem_unifyLineEnds _
  obtain ⟨p, k, r, x, w, tokens, read, matched⟩ :=
    unified.run_render (p := .start) Digest.matches_start (fun _ => rfl) (fun _ => rfl) noReturn
      legal
  refine ⟨p, k, r, x, w.reverse, tokens, ?_, by rwa [List.reverse_reverse, ← legible.strokes_unify]⟩
  rw [whole]
  exact read

/-- A text whose strokes are read alike has tokens that say the same, if it has no other ink. -/
theorem scan_of_gather (legible : Legible true K) (legible' : Legible true L)
    (inks : ∀ y ∈ L, y.ink ≠ [] → ∃ x ∈ K, x.ink = y.ink)
    (same : Digest.start.gather ((strokes true L).map Stroke.unify) =
      Digest.start.gather ((strokes true K).map Stroke.unify))
    {tokens : List Token} (read : scan (render K) = .ok tokens) :
    ∃ tokens', scan (render L) = .ok tokens' ∧
      tokens'.filterMap Token.gist = tokens.filterMap Token.gist := by
  obtain ⟨last, run, finished⟩ : ∃ last,
      Scan.start.run (Text.unifyLineEnds (render K)) = .ok last ∧ last.finish = .ok tokens := by
    unfold scan at read
    cases run : Scan.start.run (Text.unifyLineEnds (render K)) with
    | error e => rw [run] at read; cases read
    | ok last => rw [run] at read; exact ⟨last, rfl, read⟩
  have legal : ∀ x ∈ K.map Cell.unify, ∀ c ∈ x.ink.unescaped, Mark.of c ≠ .control := by
    obtain ⟨unified, whole⟩ := legible.unify
    rw [whole] at run
    exact fun x member c inside => Scan.legal_of_run run c (unified.mem_unescaped member inside)
  have legal' : ∀ y ∈ L.map Cell.unify, ∀ c ∈ y.ink.unescaped, Mark.of c ≠ .control := by
    intro y member
    obtain ⟨y, own, rfl⟩ := List.mem_map.mp member
    by_cases empty : y.ink = []
    · simp [Cell.unify, empty, Text.unifyLineEnds, Text.unescaped]
    · obtain ⟨x, member', ink⟩ := inks y own empty
      have sameInk : y.unify.ink = x.unify.ink := congrArg Text.unifyLineEnds ink.symm
      rw [sameInk]
      exact legal _ (List.mem_map_of_mem member')
  obtain ⟨p, k, r, x, w, toks, run₁, matched⟩ := legible.run_start legal
  obtain ⟨p', k', r', x', w', toks', run', matched'⟩ := legible'.run_start legal'
  rw [run₁] at run
  cases run
  rw [same] at matched'
  have closed : x.frames = [] := by
    cases frames : x.frames with
    | nil => rfl
    | cons f rest => simp [Scan.finish, Spot.reader, frames] at finished
  have closed' : x'.frames = [] := by
    have both := matched'.frames.trans matched.frames.symm
    rw [closed] at both
    simpa using both
  have read' : tokens = toks.reverse := by
    simpa [Scan.finish, Spot.reader, closed] using finished.symm
  refine ⟨toks'.reverse, ?_, ?_⟩
  · simp [scan, run', Except.bind, Scan.finish, Spot.reader, closed']
  · rw [read', List.filterMap_reverse, List.filterMap_reverse, matched.gists, matched'.gists]

end Legible

end Stylesheet
