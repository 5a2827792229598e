import Mathlib.Data.List.Infix
import Stylesheet.Proofs.Legible

set_option autoImplicit false

namespace Stylesheet

open Cell (render strokes)

namespace Compact

/-- The patterns of the passes that take out blanks and semicolons. -/
def patterns : List (Text → Nat) :=
  [beforeBraceLength, afterDelimiterLength, combinatorLength, continuationLength,
    lastSemicolonLength]

/-- Whether a pattern of compacting matches at the start of a text. -/
def touches (t : Text) : Bool := commentLength t ≠ 0 || patterns.any fun length => length t ≠ 0

/-- Whether no pattern matches at a character of some ink before a text. -/
def isUntouched (ink rest : Text) : Bool :=
  ink.tails.all fun v => v = [] || !touches (v ++ rest)

/-- Whether compacting spares the strings and escapes of some cells. All of these are complete, and
no blank is escaped. Comments are taken whole, and the flag says whether one may stand here: only
blanks and comments come between it and the start, a semicolon or a brace. -/
def spares : Bool → List Cell → Bool
  | _, [] => true
  | fresh, x :: k =>
    match x.ink with
    | [] => spares fresh k
    | [c] =>
      c ≠ '\\' && !Text.isQuote c && !decide (['/', '*'] <+: c :: render k) &&
        spares (c = ';' || isBrace c) k
    | ink =>
      if x.isRemark then fresh && commentLength (ink ++ render k) = ink.length && spares true k
      else
        isUntouched ink (render k) && (ink.head? ≠ some '\\' || ink.all (!Text.isBlank ·)) &&
          spares false k

end Compact

/-- Whether compacting spares the strings and escapes of a text. -/
def Text.isSpared (t : Text) : Bool := Compact.spares true (t.cellsBy verbatimLength)

namespace Text

variable {length : Text → Nat} {c : Char} {t : Text}

theorem cellsBy_blank (unmatched : length (c :: t) = 0) (blank : isBlank c) :
    cellsBy length (c :: t) =
      (cellsBy length t).modifyHead fun x => { x with gap := c :: x.gap } := by
  rw [cellsBy, pieces_plain unmatched, List.map_cons, Cell.ofParts, ← cellsBy]
  simp [Piece.render, blank]

theorem cellsBy_visible (unmatched : length (c :: t) = 0) (visible : isBlank c = false) :
    cellsBy length (c :: t) = ⟨[], [c]⟩ :: cellsBy length t := by
  rw [cellsBy, pieces_plain unmatched, List.map_cons, Cell.ofParts, ← cellsBy]
  simp [Piece.render, visible]

theorem cellsBy_found {m : Text} (isVerbatim : IsVerbatim m)
    (found : length (m ++ t) = m.length) :
    cellsBy length (m ++ t) = ⟨[], m⟩ :: cellsBy length t := by
  obtain ⟨c, d, w, rfl, visible⟩ := isVerbatim.exists_first
  rw [cellsBy, pieces_found (by simp) found, List.map_cons, Cell.ofParts, ← cellsBy]
  simp [Piece.render, visible]

theorem render_cellsBy (t : Text) : render (t.cellsBy verbatimLength) = t := by
  induction t using induction_by verbatimLength_eq_zero_or with
  | nil => rfl
  | plain c t unmatched ih =>
    cases visible : isBlank c with
    | true =>
      rw [cellsBy_blank unmatched visible]
      exact (Cell.render_modifyHead [c] (Cell.cellsBy_ne_nil _ t)).trans (by rw [ih]; rfl)
    | false => simp [cellsBy_visible unmatched visible, ih]
  | verbatim m t isVerbatim found ih => simp [cellsBy_found isVerbatim found, ih]

end Text

namespace Compact

theorem spares_modifyHead (fresh : Bool) (k : List Cell) (f : Text → Text) :
    spares fresh (k.modifyHead fun x => { x with gap := f x.gap }) = spares fresh k := by
  cases k <;> rfl

theorem touches_of_isUntouched {ink rest : Text} (untouched : isUntouched ink rest) :
    ∀ v, v <:+ ink → v ≠ [] → touches (v ++ rest) = false := by
  intro v suffix nonempty
  simp only [isUntouched, List.all_eq_true, List.mem_tails] at untouched
  simpa [nonempty] using untouched v suffix

/-- What `spares` says of ink that is not divided. -/
theorem spares_whole {fresh : Bool} {x : Cell} {k : List Cell} {c d : Char} {w : Text}
    (ink : x.ink = c :: d :: w) :
    spares fresh (x :: k) =
      if x.isRemark then
        fresh && commentLength (x.ink ++ render k) = x.ink.length && spares true k
      else
        isUntouched x.ink (render k) &&
          (x.ink.head? ≠ some '\\' || x.ink.all (!Text.isBlank ·)) && spares false k := by
  rw [spares]
  simp only [ink]

/-- The cells of a text that is spared, with what this says of each. -/
inductive Spared : Bool → List Cell → Prop
  | finish {fresh : Bool} {gap : Text} (blank : ∀ c ∈ gap, Text.isBlank c) :
      Spared fresh [⟨gap, []⟩]
  | letter {fresh : Bool} {gap : Text} {c : Char} {k : List Cell}
      (blank : ∀ c ∈ gap, Text.isBlank c) (visible : Text.isBlank c = false)
      (bare : c ≠ '\\' ∧ Text.isQuote c = false) (unopened : ¬ ['/', '*'] <+: c :: render k)
      (rest : Spared (c = ';' || isBrace c) k) : Spared fresh (⟨gap, [c]⟩ :: k)
  | string {fresh : Bool} {gap w : Text} {q : Char} {k : List Cell}
      (blank : ∀ c ∈ gap, Text.isBlank c) (quotes : Text.isQuote q)
      (closes : Text.Closes [q] w)
      (untouched : ∀ v, v <:+ q :: w → v ≠ [] → touches (v ++ render k) = false)
      (rest : Spared false k) : Spared fresh (⟨gap, q :: w⟩ :: k)
  | escape {fresh : Bool} {gap : Text} {d : Char} {k : List Cell}
      (blank : ∀ c ∈ gap, Text.isBlank c) (visible : Text.isBlank d = false)
      (untouched : ∀ v, v <:+ ['\\', d] → v ≠ [] → touches (v ++ render k) = false)
      (rest : Spared false k) : Spared fresh (⟨gap, ['\\', d]⟩ :: k)
  | remark {gap w : Text} {k : List Cell} (blank : ∀ c ∈ gap, Text.isBlank c)
      (closes : Text.Closes ['*', '/'] w)
      (taken : commentLength ('/' :: '*' :: w ++ render k) = ('/' :: '*' :: w).length)
      (rest : Spared true k) : Spared true (⟨gap, '/' :: '*' :: w⟩ :: k)

namespace Spared

variable {fresh : Bool} {K : List Cell}

theorem indent {k : List Cell} (spared : Spared fresh k) {c : Char} (first : Text.isBlank c) :
    Spared fresh (k.modifyHead fun x => { x with gap := c :: x.gap }) := by
  have more {gap : Text} (blank : ∀ c ∈ gap, Text.isBlank c) : ∀ d ∈ c :: gap, Text.isBlank d :=
    List.forall_mem_cons.mpr ⟨first, blank⟩
  cases spared with
  | finish blank => exact .finish (more blank)
  | letter blank visible bare unopened rest => exact .letter (more blank) visible bare unopened rest
  | string blank quotes closes untouched rest =>
    exact .string (more blank) quotes closes untouched rest
  | escape blank visible untouched rest => exact .escape (more blank) visible untouched rest
  | remark blank closes taken rest => exact .remark (more blank) closes taken rest

theorem of_spares {t : Text} (spared : spares fresh (t.cellsBy Text.verbatimLength)) :
    Spared fresh (t.cellsBy Text.verbatimLength) := by
  induction t using Text.induction_by Text.verbatimLength_eq_zero_or generalizing fresh with
  | nil => exact .finish (by simp)
  | plain c t unmatched ih =>
    cases visible : Text.isBlank c with
    | true =>
      rw [Text.cellsBy_blank unmatched visible] at spared ⊢
      rw [spares_modifyHead] at spared
      exact (ih spared).indent visible
    | false =>
      rw [Text.cellsBy_visible unmatched visible] at spared ⊢
      simp only [spares, Bool.and_eq_true, decide_eq_true_eq, Bool.not_eq_true',
        decide_eq_false_iff_not] at spared
      obtain ⟨⟨⟨plain, unquoted⟩, unopened⟩, later⟩ := spared
      exact .letter (by simp) visible ⟨plain, unquoted⟩ unopened (ih later)
  | verbatim m t isVerbatim found ih =>
    obtain ⟨c, d, w, ink, -⟩ := isVerbatim.exists_first
    rw [Text.cellsBy_found isVerbatim found] at spared ⊢
    rw [spares_whole (x := ⟨[], m⟩) ink] at spared
    cases isVerbatim with
    | remark closes =>
      simp only [Cell.isRemark, List.cons_prefix_cons, List.nil_prefix, and_self, decide_true,
        ↓reduceIte, Bool.and_eq_true, decide_eq_true_eq] at spared
      obtain ⟨⟨rfl, taken⟩, later⟩ := spared
      exact .remark (by simp) closes taken (ih later)
    | string quotes closes =>
      have solid : Cell.Solid ⟨[], _ :: _⟩ := .string (by simp) quotes closes
      simp only [solid.not_isRemark, Bool.false_eq_true, ↓reduceIte, Bool.and_eq_true] at spared
      exact .string (by simp) quotes closes (touches_of_isUntouched spared.1.1) (ih spared.2)
    | escape e =>
      simp only [Cell.isRemark, List.cons_prefix_cons, Char.reduceEq, false_and, decide_false,
        Bool.false_eq_true, ↓reduceIte, Bool.and_eq_true] at spared
      have visible : Text.isBlank '\\' = false ∧ Text.isBlank e = false := by
        simpa using spared.1.2
      exact .escape (by simp) visible.2 (touches_of_isUntouched spared.1.1) (ih spared.2)

theorem legible (spared : Spared fresh K) : Legible fresh K := by
  have whole {x : Cell} {k : List Cell} {fresh : Bool} (solid : x.Solid)
      (several : 2 ≤ x.ink.length) (rest : Legible false k) : Legible fresh (x :: k) := by
    refine .solid solid (fun opened => ?_) ?_
    · have inside := List.prefix_of_prefix_length_le opened ⟨_, rfl⟩ several
      have other := solid.not_isRemark
      simp [Cell.isRemark, inside] at other
    · have goesOn : (decide (x.ink = [';']) || x.is isBrace) = false := by
        rw [Cell.is_of_length_ne (by omega), Bool.or_false, decide_eq_false_iff_not]
        intro isOne
        simp [isOne] at several
      rwa [goesOn]
  induction spared with
  | finish blank => exact .finish blank
  | letter blank visible bare unopened rest ih =>
    exact .solid (.letter blank visible bare) unopened (by simpa using ih)
  | string blank quotes closes untouched rest ih =>
    refine whole (.string blank quotes closes) ?_ ih
    have := List.length_pos_iff.mpr (closes.ne_nil (Text.mem_endMarks quotes))
    simp only [List.length_cons]
    omega
  | escape blank visible untouched rest ih => exact whole (.escape blank visible) (by simp) ih
  | remark blank closes taken rest ih => exact .remark blank closes ih

end Spared

/-- The cells other than comments. The blanks before a comment go to the next cell. -/
def withoutRemarks : Text → List Cell → List Cell
  | _, [] => []
  | g, x :: k =>
    if x.isRemark then withoutRemarks (g ++ x.gap) k
    else ⟨g ++ x.gap, x.ink⟩ :: withoutRemarks [] k

theorem withoutRemarks_solid {x : Cell} (solid : x.Solid) (g : Text) (k : List Cell) :
    withoutRemarks g (x :: k) = ⟨g ++ x.gap, x.ink⟩ :: withoutRemarks [] k := by
  simp [withoutRemarks, solid.not_isRemark]

theorem commentLength_of_unopened {t : Text} (unopened : ¬ ['/', '*'] <+: t) :
    commentLength t = 0 := by
  fun_cases commentLength t with
  | case1 t => simp at unopened
  | case2 => rfl

theorem commentLength_of_untouched {t : Text} (untouched : touches t = false) :
    commentLength t = 0 := by
  simp only [touches, Bool.or_eq_false_iff] at untouched
  simpa using untouched.1

theorem dropComments_gap {gap : Text} (blank : ∀ c ∈ gap, Text.isBlank c) (t : Text) :
    dropComments (gap ++ t) = gap ++ dropComments t := by
  apply Text.replace_append_of_unmatched
  intro v suffix nonempty
  obtain ⟨c, v, rfl⟩ := List.exists_cons_of_ne_nil nonempty
  apply commentLength_of_unopened
  rintro opened
  rw [List.cons_append, List.cons_prefix_cons] at opened
  have first := blank c (suffix.subset List.mem_cons_self)
  rw [← opened.1] at first
  cases first

namespace Spared

variable {fresh : Bool} {K : List Cell}

/-- Dropping comments leaves the other cells. -/
theorem dropComments_render (spared : Spared fresh K) (g : Text) :
    g ++ dropComments (render K) = render (withoutRemarks g K) := by
  have kept {x : Cell} {k : List Cell} (solid : x.Solid)
      (same : dropComments (x.ink ++ render k) = x.ink ++ dropComments (render k))
      (ih : ∀ g, g ++ dropComments (render k) = render (withoutRemarks g k)) (g : Text) :
      g ++ dropComments (render (x :: k)) = render (withoutRemarks g (x :: k)) := by
    rw [Cell.render_cons, dropComments_gap solid.blank, same, withoutRemarks_solid solid,
      Cell.render_cons, ← ih []]
    simp
  induction spared generalizing g with
  | @finish _ gap blank =>
    have empty : dropComments [] = [] := rfl
    have same : dropComments gap = gap := by simpa [empty] using dropComments_gap blank []
    simp [withoutRemarks, Cell.isRemark, same]
  | letter blank visible bare unopened rest ih =>
    refine kept (.letter blank visible bare) ?_ ih g
    exact Text.replace_cons (commentLength_of_unopened unopened)
  | string blank quotes closes untouched rest ih =>
    refine kept (.string blank quotes closes) ?_ ih g
    exact Text.replace_append_of_unmatched fun v suffix nonempty =>
      commentLength_of_untouched (untouched v suffix nonempty)
  | escape blank visible untouched rest ih =>
    refine kept (.escape blank visible) ?_ ih g
    exact Text.replace_append_of_unmatched fun v suffix nonempty =>
      commentLength_of_untouched (untouched v suffix nonempty)
  | @remark gap w k blank closes taken rest ih =>
    have dropped : dropComments ('/' :: '*' :: w ++ render k) = dropComments (render k) :=
      Text.replace_append (by simp) taken
    rw [Cell.render_cons, dropComments_gap blank, dropped, ← List.append_assoc, ih]
    simp [withoutRemarks, Cell.isRemark]

/-- Comments make no stroke, and the blanks around them count for nothing. -/
theorem strokes_withoutRemarks (spared : Spared fresh K) {opened : Bool}
    (begun : fresh → opened = true) {g : Text} (first : g ≠ [] → opened = true) :
    strokes opened (withoutRemarks g K) = strokes opened K := by
  have kept {x : Cell} {k : List Cell} {opened : Bool} {g : Text} (solid : x.Solid)
      (first : g ≠ [] → opened = true)
      (later : strokes (x.is isMark) (withoutRemarks [] k) = strokes (x.is isMark) k) :
      strokes opened (withoutRemarks g (x :: k)) = strokes opened (x :: k) := by
    have same :
        strokes opened ((x :: withoutRemarks [] k).modifyHead fun y => ⟨g ++ x.gap, y.ink⟩) =
        strokes opened (x :: withoutRemarks [] k) := by
      apply Cell.strokes_modifyHead
      rintro y ⟨⟩
      by_cases empty : g = []
      · exact .inr (by simp [empty])
      · exact .inl (first empty)
    rw [withoutRemarks_solid solid, Cell.strokes_cons solid, ← later, ← Cell.strokes_cons solid,
      ← same]
    rfl
  induction spared generalizing opened g with
  | finish => simp [withoutRemarks, Cell.isRemark, strokes]
  | @letter _ _ c _ blank visible bare unopened rest ih =>
    refine kept (.letter blank visible bare) first (ih ?_ (by simp))
    intro isEnd
    simp only [Bool.or_eq_true, decide_eq_true_eq] at isEnd
    rcases isEnd with rfl | brace
    · rfl
    · simpa using isMark_of_isBrace brace
  | string blank quotes closes untouched rest ih =>
    exact kept (.string blank quotes closes) first (ih (by simp) (by simp))
  | escape blank visible untouched rest ih =>
    exact kept (.escape blank visible) first (ih (by simp) (by simp))
  | remark blank closes taken rest ih =>
    obtain rfl := begun rfl
    simpa [withoutRemarks, strokes, Cell.isRemark] using ih (fun _ => rfl) (fun _ => rfl)

end Spared

/-- What may come after an escaped character, so that no pattern matches there. -/
structure Bears (d : Char) (y : Cell) : Prop where
  closed : isDelimiter d → y.gap = []
  goesOn : d = ';' → y.ink ≠ ['}']
  unbroken : d = '\\' → y.gap = ['\n'] ∨ y.gap.head? ≠ some '\n'

/-- Cells without comments, in which no pattern matches at a character of a string or an escape.
This stays so when blanks are taken out. -/
inductive Firm : List Cell → Prop
  | finish {gap : Text} (blank : ∀ c ∈ gap, Text.isBlank c) : Firm [⟨gap, []⟩]
  | letter {gap : Text} {c : Char} {k : List Cell} (blank : ∀ c ∈ gap, Text.isBlank c)
      (visible : Text.isBlank c = false) (bare : c ≠ '\\' ∧ Text.isQuote c = false)
      (unopened : c = '/' → ∀ y ∈ k.head?, y.gap = [] → y.ink ≠ ['*'])
      (rest : Firm k) : Firm (⟨gap, [c]⟩ :: k)
  | string {gap w : Text} {q : Char} {k : List Cell} (blank : ∀ c ∈ gap, Text.isBlank c)
      (quotes : Text.isQuote q) (closes : Text.Closes [q] w)
      (untouched : ∀ v, v <:+ q :: w → v ≠ [] → ∀ length ∈ patterns, ∀ t, length (v ++ t) = 0)
      (rest : Firm k) : Firm (⟨gap, q :: w⟩ :: k)
  | escape {gap : Text} {d : Char} {k : List Cell} (blank : ∀ c ∈ gap, Text.isBlank c)
      (visible : Text.isBlank d = false) (bears : ∀ y ∈ k.head?, Bears d y) (rest : Firm k) :
      Firm (⟨gap, ['\\', d]⟩ :: k)

namespace Firm

variable {k k' : List Cell}

theorem beforeBraceLength_of_visible {c : Char} (visible : Text.isBlank c = false) (t : Text) :
    beforeBraceLength (c :: t) = 0 := by
  simp [beforeBraceLength, blanks, Text.countWhile, visible]

/-- The first cell starts with a visible character, where it has no blanks. -/
theorem visible_head (firm : Firm k) :
    ∃ y l, k = y :: l ∧ (∀ c ∈ y.gap, Text.isBlank c) ∧
      (∀ c ∈ (y.ink ++ render l).head?, Text.isBlank c = false) ∧
      ∀ c w, y.ink ++ render l = c :: w → Compact.isMark c ∨ c = '*' → y.ink = [c] := by
  cases firm with
  | finish blank => exact ⟨_, _, rfl, blank, by simp, by simp⟩
  | letter blank visible => exact ⟨_, _, rfl, blank, by simpa using visible, by simp⟩
  | string blank quotes =>
    refine ⟨_, _, rfl, blank, by simpa using Text.isBlank_of_isQuote quotes, ?_⟩
    rintro c w same marks
    cases (List.cons.inj same).1
    rcases Text.isQuote_iff.mp quotes with rfl | rfl <;> exact absurd marks (by decide)
  | escape blank visible =>
    have seen : Text.isBlank '\\' = false := rfl
    refine ⟨_, _, rfl, blank, by simpa using seen, ?_⟩
    rintro c w same marks
    cases (List.cons.inj same).1
    exact absurd marks (by decide)

theorem continuationLength_of_unbroken {t : Text} (unbroken : t.head? ≠ some '\n') :
    continuationLength ('\\' :: t) = 0 := by
  rw [continuationLength]
  rintro u same
  simp [(List.cons.inj same).2] at unbroken

/-- No pattern matches at an escape. -/
theorem unmatched_escape {d : Char} (visible : Text.isBlank d = false) (t : Text) :
    ∀ length ∈ patterns, length ('\\' :: d :: t) = 0 := by
  have unbroken := Text.ne_break_of_visible visible
  simp only [patterns, List.mem_cons, List.not_mem_nil, or_false]
  rintro length (rfl | rfl | rfl | rfl | rfl)
  · exact beforeBraceLength_of_visible rfl _
  · exact afterDelimiterLength_of_other rfl _
  · exact combinatorLength_of_visible rfl _
  · exact continuationLength_of_unbroken (by simpa using unbroken)
  · exact lastSemicolonLength_of_ne (by decide) _

/-- No pattern matches at an escaped character. -/
theorem unmatched_escaped (firm : Firm k) {d : Char} (visible : Text.isBlank d = false)
    (bears : ∀ y ∈ k.head?, Bears d y) : ∀ length ∈ patterns, length (d :: render k) = 0 := by
  obtain ⟨y, l, rfl, blank, first, lone⟩ := firm.visible_head
  have bears := bears y rfl
  have none : blanks (y.ink ++ render l) = 0 := by
    simpa using blanks_append (w := []) (by simp) first
  simp only [patterns, List.mem_cons, List.not_mem_nil, or_false, Cell.render_cons]
  rintro length (rfl | rfl | rfl | rfl | rfl)
  · exact beforeBraceLength_of_visible visible _
  · cases delimits : isDelimiter d with
    | false => exact afterDelimiterLength_of_other delimits _
    | true => simp [afterDelimiterLength, bears.closed delimits, none]
  · exact combinatorLength_of_visible visible _
  · by_cases escape : d = '\\'
    · subst escape
      rcases bears.unbroken rfl with one | other
      · simp [one, continuationLength, none]
      · apply continuationLength_of_unbroken
        cases gap : y.gap with
        | nil =>
          intro isBreak
          exact absurd (first _ isBreak) (by decide)
        | cons c g => simpa [gap] using other
    · exact continuationLength_of_ne escape _
  · by_cases semicolon : d = ';'
    · subst semicolon
      rw [bears.closed rfl, List.nil_append, lastSemicolonLength]
      rintro t same
      have lone := lone '}' t (List.cons.inj same).2 (.inl rfl)
      exact bears.goesOn rfl lone
    · exact lastSemicolonLength_of_ne semicolon _

theorem laid (firm : Firm k) {length : Text → Nat} (member : length ∈ patterns) :
    Laid length k := by
  induction firm with
  | finish blank => exact .finish blank
  | letter blank visible bare _ _ ih => exact .letter blank visible bare.1 ih
  | string blank quotes closes untouched _ ih =>
    obtain ⟨d, w, rfl⟩ := List.exists_cons_of_ne_nil (closes.ne_nil (Text.mem_endMarks quotes))
    refine .whole blank (Text.isBlank_of_isQuote quotes) ?_
      (fun v suffix nonempty => untouched v suffix nonempty length member _) ih
    rcases Text.isQuote_iff.mp quotes with rfl | rfl <;> rfl
  | @escape gap d k blank visible bears rest ih =>
    refine .whole blank rfl rfl ?_ ih
    intro v suffix nonempty
    rcases List.suffix_cons_iff.mp suffix with rfl | shorter
    · exact unmatched_escape visible _ length member
    · rcases List.suffix_cons_iff.mp shorter with rfl | none
      · exact rest.unmatched_escaped visible bears length member
      · exact absurd (List.suffix_nil.mp none) nonempty

/-- Taking out blanks brings no letter to a `/`, and none to an escape that does not bear it. -/
theorem tightens {opened : Bool} (firm : Firm k) (tightens : Tightens opened k k') : Firm k' := by
  have fewer {gap : Text} {x : Cell} (blank : ∀ c ∈ x.gap, Text.isBlank c)
      {opened : Bool}
      (less : gap = x.gap ∨ gap = [] ∧ (opened ∨ x.is isBrace ∨ x.is isCombinator)) :
      ∀ c ∈ gap, Text.isBlank c := by
    rcases less with rfl | ⟨rfl, -⟩
    · exact blank
    · simp
  induction firm generalizing opened k' with
  | finish blank =>
    cases tightens with
    | cons less rest =>
      cases rest
      exact .finish (fewer blank less)
  | letter blank visible bare unopened _ ih =>
    cases tightens with
    | cons less rest =>
      refine .letter (fewer blank less) visible bare ?_ (ih rest)
      rintro rfl y' first closed star
      cases rest with
      | nil => cases first
      | @cons _ y _ _ gap less' _ =>
        cases first
        have star : y.ink = ['*'] := star
        rcases less' with same | ⟨-, impossible⟩
        · exact unopened rfl y rfl (same.symm.trans closed) star
        · simp [Cell.is, star, isMark, isDelimiter, isBrace, isCombinator] at impossible
  | string blank quotes closes untouched _ ih =>
    cases tightens with
    | cons less rest => exact .string (fewer blank less) quotes closes untouched (ih rest)
  | escape blank visible bears _ ih =>
    cases tightens with
    | cons less rest =>
      refine .escape (fewer blank less) visible ?_ (ih rest)
      intro y' first
      cases rest with
      | nil => cases first
      | @cons _ y _ _ gap less' _ =>
        cases first
        have bears := bears y rfl
        rcases less' with rfl | ⟨rfl, -⟩
        · exact ⟨bears.closed, bears.goesOn, bears.unbroken⟩
        · exact ⟨fun _ => rfl, bears.goesOn, fun _ => .inr (by simp)⟩

/-- The passes after that of comments take blanks out of firm cells, and semicolons. -/
theorem compact_eq (firm : Firm k) {css : Text} (uncommented : dropComments css = render k) :
    compact css = render (lastSemicolons (squeezed k)) := by
  have first := firm.tightens (.of_beforeBraces true k)
  have second := first.tightens (.of_afterDelimiters true _)
  have third := second.tightens (.of_aroundCombinators false _)
  rw [compact, uncommented, dropBeforeBraces_render (firm.laid (by simp [patterns])),
    dropAfterDelimiters_render (first.laid (by simp [patterns])),
    dropAroundCombinators_render (second.laid (by simp [patterns])),
    joinContinuations_render (third.laid (by simp [patterns])),
    dropLastSemicolons_render (third.laid (by simp [patterns])), squeezed]

end Firm

/-- A quotation mark ends what a pattern can see. -/
theorem blanks_quote {q : Char} (quotes : Text.isQuote q) (v t : Text) :
    blanks (v ++ q :: t) = blanks (v ++ [q]) ∧ blanks (v ++ [q]) ≤ v.length := by
  induction v with
  | nil => simp [blanks, Text.countWhile, Text.isBlank_of_isQuote quotes]
  | cons c v ih =>
    simp only [blanks, Text.countWhile, List.cons_append, List.takeWhile_cons] at ih ⊢
    split
    · simpa using ih
    · simp

section Quote

variable {q : Char} (quotes : Text.isQuote q) (v t : Text)

include quotes

theorem beforeBraceLength_quote :
    beforeBraceLength (v ++ q :: t) = beforeBraceLength (v ++ [q]) := by
  obtain ⟨same, short⟩ := blanks_quote quotes v t
  have head (u : Text) : ((v ++ q :: u).drop (blanks (v ++ [q]))).head? =
      ((v.drop (blanks (v ++ [q]))).head?.or (some q)) := by
    rw [List.drop_append_of_le_length short, List.head?_append]
    rfl
  simp only [beforeBraceLength, same, head t, head []]

theorem afterDelimiterLength_quote :
    afterDelimiterLength (v ++ q :: t) = afterDelimiterLength (v ++ [q]) := by
  cases v with
  | nil =>
    have other : isDelimiter q = false := by
      rcases Text.isQuote_iff.mp quotes with rfl | rfl <;> rfl
    simp [afterDelimiterLength, other]
  | cons c v => simp [afterDelimiterLength, blanks_quote quotes v t]

theorem combinatorLength_quote :
    combinatorLength (v ++ q :: t) = combinatorLength (v ++ [q]) := by
  obtain ⟨same, short⟩ := blanks_quote quotes v t
  simp only [combinatorLength, same, List.drop_append_of_le_length short]
  cases v.drop (blanks (v ++ [q])) with
  | nil =>
    have other : isCombinator q = false := by
      rcases Text.isQuote_iff.mp quotes with rfl | rfl <;> rfl
    simp [other]
  | cons c u => simp [blanks_quote quotes u t]

theorem continuationLength_quote :
    continuationLength (v ++ q :: t) = continuationLength (v ++ [q]) := by
  have other : q ≠ '\\' ∧ q ≠ '\n' := by
    rcases Text.isQuote_iff.mp quotes with rfl | rfl <;> decide
  rcases v with _ | ⟨c, _ | ⟨d, v⟩⟩
  · simp only [List.nil_append, continuationLength_of_ne other.1]
  · simp only [List.singleton_append, continuationLength_of_apart fun both => other.2 both.2]
  · by_cases breaks : c = '\\' ∧ d = '\n'
    · obtain ⟨rfl, rfl⟩ := breaks
      simp [continuationLength, blanks_quote quotes v t]
    · simp only [List.cons_append, continuationLength_of_apart breaks]

theorem lastSemicolonLength_quote :
    lastSemicolonLength (v ++ q :: t) = lastSemicolonLength (v ++ [q]) := by
  have other : q ≠ ';' ∧ q ≠ '}' := by
    rcases Text.isQuote_iff.mp quotes with rfl | rfl <;> decide
  rcases v with _ | ⟨c, _ | ⟨d, v⟩⟩
  · simp only [List.nil_append, lastSemicolonLength_of_ne other.1]
  · simp only [List.singleton_append, lastSemicolonLength_of_apart fun both => other.2 both.2]
  · by_cases last : c = ';' ∧ d = '}'
    · obtain ⟨rfl, rfl⟩ := last
      rfl
    · simp only [List.cons_append, lastSemicolonLength_of_apart last]

theorem patterns_quote : ∀ length ∈ patterns, length (v ++ q :: t) = length (v ++ [q]) := by
  simp only [patterns, List.mem_cons, List.not_mem_nil, or_false]
  rintro length (rfl | rfl | rfl | rfl | rfl)
  · exact beforeBraceLength_quote quotes v t
  · exact afterDelimiterLength_quote quotes v t
  · exact combinatorLength_quote quotes v t
  · exact continuationLength_quote quotes v t
  · exact lastSemicolonLength_quote quotes v t

end Quote

theorem patterns_of_untouched {t : Text} (untouched : touches t = false) :
    ∀ length ∈ patterns, length t = 0 := by
  simp only [touches, Bool.or_eq_false_iff] at untouched
  simpa using untouched.2

namespace Spared

variable {fresh : Bool} {K : List Cell}

theorem head_withoutRemarks (spared : Spared false K) : (withoutRemarks [] K).head? = K.head? := by
  cases spared with
  | finish => simp [withoutRemarks, Cell.isRemark]
  | letter blank visible bare => rw [withoutRemarks_solid (.letter blank visible bare)]; rfl
  | string blank quotes closes => rw [withoutRemarks_solid (.string blank quotes closes)]; rfl
  | escape blank visible => rw [withoutRemarks_solid (.escape blank visible)]; rfl

theorem blank_head (spared : Spared fresh K) : ∀ y ∈ K.head?, ∀ c ∈ y.gap, Text.isBlank c := by
  cases spared <;> simpa

/-- The cell after an escape that is spared. -/
theorem bears (spared : Spared fresh K) {d : Char}
    (untouched : touches (d :: render K) = false) : ∀ y ∈ K.head?, Bears d y := by
  intro y first
  have blank := spared.blank_head y first
  obtain ⟨k, rfl⟩ := List.head?_eq_some_iff.mp first
  have unmatched := patterns_of_untouched untouched
  rw [Cell.render_cons] at unmatched
  have closed (delimits : isDelimiter d) : y.gap = [] := by
    have none := unmatched afterDelimiterLength (by simp [patterns])
    cases gap : y.gap with
    | nil => rfl
    | cons c g =>
      have first := blank c (by simp [gap])
      simp [afterDelimiterLength, delimits, gap, blanks, Text.countWhile, first] at none
  refine ⟨closed, ?_, ?_⟩
  · rintro rfl last
    have none := unmatched lastSemicolonLength (by simp [patterns])
    simp [closed rfl, last, lastSemicolonLength] at none
  · rintro rfl
    have none := unmatched continuationLength (by simp [patterns])
    rcases gap : y.gap with _ | ⟨c, _ | ⟨e, g⟩⟩
    · exact .inr (by simp)
    · by_cases isBreak : c = '\n'
      · exact .inl (by rw [isBreak])
      · exact .inr (by simpa using isBreak)
    · refine .inr ?_
      rintro isBreak
      cases isBreak
      have second := blank e (by simp [gap])
      simp [gap, continuationLength, blanks, Text.countWhile, second] at none

theorem firm (spared : Spared fresh K) {g : Text} (lead : ∀ c ∈ g, Text.isBlank c) :
    Firm (withoutRemarks g K) := by
  have more {gap : Text} (blank : ∀ c ∈ gap, Text.isBlank c) {g : Text}
      (lead : ∀ c ∈ g, Text.isBlank c) : ∀ c ∈ g ++ gap, Text.isBlank c := by
    simpa [or_imp, forall_and] using ⟨lead, blank⟩
  induction spared generalizing g with
  | finish blank => simpa [withoutRemarks, Cell.isRemark] using Firm.finish (more blank lead)
  | @letter _ _ c k blank visible bare unopened rest ih =>
    rw [withoutRemarks_solid (.letter blank visible bare)]
    refine .letter (more blank lead) visible bare ?_ (ih (by simp))
    rintro rfl y first closed star
    rw [head_withoutRemarks rest] at first
    obtain ⟨k, rfl⟩ := List.head?_eq_some_iff.mp first
    exact unopened (by simp [closed, star])
  | @string _ _ w q k blank quotes closes untouched rest ih =>
    rw [withoutRemarks_solid (.string blank quotes closes)]
    refine .string (more blank lead) quotes closes ?_ (ih (by simp))
    intro v suffix nonempty length member t
    -- Every suffix of a string ends with its quotation mark.
    obtain ⟨u, rfl⟩ : ∃ u, v = u ++ [q] := by
      obtain ⟨b, rfl⟩ := closes.suffix
      obtain ⟨a, split⟩ := suffix
      rw [← List.getLast?_eq_some_iff, ← List.getLast?_append_of_ne_nil a nonempty, split]
      simp [List.getLast?_cons]
    have here := patterns_of_untouched (untouched _ suffix nonempty) length member
    rw [List.append_assoc, List.singleton_append, patterns_quote quotes _ _ _ member] at here ⊢
    exact here
  | escape blank visible untouched rest ih =>
    rw [withoutRemarks_solid (.escape blank visible)]
    refine .escape (more blank lead) visible ?_ (ih (by simp))
    rw [head_withoutRemarks rest]
    exact rest.bears (untouched [_] (List.suffix_cons _ _) (by simp))
  | remark blank closes taken rest ih =>
    simpa [withoutRemarks, Cell.isRemark] using ih (more blank lead)

end Spared

namespace Firm

variable {k k' : List Cell}

theorem solid_or (firm : Firm k) :
    (∃ gap, k = [⟨gap, []⟩]) ∨ ∃ x l, k = x :: l ∧ x.Solid ∧ Firm l := by
  cases firm with
  | finish => exact .inl ⟨_, rfl⟩
  | letter blank visible bare _ rest => exact .inr ⟨_, _, rfl, .letter blank visible bare, rest⟩
  | string blank quotes closes _ rest => exact .inr ⟨_, _, rfl, .string blank quotes closes, rest⟩
  | escape blank visible _ rest => exact .inr ⟨_, _, rfl, .escape blank visible, rest⟩

/-- The blanks that may be taken out count for nothing. -/
theorem strokes_tightens {opened : Bool} (firm : Firm k) (tightens : Tightens opened k k') :
    strokes opened k' = strokes opened k := by
  induction tightens with
  | nil => rfl
  | @cons opened x k l gap less rest ih =>
    rcases firm.solid_or with ⟨_, only⟩ | ⟨_, _, split, solid, later⟩
    · obtain ⟨rfl, rfl⟩ := List.cons.inj only
      cases rest
      rfl
    · obtain ⟨rfl, rfl⟩ := List.cons.inj split
      have blank : ∀ c ∈ gap, Text.isBlank c := by
        rcases less with rfl | ⟨rfl, -⟩
        · exact solid.blank
        · simp
      have same : Cell.stroke opened ⟨gap, x.ink⟩ = x.stroke opened := by
        rcases less with rfl | ⟨rfl, rfl | brace | combines⟩
        · rfl
        · simp [Cell.stroke, Cell.is]
        · have brace' : Cell.is isBrace ⟨[], x.ink⟩ = true := brace
          simp [Cell.stroke, brace, brace']
        · have combines' : Cell.is isCombinator ⟨[], x.ink⟩ = true := combines
          simp [Cell.stroke, combines, combines']
      rw [Cell.strokes_cons (solid.gapped blank), Cell.strokes_cons solid, same, ← ih later]
      rfl

theorem solid_cons {x y : Cell} {l : List Cell} (firm : Firm (x :: y :: l)) :
    x.Solid ∧ Firm (y :: l) := by
  rcases firm.solid_or with ⟨_, only⟩ | ⟨_, _, split, solid, later⟩
  · cases only
  · obtain ⟨rfl, rfl⟩ := List.cons.inj split
    exact ⟨solid, later⟩

theorem solid_closing {y : Cell} {l : List Cell} (firm : Firm (y :: l)) (ink : y.ink = ['}']) :
    y.Solid ∧ Firm l := by
  rcases firm.solid_or with ⟨_, only⟩ | ⟨_, _, split, solid, later⟩
  · cases only
    cases ink
  · obtain ⟨rfl, rfl⟩ := List.cons.inj split
    exact ⟨solid, later⟩

/-- The strokes of a block's end, with the semicolon before it and without. -/
theorem strokes_last {x : Cell} {l : List Cell} (semicolon : x.ink = [';'])
    (solid : x.Solid) (closing : Cell.Solid ⟨[], ['}']⟩) (opened : Bool) :
    (strokes opened (x :: ⟨[], ['}']⟩ :: l)).map Stroke.unify =
        ⟨(x.stroke opened).apart, [';']⟩ :: ⟨false, ['}']⟩ :: (strokes true l).map Stroke.unify ∧
      ∀ l', (strokes opened (⟨x.gap, ['}']⟩ :: l')).map Stroke.unify =
        ⟨false, ['}']⟩ :: (strokes true l').map Stroke.unify := by
  have marks : x.is isMark := by simp [Cell.is, semicolon, isMark, isDelimiter]
  constructor
  · rw [Cell.strokes_cons solid, Cell.strokes_cons closing, marks]
    simp [Cell.stroke, Stroke.unify, semicolon, Text.unifyLineEnds, isMark, isDelimiter, isBrace]
  · intro l'
    rw [Cell.strokes_cons (closing.gapped solid.blank)]
    simp [Cell.stroke, Stroke.unify, Text.unifyLineEnds, isMark, isDelimiter, isBrace]

/-- Dropped semicolons do not change which delimiter is ahead, as far as blocks go. -/
theorem opensBlock_lastSemicolons (firm : Firm k) (opened : Bool) :
    Scan.opensBlock (((strokes opened (lastSemicolons k)).map Stroke.unify).flatMap Stroke.ink) =
      Scan.opensBlock (((strokes opened k).map Stroke.unify).flatMap Stroke.ink) := by
  induction k using lastSemicolons.induct generalizing opened with
  | case1 x y k last ih =>
    obtain ⟨semicolon, rfl⟩ := last
    obtain ⟨solid, later⟩ := firm.solid_cons
    obtain ⟨closing, -⟩ := later.solid_closing rfl
    obtain ⟨both, one⟩ := strokes_last (l := k) semicolon solid closing opened
    rw [lastSemicolons, if_pos ⟨semicolon, rfl⟩, both, one]
    rfl
  | case2 x y k more ih =>
    obtain ⟨solid, later⟩ := firm.solid_cons
    rw [lastSemicolons, if_neg more, Cell.strokes_cons solid, Cell.strokes_cons solid]
    have same := ih later (x.is isMark)
    simp only [Scan.opensBlock, List.map_cons, List.flatMap_cons, List.find?_append,
      decide_eq_decide] at same ⊢
    generalize Stroke.ink (Stroke.unify (x.stroke opened)) = ink
    cases ink.find? _ with
    | none => simpa using same
    | some c => simp
  | case3 k few => rw [lastSemicolons.eq_2 k few]

theorem step_congr (d : Digest) (x : Stroke) {ahead ahead' : Text}
    (same : Scan.opensBlock ahead = Scan.opensBlock ahead') : d.step x ahead = d.step x ahead' := by
  have keeps : Scan.keepsColon d.top ahead = Scan.keepsColon d.top ahead' := by
    unfold Scan.keepsColon
    rw [same]
  simp only [Digest.step, keeps]

theorem closeBrace_endClause (d : Digest) : d.endClause.closeBrace = d.closeBrace := by
  cases clause : d.clause <;> simp [Digest.closeBrace, Digest.endClause, clause]

/-- A semicolon before a closing brace makes no difference. -/
theorem gather_lastSemicolons (firm : Firm k) (d : Digest) (opened : Bool) :
    d.gather ((strokes opened (lastSemicolons k)).map Stroke.unify) =
      d.gather ((strokes opened k).map Stroke.unify) := by
  induction k using lastSemicolons.induct generalizing d opened with
  | case1 x y k last ih =>
    obtain ⟨semicolon, rfl⟩ := last
    obtain ⟨solid, later⟩ := firm.solid_cons
    obtain ⟨closing, rest⟩ := later.solid_closing rfl
    obtain ⟨both, one⟩ := strokes_last (l := k) semicolon solid closing opened
    have closes (d : Digest) (ahead : Text) : d.step ⟨false, ['}']⟩ ahead = d.closeBrace := rfl
    have ends (d : Digest) (apart : Bool) (ahead : Text) :
        d.step ⟨apart, [';']⟩ ahead = d.endClause := rfl
    rw [lastSemicolons, if_pos ⟨semicolon, rfl⟩, both, one]
    simp only [Digest.gather, closes, ends, closeBrace_endClause]
    exact ih rest _ _
  | case2 x y k more ih =>
    obtain ⟨solid, later⟩ := firm.solid_cons
    rw [lastSemicolons, if_neg more, Cell.strokes_cons solid, Cell.strokes_cons solid]
    simp only [List.map_cons, Digest.gather]
    rw [step_congr d _ (later.opensBlock_lastSemicolons (x.is isMark)), ih later]
  | case3 k few => rw [lastSemicolons.eq_2 k few]

/-- A text does not start with `*` because a semicolon was dropped. -/
theorem head_lastSemicolons (firm : Firm k)
    (star : (render (lastSemicolons k)).head? = some '*') : (render k).head? = some '*' := by
  induction k using lastSemicolons.induct with
  | case1 x y k last =>
    rw [lastSemicolons, if_pos last] at star
    cases gap : x.gap with
    | nil => simp [gap] at star
    | cons c g => simpa [gap] using star
  | case2 x y k more =>
    obtain ⟨c, w, ink, -⟩ := firm.solid_cons.1.exists_first
    rw [lastSemicolons, if_neg more] at star
    simpa [ink] using star
  | case3 k few => rwa [lastSemicolons.eq_2 k few] at star

/-- A `/` and a `*` that follows it directly do not come together. -/
theorem unopened {x : Cell} (firm : Firm (x :: k)) (solid : x.Solid) :
    ¬ ['/', '*'] <+: x.ink ++ render (lastSemicolons k) := by
  intro opened
  cases firm with
  | finish => exact solid.ink_ne_nil rfl
  | @letter _ c _ _ _ _ unopened rest =>
    obtain ⟨rfl, t, split⟩ : c = '/' ∧ ['*'] <+: render (lastSemicolons k) := by
      simpa [eq_comm] using opened
    have star := rest.head_lastSemicolons (by rw [← split]; rfl)
    obtain ⟨y, l, rfl, blank, -, lone⟩ := rest.visible_head
    rw [Cell.render_cons] at star
    cases gap : y.gap with
    | nil =>
      rw [gap, List.nil_append] at star
      obtain ⟨w, whole⟩ := List.head?_eq_some_iff.mp star
      exact unopened rfl y rfl gap (lone '*' w whole (.inr rfl))
    | cons d g =>
      rw [gap] at star
      have first := blank d (by simp [gap])
      cases star
      cases first
  | string _ quotes =>
    obtain ⟨rfl, -⟩ := List.cons_prefix_cons.mp opened
    cases quotes
  | escape =>
    obtain ⟨impossible, -⟩ := List.cons_prefix_cons.mp opened
    cases impossible

theorem legible_lastSemicolons (firm : Firm k) (fresh : Bool) :
    Legible fresh (lastSemicolons k) := by
  induction k using lastSemicolons.induct generalizing fresh with
  | case1 x y k last ih =>
    obtain ⟨semicolon, rfl⟩ := last
    obtain ⟨solid, later⟩ := firm.solid_cons
    obtain ⟨closing, rest⟩ := later.solid_closing rfl
    rw [lastSemicolons, if_pos ⟨semicolon, rfl⟩]
    exact .solid (closing.gapped solid.blank) (by simp) (ih rest _)
  | case2 x y k more ih =>
    obtain ⟨solid, later⟩ := firm.solid_cons
    rw [lastSemicolons, if_neg more]
    exact .solid solid (firm.unopened solid) (ih later _)
  | case3 k few =>
    rw [lastSemicolons.eq_2 k few]
    cases firm with
    | finish blank => exact .finish blank
    | letter _ _ _ _ rest | string _ _ _ _ rest | escape _ _ _ rest =>
      obtain ⟨y, l, rfl, -⟩ := rest.visible_head
      exact (few _ _ _ rfl).elim

end Firm

/-- The ink of the cells that are left was there before. -/
theorem ink_lastSemicolons (k : List Cell) : ∀ y ∈ lastSemicolons k, ∃ x ∈ k, x.ink = y.ink := by
  induction k using lastSemicolons.induct with
  | case1 x y k last ih =>
    rw [lastSemicolons, if_pos last]
    simp only [List.mem_cons]
    rintro z (rfl | member)
    · exact ⟨y, .inr (.inl rfl), by rw [last.2]⟩
    · obtain ⟨x', member', same⟩ := ih z member
      exact ⟨x', .inr (.inr member'), same⟩
  | case2 x y k more ih =>
    rw [lastSemicolons, if_neg more]
    simp only [List.mem_cons]
    rintro z (rfl | member)
    · exact ⟨z, .inl rfl, rfl⟩
    · obtain ⟨x', member', same⟩ := ih z member
      exact ⟨x', .inr (by simpa using member'), same⟩
  | case3 k few =>
    rw [lastSemicolons.eq_2 k few]
    exact fun y member => ⟨y, member, rfl⟩

theorem Tightens.ink {opened : Bool} {k k' : List Cell} (tightens : Tightens opened k k') :
    ∀ y ∈ k', ∃ x ∈ k, x.ink = y.ink := by
  induction tightens with
  | nil => simp
  | cons less rest ih =>
    simp only [List.mem_cons]
    rintro z (rfl | member)
    · exact ⟨_, .inl rfl, rfl⟩
    · obtain ⟨x', member', same⟩ := ih z member
      exact ⟨x', .inr member', same⟩

theorem ink_withoutRemarks (g : Text) (k : List Cell) :
    ∀ y ∈ withoutRemarks g k, ∃ x ∈ k, x.ink = y.ink := by
  fun_induction withoutRemarks g k with
  | case1 => simp
  | case2 g x k remark ih =>
    intro y member
    obtain ⟨x', member', same⟩ := ih y member
    exact ⟨x', List.mem_cons_of_mem _ member', same⟩
  | case3 g x k other ih =>
    simp only [List.mem_cons]
    rintro y (rfl | member)
    · exact ⟨x, .inl rfl, rfl⟩
    · obtain ⟨x', member', same⟩ := ih y member
      exact ⟨x', .inr member', same⟩

end Compact

/-- The tokens of a compacted text that is spared say the same. -/
theorem Text.scan_compact {css : Text} (spared : css.isSpared) {tokens : List Token}
    (read : scan css = .ok tokens) :
    ∃ tokens', scan (compact css) = .ok tokens' ∧
      tokens'.filterMap Token.gist = tokens.filterMap Token.gist := by
  have cells : Compact.Spared true (css.cellsBy verbatimLength) := .of_spares spared
  have whole := render_cellsBy css
  generalize css.cellsBy verbatimLength = K at cells whole
  have firm := cells.firm (g := []) (by simp)
  have tightens := Compact.tightens_squeezed (Compact.withoutRemarks [] K)
  have squeezed := firm.tightens tightens
  have compacted : compact css = render (Compact.lastSemicolons (Compact.squeezed
      (Compact.withoutRemarks [] K))) :=
    firm.compact_eq (by simpa [whole] using cells.dropComments_render [])
  rw [← whole] at read
  rw [compacted]
  refine cells.legible.scan_of_gather (squeezed.legible_lastSemicolons true) ?_ ?_ read
  · intro y member _
    obtain ⟨x, member, ink⟩ := Compact.ink_lastSemicolons _ y member
    obtain ⟨x', member, ink'⟩ := tightens.ink x member
    obtain ⟨x'', member, ink''⟩ := Compact.ink_withoutRemarks _ _ x' member
    exact ⟨x'', member, ink''.trans (ink'.trans ink)⟩
  · rw [squeezed.gather_lastSemicolons, firm.strokes_tightens tightens,
      cells.strokes_withoutRemarks (fun _ => rfl) (fun _ => rfl)]

end Stylesheet
