import Stylesheet.Proofs.Cells
import Stylesheet.Proofs.Literals

set_option autoImplicit false

namespace Stylesheet

open Stylesheet.Compact (isBrace isCombinator isMark)

/-- Ink, and whether blanks part it from the ink before it. Blanks count for nothing at the start of
a text, after a delimiter or a combinator, and before a brace or a combinator. -/
structure Stroke where
  apart : Bool
  ink : Text
  deriving DecidableEq, Repr

namespace Cell

def isRemark (x : Cell) : Bool := ['/', '*'] <+: x.ink

/-- The stroke of a cell, where the flag says whether the blanks before it count for nothing. -/
def stroke (opened : Bool) (x : Cell) : Stroke :=
  ⟨!opened && x.gap ≠ [] && !x.is isBrace && !x.is isCombinator, x.ink⟩

/-- The strokes of cells other than comments. -/
def strokes : Bool → List Cell → List Stroke
  | _, [] => []
  | opened, x :: k =>
    if x.ink = [] || x.isRemark then strokes opened k
    else x.stroke opened :: strokes (x.is isMark) k

end Cell

namespace Text

/-- The cells of a text, where the matches of a pattern are not divided. -/
def cellsBy (length : Text → Nat) (t : Text) : List Cell :=
  Cell.ofParts ((pieces length t).map (Piece.render id))

/-- The strokes of a text, where strings and escapes are not divided. -/
def strokes (t : Text) : List Stroke := Cell.strokes true (cellsBy sealLength t)

end Text

/-- What a token says apart from its line and from blanks that count for nothing. The name of an
at-rule goes with its parameters, since such blanks may stand between them. -/
inductive Gist where
  | rule (selector : List Stroke)
  | atBlock (header : List Stroke)
  | statement (header : List Stroke)
  | property (key value : List Stroke)
  | close
  deriving DecidableEq, Repr

def Token.gist : Token → Option Gist
  | rule selector _ => some (.rule selector.strokes)
  | atBlock name params _ => some (.atBlock (name ++ ' ' :: params).strokes)
  | statement name params _ => some (.statement (name ++ ' ' :: params).strokes)
  | property key value _ => some (.property key.strokes value.strokes)
  | comment _ _ => none
  | close _ => some .close

namespace Cell

/-- Ink that a reader outside strings takes whole: a letter, a string or an escape. -/
inductive Solid : Cell → Prop
  | letter {gap : Text} {c : Char} (blank : ∀ c ∈ gap, Text.isBlank c)
      (visible : Text.isBlank c = false) (bare : c ≠ '\\' ∧ Text.isQuote c = false) :
      Solid ⟨gap, [c]⟩
  | string {gap w : Text} {q : Char} (blank : ∀ c ∈ gap, Text.isBlank c) (quotes : Text.isQuote q)
      (closes : Text.Closes [q] w) : Solid ⟨gap, q :: w⟩
  | escape {gap : Text} {d : Char} (blank : ∀ c ∈ gap, Text.isBlank c)
      (visible : Text.isBlank d = false) : Solid ⟨gap, ['\\', d]⟩

end Cell

namespace Cell.Solid

variable {x : Cell} {k : List Cell}

theorem blank (solid : x.Solid) : ∀ c ∈ x.gap, Text.isBlank c := by
  cases solid <;> assumption

theorem gapped (solid : x.Solid) {gap : Text} (blank : ∀ c ∈ gap, Text.isBlank c) :
    Solid ⟨gap, x.ink⟩ := by
  cases solid with
  | letter _ visible bare => exact .letter blank visible bare
  | string _ quotes closes => exact .string blank quotes closes
  | escape _ visible => exact .escape blank visible

theorem exists_first (solid : x.Solid) : ∃ c w, x.ink = c :: w ∧ Text.isBlank c = false := by
  cases solid with
  | letter _ visible => exact ⟨_, _, rfl, visible⟩
  | string _ quotes => exact ⟨_, _, rfl, Text.isBlank_of_isQuote quotes⟩
  | escape => exact ⟨_, _, rfl, rfl⟩

theorem visible_last (solid : x.Solid) : ∀ c ∈ x.ink.getLast?, Text.isBlank c = false := by
  cases solid with
  | letter _ visible => simpa using visible
  | @string gap w q _ quotes closes =>
    obtain ⟨v, rfl⟩ := closes.suffix
    simpa [List.getLast?_cons] using Text.isBlank_of_isQuote quotes
  | escape _ visible => simpa using visible

theorem ink_ne_nil (solid : x.Solid) : x.ink ≠ [] := by
  obtain ⟨c, w, ink, -⟩ := solid.exists_first
  simp [ink]

theorem not_isRemark (solid : x.Solid) : x.isRemark = false := by
  cases solid with
  | letter => simp [isRemark]
  | string _ quotes =>
    rcases Text.isQuote_iff.mp quotes with rfl | rfl <;> simp [isRemark]
  | escape => simp [isRemark]

end Cell.Solid

namespace Text

theorem sealLength_cons {c : Char} (bare : c ≠ '\\' ∧ isQuote c = false) (t : Text) :
    sealLength (c :: t) = 0 := by
  rw [sealLength]
  · simp [bare.2]
  · rintro d u rfl
    exact absurd rfl bare.1

theorem sealLength_string {q : Char} {w : Text} (quotes : isQuote q) (closes : Closes [q] w)
    (t : Text) : sealLength (q :: w ++ t) = (q :: w).length := by
  have plain : q ≠ '\\' := by rintro rfl; cases quotes
  rw [List.cons_append, sealLength]
  · simp [quotes, closes.closing?_append (mem_endMarks quotes)]
  · rintro d u rfl
    exact absurd rfl plain

end Text

namespace Cell

variable {x : Cell} {k : List Cell} {g t : Text}

/-- A string or an escape is a match, and a letter is none, whatever comes after them. -/
theorem Solid.cellsBy_ink (solid : x.Solid) (t : Text) :
    Text.cellsBy Text.sealLength (x.ink ++ t) =
      ⟨[], x.ink⟩ :: Text.cellsBy Text.sealLength t := by
  obtain ⟨c, w, ink, visible⟩ := solid.exists_first
  have divided : ∃ piece : Text.Piece, piece.render id = x.ink ∧
      Text.pieces Text.sealLength (x.ink ++ t) = piece :: Text.pieces Text.sealLength t := by
    cases solid with
    | letter _ _ bare => exact ⟨_, rfl, Text.pieces_plain (Text.sealLength_cons bare t)⟩
    | string _ quotes closes =>
      exact ⟨_, rfl, Text.pieces_found (by simp) (Text.sealLength_string quotes closes t)⟩
    | escape => exact ⟨_, rfl, Text.pieces_found (by simp) rfl⟩
  obtain ⟨piece, whole, divided⟩ := divided
  have inked : x.ink.all Text.isBlank = false := by simp [ink, visible]
  rw [Text.cellsBy, divided, List.map_cons, whole, ofParts, inked]
  rfl

theorem cellsBy_ne_nil (length : Text → Nat) (t : Text) : Text.cellsBy length t ≠ [] :=
  ofParts_ne_nil _

theorem cellsBy_gap (blank : ∀ c ∈ g, Text.isBlank c) (t : Text) :
    Text.cellsBy Text.sealLength (g ++ t) =
      (Text.cellsBy Text.sealLength t).modifyHead fun x => { x with gap := g ++ x.gap } := by
  induction g with
  | nil =>
    obtain ⟨x, k, split⟩ := List.exists_cons_of_ne_nil (cellsBy_ne_nil Text.sealLength t)
    simp [split]
  | cons c g ih =>
    obtain ⟨first, later⟩ := List.forall_mem_cons.mp blank
    rw [List.cons_append, Text.cellsBy,
      Text.pieces_plain (Text.sealLength_cons (Text.bare_of_isBlank first) _), List.map_cons,
      ofParts, ← Text.cellsBy, ih later]
    simp only [Text.Piece.render, List.all_cons, first, List.all_nil, Bool.and_self, ↓reduceIte,
      List.modifyHead_modifyHead]
    rfl

/-- Solid cells are read back from their text. -/
theorem cellsBy_render (solid : ∀ x ∈ k, x.Solid) (blank : ∀ c ∈ g, Text.isBlank c) :
    Text.cellsBy Text.sealLength (render k ++ g) = k ++ [⟨g, []⟩] := by
  induction k with
  | nil =>
    have empty : Text.cellsBy Text.sealLength [] = [⟨[], []⟩] := rfl
    simpa [empty] using cellsBy_gap blank []
  | cons x k ih =>
    obtain ⟨first, later⟩ := List.forall_mem_cons.mp solid
    rw [render_cons, List.append_assoc, List.append_assoc, cellsBy_gap first.blank,
      first.cellsBy_ink, ih later]
    simp

theorem strokes_cons (solid : x.Solid) (opened : Bool) (k : List Cell) :
    strokes opened (x :: k) = x.stroke opened :: strokes (x.is isMark) k := by
  simp [strokes, solid.ink_ne_nil, solid.not_isRemark]

/-- Whether blanks count for nothing after some cells. -/
def openAfter : Bool → List Cell → Bool
  | opened, [] => opened
  | _, x :: k => openAfter (x.is isMark) k

@[simp] theorem openAfter_append (opened : Bool) (k l : List Cell) :
    openAfter opened (k ++ l) = openAfter (openAfter opened k) l := by
  induction k generalizing opened with
  | nil => rfl
  | cons x k ih => exact ih _

theorem strokes_append (solid : ∀ x ∈ k, x.Solid) (opened : Bool) (l : List Cell) :
    strokes opened (k ++ l) = strokes opened k ++ strokes (openAfter opened k) l := by
  induction k generalizing opened with
  | nil => rfl
  | cons x k ih =>
    obtain ⟨first, later⟩ := List.forall_mem_cons.mp solid
    rw [List.cons_append, strokes_cons first, strokes_cons first, ih later]
    rfl

/-- Blanks at the end make no stroke. -/
theorem strokes_finish (solid : ∀ x ∈ k, x.Solid) (opened : Bool) (gap : Text) :
    strokes opened (k ++ [⟨gap, []⟩]) = strokes opened k := by
  rw [strokes_append solid]
  simp [strokes]

/-- The blanks before the first cell count for nothing at the start, and otherwise it only counts
whether there are any. -/
theorem strokes_modifyHead (opened : Bool) {g : Text}
    (same : ∀ x ∈ k.head?, opened ∨ (g = [] ↔ x.gap = [])) :
    strokes opened (k.modifyHead fun x => ⟨g, x.ink⟩) = strokes opened k := by
  cases k with
  | nil => rfl
  | cons x k =>
    have sameStroke : stroke opened ⟨g, x.ink⟩ = x.stroke opened := by
      rcases same x rfl with rfl | both
      · simp [stroke, is]
      · simp [stroke, is, both]
    simp [strokes, isRemark, sameStroke, is]

theorem isSolid_modifyHead (solid : ∀ x ∈ k, x.Solid) (blank : ∀ c ∈ g, Text.isBlank c) :
    ∀ x ∈ k.modifyHead fun x => ⟨g, x.ink⟩, x.Solid := by
  cases k with
  | nil => simp
  | cons x k =>
    obtain ⟨first, later⟩ := List.forall_mem_cons.mp solid
    simpa using ⟨first.gapped blank, later⟩

theorem visible_last_render (solid : ∀ x ∈ k, x.Solid) :
    ∀ c ∈ (render k).getLast?, Text.isBlank c = false := by
  induction k using List.reverseRecOn with
  | nil => simp
  | append_singleton k x ih =>
    have last : x.Solid := solid x (by simp)
    simpa [render, Cell.text, List.getLast?_append_of_ne_nil, last.ink_ne_nil]
      using last.visible_last

/-- Trimming solid cells takes the blanks before the first one. -/
theorem trim_render (solid : ∀ x ∈ k, x.Solid) (blank : ∀ c ∈ g, Text.isBlank c) :
    Text.trim (render k ++ g) = render (k.modifyHead fun x => ⟨[], x.ink⟩) := by
  rw [Text.trim_append_of_blank_right _ blank]
  cases k with
  | nil => rfl
  | cons x k =>
    obtain ⟨first, later⟩ := List.forall_mem_cons.mp solid
    have last := visible_last_render (isSolid_modifyHead (g := []) solid (by simp))
    simp only [List.modifyHead_cons, render_cons, List.nil_append] at last ⊢
    rw [Text.trim_append_of_blank_left first.blank, Text.trim_eq_self _ last]
    obtain ⟨c, w, ink, visible⟩ := first.exists_first
    simp [ink, visible]

theorem strokes_trim (solid : ∀ x ∈ k, x.Solid) (blank : ∀ c ∈ g, Text.isBlank c) :
    (Text.trim (render k ++ g)).strokes = strokes true k := by
  have closed := isSolid_modifyHead (g := []) solid (by simp)
  have read := cellsBy_render (g := []) closed (by simp)
  rw [List.append_nil] at read
  rw [Text.strokes, trim_render solid blank, read, strokes_finish closed,
    strokes_modifyHead true fun _ _ => .inl rfl]

/-- The name and the parameters of an at-rule, where blanks follow the name. -/
theorem strokes_header {l : List Cell} {r : Text} (solid : ∀ x ∈ k, x.Solid)
    (blank : ∀ c ∈ g, Text.isBlank c) (solid' : ∀ x ∈ l, x.Solid)
    (blank' : ∀ c ∈ r, Text.isBlank c) (apart : ∀ x ∈ l.head?, x.gap ≠ []) :
    (Text.trim (render k ++ g) ++ ' ' :: Text.trim (render l ++ r)).strokes =
      strokes true (k ++ l) := by
  have space : ∀ c ∈ [' '], Text.isBlank c := List.forall_mem_singleton.mpr rfl
  have closed := isSolid_modifyHead (g := []) solid (by simp)
  have same := strokes_modifyHead (k := k) (g := []) true fun _ _ => .inl rfl
  rw [trim_render solid blank, trim_render solid' blank']
  cases l with
  | nil =>
    have read := cellsBy_render closed space
    rw [List.append_nil, Text.strokes]
    simp only [List.modifyHead_nil, render_nil]
    rw [read, strokes_finish closed, same]
  | cons y l =>
    have spaced := isSolid_modifyHead solid' space
    have whole : render (k.modifyHead fun x => ⟨[], x.ink⟩) ++
        ' ' :: render ((y :: l).modifyHead fun x => ⟨[], x.ink⟩) =
          render ((k.modifyHead fun x => ⟨[], x.ink⟩) ++
            (y :: l).modifyHead fun x => ⟨[' '], x.ink⟩) ++ [] := by
      simp [render, Cell.text]
    have both : ∀ x ∈ (k.modifyHead fun x => ⟨[], x.ink⟩) ++
        (y :: l).modifyHead fun x => ⟨[' '], x.ink⟩, x.Solid := by
      intro x member
      exact (List.mem_append.mp member).elim (closed x) (spaced x)
    have after : openAfter true (k.modifyHead fun x => ⟨[], x.ink⟩) = openAfter true k := by
      cases k <;> rfl
    rw [whole, Text.strokes, cellsBy_render both (by simp), strokes_finish both,
      strokes_append closed, strokes_append solid, same, after,
      strokes_modifyHead _ fun x first => .inr (by simp [apart x first])]

end Cell

end Stylesheet
