import Stylesheet.Proofs.Compaction

set_option autoImplicit false

namespace Stylesheet

/-- A visible part of a text, with the blanks before it. The end of a text is a cell without ink.
Apart from that of comments, the passes of compacting take the blanks out of some cells, and the
last one drops cells. -/
structure Cell where
  gap : Text
  ink : Text
  deriving DecidableEq, Repr

namespace Cell

/-- Whether the ink is one character that satisfies a test. -/
def is (p : Char → Bool) (x : Cell) : Bool := x.ink.length = 1 && x.ink.all p

def text (x : Cell) : Text := x.gap ++ x.ink

def close (x : Cell) : Cell := { x with gap := [] }

def indent (c : Char) (x : Cell) : Cell := { x with gap := c :: x.gap }

@[simp] theorem is_mk_singleton (p : Char → Bool) (gap : Text) (c : Char) :
    is p ⟨gap, [c]⟩ = p c := by
  simp [is]

@[simp] theorem is_close (p : Char → Bool) (x : Cell) : is p x.close = is p x := rfl

@[simp] theorem is_mk_nil (p : Char → Bool) (gap : Text) : is p ⟨gap, []⟩ = false := rfl

theorem is_of_length_ne {p : Char → Bool} {x : Cell} (several : x.ink.length ≠ 1) :
    is p x = false := by
  simp [is, several]

theorem exists_of_is {p : Char → Bool} {x : Cell} (isOne : is p x) : ∃ c, x.ink = [c] ∧ p c := by
  simp only [is, Bool.and_eq_true, decide_eq_true_eq, List.all_eq_true] at isOne
  obtain ⟨c, ink⟩ := List.length_eq_one_iff.mp isOne.1
  exact ⟨c, ink, isOne.2 c (by simp [ink])⟩

def render (k : List Cell) : Text := k.flatMap text

@[simp] theorem render_nil : render [] = [] := rfl

@[simp] theorem render_cons (x : Cell) (k : List Cell) :
    render (x :: k) = x.gap ++ (x.ink ++ render k) := by
  simp [render, text]

/-- The cells of which some parts make up a text. A part is one character, or it is not divided. -/
def ofParts : List Text → List Cell
  | [] => [⟨[], []⟩]
  | w :: parts =>
    if w.all Text.isBlank then (ofParts parts).modifyHead fun x => { x with gap := w ++ x.gap }
    else ⟨[], w⟩ :: ofParts parts

theorem render_modifyHead (w : Text) {k : List Cell} (nonempty : k ≠ []) :
    render (k.modifyHead fun x => { x with gap := w ++ x.gap }) = w ++ render k := by
  obtain ⟨x, k, rfl⟩ := List.exists_cons_of_ne_nil nonempty
  simp

theorem ofParts_ne_nil (parts : List Text) : ofParts parts ≠ [] := by
  induction parts with
  | nil => simp [ofParts]
  | cons w parts ih =>
    rw [ofParts]
    split
    · simpa using ih
    · exact List.cons_ne_nil _ _

theorem render_ofParts (parts : List Text) : render (ofParts parts) = parts.flatten := by
  induction parts with
  | nil => rfl
  | cons w parts ih =>
    rw [ofParts]
    split
    · rw [render_modifyHead w (ofParts_ne_nil parts), ih, List.flatten_cons]
    · simp [ih]

end Cell

namespace Compact

open Cell (render)

/-- Punctuation: delimiters and combinators. -/
def isMark (c : Char) : Bool := isDelimiter c || isCombinator c

theorem isMark_of_isBrace {c : Char} (brace : isBrace c) : isMark c := by
  simp [isMark, isDelimiter, brace]

theorem isMark_of_isCombinator {c : Char} (combines : isCombinator c) : isMark c := by
  simp [isMark, combines]

theorem isMark_of_isDelimiter {c : Char} (delimits : isDelimiter c) : isMark c := by
  simp [isMark, delimits]

/-- Cells in which a pattern can start at a single character or at a blank only, and not within ink
of more than one character. -/
inductive Laid (length : Text → Nat) : List Cell → Prop
  | finish {gap : Text} (blank : ∀ c ∈ gap, Text.isBlank c) : Laid length [⟨gap, []⟩]
  | letter {gap : Text} {c : Char} {k : List Cell} (blank : ∀ c ∈ gap, Text.isBlank c)
      (visible : Text.isBlank c = false) (plain : c ≠ '\\') (rest : Laid length k) :
      Laid length (⟨gap, [c]⟩ :: k)
  | whole {gap w : Text} {c d : Char} {k : List Cell} (blank : ∀ c ∈ gap, Text.isBlank c)
      (visible : Text.isBlank c = false) (unmarked : isMark c = false)
      (unmatched : ∀ v, v <:+ c :: d :: w → v ≠ [] → length (v ++ render k) = 0)
      (rest : Laid length k) : Laid length (⟨gap, c :: d :: w⟩ :: k)

variable {length : Text → Nat} {gap t : Text} {k : List Cell}

theorem Laid.ne_nil (laid : Laid length k) : k ≠ [] := by
  cases laid <;> exact List.cons_ne_nil _ _

/-- The cells without the blanks before braces. -/
def beforeBraces (k : List Cell) : List Cell :=
  k.map fun x => if x.is isBrace then x.close else x

theorem beforeBraceLength_gap (blank : ∀ c ∈ gap, Text.isBlank c)
    (other : ∀ c ∈ t.head?, Text.isBlank c = false ∧ isBrace c = false) :
    beforeBraceLength (gap ++ t) = 0 := by
  have counted : blanks (gap ++ t) = gap.length :=
    blanks_append blank fun c first => (other c first).1
  have next : t.head?.any isBrace = false := by
    cases first : t.head? with
    | none => rfl
    | some c => exact (other c first).2
  simp [beforeBraceLength, counted, next]

theorem dropBeforeBraces_gap (blank : ∀ c ∈ gap, Text.isBlank c)
    (other : ∀ c ∈ t.head?, Text.isBlank c = false ∧ isBrace c = false) :
    dropBeforeBraces (gap ++ t) = gap ++ dropBeforeBraces t :=
  Text.replace_append_of_unmatched fun _ suffix _ =>
    beforeBraceLength_gap (fun c member => blank c (suffix.mem member)) other

theorem dropBeforeBraces_render (laid : Laid beforeBraceLength k) :
    dropBeforeBraces (render k) = render (beforeBraces k) := by
  induction laid with
  | @finish gap blank =>
    have kept := dropBeforeBraces_gap (t := []) blank (by simp)
    simpa [beforeBraces, dropBeforeBraces] using kept
  | @letter gap c k blank visible plain rest ih =>
    simp only [Cell.render_cons, List.singleton_append, beforeBraces, List.map_cons,
      Cell.is_mk_singleton] at ih ⊢
    cases brace : isBrace c with
    | true =>
      rw [dropBeforeBraces_brace blank brace, ih]
      simp [Cell.close]
    | false =>
      have unmatched : beforeBraceLength ([] ++ c :: render k) = 0 :=
        beforeBraceLength_gap (by simp) (by simp [visible, brace])
      have first : ∀ d ∈ (c :: render k).head?, Text.isBlank d = false ∧ isBrace d = false := by
        simp [visible, brace]
      rw [dropBeforeBraces_gap blank first, dropBeforeBraces, Text.replace_cons unmatched,
        ← dropBeforeBraces, ih]
      simp
  | @whole gap w c d k blank visible unmarked unmatched rest ih =>
    have brace : isBrace c = false :=
      Bool.eq_false_iff.mpr fun brace => by simp [isMark_of_isBrace brace] at unmarked
    have first : ∀ e ∈ (c :: d :: w ++ render k).head?,
        Text.isBlank e = false ∧ isBrace e = false := by
      simp [visible, brace]
    have several : Cell.is isBrace ⟨gap, c :: d :: w⟩ = false := Cell.is_of_length_ne (by simp)
    rw [Cell.render_cons, dropBeforeBraces_gap blank first, dropBeforeBraces,
      Text.replace_append_of_unmatched unmatched, ← dropBeforeBraces, ih]
    simp [beforeBraces, several]

/-- What is before the ink of the first cell, and what is not. -/
theorem Laid.head {x : Cell} (laid : Laid length (x :: k)) :
    (∀ c ∈ x.gap, Text.isBlank c) ∧
      ∀ c ∈ (x.ink ++ render k).head?, Text.isBlank c = false := by
  cases laid with
  | finish blank => exact ⟨blank, by simp⟩
  | letter blank visible => exact ⟨blank, by simpa using visible⟩
  | whole blank visible => exact ⟨blank, by simpa using visible⟩

/-- A cell without blanks, if it comes after a mark. -/
def closeIf (opened : Bool) (x : Cell) : Cell := if opened then x.close else x

@[simp] theorem closeIf_ink (opened : Bool) (x : Cell) : (closeIf opened x).ink = x.ink := by
  cases opened <;> rfl

@[simp] theorem closeIf_is (opened : Bool) (p : Char → Bool) (x : Cell) :
    (closeIf opened x).is p = x.is p := by
  cases opened <;> rfl

theorem closeIf_gap_cases (opened : Bool) (x : Cell) :
    (closeIf opened x).gap = x.gap ∨ (closeIf opened x).gap = [] ∧ opened := by
  cases opened
  · exact .inl rfl
  · exact .inr ⟨rfl, rfl⟩

theorem blank_closeIf {x : Cell} (blank : ∀ c ∈ x.gap, Text.isBlank c) (opened : Bool) :
    ∀ c ∈ (closeIf opened x).gap, Text.isBlank c := by
  rcases closeIf_gap_cases opened x with same | ⟨none, -⟩
  · rwa [same]
  · simp [none]

/-- The text of cells, the first one without blanks if it comes after a mark. -/
def renderAfter (opened : Bool) (k : List Cell) : Text := render (k.modifyHead (closeIf opened))

@[simp] theorem renderAfter_false (k : List Cell) : renderAfter false k = render k := by
  cases k <;> rfl

@[simp] theorem renderAfter_cons (opened : Bool) (x : Cell) (k : List Cell) :
    renderAfter opened (x :: k) = (closeIf opened x).gap ++ (x.ink ++ render k) := by
  simp [renderAfter]

/-- The cells without the blanks after delimiters. -/
def afterDelimiters : Bool → List Cell → List Cell
  | _, [] => []
  | opened, x :: k => closeIf opened x :: afterDelimiters (x.is isDelimiter) k

theorem afterDelimiterLength_of_other {c : Char} (other : isDelimiter c = false) (t : Text) :
    afterDelimiterLength (c :: t) = 0 := by
  simp [afterDelimiterLength, other]

theorem isDelimiter_of_isBlank {c : Char} (blank : Text.isBlank c) : isDelimiter c = false := by
  refine Bool.eq_false_iff.mpr fun delimits => ?_
  simp only [isDelimiter, isBrace, Bool.or_eq_true, decide_eq_true_eq] at delimits
  rcases delimits with ((rfl | rfl) | rfl) | rfl | rfl <;> cases blank

theorem dropAfter_gap (blank : ∀ c ∈ gap, Text.isBlank c) (t : Text) :
    dropAfter (gap ++ t) = gap ++ dropAfter t := by
  refine Text.replace_append_of_unmatched fun v suffix nonempty => ?_
  obtain ⟨c, v, rfl⟩ := List.exists_cons_of_ne_nil nonempty
  have first := blank c (suffix.mem List.mem_cons_self)
  exact afterDelimiterLength_of_other (isDelimiter_of_isBlank first) _

theorem dropAfter_renderAfter (laid : Laid afterDelimiterLength k) (opened : Bool) :
    dropAfter (renderAfter opened k) = render (afterDelimiters opened k) := by
  induction laid generalizing opened with
  | @finish gap blank =>
    have kept := dropAfter_gap (blank_closeIf (x := ⟨gap, []⟩) blank opened) []
    simpa [afterDelimiters, dropAfter] using kept
  | @letter gap c k blank visible plain rest ih =>
    rw [renderAfter_cons, dropAfter_gap (blank_closeIf (x := ⟨gap, [c]⟩) blank opened)]
    simp only [afterDelimiters, Cell.render_cons, closeIf_ink, List.singleton_append,
      Cell.is_mk_singleton, List.append_cancel_left_eq]
    rw [← ih]
    cases delimits : isDelimiter c with
    | false =>
      rw [renderAfter_false]
      exact Text.replace_cons (afterDelimiterLength_of_other delimits _)
    | true =>
      obtain ⟨x, k, rfl⟩ := List.exists_cons_of_ne_nil rest.ne_nil
      rw [Cell.render_cons, dropAfter_delimiter delimits rest.head.1 rest.head.2, renderAfter_cons]
      rfl
  | @whole gap w c d k blank visible unmarked unmatched rest ih =>
    have several : Cell.is isDelimiter ⟨gap, c :: d :: w⟩ = false := Cell.is_of_length_ne (by simp)
    have kept : dropAfter (c :: d :: w ++ render k) = c :: d :: w ++ dropAfter (render k) :=
      Text.replace_append_of_unmatched unmatched
    have blank' := blank_closeIf (x := ⟨gap, c :: d :: w⟩) blank opened
    rw [renderAfter_cons, dropAfter_gap blank', kept, ← renderAfter_false, ih]
    simp [afterDelimiters, several]

theorem dropAfterDelimiters_render (laid : Laid afterDelimiterLength k) :
    dropAfterDelimiters (render k) = render (afterDelimiters true k) := by
  rw [← dropAfter_renderAfter laid]
  obtain ⟨x, k, rfl⟩ := List.exists_cons_of_ne_nil laid.ne_nil
  obtain ⟨blank, visible⟩ := laid.head
  rw [dropAfterDelimiters, Cell.render_cons, Text.trimStart_append_of_blank blank,
    Text.trimStart_eq_self visible, renderAfter_cons]
  rfl

/-- Whether a cell is a combinator between blanks. -/
def isApart (x : Cell) (k : List Cell) : Bool :=
  x.is isCombinator && x.gap ≠ [] && k.head?.any (·.gap ≠ [])

/-- The cells without the blanks around combinators. -/
def aroundCombinators : Bool → List Cell → List Cell
  | _, [] => []
  | opened, x :: k =>
    if isApart (closeIf opened x) k then x.close :: aroundCombinators true k
    else closeIf opened x :: aroundCombinators false k

theorem combinatorLength_gap (blank : ∀ c ∈ gap, Text.isBlank c)
    (other : ∀ c ∈ t.head?, Text.isBlank c = false ∧
      (isCombinator c → gap ≠ [] → blanks t.tail = 0)) :
    combinatorLength (gap ++ t) = 0 := by
  have counted : blanks (gap ++ t) = gap.length :=
    blanks_append blank fun c first => (other c first).1
  unfold combinatorLength
  simp only [counted, List.drop_left]
  cases t with
  | nil => rfl
  | cons c t =>
    have alone := (other c rfl).2
    simp only [List.tail_cons] at alone
    simp only [ne_eq, List.length_eq_zero_iff, Bool.and_eq_true, decide_not,
      Bool.not_eq_eq_eq_not, Bool.not_true, decide_eq_false_iff_not, ite_eq_right_iff]
    intro apart
    exact absurd (alone apart.1.2 apart.1.1) apart.2

theorem dropAroundCombinators_gap (blank : ∀ c ∈ gap, Text.isBlank c)
    (other : ∀ c ∈ t.head?, Text.isBlank c = false ∧
      (isCombinator c → gap ≠ [] → blanks t.tail = 0)) :
    dropAroundCombinators (gap ++ t) = gap ++ dropAroundCombinators t := by
  refine Text.replace_append_of_unmatched fun v suffix nonempty => ?_
  refine combinatorLength_gap (fun c member => blank c (suffix.mem member)) fun c first => ?_
  refine ⟨(other c first).1, fun combines _ => (other c first).2 combines ?_⟩
  rintro rfl
  exact nonempty (List.suffix_nil.mp suffix)

/-- A combinator between blanks. -/
theorem dropAroundCombinators_apart {c : Char} (combines : isCombinator c) {before after : Text}
    (blank : ∀ d ∈ before, Text.isBlank d) (filled : before ≠ [])
    (blank' : ∀ d ∈ after, Text.isBlank d) (some' : after ≠ []) {rest : Text}
    (visible : ∀ d ∈ rest.head?, Text.isBlank d = false) :
    dropAroundCombinators (before ++ c :: (after ++ rest)) = c :: dropAroundCombinators rest := by
  have own : Text.isBlank c = false := by
    simp only [isCombinator, Bool.or_eq_true, decide_eq_true_eq] at combines
    rcases combines with (rfl | rfl) | rfl <;> rfl
  have counted : blanks (before ++ c :: (after ++ rest)) = before.length :=
    blanks_append blank (by simpa using own)
  have counted' : blanks (after ++ rest) = after.length := blanks_append blank' visible
  have found : combinatorLength ((before ++ c :: after) ++ rest) =
      (before ++ c :: after).length := by
    rw [List.append_assoc, List.cons_append]
    simp [combinatorLength, counted, counted', combines, filled, some']
    omega
  have kept : keepMark (before ++ c :: after) = [c] := by
    rw [keepMark, List.filter_append, List.filter_eq_nil_iff.mpr (by simpa using blank),
      List.filter_cons_of_pos (by simpa using own),
      List.filter_eq_nil_iff.mpr (by simpa using blank'), List.nil_append]
  have replaced := Text.replace_append (f := keepMark) (by simp) found
  rw [kept, List.append_assoc] at replaced
  exact replaced

theorem combinatorLength_of_visible {c : Char} (visible : Text.isBlank c = false) (t : Text) :
    combinatorLength (c :: t) = 0 := by
  have unmatched : combinatorLength ([] ++ c :: t) = 0 :=
    combinatorLength_gap (by simp) (by simp [visible])
  exact unmatched

theorem dropAroundCombinators_renderAfter (laid : Laid combinatorLength k) (opened : Bool) :
    dropAroundCombinators (renderAfter opened k) = render (aroundCombinators opened k) := by
  induction laid generalizing opened with
  | @finish gap blank =>
    have kept := dropAroundCombinators_gap (t := [])
      (blank_closeIf (x := ⟨gap, []⟩) blank opened) (by simp)
    have alone : isApart (closeIf opened ⟨gap, []⟩) [] = false := by simp [isApart]
    simpa [aroundCombinators, alone, dropAroundCombinators] using kept
  | @letter gap c k blank visible plain rest ih =>
    obtain ⟨y, k, rfl⟩ := List.exists_cons_of_ne_nil rest.ne_nil
    rw [aroundCombinators]
    have blank' := blank_closeIf (x := ⟨gap, [c]⟩) blank opened
    split
    · rename_i apart
      simp only [isApart, closeIf_is, Cell.is_mk_singleton, List.head?_cons, Option.any_some,
        Bool.and_eq_true, decide_eq_true_eq] at apart
      rw [renderAfter_cons, List.singleton_append, Cell.render_cons y,
        dropAroundCombinators_apart apart.1.1 blank' apart.1.2 rest.head.1 apart.2 rest.head.2,
        Cell.render_cons, ← ih true, renderAfter_cons]
      rfl
    · rename_i alone
      have other : ∀ d ∈ (c :: render (y :: k)).head?, Text.isBlank d = false ∧
          (isCombinator d → (closeIf opened ⟨gap, [c]⟩).gap ≠ [] →
            blanks (c :: render (y :: k)).tail = 0) := by
        simp only [List.head?_cons, Option.mem_def, Option.some.injEq, forall_eq', List.tail_cons]
        refine ⟨visible, fun combines before => ?_⟩
        have none : y.gap = [] := by
          by_contra after
          exact alone (by simp [isApart, combines, before, after])
        rw [Cell.render_cons, none, List.nil_append]
        exact blanks_append (w := []) (by simp) rest.head.2
      rw [renderAfter_cons, List.singleton_append, dropAroundCombinators_gap blank' other,
        dropAroundCombinators, Text.replace_cons (combinatorLength_of_visible visible _),
        ← dropAroundCombinators, ← renderAfter_false, ih]
      simp
  | @whole gap w c d k blank visible unmarked unmatched rest ih =>
    have blank' := blank_closeIf (x := ⟨gap, c :: d :: w⟩) blank opened
    have combines : isCombinator c = false :=
      Bool.eq_false_iff.mpr fun combines => by simp [isMark_of_isCombinator combines] at unmarked
    have other : ∀ e ∈ (c :: d :: w ++ render k).head?, Text.isBlank e = false ∧
        (isCombinator e → (closeIf opened ⟨gap, c :: d :: w⟩).gap ≠ [] →
          blanks (c :: d :: w ++ render k).tail = 0) := by
      simp [visible, combines]
    have alone : isApart (closeIf opened ⟨gap, c :: d :: w⟩) k = false := by
      simp [isApart, Cell.is_of_length_ne (p := isCombinator) (x := ⟨gap, c :: d :: w⟩) (by simp)]
    have kept : dropAroundCombinators (c :: d :: w ++ render k) =
        c :: d :: w ++ dropAroundCombinators (render k) :=
      Text.replace_append_of_unmatched unmatched
    rw [renderAfter_cons, dropAroundCombinators_gap blank' other, kept, ← renderAfter_false, ih,
      aroundCombinators, alone]
    simp

theorem dropAroundCombinators_render (laid : Laid combinatorLength k) :
    dropAroundCombinators (render k) = render (aroundCombinators false k) := by
  rw [← dropAroundCombinators_renderAfter laid, renderAfter_false]

theorem continuationLength_of_ne {c : Char} (other : c ≠ '\\') (t : Text) :
    continuationLength (c :: t) = 0 := by
  unfold continuationLength
  split
  · next whole => exact absurd (List.cons.inj whole).1 other
  · rfl

theorem continuationLength_of_apart {c d : Char} (apart : ¬ (c = '\\' ∧ d = '\n')) (t : Text) :
    continuationLength (c :: d :: t) = 0 := by
  rw [continuationLength]
  rintro u same
  obtain ⟨first, rest⟩ := List.cons.inj same
  exact apart ⟨first, (List.cons.inj rest).1⟩

theorem joinContinuations_gap (blank : ∀ c ∈ gap, Text.isBlank c) (t : Text) :
    joinContinuations (gap ++ t) = gap ++ joinContinuations t := by
  refine Text.replace_append_of_unmatched fun v suffix nonempty => ?_
  obtain ⟨c, v, rfl⟩ := List.exists_cons_of_ne_nil nonempty
  have first := blank c (suffix.mem List.mem_cons_self)
  refine continuationLength_of_ne ?_ _
  rintro rfl
  cases first

theorem joinContinuations_render (laid : Laid continuationLength k) :
    joinContinuations (render k) = render k := by
  induction laid with
  | @finish gap blank => simpa [joinContinuations] using joinContinuations_gap blank []
  | @letter gap c k blank visible plain rest ih =>
    rw [Cell.render_cons, joinContinuations_gap blank, List.singleton_append, joinContinuations,
      Text.replace_cons (continuationLength_of_ne plain _), ← joinContinuations, ih]
  | @whole gap w c d k blank visible unmarked unmatched rest ih =>
    have kept : joinContinuations (c :: d :: w ++ render k) =
        c :: d :: w ++ joinContinuations (render k) :=
      Text.replace_append_of_unmatched unmatched
    rw [Cell.render_cons, joinContinuations_gap blank, kept, ih]

/-- The cells without the semicolons directly before a closing brace. -/
def lastSemicolons : List Cell → List Cell
  | x :: y :: k =>
    if x.ink = [';'] ∧ y = ⟨[], ['}']⟩ then ⟨x.gap, ['}']⟩ :: lastSemicolons k
    else x :: lastSemicolons (y :: k)
  | k => k

theorem lastSemicolonLength_of_ne {c : Char} (other : c ≠ ';') (t : Text) :
    lastSemicolonLength (c :: t) = 0 := by
  unfold lastSemicolonLength
  split
  · next whole => exact absurd (List.cons.inj whole).1 other
  · rfl

theorem lastSemicolonLength_of_apart {c d : Char} (apart : ¬ (c = ';' ∧ d = '}')) (t : Text) :
    lastSemicolonLength (c :: d :: t) = 0 := by
  rw [lastSemicolonLength]
  rintro u same
  obtain ⟨first, rest⟩ := List.cons.inj same
  exact apart ⟨first, (List.cons.inj rest).1⟩

theorem dropLastSemicolons_gap (blank : ∀ c ∈ gap, Text.isBlank c) (t : Text) :
    dropLastSemicolons (gap ++ t) = gap ++ dropLastSemicolons t := by
  refine dropLastSemicolons_append (fun member => ?_) t
  cases blank ';' member

/-- Only the brace itself starts a cell with a brace. -/
theorem Laid.eq_of_render {y : Cell} (laid : Laid length (y :: k))
    (starts : render (y :: k) = '}' :: t) : y = ⟨[], ['}']⟩ := by
  obtain ⟨gap, ink⟩ := y
  cases gap with
  | cons b gap =>
    obtain ⟨rfl, -⟩ := List.cons.inj starts
    cases laid.head.1 '}' List.mem_cons_self
  | nil =>
    cases laid with
    | finish => cases starts
    | letter =>
      obtain ⟨rfl, -⟩ := List.cons.inj starts
      rfl
    | whole blank visible unmarked =>
      obtain ⟨rfl, -⟩ := List.cons.inj starts
      cases unmarked

theorem lastSemicolonLength_render {c : Char} {y : Cell} (laid : Laid length (y :: k))
    (more : ¬ (c = ';' ∧ y = ⟨[], ['}']⟩)) : lastSemicolonLength (c :: render (y :: k)) = 0 := by
  unfold lastSemicolonLength
  split
  · rename_i whole
    obtain ⟨isSemicolon, starts⟩ := List.cons.inj whole
    exact absurd ⟨isSemicolon, laid.eq_of_render starts⟩ more
  · rfl

theorem dropLastSemicolons_render (laid : Laid lastSemicolonLength k) :
    dropLastSemicolons (render k) = render (lastSemicolons k) := by
  induction k using lastSemicolons.induct with
  | case1 x y k last ih =>
    obtain ⟨isLast, rfl⟩ := last
    cases laid with
    | letter blank visible plain rest =>
      cases isLast
      cases rest with
      | letter blank' visible' plain' rest =>
        rw [Cell.render_cons, dropLastSemicolons_gap blank, lastSemicolons]
        simp [dropLastSemicolons_last, ih rest]
    | whole => cases isLast
  | case2 x y k more ih =>
    rw [lastSemicolons, if_neg more, Cell.render_cons x]
    cases laid with
    | @letter gap c k blank visible plain rest =>
      have unmatched : lastSemicolonLength (c :: render (y :: k)) = 0 :=
        lastSemicolonLength_render rest fun last => more ⟨by rw [last.1], last.2⟩
      rw [dropLastSemicolons_gap blank, List.singleton_append, dropLastSemicolons,
        Text.replace_cons unmatched, ← dropLastSemicolons, ih rest]
      simp
    | @whole gap w c d k blank visible unmarked unmatched rest =>
      have kept : dropLastSemicolons (c :: d :: w ++ render (y :: k)) =
          c :: d :: w ++ dropLastSemicolons (render (y :: k)) :=
        Text.replace_append_of_unmatched unmatched
      rw [dropLastSemicolons_gap blank, kept, ih rest]
      simp
  | case3 k few =>
    cases laid with
    | @finish gap blank =>
      simpa [lastSemicolons, dropLastSemicolons] using dropLastSemicolons_gap blank []
    | letter blank visible plain rest =>
      obtain ⟨y, k, rfl⟩ := List.exists_cons_of_ne_nil rest.ne_nil
      exact absurd rfl (few _ _ _)
    | whole blank visible unmarked unmatched rest =>
      obtain ⟨y, k, rfl⟩ := List.exists_cons_of_ne_nil rest.ne_nil
      exact absurd rfl (few _ _ _)

/-- Cells less some blanks that separate nothing: those at the start or after a mark, and those
before a brace or a combinator. -/
inductive Tightens : Bool → List Cell → List Cell → Prop
  | nil {opened : Bool} : Tightens opened [] []
  | cons {opened : Bool} {x : Cell} {k k' : List Cell} {gap : Text}
      (less : gap = x.gap ∨ gap = [] ∧ (opened ∨ x.is isBrace ∨ x.is isCombinator))
      (rest : Tightens (x.is isMark) k k') : Tightens opened (x :: k) (⟨gap, x.ink⟩ :: k')

namespace Tightens

variable {opened : Bool} {k' : List Cell}

theorem trans {l m : List Cell} (first : Tightens opened k l) (second : Tightens opened l m) :
    Tightens opened k m := by
  induction first generalizing m with
  | nil => exact second
  | @cons opened x k l gap less rest ih =>
    cases second with
    | @cons _ _ _ m gap' less' rest' =>
      refine .cons ?_ (ih rest')
      rcases less' with rfl | cleared
      · exact less
      · exact .inr cleared

theorem of_beforeBraces (opened : Bool) (k : List Cell) : Tightens opened k (beforeBraces k) := by
  induction k generalizing opened with
  | nil => exact .nil
  | cons x k ih =>
    rw [beforeBraces, List.map_cons, ← beforeBraces]
    split
    · rename_i brace
      exact .cons (.inr ⟨rfl, .inr (.inl brace)⟩) (ih _)
    · exact .cons (.inl rfl) (ih _)

theorem mono {opened' : Bool} (tightens : Tightens opened k k') (more : opened → opened') :
    Tightens opened' k k' := by
  cases tightens with
  | nil => exact .nil
  | cons less rest =>
    refine .cons ?_ rest
    rcases less with same | ⟨none, early | late⟩
    · exact .inl same
    · exact .inr ⟨none, .inl (more early)⟩
    · exact .inr ⟨none, .inr late⟩

/-- Cells with some ink that have no blanks still have none. -/
theorem closed {p : Text → Prop} (tightens : Tightens opened k k')
    (closed : ∀ x ∈ k, p x.ink → x.gap = []) : ∀ x ∈ k', p x.ink → x.gap = [] := by
  induction tightens with
  | nil => exact closed
  | @cons opened x k k' gap less rest ih =>
    rw [List.forall_mem_cons] at closed ⊢
    refine ⟨fun isInk => ?_, ih closed.2⟩
    rcases less with rfl | ⟨none, -⟩
    · exact closed.1 isInk
    · exact none

theorem closeIf_cons {x : Cell} (rest : Tightens (x.is isMark) k k') (opened : Bool) :
    Tightens opened (x :: k) (closeIf opened x :: k') := by
  cases opened with
  | false => exact .cons (.inl rfl) rest
  | true => exact .cons (.inr ⟨rfl, .inl rfl⟩) rest

theorem is_mono {p q : Char → Bool} (more : ∀ c, p c → q c) {x : Cell} (isOne : x.is p) :
    x.is q := by
  simp only [Cell.is, Bool.and_eq_true, decide_eq_true_eq, List.all_eq_true] at isOne ⊢
  exact ⟨isOne.1, fun c member => more c (isOne.2 c member)⟩

theorem of_afterDelimiters (opened : Bool) (k : List Cell) :
    Tightens opened k (afterDelimiters opened k) := by
  induction k generalizing opened with
  | nil => exact .nil
  | cons x k ih =>
    exact closeIf_cons ((ih _).mono (is_mono fun _ => isMark_of_isDelimiter)) opened

theorem of_aroundCombinators (opened : Bool) (k : List Cell) :
    Tightens opened k (aroundCombinators opened k) := by
  induction k generalizing opened with
  | nil => exact .nil
  | cons x k ih =>
    rw [aroundCombinators]
    split
    · rename_i apart
      simp only [isApart, closeIf_is, Bool.and_eq_true] at apart
      refine .cons (.inr ⟨rfl, .inr (.inr apart.1.1)⟩) ((ih true).mono fun _ => ?_)
      exact is_mono (fun _ => isMark_of_isCombinator) apart.1.1
    · exact closeIf_cons ((ih false).mono (by simp)) opened

end Tightens

/-- The cells without the blanks that separate nothing. -/
def squeezed (k : List Cell) : List Cell :=
  aroundCombinators false (afterDelimiters true (beforeBraces k))

theorem tightens_squeezed (k : List Cell) : Tightens true k (squeezed k) :=
  ((Tightens.of_beforeBraces true k).trans (.of_afterDelimiters true _)).trans
    ((Tightens.of_aroundCombinators false _).mono (by simp))

theorem gap_beforeBraces (k : List Cell) : ∀ x ∈ beforeBraces k, x.is isBrace → x.gap = [] := by
  rw [beforeBraces, List.forall_mem_map]
  intro x _
  cases braced : x.is isBrace with
  | false => simp [braced]
  | true => simp [Cell.close]

theorem gap_afterDelimiters (k : List Cell) :
    ∀ x ∈ afterDelimiters true (beforeBraces k), x.is isBrace → x.gap = [] :=
  (Tightens.of_afterDelimiters true _).closed (p := fun w => Cell.is isBrace ⟨[], w⟩)
    (gap_beforeBraces k)

/-- No brace has blanks before it. -/
theorem gap_squeezed (k : List Cell) : ∀ x ∈ squeezed k, x.is isBrace → x.gap = [] :=
  (Tightens.of_aroundCombinators false _).closed (p := fun w => Cell.is isBrace ⟨[], w⟩)
    (gap_afterDelimiters k)

/-- Cells with one character of ink each, none of them a backslash. -/
inductive Lettered : List Cell → Prop
  | finish {gap : Text} (blank : ∀ c ∈ gap, Text.isBlank c) : Lettered [⟨gap, []⟩]
  | letter {gap : Text} {c : Char} {k : List Cell} (blank : ∀ c ∈ gap, Text.isBlank c)
      (visible : Text.isBlank c = false) (plain : c ≠ '\\') (rest : Lettered k) :
      Lettered (⟨gap, [c]⟩ :: k)

namespace Lettered

variable {k' : List Cell}

theorem laid (lettered : Lettered k) (length : Text → Nat) : Laid length k := by
  induction lettered with
  | finish blank => exact .finish blank
  | letter blank visible plain _ ih => exact .letter blank visible plain ih

theorem ne_nil (lettered : Lettered k) : k ≠ [] := (lettered.laid fun _ => 0).ne_nil

theorem head {x : Cell} (lettered : Lettered (x :: k)) :
    (∀ c ∈ x.gap, Text.isBlank c) ∧
      ∀ c ∈ (x.ink ++ render k).head?, Text.isBlank c = false :=
  (lettered.laid fun _ => 0).head

theorem tightens {opened : Bool} (lettered : Lettered k) (tightens : Tightens opened k k') :
    Lettered k' := by
  induction tightens with
  | nil => exact lettered
  | @cons opened x k k' gap less rest ih =>
    have blank : ∀ c ∈ gap, Text.isBlank c := by
      rcases less with rfl | ⟨rfl, -⟩
      · exact lettered.head.1
      · simp
    cases lettered with
    | finish =>
      cases rest
      exact .finish blank
    | letter _ visible plain inner => exact .letter blank visible plain (ih inner)

theorem lastSemicolons (lettered : Lettered k) : Lettered (Compact.lastSemicolons k) := by
  induction k using lastSemicolons.induct with
  | case1 x y k last ih =>
    obtain ⟨gap, ink⟩ := x
    obtain ⟨rfl, rfl⟩ := last
    rw [Compact.lastSemicolons, if_pos ⟨rfl, rfl⟩]
    cases lettered with
    | letter blank _ _ rest =>
      cases rest with
      | letter _ visible plain rest => exact .letter blank visible plain (ih rest)
  | case2 x y k more ih =>
    rw [Compact.lastSemicolons, if_neg more]
    cases lettered with
    | letter blank visible plain rest => exact .letter blank visible plain (ih rest)
  | case3 k few => rwa [Compact.lastSemicolons.eq_2 k few]

/-- Without comments, a text is compacted by its cells. -/
theorem compact_render (lettered : Lettered k) (remarkless : dropComments (render k) = render k) :
    compact (render k) = render (Compact.lastSemicolons (squeezed k)) := by
  have first := lettered.tightens (.of_beforeBraces true k)
  have second := first.tightens (.of_afterDelimiters true _)
  have third := second.tightens (.of_aroundCombinators false _)
  rw [compact, remarkless, dropBeforeBraces_render (lettered.laid _),
    dropAfterDelimiters_render (first.laid _), dropAroundCombinators_render (second.laid _),
    joinContinuations_render (third.laid _), dropLastSemicolons_render (third.laid _), squeezed]

end Lettered

theorem dropComments_of_remarkless {t : Text} (remarkless : ¬ ['/', '*'] <:+: t) :
    dropComments t = t := by
  refine Text.replace_eq_self (fun u suffix => ?_) _
  unfold commentLength
  split
  · rename_i rest
    exact absurd ((List.prefix_append ['/', '*'] rest).isInfix.trans suffix.isInfix) remarkless
  · rfl

/-- The cells of a text, in which every character is apart. -/
def cells (t : Text) : List Cell := Cell.ofParts (t.map fun c => [c])

@[simp] theorem cells_nil : cells [] = [⟨[], []⟩] := rfl

theorem cells_blank {c : Char} (blank : Text.isBlank c) (t : Text) :
    cells (c :: t) = (cells t).modifyHead fun x => { x with gap := c :: x.gap } := by
  simp [cells, Cell.ofParts, blank]

theorem cells_visible {c : Char} (visible : Text.isBlank c = false) (t : Text) :
    cells (c :: t) = ⟨[], [c]⟩ :: cells t := by
  simp [cells, Cell.ofParts, visible]

theorem render_cells (t : Text) : render (cells t) = t := by
  rw [cells, Cell.render_ofParts, ← List.flatMap_def]
  exact List.flatMap_singleton' t

theorem lettered_cells {t : Text} (plain : '\\' ∉ t) : Lettered (cells t) := by
  induction t with
  | nil => exact .finish (by simp)
  | cons c t ih =>
    obtain ⟨first, later⟩ := List.ne_and_not_mem_of_not_mem_cons plain
    have inner := ih later
    cases visible : Text.isBlank c with
    | false =>
      rw [cells_visible visible]
      exact .letter (by simp) visible (Ne.symm first) inner
    | true =>
      rw [cells_blank visible]
      have blank {gap : Text} (others : ∀ d ∈ gap, Text.isBlank d) :
          ∀ d ∈ c :: gap, Text.isBlank d :=
        List.forall_mem_cons.mpr ⟨visible, others⟩
      generalize cells t = k at inner ⊢
      cases inner with
      | finish others => exact .finish (blank others)
      | letter others shown plain rest => exact .letter (blank others) shown plain rest

end Compact

end Stylesheet
