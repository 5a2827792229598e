import Stylesheet.Proofs.Lines

set_option autoImplicit false

namespace Stylesheet

namespace Text

/-- Whether a line has a character that is not blank. -/
def isVisibleLine (line : Text) : Bool := line.any (!isBlank ·)

def visibleLines (t : Text) : List Text := (lines t).filter isVisibleLine

def innerLines (t : Text) : List Text := (lines t).tail.dropLast

/-- Lines without the blanks before the first and behind the last one. -/
def trimLines (lines : List Text) : List Text :=
  ((lines.modifyHead trimStart).reverse.modifyHead trimEnd).reverse

theorem lines_break (t : Text) : lines ('\n' :: t) = [] :: lines t := by
  rw [lines, List.splitOn_cons_eq_if_modifyHead, if_pos (by decide), lines]

theorem lines_cons {c : Char} (other : c ≠ '\n') (t : Text) :
    lines (c :: t) = (lines t).modifyHead (c :: ·) := by
  rw [lines, List.splitOn_cons_eq_if_modifyHead, if_neg (by simpa using other), lines]

/-- A character that is no line break is put before the first line. -/
theorem exists_lines_cons {c : Char} (other : c ≠ '\n') (t : Text) :
    ∃ first after, lines t = first :: after ∧ lines (c :: t) = (c :: first) :: after := by
  obtain ⟨first, after, divided⟩ := List.exists_cons_of_ne_nil (lines_ne_nil t)
  exact ⟨first, after, divided, by rw [lines_cons other, divided, List.modifyHead_cons]⟩

theorem lines_concat_break (t : Text) : lines (t ++ ['\n']) = lines t ++ [[]] := by
  induction t with
  | nil => exact lines_break []
  | cons d t ih =>
    by_cases isBreak : d = '\n'
    · rw [isBreak, List.cons_append, lines_break, lines_break, ih, List.cons_append]
    · obtain ⟨first, after, divided, put⟩ := exists_lines_cons isBreak t
      rw [List.cons_append, lines_cons isBreak, ih, put, divided]
      simp

/-- A character that is no line break is put behind the last line. -/
theorem exists_lines_concat {c : Char} (other : c ≠ '\n') (t : Text) :
    ∃ before last, lines t = before ++ [last] ∧ lines (t ++ [c]) = before ++ [last ++ [c]] := by
  induction t with
  | nil => exact ⟨[], [], rfl, lines_cons other []⟩
  | cons d t ih =>
    obtain ⟨before, last, divided, put⟩ := ih
    by_cases isBreak : d = '\n'
    · refine ⟨[] :: before, last, ?_, ?_⟩
      · rw [isBreak, lines_break, divided, List.cons_append]
      · rw [isBreak, List.cons_append, lines_break, put, List.cons_append]
    · rw [List.cons_append, lines_cons isBreak, lines_cons isBreak, divided, put]
      cases before with
      | nil => exact ⟨[], d :: last, rfl, rfl⟩
      | cons first before => exact ⟨(d :: first) :: before, last, rfl, rfl⟩

/-- Read backwards, a text has its lines backwards. -/
theorem lines_reverse (t : Text) : lines t.reverse = ((lines t).map List.reverse).reverse := by
  induction t with
  | nil => rfl
  | cons c t ih =>
    rw [List.reverse_cons]
    by_cases isBreak : c = '\n'
    · rw [isBreak, lines_concat_break, lines_break, ih]
      simp
    · obtain ⟨first, after, divided, put⟩ := exists_lines_cons isBreak t
      obtain ⟨before, last, dividedBack, putBack⟩ := exists_lines_concat isBreak t.reverse
      rw [divided, dividedBack, List.map_cons, List.reverse_cons] at ih
      obtain ⟨sameBefore, sameLast⟩ := List.append_inj' ih rfl
      rw [put, putBack, sameBefore, (List.cons.inj sameLast).1]
      simp

theorem isVisibleLine_cons {c : Char} (blank : isBlank c) (line : Text) :
    isVisibleLine (c :: line) = isVisibleLine line := by
  simp [isVisibleLine, blank]

theorem isVisibleLine_of_mem {c : Char} {line : Text} (member : c ∈ line)
    (visible : isBlank c = false) : isVisibleLine line := by
  apply List.any_eq_true.mpr
  exact ⟨c, member, by simp [visible]⟩

theorem isVisibleLine_reverse (line : Text) : isVisibleLine line.reverse = isVisibleLine line :=
  List.any_reverse

theorem trimStart_cons_of_visible {c : Char} (visible : isBlank c = false) (t : Text) :
    trimStart (c :: t) = c :: t :=
  trimStart_eq_self (by simpa using visible)

theorem trimStart_cons_of_blank {c : Char} (blank : isBlank c) (t : Text) :
    trimStart (c :: t) = trimStart t :=
  trimStart_append_of_blank (List.forall_mem_singleton.mpr blank) t

theorem isVisibleLine_trimStart (line : Text) :
    isVisibleLine (trimStart line) = isVisibleLine line := by
  induction line with
  | nil => rfl
  | cons c line ih =>
    cases blank : isBlank c with
    | true => rw [trimStart_cons_of_blank blank, ih, isVisibleLine_cons blank]
    | false => rw [trimStart_cons_of_visible blank]

/-- Dropping the blanks at the start takes lines with nothing on them and the start of the next
one. Only a text of blanks has nothing on that line either, and then it is the last. -/
theorem exists_lines_trimStart (t : Text) : ∃ skipped first after,
    lines t = skipped ++ first :: after ∧ lines (trimStart t) = trimStart first :: after ∧
      (∀ line ∈ skipped, isVisibleLine line = false) ∧ (isVisibleLine first ∨ after = []) := by
  induction t with
  | nil => exact ⟨[], [], [], rfl, rfl, nofun, .inr rfl⟩
  | cons c t ih =>
    cases blank : isBlank c with
    | true =>
      obtain ⟨skipped, first, after, divided, trimmed, empty, reached⟩ := ih
      rw [trimStart_cons_of_blank blank]
      by_cases isBreak : c = '\n'
      · refine ⟨[] :: skipped, first, after, ?_, trimmed, ?_, reached⟩
        · rw [isBreak, lines_break, divided, List.cons_append]
        · exact List.forall_mem_cons.mpr ⟨rfl, empty⟩
      · rw [lines_cons isBreak, divided]
        cases skipped with
        | nil =>
          refine ⟨[], c :: first, after, rfl, ?_, nofun, ?_⟩
          · rw [trimStart_cons_of_blank blank, trimmed]
          · rwa [isVisibleLine_cons blank]
        | cons line skipped =>
          obtain ⟨own, others⟩ := List.forall_mem_cons.mp empty
          refine ⟨(c :: line) :: skipped, first, after, rfl, trimmed, ?_, reached⟩
          exact List.forall_mem_cons.mpr ⟨by rwa [isVisibleLine_cons blank], others⟩
    | false =>
      obtain ⟨first, after, -, put⟩ := exists_lines_cons (ne_break_of_visible blank) t
      refine ⟨[], c :: first, after, put, ?_, nofun, .inl ?_⟩
      · rw [trimStart_cons_of_visible blank, trimStart_cons_of_visible blank, put]
      · exact isVisibleLine_of_mem List.mem_cons_self blank

/-- Of the visible lines, only the first one changes when blanks at the start are dropped. -/
theorem visibleLines_trimStart (t : Text) :
    visibleLines (trimStart t) = (visibleLines t).modifyHead trimStart := by
  obtain ⟨skipped, first, after, divided, trimmed, empty, reached⟩ := exists_lines_trimStart t
  have gone : skipped.filter isVisibleLine = [] := by
    apply List.filter_eq_nil_iff.mpr
    intro line member
    simp [empty line member]
  rw [visibleLines, visibleLines, divided, trimmed, List.filter_append, gone, List.nil_append,
    List.filter_cons, List.filter_cons, isVisibleLine_trimStart]
  split
  · rfl
  · next hidden =>
    rw [reached.resolve_left hidden]
    rfl

theorem innerLines_trimStart_subset (t : Text) : innerLines (trimStart t) ⊆ innerLines t := by
  obtain ⟨skipped, first, after, divided, trimmed, -, -⟩ := exists_lines_trimStart t
  rw [innerLines, innerLines, divided, trimmed, List.tail_cons]
  cases skipped with
  | nil => exact List.Subset.refl _
  | cons line skipped =>
    rw [List.cons_append, List.tail_cons, List.dropLast_append_of_ne_nil (List.cons_ne_nil _ _)]
    intro line member
    apply List.mem_append_right
    cases after with
    | nil => cases member
    | cons next after => exact List.mem_cons_of_mem first member

theorem visibleLines_reverse (t : Text) :
    visibleLines t.reverse = ((visibleLines t).map List.reverse).reverse := by
  have same : isVisibleLine ∘ List.reverse = isVisibleLine := funext isVisibleLine_reverse
  rw [visibleLines, lines_reverse, List.filter_reverse, List.filter_map, same, visibleLines]

theorem innerLines_reverse (t : Text) :
    innerLines t.reverse = ((innerLines t).map List.reverse).reverse := by
  rw [innerLines, innerLines, lines_reverse, List.tail_reverse, List.dropLast_reverse,
    List.map_dropLast, List.map_tail, List.tail_dropLast]

theorem trimEnd_eq (t : Text) : trimEnd t = (trimStart t.reverse).reverse := rfl

/-- Of the visible lines, only the last one changes when blanks at the end are dropped. -/
theorem visibleLines_trimEnd (t : Text) :
    visibleLines (trimEnd t) = ((visibleLines t).reverse.modifyHead trimEnd).reverse := by
  rw [trimEnd_eq, visibleLines_reverse, visibleLines_trimStart, visibleLines_reverse,
    ← List.map_reverse (l := visibleLines t)]
  cases (visibleLines t).reverse with
  | nil => rfl
  | cons last before => simp [trimEnd_eq]

theorem innerLines_trimEnd_subset (t : Text) : innerLines (trimEnd t) ⊆ innerLines t := by
  have back := innerLines_trimStart_subset t.reverse
  rw [innerLines_reverse] at back
  rw [trimEnd_eq, innerLines_reverse]
  intro line member
  obtain ⟨backwards, inside, rfl⟩ := List.mem_map.mp (List.mem_reverse.mp member)
  obtain ⟨kept, there, rfl⟩ := List.mem_map.mp (List.mem_reverse.mp (back inside))
  rwa [List.reverse_reverse]

theorem not_mem_of_mem_lines {t line : Text} (member : line ∈ lines t) : '\n' ∉ line := by
  induction t generalizing line with
  | nil =>
    cases List.mem_singleton.mp member
    exact List.not_mem_nil
  | cons c t ih =>
    by_cases isBreak : c = '\n'
    · rw [isBreak, lines_break] at member
      rcases List.mem_cons.mp member with rfl | later
      · exact List.not_mem_nil
      · exact ih later
    · obtain ⟨first, after, divided, put⟩ := exists_lines_cons isBreak t
      rw [divided] at ih
      rw [put] at member
      rcases List.mem_cons.mp member with rfl | later
      · have clean := ih List.mem_cons_self
        intro broken
        rcases List.mem_cons.mp broken with same | inside
        · exact isBreak same.symm
        · exact clean inside
      · exact ih (List.mem_cons_of_mem first later)

end Text

namespace Layout

open Text

theorem isPaddingLine_of_isVisibleLine {line : Text} (visible : isVisibleLine line) :
    isPaddingLine line = false := by
  obtain ⟨c, member, seen⟩ := List.any_eq_true.mp visible
  exact isPaddingLine_of_visible member (by simpa using seen)

theorem exists_lines_dropPaddingLines (t : Text) : ∃ before last, lines t = before ++ [last] ∧
    lines (dropPaddingLines t) = before.filter (!isPaddingLine ·) ++ [last] := by
  have whole := List.dropLast_append_getLast (lines_ne_nil t)
  refine ⟨_, _, whole.symm, ?_⟩
  rw [dropPaddingLines, List.getLast?_eq_some_getLast (lines_ne_nil t)]
  apply List.splitOn_intercalate
  · intro line member
    apply not_mem_of_mem_lines (t := t)
    rw [← whole]
    rcases List.mem_append.mp member with kept | last
    · exact List.mem_append_left _ (List.mem_of_mem_filter kept)
    · exact List.mem_append_right _ last
  · simp

theorem visibleLines_dropPaddingLines (t : Text) :
    visibleLines (dropPaddingLines t) = visibleLines t := by
  obtain ⟨before, last, divided, kept⟩ := exists_lines_dropPaddingLines t
  rw [visibleLines, visibleLines, divided, kept, List.filter_append, List.filter_append,
    List.filter_filter]
  congr 1
  apply List.filter_congr
  intro line _
  cases visible : isVisibleLine line with
  | true => rw [isPaddingLine_of_isVisibleLine visible]; rfl
  | false => rfl

theorem isPaddingLine_of_mem_innerLines {t line : Text}
    (member : line ∈ innerLines (dropPaddingLines t)) : isPaddingLine line = false := by
  obtain ⟨before, last, -, kept⟩ := exists_lines_dropPaddingLines t
  rw [innerLines, ← List.tail_dropLast, kept, List.dropLast_concat] at member
  have solid := (List.mem_filter.mp (List.mem_of_mem_tail member)).2
  simpa using solid

/-- Leaving out lines with nothing on them, but not the last line. -/
structure FewerLines (all fewer : List Text) : Prop where
  visible : fewer.filter isVisibleLine = all.filter isVisibleLine
  subset : fewer.dropLast ⊆ all.dropLast
  eq_nil : all = [] → fewer = []

namespace FewerLines

variable {all fewer : List Text}

theorem keep (same : FewerLines all fewer) (line : Text) :
    FewerLines (line :: all) (line :: fewer) where
  visible := by rw [List.filter_cons, List.filter_cons, same.visible]
  subset := by
    by_cases some : fewer = []
    · simp [some]
    · rw [List.dropLast_cons_of_ne_nil some, List.dropLast_cons_of_ne_nil (mt same.eq_nil some)]
      exact List.cons_subset_cons line same.subset
  eq_nil := nofun

theorem drop (same : FewerLines all fewer) (some : all ≠ []) : FewerLines ([] :: all) fewer where
  visible := same.visible
  subset := by
    rw [List.dropLast_cons_of_ne_nil some]
    exact List.Subset.trans same.subset (List.subset_cons_self _ _)
  eq_nil := nofun

end FewerLines

/-- A text whose gaps are closed has the same first line, and fewer lines after it. -/
theorem exists_lines_thinned {t u : Text} (thin : t.Thinned u) : ∃ first all fewer,
    lines t = first :: all ∧ lines u = first :: fewer ∧ FewerLines all fewer := by
  induction thin with
  | nil => exact ⟨[], [], [], rfl, rfl, rfl, List.Subset.refl _, fun _ => rfl⟩
  | keep c rest ih =>
    obtain ⟨first, all, fewer, before, after, same⟩ := ih
    by_cases isBreak : c = '\n'
    · rw [isBreak, lines_break, lines_break, before, after]
      exact ⟨[], _, _, rfl, rfl, same.keep first⟩
    · rw [lines_cons isBreak, lines_cons isBreak, before, after]
      exact ⟨c :: first, all, fewer, rfl, rfl, same⟩
  | @drop t u rest ih =>
    obtain ⟨first, all, fewer, before, after, same⟩ := ih
    rw [lines_break] at before
    obtain ⟨rfl, rfl⟩ := List.cons.inj before
    have noBreak : '}' ≠ '\n' := by decide
    rw [lines_cons noBreak, lines_cons noBreak, lines_break, lines_break, after]
    exact ⟨['}'], [] :: lines t, fewer, rfl, rfl, same.drop (lines_ne_nil t)⟩

theorem visibleLines_thinned {t u : Text} (thin : t.Thinned u) :
    visibleLines u = visibleLines t := by
  obtain ⟨first, all, fewer, before, after, same⟩ := exists_lines_thinned thin
  rw [visibleLines, visibleLines, before, after, List.filter_cons, List.filter_cons, same.visible]

theorem innerLines_thinned_subset {t u : Text} (thin : t.Thinned u) :
    innerLines u ⊆ innerLines t := by
  obtain ⟨first, all, fewer, before, after, same⟩ := exists_lines_thinned thin
  rw [innerLines, innerLines, before, after]
  exact same.subset

/-- In a text that starts and ends with visible characters, only a line between the first and the
last one can be padding. -/
theorem not_padding_of_ends {t : Text} (starts : ∀ c ∈ t.head?, isBlank c = false)
    (ends : ∀ c ∈ t.getLast?, isBlank c = false)
    (inner : ∀ line ∈ innerLines t, isPaddingLine line = false) :
    ∀ line ∈ lines t, isPaddingLine line = false := by
  intro line member
  rcases List.eq_nil_or_concat t with rfl | ⟨start, d, whole⟩
  · cases List.mem_singleton.mp member
    rfl
  · have lastVisible : isBlank d = false := ends d (by simp [whole])
    obtain ⟨before, last, -, divided⟩ :=
      exists_lines_concat (ne_break_of_visible lastVisible) start
    rw [← List.concat_eq_append, ← whole] at divided
    rw [divided] at member
    rcases List.mem_append.mp member with early | atEnd
    · obtain ⟨c, rest, rfl⟩ := List.exists_cons_of_ne_nil (l := t) (by simp [whole])
      have firstVisible : isBlank c = false := starts c rfl
      obtain ⟨first, after, -, put⟩ := exists_lines_cons (ne_break_of_visible firstVisible) rest
      rw [innerLines, ← List.tail_dropLast, divided, List.dropLast_concat] at inner
      rw [divided] at put
      cases before with
      | nil => cases early
      | cons b before =>
        obtain ⟨rfl, -⟩ := List.cons.inj put
        rcases List.mem_cons.mp early with rfl | between
        · exact isPaddingLine_of_visible List.mem_cons_self firstVisible
        · exact inner line between
    · rw [List.mem_singleton.mp atEnd]
      exact isPaddingLine_of_visible (c := d) (by simp) lastVisible

/-- The last pass only takes blank layout out. The lines with something on them stay as they are,
but for the blanks before the first and behind the last one; no line of spaces and tabs is left, and
no blank at either end. -/
theorem visibleLines_finish (t : Text) :
    visibleLines (finish t) = trimLines (visibleLines t) ∧
      (∀ line ∈ lines (finish t), line = [] ∨ ∃ c ∈ line, c ≠ ' ' ∧ c ≠ '\t') ∧
      (∀ c ∈ (finish t).head?, isBlank c = false) ∧
      ∀ c ∈ (finish t).getLast?, isBlank c = false := by
  have thin := thinned_closingGaps (dropPaddingLines t)
  have starts : ∀ c ∈ (finish t).head?, isBlank c = false := fun _ => isBlank_head_trim
  have ends : ∀ c ∈ (finish t).getLast?, isBlank c = false := fun _ => isBlank_last_trim
  refine ⟨?_, ?_, starts, ends⟩
  · rw [finish, trim, visibleLines_trimEnd, visibleLines_trimStart, visibleLines_thinned thin,
      visibleLines_dropPaddingLines, trimLines]
  · intro line member
    apply (isPaddingLine_eq_false_iff line).mp
    apply not_padding_of_ends starts ends _ line member
    intro line between
    have before := innerLines_trimStart_subset _ (innerLines_trimEnd_subset _ between)
    exact isPaddingLine_of_mem_innerLines (innerLines_thinned_subset thin before)

end Layout

end Stylesheet
