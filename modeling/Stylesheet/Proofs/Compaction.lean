import Stylesheet.Compact
import Stylesheet.Proofs.Blanks
import Stylesheet.Proofs.Replace

set_option autoImplicit false

namespace Stylesheet

namespace Text

theorem countWhile_append {p : Char → Bool} {w t : Text} (all : ∀ c ∈ w, p c)
    (stop : ∀ c ∈ t.head?, p c = false) : countWhile p (w ++ t) = w.length := by
  have none : t.takeWhile p = [] := by
    cases t with
    | nil => rfl
    | cons c t => simp [stop c rfl]
  rw [countWhile, List.takeWhile_append_of_pos all, none, List.append_nil]

end Text

namespace Compact

theorem blanks_append {w t : Text} (blank : ∀ c ∈ w, Text.isBlank c)
    (visible : ∀ c ∈ t.head?, Text.isBlank c = false) : blanks (w ++ t) = w.length :=
  Text.countWhile_append blank visible

/-- A text divided after the blanks at its start. -/
theorem exists_append_visible {t : Text} (last : ∀ c ∈ t.getLast?, Text.isBlank c = false)
    (nonempty : t ≠ []) :
    ∃ w c u, t = w ++ c :: u ∧ (∀ d ∈ w, Text.isBlank d) ∧ Text.isBlank c = false := by
  induction t with
  | nil => exact absurd rfl nonempty
  | cons d t ih =>
    cases first : Text.isBlank d with
    | false => exact ⟨[], d, t, rfl, by simp, first⟩
    | true =>
      have more : t ≠ [] := by
        rintro rfl
        simp [last d rfl] at first
      obtain ⟨w, c, u, rfl, blank, visible⟩ :=
        ih (by rwa [← List.getLast?_cons_of_ne_nil more (x := d)]) more
      refine ⟨d :: w, c, u, rfl, ?_, visible⟩
      intro e member
      rcases List.mem_cons.mp member with rfl | older
      · exact first
      · exact blank e older

/-- A text without braces is kept up to its last character. -/
theorem dropBeforeBraces_append {t : Text} (free : ∀ c ∈ t, isBrace c = false)
    (last : ∀ c ∈ t.getLast?, Text.isBlank c = false) (rest : Text) :
    dropBeforeBraces (t ++ rest) = t ++ dropBeforeBraces rest := by
  apply Text.replace_append_of_unmatched
  rintro u ⟨before, rfl⟩ nonempty
  obtain ⟨w, c, v, rfl, blank, visible⟩ := exists_append_visible (t := u)
    (fun d final => last d (by rw [List.getLast?_append, final]; rfl)) nonempty
  have counted : blanks (w ++ c :: (v ++ rest)) = w.length :=
    blanks_append blank (by simpa using visible)
  have noBrace := free c (by simp)
  simp [beforeBraceLength, counted, noBrace]

/-- The blanks before a brace are left out. -/
theorem dropBeforeBraces_brace {w : Text} (blank : ∀ c ∈ w, Text.isBlank c) {brace : Char}
    (braced : isBrace brace) (rest : Text) :
    dropBeforeBraces (w ++ brace :: rest) = brace :: dropBeforeBraces rest := by
  have visible : Text.isBlank brace = false := by
    simp only [isBrace, Bool.or_eq_true, decide_eq_true_eq] at braced
    rcases braced with rfl | rfl <;> rfl
  by_cases none : w = []
  · subst none
    apply Text.replace_cons
    have counted : blanks (brace :: rest) = 0 :=
      blanks_append (w := []) (by simp) (by simpa using visible)
    simp [beforeBraceLength, counted]
  · have counted : blanks (w ++ brace :: rest) = w.length :=
      blanks_append blank (by simpa using visible)
    have found : beforeBraceLength ((w ++ [brace]) ++ rest) = (w ++ [brace]).length := by
      rw [List.append_assoc, List.singleton_append]
      simp [beforeBraceLength, counted, braced, none]
    have kept : keepMark (w ++ [brace]) = [brace] := by
      rw [keepMark, List.filter_append, List.filter_eq_nil_iff.mpr (by simpa using blank)]
      simp [visible]
    have replaced := Text.replace_append (f := keepMark) (by simp) found
    rw [kept, List.append_assoc] at replaced
    exact replaced

/-- Compacting after delimiters, when the text does not start with a blank. -/
def dropAfter (t : Text) : Text := Text.replace afterDelimiterLength keepMark t

theorem dropAfterDelimiters_eq {t : Text} (first : ∀ c ∈ t.head?, Text.isBlank c = false) :
    dropAfterDelimiters t = dropAfter t := by
  rw [dropAfterDelimiters, Text.trimStart_eq_self first, dropAfter]

/-- A text is kept in which no blank comes after a delimiter. -/
theorem dropAfter_append {t : Text}
    (apart : t.IsChain fun c d => ¬ (isDelimiter c ∧ Text.isBlank d))
    (last : ∀ c ∈ t.getLast?, isDelimiter c = false) (rest : Text) :
    dropAfter (t ++ rest) = t ++ dropAfter rest := by
  apply Text.replace_append_of_unmatched
  rintro u ⟨before, rfl⟩ nonempty
  obtain ⟨c, u, rfl⟩ := List.exists_cons_of_ne_nil nonempty
  cases delimiter : isDelimiter c with
  | false => simp [afterDelimiterLength, delimiter]
  | true =>
    cases u with
    | nil =>
      have free := last c (by simp)
      simp [delimiter] at free
    | cons d u =>
      have visible : Text.isBlank d = false := by
        have adjacent := (List.isChain_cons_cons.mp apart.right_of_append).1
        simpa [delimiter] using adjacent
      have counted : blanks (d :: (u ++ rest)) = 0 :=
        blanks_append (w := []) (by simp) (by simpa using visible)
      simp [afterDelimiterLength, counted]

/-- The blanks after a delimiter are left out. -/
theorem dropAfter_delimiter {c : Char} (delimiter : isDelimiter c) {w : Text}
    (blank : ∀ d ∈ w, Text.isBlank d) {rest : Text}
    (visible : ∀ d ∈ rest.head?, Text.isBlank d = false) :
    dropAfter (c :: (w ++ rest)) = c :: dropAfter rest := by
  have counted : blanks (w ++ rest) = w.length := blanks_append blank visible
  by_cases none : w = []
  · subst none
    apply Text.replace_cons
    simp only [List.nil_append, List.length_nil] at counted
    simp [afterDelimiterLength, counted]
  · have own : Text.isBlank c = false := by
      simp only [isDelimiter, isBrace, Bool.or_eq_true, decide_eq_true_eq] at delimiter
      rcases delimiter with ((rfl | rfl) | rfl) | rfl | rfl <;> rfl
    have found : afterDelimiterLength ((c :: w) ++ rest) = (c :: w).length := by
      simp [afterDelimiterLength, delimiter, counted, none]
    have kept : keepMark (c :: w) = [c] := by
      rw [keepMark, List.filter_cons_of_pos (by simpa using own),
        List.filter_eq_nil_iff.mpr (by simpa using blank)]
    have replaced := Text.replace_append (f := keepMark) (by simp) found
    rw [kept] at replaced
    exact replaced

/-- A text without semicolons is kept. -/
theorem dropLastSemicolons_append {t : Text} (none : ';' ∉ t) (rest : Text) :
    dropLastSemicolons (t ++ rest) = t ++ dropLastSemicolons rest := by
  apply Text.replace_append_of_unmatched
  rintro u ⟨before, rfl⟩ nonempty
  obtain ⟨c, u, rfl⟩ := List.exists_cons_of_ne_nil nonempty
  have other : c ≠ ';' := by
    rintro rfl
    exact none (by simp)
  unfold lastSemicolonLength
  split
  · next whole => exact absurd (List.cons.inj whole).1 other
  · rfl

theorem dropLastSemicolons_last (rest : Text) :
    dropLastSemicolons (';' :: '}' :: rest) = '}' :: dropLastSemicolons rest := by
  have found : lastSemicolonLength ([';', '}'] ++ rest) = [';', '}'].length := rfl
  exact Text.replace_append (f := fun _ => ['}']) (by simp) found

theorem dropLastSemicolons_between {c : Char} (more : c ≠ '}') (rest : Text) :
    dropLastSemicolons (';' :: c :: rest) = ';' :: dropLastSemicolons (c :: rest) := by
  apply Text.replace_cons
  unfold lastSemicolonLength
  split
  · next whole => exact absurd (List.cons.inj (List.cons.inj whole).2).1 more
  · rfl

theorem dropComments_eq_self {t : Text} (none : '/' ∉ t) : dropComments t = t := by
  apply Text.replace_eq_self
  intro u suffix
  unfold commentLength
  split
  · exact absurd (suffix.mem List.mem_cons_self) none
  · rfl

theorem dropAroundCombinators_eq_self {t : Text} (none : ∀ c ∈ t, isCombinator c = false) :
    dropAroundCombinators t = t := by
  apply Text.replace_eq_self
  intro u suffix
  unfold combinatorLength
  dsimp only
  split
  · next c rest whole =>
    have inside : c ∈ u := (List.drop_suffix _ u).mem (whole ▸ List.mem_cons_self)
    simp [none c (suffix.mem inside)]
  · rfl

theorem joinContinuations_eq_self {t : Text} (none : '\\' ∉ t) : joinContinuations t = t := by
  apply Text.replace_eq_self
  intro u suffix
  unfold continuationLength
  split
  · exact absurd (suffix.mem List.mem_cons_self) none
  · rfl

end Compact

end Stylesheet
