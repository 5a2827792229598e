import Stylesheet.Proofs.Passes

set_option autoImplicit false

namespace Stylesheet.Layout

variable {t u : Text}

/-- Where a run of spaces is followed by a closing parenthesis, it ends there. -/
theorem spaces_prefix_iff (k n : Nat) (stop : t.head? ≠ some ' ') :
    List.replicate k ' ' ++ [')'] <+: List.replicate n ' ' ++ t ↔ k = n ∧ t.head? = some ')' := by
  induction n generalizing k with
  | zero =>
    cases t with
    | nil => cases k <;> simp
    | cons c t =>
      cases k with
      | zero => simp [List.cons_prefix_cons, eq_comm]
      | succ k =>
        have other : ' ' ≠ c := fun space => stop (by rw [← space]; rfl)
        simp [List.replicate_succ, List.cons_prefix_cons, other]
  | succ n ih =>
    cases k with
    | zero => simp [List.replicate_succ, List.cons_prefix_cons]
    | succ k => simp [List.replicate_succ, List.cons_prefix_cons, ih k]

theorem two_le_of_spaces (n : Nat) (stop : t.head? ≠ some ' ')
    (two : [' ', ' '] <+: List.replicate n ' ' ++ t) : 2 ≤ n := by
  rcases n with _ | _ | n
  · obtain ⟨rest, rfl⟩ : [' ', ' '] <+: t := two
    exact absurd rfl stop
  · obtain ⟨rest, rfl⟩ : [' '] <+: t := (List.cons_prefix_cons.mp two).2
    exact absurd rfl stop
  · omega

/-- A value and what is left of it, from left to right. The spaces after an opening parenthesis and
those before a closing one are left out, and of several spaces after a comma all but the first. -/
inductive Unpads : Text → Text → Prop
  | nil : Unpads [] []
  | plain {c : Char} {t u : Text} (opening : c = '(' → t.head? ≠ some ' ')
      (closing : c = ' ' → ∀ n, ¬ List.replicate n ' ' ++ [')'] <+: t)
      (comma : c = ',' → ¬ [' ', ' '] <+: t) (later : Unpads t u) : Unpads (c :: t) (c :: u)
  | opening {t u : Text} (n : Nat) (stop : t.head? ≠ some ' ') (later : Unpads t u) :
      Unpads ('(' :: List.replicate (n + 1) ' ' ++ t) ('(' :: u)
  | closing {t u : Text} (n : Nat) (later : Unpads t u) :
      Unpads (List.replicate (n + 1) ' ' ++ ')' :: t) (')' :: u)
  | comma {t u : Text} (n : Nat) (stop : t.head? ≠ some ' ') (later : Unpads t u) :
      Unpads (',' :: List.replicate (n + 2) ' ' ++ t) (',' :: ' ' :: u)

theorem unpadded_cons {c : Char} (opening : c = '(' → t.head? ≠ some ' ')
    (closing : c = ' ' → ∀ n, ¬ List.replicate n ' ' ++ [')'] <+: t)
    (comma : c = ',' → ¬ [' ', ' '] <+: t) : unpadded (c :: t) = c :: unpadded t := by
  apply Text.replace_cons
  by_cases isOpening : c = '('
  · rw [isOpening, paddingLength_open, if_neg (opening isOpening)]
  by_cases isComma : c = ','
  · rw [isComma, paddingLength_comma, if_neg (comma isComma)]
  by_cases isSpace : c = ' '
  · obtain ⟨n, rest, rfl, stop⟩ := exists_spaces t
    rw [isSpace, paddingLength_space, countWhile_replicate n stop, List.drop_left' (by simp),
      if_neg]
    intro closes
    exact closing isSpace n ((spaces_prefix_iff n n stop).mpr ⟨rfl, closes⟩)
  · exact paddingLength_other ⟨isOpening, isComma, isSpace⟩ t

theorem unpadded_opening (n : Nat) (stop : t.head? ≠ some ' ') :
    unpadded ('(' :: List.replicate (n + 1) ' ' ++ t) = '(' :: unpadded t := by
  have found : paddingLength ('(' :: List.replicate (n + 1) ' ' ++ t) = n + 2 := by
    rw [List.cons_append, paddingLength_open, countWhile_replicate _ stop, if_pos]
    · omega
    · rw [List.replicate_succ, List.cons_append, List.head?_cons]
  exact Text.replace_append (by simp) (found.trans (by simp))

theorem unpadded_closing (n : Nat) (t : Text) :
    unpadded (List.replicate (n + 1) ' ' ++ ')' :: t) = ')' :: unpadded t := by
  have found : paddingLength (List.replicate (n + 1) ' ' ++ ')' :: t) = n + 2 := by
    rw [List.replicate_succ, List.cons_append, paddingLength_space,
      countWhile_replicate n (by simp), List.drop_left' (by simp), List.head?_cons, if_pos rfl]
  have replaced : unpadded (List.replicate (n + 1) ' ' ++ [')'] ++ t) =
      unpad (List.replicate (n + 1) ' ' ++ [')']) ++ unpadded t :=
    Text.replace_append (by simp) (by simpa using found)
  rw [List.append_assoc, List.singleton_append] at replaced
  exact replaced

theorem unpadded_comma (n : Nat) (stop : t.head? ≠ some ' ') :
    unpadded (',' :: List.replicate (n + 2) ' ' ++ t) = ',' :: ' ' :: unpadded t := by
  have found : paddingLength (',' :: List.replicate (n + 2) ' ' ++ t) = n + 3 := by
    rw [List.cons_append, paddingLength_comma, countWhile_replicate _ stop, if_pos]
    · omega
    · exact ⟨List.replicate n ' ' ++ t, rfl⟩
  exact Text.replace_append (by simp) (found.trans (by simp))

/-- Padding is taken out by these rules. -/
theorem unpads_unpadded (t : Text) : Unpads t (unpadded t) := by
  -- A match takes a whole run of spaces, so the induction is on how long the text is.
  induction size : t.length using Nat.strong_induction_on generalizing t with
  | _ bound ih =>
    subst size
    cases t with
    | nil => exact .nil
    | cons c t =>
      by_cases opening : c = '(' ∧ t.head? = some ' '
      · obtain ⟨rfl, space⟩ := opening
        obtain ⟨n, rest, rfl, stop⟩ := exists_spaces t
        cases n with
        | zero => exact absurd space stop
        | succ n =>
          rw [← List.cons_append, unpadded_opening n stop]
          exact .opening n stop (ih rest.length (by simp) rest rfl)
      by_cases closing : c = ' ' ∧ ∃ n, List.replicate n ' ' ++ [')'] <+: t
      · obtain ⟨rfl, n, rest, rfl⟩ := closing
        have whole : ' ' :: (List.replicate n ' ' ++ [')'] ++ rest) =
            List.replicate (n + 1) ' ' ++ ')' :: rest := by simp [List.replicate_succ]
        rw [whole, unpadded_closing]
        exact .closing n (ih rest.length (by simp; omega) rest rfl)
      by_cases comma : c = ',' ∧ [' ', ' '] <+: t
      · obtain ⟨rfl, two⟩ := comma
        obtain ⟨n, rest, rfl, stop⟩ := exists_spaces t
        obtain ⟨n, rfl⟩ := Nat.exists_eq_add_of_le' (two_le_of_spaces n stop two)
        rw [← List.cons_append, unpadded_comma n stop]
        exact .comma n stop (ih rest.length (by simp) rest rfl)
      · have apart (space : c = ' ') (n : Nat) : ¬ List.replicate n ' ' ++ [')'] <+: t :=
          fun here => closing ⟨space, n, here⟩
        rw [unpadded_cons (not_and.mp opening) apart (not_and.mp comma)]
        exact .plain (not_and.mp opening) apart (not_and.mp comma) (ih t.length (by simp) t rfl)

/-- What begins with a space did so before, and the rest is what is left of the rest. -/
theorem Unpads.of_space (unpads : Unpads t u) (space : u.head? = some ' ') :
    ∃ rest left, t = ' ' :: rest ∧ u = ' ' :: left ∧ Unpads rest left := by
  cases unpads with
  | nil => cases space
  | plain opening closing comma later =>
    cases space
    exact ⟨_, _, rfl, rfl, later⟩
  | opening | closing | comma => cases space

theorem Unpads.head?_ne_space (unpads : Unpads t u) (stop : t.head? ≠ some ' ') :
    u.head? ≠ some ' ' := by
  intro space
  obtain ⟨rest, left, rfl, -⟩ := unpads.of_space space
  exact stop rfl

/-- What begins with a closing parenthesis had at most spaces before it. -/
theorem Unpads.of_closing (unpads : Unpads t u) (closes : u.head? = some ')') :
    ∃ n, List.replicate n ' ' ++ [')'] <+: t := by
  cases unpads with
  | nil => cases closes
  | plain =>
    cases closes
    exact ⟨0, _, rfl⟩
  | @closing t u n later => exact ⟨n + 1, t, by simp⟩
  | opening | comma => cases closes

theorem Unpads.head?_closing (unpads : Unpads t u) (closes : t.head? = some ')') :
    u.head? = some ')' := by
  cases unpads with
  | nil => cases closes
  | plain => exact closes
  | opening | closing | comma => cases closes

theorem Unpads.of_two_spaces (unpads : Unpads t u) (two : [' ', ' '] <+: u) : [' ', ' '] <+: t := by
  obtain ⟨left, rfl⟩ := two
  obtain ⟨rest, _, rfl, same, next⟩ := unpads.of_space rfl
  cases same
  obtain ⟨rest, _, rfl, -⟩ := next.of_space rfl
  exact ⟨rest, rfl⟩

theorem pair_infix_cons_iff {a b c : Char} :
    [a, b] <:+: c :: t ↔ (a = c ∧ t.head? = some b) ∨ [a, b] <:+: t := by
  rw [List.infix_cons_iff, List.cons_prefix_cons]
  cases t with
  | nil => simp
  | cons d t => simp [List.cons_prefix_cons, eq_comm]

/-- No space is left after an opening parenthesis. -/
theorem Unpads.not_opening (unpads : Unpads t u) : ¬ ['(', ' '] <:+: u := by
  induction unpads with
  | nil => simp
  | plain opening closing comma later ih =>
    rw [pair_infix_cons_iff]
    rintro (⟨rfl, space⟩ | inside)
    · exact later.head?_ne_space (opening rfl) space
    · exact ih inside
  | opening n stop later ih => simp [pair_infix_cons_iff, ih, later.head?_ne_space stop]
  | closing n later ih => simp [pair_infix_cons_iff, ih]
  | comma n stop later ih => simp [pair_infix_cons_iff, ih]

/-- No two spaces are left after a comma. -/
theorem Unpads.not_comma (unpads : Unpads t u) : ¬ [',', ' ', ' '] <:+: u := by
  induction unpads with
  | nil => simp
  | plain opening closing comma later ih =>
    rw [List.infix_cons_iff, List.cons_prefix_cons]
    rintro (⟨rfl, two⟩ | inside)
    · exact comma rfl (later.of_two_spaces two)
    · exact ih inside
  | opening n stop later ih => simp [List.infix_cons_iff, List.cons_prefix_cons, ih]
  | closing n later ih => simp [List.infix_cons_iff, List.cons_prefix_cons, ih]
  | @comma t u n stop later ih =>
    have first : ¬ [' '] <+: u := by
      rintro ⟨rest, rfl⟩
      exact later.head?_ne_space stop rfl
    simp [List.infix_cons_iff, List.cons_prefix_cons, ih, first]

/-- A comma and a closing parenthesis with nothing but spaces between them, two or more. The run of
spaces belongs to both, and the comma is first, so one space stays before the parenthesis. -/
def HasTrailingGap (t : Text) : Prop :=
  ∃ n, ',' :: List.replicate (n + 2) ' ' ++ [')'] <:+: t

theorem not_hasTrailingGap_nil : ¬ HasTrailingGap [] := by
  rintro ⟨n, inside⟩
  simp at inside

theorem hasTrailingGap_cons {c : Char} : HasTrailingGap (c :: t) ↔
    (c = ',' ∧ ∃ n, List.replicate (n + 2) ' ' ++ [')'] <+: t) ∨ HasTrailingGap t := by
  simp only [HasTrailingGap, List.infix_cons_iff, List.cons_append, List.cons_prefix_cons,
    exists_or, exists_and_left, eq_comm]

theorem hasTrailingGap_append {m : Text} (apart : ',' ∉ m) :
    HasTrailingGap (m ++ t) ↔ HasTrailingGap t := by
  induction m with
  | nil => rfl
  | cons c m ih =>
    obtain ⟨other, apart⟩ := List.ne_and_not_mem_of_not_mem_cons apart
    rw [List.cons_append, hasTrailingGap_cons, ih apart, or_iff_right]
    exact fun gap => other gap.1.symm

theorem HasTrailingGap.comma (gap : HasTrailingGap t) : [',', ' ', ' '] <:+: t := by
  obtain ⟨n, inside⟩ := gap
  exact List.IsInfix.trans ⟨[], List.replicate n ' ' ++ [')'], rfl⟩ inside

/-- A space is left before a closing parenthesis only where there were several after a comma. -/
theorem Unpads.closing_iff (unpads : Unpads t u) : [' ', ')'] <:+: u ↔ HasTrailingGap t := by
  induction unpads with
  | nil => simp [not_hasTrailingGap_nil]
  | @plain c t u opening closing comma later ih =>
    have noSpace : ¬ (' ' = c ∧ u.head? = some ')') := by
      rintro ⟨rfl, closes⟩
      obtain ⟨n, here⟩ := later.of_closing closes
      exact closing rfl n here
    have noGap : ¬ (c = ',' ∧ ∃ n, List.replicate (n + 2) ' ' ++ [')'] <+: t) := by
      rintro ⟨isComma, n, here⟩
      exact comma isComma (List.IsPrefix.trans ⟨List.replicate n ' ' ++ [')'], rfl⟩ here)
    rw [pair_infix_cons_iff, hasTrailingGap_cons, or_iff_right noSpace, or_iff_right noGap, ih]
  | opening n stop later ih =>
    rw [pair_infix_cons_iff, hasTrailingGap_append (by simp), ih]
    simp
  | @closing t u n later ih =>
    have whole : List.replicate (n + 1) ' ' ++ ')' :: t =
        List.replicate (n + 1) ' ' ++ [')'] ++ t := by simp
    rw [pair_infix_cons_iff, whole, hasTrailingGap_append (by simp), ih]
    simp
  | @comma t u n stop later ih =>
    have here : (∃ k, List.replicate (k + 2) ' ' ++ [')'] <+: List.replicate (n + 2) ' ' ++ t) ↔
        u.head? = some ')' := by
      constructor
      · rintro ⟨k, here⟩
        exact later.head?_closing ((spaces_prefix_iff _ _ stop).mp here).2
      · intro closes
        obtain ⟨k, first⟩ := later.of_closing closes
        have closes := ((spaces_prefix_iff k 0 stop).mp first).2
        exact ⟨n, (spaces_prefix_iff _ _ stop).mpr ⟨rfl, closes⟩⟩
    rw [pair_infix_cons_iff, pair_infix_cons_iff, List.cons_append, hasTrailingGap_cons,
      hasTrailingGap_append (by simp), here, ih]
    simp

theorem Unpads.sublist (unpads : Unpads t u) : u.Sublist t := by
  induction unpads with
  | nil => exact .slnil
  | plain opening closing comma later ih => exact ih.cons_cons _
  | opening n stop later ih => exact (ih.trans (List.sublist_append_right _ _)).cons_cons _
  | closing n later ih => exact (ih.cons_cons _).trans (List.sublist_append_right _ _)
  | @comma t u n stop later ih =>
    have spaces := ih.trans (List.sublist_append_right (List.replicate (n + 1) ' ') t)
    exact (spaces.cons_cons ' ').cons_cons ','

/-- Nothing but spaces is left out. -/
theorem Unpads.filter_eq (unpads : Unpads t u) : u.filter (· ≠ ' ') = t.filter (· ≠ ' ') := by
  induction unpads with
  | nil => rfl
  | plain opening closing comma later ih => simp only [List.filter_cons, ih]
  | opening n stop later ih => simpa using ih
  | closing n later ih => simpa using ih
  | comma n stop later ih => simpa using ih

theorem isPadded_unpadded_eq_false_iff :
    isPadded (unpadded t) = false ↔ ¬ HasTrailingGap t := by
  have unpads := unpads_unpadded t
  rw [isPadded_eq_false_iff, unpads.closing_iff]
  simp [unpads.not_opening, unpads.not_comma]

/-- Exactly the values without padding stay as they are. -/
theorem unpadded_eq_self_iff : unpadded t = t ↔ isPadded t = false := by
  refine ⟨fun same => ?_, unpadded_eq_self⟩
  rw [← same, isPadded_unpadded_eq_false_iff]
  intro gap
  have left := gap.comma
  rw [← same] at left
  exact (unpads_unpadded t).not_comma left

/-- One pass takes out spaces and nothing else. It leaves no space after an opening parenthesis, no
two spaces after a comma, and a space before a closing parenthesis only if there were two or more
between a comma and the parenthesis. Otherwise a second pass changes nothing; a third never does. -/
theorem unpadded_normalForm (value : Text) :
    ((unpadded value).Sublist value ∧
      (unpadded value).filter (· ≠ ' ') = value.filter (· ≠ ' ')) ∧
    (unpadded value = value ↔ isPadded value = false) ∧
    ¬ ['(', ' '] <:+: unpadded value ∧
    ¬ [',', ' ', ' '] <:+: unpadded value ∧
    ([' ', ')'] <:+: unpadded value ↔ HasTrailingGap value) ∧
    (unpadded (unpadded value) = unpadded value ↔ ¬ HasTrailingGap value) ∧
    isPadded (unpadded (unpadded value)) = false := by
  have unpads := unpads_unpadded value
  refine ⟨⟨unpads.sublist, unpads.filter_eq⟩, unpadded_eq_self_iff, unpads.not_opening,
    unpads.not_comma, unpads.closing_iff, ?_, ?_⟩
  · rw [unpadded_eq_self_iff, isPadded_unpadded_eq_false_iff]
  · rw [isPadded_unpadded_eq_false_iff]
    exact fun gap => unpads.not_comma gap.comma

/-- Of two spaces between a comma and a closing parenthesis, one is left by the first pass and none
by the second. -/
theorem unpadded_trailing_gap :
    unpadded "f(a,  )".toList = "f(a, )".toList ∧ [' ', ')'] <:+: "f(a, )".toList ∧
      unpadded "f(a, )".toList = "f(a,)".toList := by
  decide

end Stylesheet.Layout
