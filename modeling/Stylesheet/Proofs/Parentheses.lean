import Stylesheet.Proofs.CallSyntax

set_option autoImplicit false

namespace Stylesheet

namespace Call

open Text Nesting

/-- How many more parentheses a text opens than it closes. -/
def height (t : Text) : Int := t.count '(' - t.count ')'

/-- Whether a text starts with a parenthesis and ends with one, and the first is not closed before
the end, all parentheses counted. -/
def isEnclosed (t : Text) : Bool :=
  t.head? = some '(' && t.tail.getLast? = some ')' &&
    decide (∀ k < t.length, 0 < k → 0 < height (t.take k))

def inQuotes (n : Nesting) : Bool := n.quote.isSome

/-- The characters of a text that are not hidden by what a reader of lists knows before them. -/
def shown (hides : Nesting → Bool) (n : Nesting) : Text → Text
  | [] => []
  | c :: t => if hides n then shown hides (n.next c) t else c :: shown hides (n.next c) t

/-- The height of what is shown of the first characters of a text. -/
def level (hides : Nesting → Bool) (t : Text) (k : Nat) : Int :=
  height (shown hides .top (t.take k))

/-- Where the parenthesis is closed that a text starts with. -/
def partner? (hides : Nesting → Bool) (t : Text) : Option Nat :=
  (List.range t.length).find? fun i => level hides t (i + 1) = 0

/-- Whether a text starts with a parenthesis that is closed by its last character. -/
def isGroup (hides : Nesting → Bool) (t : Text) : Bool :=
  t.head? = some '(' && partner? hides t = some (t.length - 1)

/-- Hidden parentheses are closed where they are hidden. What takes an argument out of its
parentheses counts these as well, and the reader of a list counts none of them. -/
structure HiddenNested (hides : Nesting → Bool) (t : Text) : Prop where
  nested : ∀ k ≤ t.length, 0 ≤ level (!hides ·) t k
  closed : ∀ k ≤ t.length, hides (top.after (t.take k)) = false → level (!hides ·) t k = 0

@[simp] theorem height_nil : height [] = 0 := rfl

theorem height_append (t u : Text) : height (t ++ u) = height t + height u := by
  simp only [height, List.count_append]
  omega

theorem height_cons (c : Char) (t : Text) : height (c :: t) = height [c] + height t :=
  height_append [c] t

theorem height_singleton {c : Char} (other : Quotable c) : height [c] = 0 := by
  simp [height, other.1, other.2]

theorem height_opening : height ['('] = 1 := rfl

theorem height_closing : height [')'] = -1 := rfl

/-- A character changes the height by one at most, and only `)` makes it less. -/
theorem height_singleton_cases (c : Char) :
    height [c] = 1 ∨ height [c] = 0 ∨ height [c] = -1 ∧ c = ')' := by
  by_cases opening : c = '('
  · rw [opening]
    exact .inl rfl
  · by_cases closing : c = ')'
    · rw [closing]
      exact .inr (.inr ⟨rfl, rfl⟩)
    · exact .inr (.inl (height_singleton ⟨opening, closing⟩))

theorem forall_height_take_cons (depth : Int) (c : Char) (t : Text) :
    (∀ k, 0 ≤ depth + height ((c :: t).take k)) ↔
      0 ≤ depth ∧ ∀ k, 0 ≤ depth + height [c] + height (t.take k) := by
  constructor
  · intro each
    refine ⟨by simpa using each 0, fun k => ?_⟩
    have next := each (k + 1)
    rw [List.take_succ_cons, height_cons] at next
    omega
  · rintro ⟨here, later⟩ k
    cases k with
    | zero => simpa using here
    | succ k =>
      rw [List.take_succ_cons, height_cons]
      have next := later k
      omega

/-- A parenthesis is closed early if more are closed than are opened before. -/
theorem closesEarly_eq_false_iff (depth : Nat) (t : Text) :
    closesEarly depth t = false ↔ ∀ k, 0 ≤ depth + height (t.take k) := by
  induction t generalizing depth with
  | nil => simp [closesEarly]
  | cons c t ih =>
    rw [forall_height_take_cons]
    by_cases opening : c = '('
    · subst opening
      rw [closesEarly_opening, ih, height_opening]
      simp
    · by_cases closing : c = ')'
      · subst closing
        rw [height_closing]
        cases depth with
        | zero =>
          constructor
          · intro never
            cases never
          · intro each
            have next := each.2 0
            simp at next
        | succ depth =>
          have lower : ((depth + 1 : Nat) : Int) + -1 = depth := by omega
          rw [closesEarly_closing, ih, lower]
          exact (and_iff_right (by omega)).symm
      · rw [closesEarly_cons ⟨opening, closing⟩, ih, height_singleton ⟨opening, closing⟩]
        simp

theorem isEnclosed_iff (t : Text) : isEnclosed t ↔ t.head? = some '(' ∧
    t.tail.getLast? = some ')' ∧ ∀ k < t.length, 0 < k → 0 < height (t.take k) := by
  simp [isEnclosed, and_assoc]

theorem isGroup_iff (hides : Nesting → Bool) (t : Text) : isGroup hides t ↔
    t.head? = some '(' ∧ partner? hides t = some (t.length - 1) := by
  simp [isGroup]

theorem exists_eq_group_iff (t : Text) :
    (∃ inner, t = group inner) ↔ t.head? = some '(' ∧ t.tail.getLast? = some ')' := by
  constructor
  · rintro ⟨inner, rfl⟩
    exact ⟨rfl, List.getLast?_concat⟩
  · rintro ⟨first, last⟩
    cases t with
    | nil => cases first
    | cons c rest =>
      obtain ⟨inner, rfl⟩ := List.getLast?_eq_some_iff.mp last
      cases first
      exact ⟨inner, rfl⟩

/-- In parentheses, the beginning of a text is one higher. -/
theorem height_take_group (inner : Text) {k : Nat} (within : k ≤ inner.length) :
    height ((group inner).take (k + 1)) = 1 + height (inner.take k) := by
  rw [group, List.take_succ_cons, List.take_append_of_le_length within, height_cons,
    height_opening]

theorem isEnclosed_group (inner : Text) :
    isEnclosed (group inner) = !closesEarly 0 inner := by
  have ends : (group inner).head? = some '(' ∧ (group inner).tail.getLast? = some ')' :=
    (exists_eq_group_iff _).mp ⟨inner, rfl⟩
  have size : (group inner).length = inner.length + 2 := by simp [group]
  have same : (∀ k < (group inner).length, 0 < k → 0 < height ((group inner).take k)) ↔
      closesEarly 0 inner = false := by
    rw [closesEarly_eq_false_iff]
    constructor
    · intro each k
      have within : inner.take k = inner.take (min k inner.length) := by
        rw [List.take_eq_take_min]
      have here := each (min k inner.length + 1) (by omega) (by omega)
      rw [height_take_group inner (by omega), ← within] at here
      omega
    · intro each k shorter positive
      obtain ⟨k, rfl⟩ := Nat.exists_eq_succ_of_ne_zero (Nat.ne_of_gt positive)
      rw [height_take_group inner (by omega)]
      have here := each k
      omega
  simp [isEnclosed, ends, same]

theorem isEnclosed_eq_false {t : Text} (other : ∀ inner, t ≠ group inner) :
    isEnclosed t = false := by
  apply Bool.eq_false_iff.mpr
  intro enclosed
  obtain ⟨first, last, -⟩ := (isEnclosed_iff t).mp enclosed
  obtain ⟨inner, same⟩ := (exists_eq_group_iff t).mpr ⟨first, last⟩
  exact other inner same

/-- What is taken off an argument, if anything, is its first and its last character. -/
theorem unwrapped_eq (t : Text) :
    unwrapped t = if isEnclosed t then trim t.tail.dropLast else t := by
  by_cases grouped : ∃ inner, t = group inner
  · obtain ⟨inner, rfl⟩ := grouped
    have inside : (group inner).tail.dropLast = inner := List.dropLast_concat
    rw [unwrapped, between?_group, isEnclosed_group, inside]
    cases early : closesEarly 0 inner <;> simp [early]
  · have other : ∀ inner, t ≠ group inner := fun inner same => grouped ⟨inner, same⟩
    have bare : between? '(' ')' t = none := by
      apply Option.eq_none_iff_forall_ne_some.mpr
      intro inner found
      exact other inner (eq_group_of_between? found)
    rw [unwrapped, bare, isEnclosed_eq_false other]
    rfl

section Levels

variable {hides : Nesting → Bool} {t : Text}

theorem shown_append (n : Nesting) (t u : Text) :
    shown hides n (t ++ u) = shown hides n t ++ shown hides (n.after t) u := by
  induction t generalizing n with
  | nil => rfl
  | cons c t ih =>
    simp only [List.cons_append, shown, ih, after_cons]
    split <;> rfl

/-- A character is shown or hidden, and counts on one side. -/
theorem height_shown (n : Nesting) (t : Text) :
    height (shown hides n t) + height (shown (!hides ·) n t) = height t := by
  induction t generalizing n with
  | nil => rfl
  | cons c t ih =>
    have later := ih (n.next c)
    rw [height_cons c t]
    cases hidden : hides n <;>
      simp only [shown, hidden, Bool.not_true, Bool.not_false, Bool.false_eq_true, ↓reduceIte,
        height_cons c (shown _ _ _)] <;> omega

theorem level_add_level (hides : Nesting → Bool) (t : Text) (k : Nat) :
    level hides t k + level (!hides ·) t k = height (t.take k) :=
  height_shown .top (t.take k)

/-- One more character counts if it is shown. -/
theorem level_succ (hides : Nesting → Bool) {k : Nat} (within : k < t.length) :
    level hides t (k + 1) =
      level hides t k + if hides (top.after (t.take k)) then 0 else height [t[k]] := by
  rw [level, ← List.take_append_getElem within, shown_append, height_append, level]
  cases hidden : hides (top.after (t.take k)) <;> simp [shown, hidden]

/-- A level does not fall below zero without reaching it. -/
theorem level_pos (first : level hides t 1 = 1) {k : Nat} (within : k < t.length)
    (apart : ∀ i ≤ k, level hides t (i + 1) ≠ 0) : 0 < level hides t (k + 1) := by
  induction k with
  | zero =>
    rw [Nat.zero_add, first]
    decide
  | succ k ih =>
    have before := ih (by omega) fun i below => apart i (by omega)
    have here := apart (k + 1) (Nat.le_refl _)
    have step := level_succ hides within
    have change := height_singleton_cases t[k + 1]
    split at step <;> omega

theorem partner?_eq_some_iff {i : Nat} : partner? hides t = some i ↔
    i < t.length ∧ level hides t (i + 1) = 0 ∧ ∀ j < i, level hides t (j + 1) ≠ 0 := by
  rw [partner?, List.find?_range_eq_some]
  simp [and_left_comm]

theorem exists_partner? (nonempty : t ≠ []) (even : level hides t t.length = 0) :
    ∃ i, partner? hides t = some i := by
  apply Option.ne_none_iff_exists'.mp
  intro nowhere
  rw [partner?, List.find?_range_eq_none] at nowhere
  have size := List.length_pos_iff.mpr nonempty
  have last := nowhere (t.length - 1) (by omega)
  rw [Nat.sub_add_cancel size] at last
  simp [even] at last

/-- The first parenthesis is closed by one that is shown. -/
theorem closing_of_partner (first : level hides t 1 = 1) {i : Nat}
    (partner : partner? hides t = some i) :
    0 < i ∧ t[i]? = some ')' ∧ hides (top.after (t.take i)) = false := by
  obtain ⟨within, zero, apart⟩ := partner?_eq_some_iff.mp partner
  cases i with
  | zero =>
    rw [Nat.zero_add, first] at zero
    cases zero
  | succ i =>
    have before := level_pos first (k := i) (by omega) fun j below => apart j (by omega)
    have step := level_succ hides within
    have change := height_singleton_cases t[i + 1]
    split at step
    · omega
    · next visible =>
      refine ⟨Nat.succ_pos i, ?_, by simpa using visible⟩
      rw [List.getElem?_eq_getElem within]
      rcases change with up | same | ⟨-, closing⟩
      · omega
      · omega
      · rw [closing]

/-- Up to the partner of the first parenthesis more are opened than closed, also if the hidden ones
count. -/
theorem height_take_pos (first : level hides t 1 = 1) (hidden : HiddenNested hides t) {i k : Nat}
    (partner : partner? hides t = some i) (below : k < i) : 0 < height (t.take (k + 1)) := by
  obtain ⟨within, -, apart⟩ := partner?_eq_some_iff.mp partner
  have shownPart := level_pos first (k := k) (by omega) fun j before => apart j (by omega)
  have hiddenPart := hidden.nested (k + 1) (by omega)
  have whole := level_add_level hides t (k + 1)
  omega

/-- There all that were opened are closed. -/
theorem height_take_partner (first : level hides t 1 = 1) (hidden : HiddenNested hides t) {i : Nat}
    (partner : partner? hides t = some i) : height (t.take (i + 1)) = 0 := by
  obtain ⟨within, zero, -⟩ := partner?_eq_some_iff.mp partner
  obtain ⟨-, -, visible⟩ := closing_of_partner first partner
  have before := hidden.closed i (by omega) visible
  have step := level_succ (!hides ·) within
  rw [visible, Bool.not_false, if_pos rfl, before] at step
  have whole := level_add_level hides t (i + 1)
  omega

/-- All parentheses count as those do that are shown, if the others are nested where they are
hidden. -/
theorem isEnclosed_eq_isGroup (bare : hides .top = false)
    (even : height (shown hides .top t) = 0) (hidden : HiddenNested hides t) :
    isEnclosed t = isGroup hides t := by
  rw [Bool.eq_iff_iff, isEnclosed_iff, isGroup_iff]
  apply and_congr_right
  intro opening
  obtain ⟨rest, whole⟩ := List.head?_eq_some_iff.mp opening
  have first : level hides t 1 = 1 := by simp [whole, level, shown, bare, height]
  have ends : level hides t t.length = 0 := by rw [level, List.take_length, even]
  obtain ⟨i, partner⟩ := exists_partner? (by simp [whole]) ends
  obtain ⟨within, -, -⟩ := partner?_eq_some_iff.mp partner
  rw [partner, Option.some.injEq]
  constructor
  · rintro ⟨-, inside⟩
    have closed := height_take_partner first hidden partner
    by_contra other
    have still := inside (i + 1) (by omega) (Nat.succ_pos i)
    omega
  · intro last
    obtain ⟨positive, closing, -⟩ := closing_of_partner first partner
    constructor
    · rw [List.getLast?_tail, if_neg (by omega), List.getLast?_eq_getElem?, ← last, closing]
    · intro k shorter some
      obtain ⟨k, rfl⟩ := Nat.exists_eq_succ_of_ne_zero (Nat.ne_of_gt some)
      exact height_take_pos first hidden partner (by omega)

end Levels

/-- Parentheses around an argument are taken off if the first is not closed before the last, all
parentheses counted. Those in strings make no difference if they are nested there: then the two
parentheses go together for the reader of a list. -/
theorem unwrapped_counts (t : Text) :
    unwrapped t = (if isEnclosed t then trim t.tail.dropLast else t) ∧
      (height (shown inQuotes .top t) = 0 → HiddenNested inQuotes t →
        unwrapped t = if isGroup inQuotes t then trim t.tail.dropLast else t) := by
  refine ⟨unwrapped_eq t, fun even hidden => ?_⟩
  rw [unwrapped_eq t, isEnclosed_eq_isGroup rfl even hidden]

/-- Nested parentheses in a string. -/
theorem unwrapped_counts_string :
    isGroup inQuotes "(\"(a)\" + [(b))".toList ∧
      unwrapped "(\"(a)\" + [(b))".toList = "\"(a)\" + [(b)".toList :=
  ⟨by decide, ((unwrapped_counts _).2 (by decide) ⟨by decide, by decide⟩).trans (by decide)⟩

/-- A parenthesis that is only opened in a string, and one that is only closed there. In the first
text two parentheses are taken off that do not go together, in the second two that do are left. -/
theorem unwrapped_string_miscounted :
    ('\\' ∉ "(\"(\") + (b)".toList ∧ (top.after "(\"(\") + (b)".toList).quote = none ∧
      (∀ k ≤ 11, 0 ≤ level inQuotes "(\"(\") + (b)".toList k) ∧
      level inQuotes "(\"(\") + (b)".toList 11 = 0 ∧
      partner? inQuotes "(\"(\") + (b)".toList = some 4 ∧
      unwrapped "(\"(\") + (b)".toList = "\"(\") + (b".toList) ∧
    isGroup inQuotes "(\")\")".toList ∧ unwrapped "(\")\")".toList = "(\")\")".toList := by
  decide

end Call

end Stylesheet
