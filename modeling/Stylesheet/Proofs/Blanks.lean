import Mathlib.Data.List.Chain
import Mathlib.Data.List.TakeWhile
import Stylesheet.Text.Basic

set_option autoImplicit false

namespace Stylesheet.Text

theorem trimStart_eq_nil_iff (t : Text) : trimStart t = [] ↔ ∀ c ∈ t, isBlank c := by
  simp only [trimStart, List.dropWhile_eq_nil_iff]

theorem trimEnd_eq_nil_iff (t : Text) : trimEnd t = [] ↔ ∀ c ∈ t, isBlank c := by
  simp only [trimEnd, List.reverse_eq_nil_iff, List.dropWhile_eq_nil_iff, List.mem_reverse]

theorem trim_eq_nil_iff (t : Text) : trim t = [] ↔ ∀ c ∈ t, isBlank c := by
  constructor
  · intro empty c member
    by_contra visible
    have rest : ∀ d ∈ trimStart t, isBlank d := (trimEnd_eq_nil_iff _).mp empty
    have whole : t.takeWhile isBlank ++ trimStart t = t := List.takeWhile_append_dropWhile
    rw [← whole, List.mem_append] at member
    rcases member with before | after
    · exact visible (List.mem_takeWhile_imp before)
    · exact visible (rest c after)
  · intro blank
    rw [trim, (trimStart_eq_nil_iff t).mpr blank]
    rfl

theorem trimStart_append_of_blank {w : Text} (blank : ∀ c ∈ w, isBlank c) (t : Text) :
    trimStart (w ++ t) = trimStart t := by
  simp only [trimStart, List.dropWhile_append, (List.dropWhile_eq_nil_iff).mpr blank,
    List.isEmpty_nil, ↓reduceIte]

theorem trimEnd_append_of_blank (t : Text) {w : Text} (blank : ∀ c ∈ w, isBlank c) :
    trimEnd (t ++ w) = trimEnd t := by
  have reversed : ∀ c ∈ w.reverse, isBlank c := fun c member => blank c (List.mem_reverse.mp member)
  have dropped := trimStart_append_of_blank reversed t.reverse
  simp only [trimStart] at dropped
  simp only [trimEnd, List.reverse_append, dropped]

theorem isBlank_space : ∀ c ∈ [' '], isBlank c := List.forall_mem_singleton.mpr rfl

theorem isBlank_break : ∀ c ∈ ['\n'], isBlank c := List.forall_mem_singleton.mpr rfl

theorem trim_append_of_blank_left {w : Text} (blank : ∀ c ∈ w, isBlank c) (t : Text) :
    trim (w ++ t) = trim t := by
  rw [trim, trimStart_append_of_blank blank, trim]

theorem trim_append_of_blank_right (t : Text) {w : Text} (blank : ∀ c ∈ w, isBlank c) :
    trim (t ++ w) = trim t := by
  by_cases empty : trimStart t = []
  · have blankStart := (trimStart_eq_nil_iff t).mp empty
    rw [trim_append_of_blank_left blankStart, (trim_eq_nil_iff w).mpr blank,
      (trim_eq_nil_iff t).mpr blankStart]
  · have kept : trimStart (t ++ w) = trimStart t ++ w := by
      simp only [trimStart] at empty ⊢
      simp only [List.dropWhile_append, List.isEmpty_iff, empty, ↓reduceIte]
    rw [trim, kept, trimEnd_append_of_blank _ blank, trim]

theorem isBlank_head_trimStart {t : Text} {c : Char} (first : c ∈ (trimStart t).head?) :
    isBlank c = false := by
  have stop := List.head?_dropWhile_not isBlank t
  rw [trimStart] at first
  rw [show (t.dropWhile isBlank).head? = some c from first] at stop
  exact stop

theorem isBlank_last_trimEnd {t : Text} {c : Char} (last : c ∈ (trimEnd t).getLast?) :
    isBlank c = false := by
  rw [trimEnd, List.getLast?_reverse] at last
  exact isBlank_head_trimStart last

theorem trimEnd_prefix (t : Text) : trimEnd t <+: t := by
  have dropped := List.dropWhile_suffix (l := t.reverse) isBlank
  have back := List.reverse_prefix.mpr dropped
  rwa [List.reverse_reverse] at back

theorem isBlank_head_trim {t : Text} {c : Char} (first : c ∈ (trim t).head?) :
    isBlank c = false := by
  obtain ⟨more, whole⟩ := trimEnd_prefix (trimStart t)
  apply isBlank_head_trimStart (t := t)
  rw [← whole, List.head?_append, show (trimEnd (trimStart t)).head? = some c from first]
  rfl

theorem isBlank_last_trim {t : Text} {c : Char} (last : c ∈ (trim t).getLast?) :
    isBlank c = false := isBlank_last_trimEnd last

theorem trimStart_eq_self {t : Text} (first : ∀ c ∈ t.head?, isBlank c = false) :
    trimStart t = t := by
  cases t with
  | nil => rfl
  | cons c t => simp [trimStart, first c rfl]

/-- A text that neither starts nor ends with a blank is trimmed. -/
theorem trim_eq_self {t : Text} (first : ∀ c ∈ t.head?, isBlank c = false)
    (last : ∀ c ∈ t.getLast?, isBlank c = false) : trim t = t := by
  have reversed : t.reverse.dropWhile isBlank = t.reverse := by
    apply trimStart_eq_self
    rwa [List.head?_reverse]
  rw [trim, trimStart_eq_self first, trimEnd, reversed, List.reverse_reverse]

theorem exists_append_trim (t : Text) :
    ∃ w v, t = w ++ trim t ++ v ∧ (∀ c ∈ w, isBlank c) ∧ ∀ c ∈ v, isBlank c := by
  refine ⟨t.takeWhile isBlank, ((trimStart t).reverse.takeWhile isBlank).reverse, ?_, ?_, ?_⟩
  · have back : trim t ++ ((trimStart t).reverse.takeWhile isBlank).reverse = trimStart t := by
      rw [trim, trimEnd, ← List.reverse_append, List.takeWhile_append_dropWhile,
        List.reverse_reverse]
    rw [List.append_assoc, back]
    exact List.takeWhile_append_dropWhile.symm
  · exact fun c member => List.mem_takeWhile_imp member
  · exact fun c member => List.mem_takeWhile_imp (List.mem_reverse.mp member)

theorem words_cons_blank {c : Char} (blank : isBlank c) (t : Text) : words (c :: t) = words t := by
  cases t with
  | nil => simp [words, blank]
  | cons d t => rw [words, if_pos blank]

theorem words_cons_last {c : Char} (visible : isBlank c = false) {t : Text}
    (ends : ∀ d ∈ t.head?, isBlank d) : words (c :: t) = [c] :: words t := by
  cases t with
  | nil => simp [words, visible]
  | cons d t => simp [words, visible, ends d rfl]

theorem words_cons_cons {c d : Char} (visible : isBlank c = false) (next : isBlank d = false)
    (t : Text) : words (c :: d :: t) = (words (d :: t)).modifyHead (c :: ·) := by
  rw [words]
  simp [visible, next]

theorem words_ne_nil {c : Char} (visible : isBlank c = false) (t : Text) : words (c :: t) ≠ [] := by
  induction t generalizing c with
  | nil => simp [words, visible]
  | cons d t ih =>
    cases next : isBlank d with
    | true => simp [words, visible, next]
    | false =>
      rw [words_cons_cons visible next]
      intro nothing
      exact ih next (List.modifyHead_eq_nil_iff.mp nothing)

/-- A blank ends a word. -/
theorem words_append_blank {b : Char} (blank : isBlank b) (t u : Text) :
    words (t ++ b :: u) = words t ++ words u := by
  induction t with
  | nil => exact words_cons_blank blank u
  | cons c t ih =>
    cases first : isBlank c with
    | true => rw [List.cons_append, words_cons_blank first, words_cons_blank first, ih]
    | false =>
      cases t with
      | nil =>
        rw [List.cons_append, List.nil_append, words_cons_last first (by simp [blank]),
          words_cons_blank blank, words_cons_last first (by simp)]
        rfl
      | cons d t =>
        cases next : isBlank d with
        | true =>
          rw [List.cons_append, words_cons_last first (by simp [next]), ih,
            words_cons_last first (by simp [next]), List.cons_append]
        | false =>
          obtain ⟨w, ws, split⟩ := List.exists_cons_of_ne_nil (words_ne_nil next t)
          rw [List.cons_append, List.cons_append, words_cons_cons first next, ← List.cons_append,
            ih, words_cons_cons first next, split]
          rfl

theorem words_append_blanks {w : Text} (blank : ∀ c ∈ w, isBlank c) (t : Text) :
    words (w ++ t) = words t := by
  induction w with
  | nil => rfl
  | cons c w ih =>
    rw [List.cons_append, words_cons_blank (blank c List.mem_cons_self)]
    exact ih fun d member => blank d (List.mem_cons_of_mem c member)

theorem words_append_blanks_right (t : Text) {w : Text} (blank : ∀ c ∈ w, isBlank c) :
    words (t ++ w) = words t := by
  cases w with
  | nil => rw [List.append_nil]
  | cons c w =>
    have none : words w = [] := by
      have all := words_append_blanks (fun d member => blank d (List.mem_cons_of_mem c member)) []
      rwa [List.append_nil] at all
    rw [words_append_blank (blank c List.mem_cons_self), none, List.append_nil]

/-- The blanks around a text do not count. -/
theorem collapse_append_blanks {w : Text} (left : ∀ c ∈ w, isBlank c) (t : Text) {v : Text}
    (right : ∀ c ∈ v, isBlank c) : collapse (w ++ t ++ v) = collapse t := by
  rw [collapse, words_append_blanks_right _ right, words_append_blanks left, collapse]

theorem collapse_trim (t : Text) : collapse (trim t) = collapse t := by
  obtain ⟨w, v, split, left, right⟩ := exists_append_trim t
  rw [← collapse_append_blanks left (trim t) right, ← split]

/-- Words are visible parts of a text. -/
theorem mem_words {t w : Text} (member : w ∈ words t) :
    w ≠ [] ∧ ∀ c ∈ w, isBlank c = false ∧ c ∈ t := by
  induction t generalizing w with
  | nil => cases member
  | cons c t ih =>
    have later : ∀ v ∈ words t, v ≠ [] ∧ ∀ d ∈ v, isBlank d = false ∧ d ∈ c :: t := fun v inside =>
      ⟨(ih inside).1, fun d listed =>
        ⟨((ih inside).2 d listed).1, List.mem_cons_of_mem c ((ih inside).2 d listed).2⟩⟩
    cases first : isBlank c with
    | true => exact later w (words_cons_blank first t ▸ member)
    | false =>
      by_cases ends : ∀ d ∈ t.head?, isBlank d
      · rw [words_cons_last first ends] at member
        rcases List.mem_cons.mp member with rfl | older
        · simp [first]
        · exact later w older
      · obtain ⟨d, t, rfl⟩ : ∃ d u, t = d :: u := by
          cases t with
          | nil => exact absurd (by simp) ends
          | cons d u => exact ⟨d, u, rfl⟩
        have next : isBlank d = false := by simpa using ends
        obtain ⟨v, vs, split⟩ := List.exists_cons_of_ne_nil (words_ne_nil next t)
        rw [words_cons_cons first next, split, List.modifyHead_cons] at member
        rw [split] at later
        rcases List.mem_cons.mp member with rfl | older
        · refine ⟨by simp, fun e listed => ?_⟩
          rcases List.mem_cons.mp listed with rfl | inside
          · exact ⟨first, List.mem_cons_self⟩
          · exact (later v List.mem_cons_self).2 e inside
        · exact later w (List.mem_cons_of_mem v older)

/-- No two blanks next to each other. -/
def Sparse (t : Text) : Prop := t.IsChain fun c d => ¬ (isBlank c ∧ isBlank d)

/-- A text with one space between two words and no blanks at its ends. -/
structure Tidy (t : Text) : Prop where
  spaces : ∀ c ∈ t, isBlank c → c = ' '
  sparse : t.Sparse
  head : ∀ c ∈ t.head?, isBlank c = false
  last : ∀ c ∈ t.getLast?, isBlank c = false

theorem intercalate_head_cons (separator : Text) (c : Char) (w : Text) (ws : List Text) :
    separator.intercalate ((c :: w) :: ws) = c :: separator.intercalate (w :: ws) := by
  cases ws with
  | nil => simp
  | cons v vs => simp [List.intercalate_cons_cons]

theorem intercalate_cons (separator part : Text) (parts : List Text) :
    separator.intercalate (part :: parts) = part ++ parts.flatMap (separator ++ ·) := by
  induction parts generalizing part with
  | nil => simp
  | cons next parts ih =>
    rw [List.intercalate_cons_cons, ih next, List.flatMap_cons, List.append_assoc,
      List.append_assoc]

theorem mem_intercalate {separator : Text} {parts : List Text} {c : Char}
    (member : c ∈ separator.intercalate parts) : c ∈ separator ∨ ∃ part ∈ parts, c ∈ part := by
  induction parts with
  | nil => cases member
  | cons part parts ih =>
    cases parts with
    | nil => exact .inr ⟨part, List.mem_cons_self, by simpa using member⟩
    | cons next parts =>
      rw [List.intercalate_cons_cons] at member
      rcases List.mem_append.mp member with before | after
      · rcases List.mem_append.mp before with inPart | inSeparator
        · exact .inr ⟨part, List.mem_cons_self, inPart⟩
        · exact .inl inSeparator
      · rcases ih after with inSeparator | ⟨other, listed, inside⟩
        · exact .inl inSeparator
        · exact .inr ⟨other, List.mem_cons_of_mem part listed, inside⟩

theorem intercalate_ne_nil (separator : Text) {part : Text} (parts : List Text)
    (nonempty : part ≠ []) :
    separator.intercalate (part :: parts) ≠ [] := by
  obtain ⟨c, part, rfl⟩ := List.exists_cons_of_ne_nil nonempty
  simp

/-- Joined texts start as the first of them. -/
theorem head?_intercalate {separator part : Text} {parts : List Text} (nonempty : part ≠ []) :
    (separator.intercalate (part :: parts)).head? = part.head? := by
  obtain ⟨c, part, rfl⟩ := List.exists_cons_of_ne_nil nonempty
  simp

/-- Joined texts end as one of them. -/
theorem mem_getLast?_intercalate {separator : Text} {parts : List Text}
    (nonempty : ∀ part ∈ parts, part ≠ [])
    {c : Char} (last : c ∈ (separator.intercalate parts).getLast?) :
    ∃ part ∈ parts, c ∈ part.getLast? := by
  induction parts with
  | nil => cases last
  | cons part parts ih =>
    cases parts with
    | nil => exact ⟨part, List.mem_cons_self, by simpa using last⟩
    | cons next parts =>
      have more := intercalate_ne_nil separator parts (nonempty next (by simp))
      rw [List.intercalate_cons_cons, List.getLast?_append_of_ne_nil _ more] at last
      obtain ⟨other, listed, final⟩ :=
        ih (fun q member => nonempty q (List.mem_cons_of_mem part member)) last
      exact ⟨other, List.mem_cons_of_mem part listed, final⟩

/-- Words and blanks after them. -/
theorem collapse_append_blank {b : Char} (blank : isBlank b) {t u : Text} (left : words t ≠ [])
    (right : words u ≠ []) : collapse (t ++ b :: u) = collapse t ++ ' ' :: collapse u := by
  rw [collapse, words_append_blank blank, collapse, collapse]
  generalize words t = ws at left
  generalize words u = vs at right
  induction ws with
  | nil => exact absurd rfl left
  | cons w ws ih =>
    cases ws with
    | nil =>
      obtain ⟨v, vs, rfl⟩ := List.exists_cons_of_ne_nil right
      simp [List.intercalate_cons_cons]
    | cons w' ws =>
      have later := ih (by simp)
      simp only [List.cons_append, List.intercalate_cons_cons] at later ⊢
      rw [later]
      simp

namespace Tidy

theorem of_append {t u : Text} (tidy : Tidy (t ++ u)) (visible : ∀ c ∈ u.head?, isBlank c = false) :
    Tidy u := by
  refine ⟨fun c member => tidy.spaces c (List.mem_append_right t member),
    tidy.sparse.right_of_append, visible, ?_⟩
  intro c final
  apply tidy.last c
  rw [List.getLast?_append, final, Option.some_or]
  rfl

theorem of_visible {t : Text} (visible : ∀ c ∈ t, isBlank c = false) : Tidy t := by
  refine ⟨fun c member blank => ?_, ?_, fun c first => visible c (List.mem_of_mem_head? first),
    fun c final => visible c (List.mem_of_mem_getLast? final)⟩
  · simp [visible c member] at blank
  · apply List.Pairwise.isChain
    apply List.pairwise_iff_forall_sublist.mpr
    intro c d both
    simp [visible c (both.subset List.mem_cons_self)]

theorem append {t u : Text} (left : Tidy t) (right : Tidy u) : Tidy (t ++ u) := by
  refine ⟨?_, ?_, ?_, ?_⟩
  · intro c member
    rcases List.mem_append.mp member with inLeft | inRight
    · exact left.spaces c inLeft
    · exact right.spaces c inRight
  · refine List.isChain_append.mpr ⟨left.sparse, right.sparse, ?_⟩
    intro c final d _
    simp [left.last c final]
  · intro c first
    rw [List.head?_append] at first
    rcases Option.or_eq_some_iff.mp first with inLeft | ⟨_, inRight⟩
    · exact left.head c inLeft
    · exact right.head c inRight
  · intro c final
    rw [List.getLast?_append] at final
    rcases Option.or_eq_some_iff.mp final with inRight | ⟨_, inLeft⟩
    · exact right.last c inRight
    · exact left.last c inLeft

/-- Two texts with a space between them. -/
theorem append_space {t u : Text} (left : Tidy t) (right : Tidy u) (leftVisible : t ≠ [])
    (rightVisible : u ≠ []) : Tidy (t ++ ' ' :: u) := by
  refine ⟨?_, ?_, ?_, ?_⟩
  · intro c member blank
    rcases List.mem_append.mp member with inLeft | inRight
    · exact left.spaces c inLeft blank
    · rcases List.mem_cons.mp inRight with rfl | inRight
      · rfl
      · exact right.spaces c inRight blank
  · refine List.isChain_append.mpr ⟨left.sparse, List.isChain_cons.mpr ⟨?_, right.sparse⟩, ?_⟩
    · intro c first
      simp [right.head c first]
    · intro c final d _
      simp [left.last c final]
  · intro c first
    rw [List.head?_append_of_ne_nil _ leftVisible] at first
    exact left.head c first
  · intro c final
    rw [List.getLast?_append_of_ne_nil _ (by simp), List.getLast?_cons_of_ne_nil rightVisible]
      at final
    exact right.last c final

end Tidy

theorem collapse_eq_self : ∀ {t : Text}, Tidy t → collapse t = t
  | [], _ => rfl
  | [c], tidy => by
    rw [collapse, words_cons_last (tidy.head c rfl) (by simp)]
    rfl
  | c :: d :: t, tidy => by
    have first := tidy.head c rfl
    cases next : isBlank d with
    | false =>
      have rest := collapse_eq_self (tidy.of_append (t := [c]) (by simp [next]))
      obtain ⟨w, ws, split⟩ := List.exists_cons_of_ne_nil (words_ne_nil next t)
      rw [collapse, split] at rest
      rw [collapse, words_cons_cons first next, split, List.modifyHead_cons, intercalate_head_cons,
        rest]
    | true =>
      cases tidy.spaces d (by simp) next
      cases t with
      | nil => cases tidy.last ' ' rfl
      | cons e t =>
        have visible : isBlank e = false := by
          have apart := (List.isChain_cons_cons.mp tidy.sparse.tail).1
          simpa [next] using apart
        have tail : Tidy (e :: t) := tidy.of_append (t := [c, ' ']) (by simp [visible])
        have joined := collapse_append_blank (b := ' ') (t := [c]) (u := e :: t) rfl
          (words_ne_nil first []) (words_ne_nil visible t)
        have single : collapse [c] = [c] := by
          rw [collapse, words_cons_last first (by simp)]
          rfl
        rw [collapse_eq_self tail, single] at joined
        exact joined

/-- Words with one space between neighbours. -/
theorem Tidy.intercalate {ws : List Text}
    (visible : ∀ w ∈ ws, w ≠ [] ∧ ∀ c ∈ w, isBlank c = false) :
    Tidy ([' '].intercalate ws) := by
  induction ws with
  | nil => exact of_visible (by simp)
  | cons w ws ih =>
    obtain ⟨nonempty, first⟩ := visible w List.mem_cons_self
    have later := ih fun v member => visible v (List.mem_cons_of_mem w member)
    cases ws with
    | nil =>
      rw [List.intercalate_singleton]
      exact of_visible first
    | cons v vs =>
      rw [List.intercalate_cons_cons, List.append_assoc, List.singleton_append]
      refine (of_visible first).append_space later nonempty ?_
      obtain ⟨c, v, rfl⟩ := List.exists_cons_of_ne_nil (visible v (by simp)).1
      simp

theorem mem_collapse {t : Text} {c : Char} (member : c ∈ collapse t) : c = ' ' ∨ c ∈ t := by
  rcases mem_intercalate member with separator | ⟨w, listed, inside⟩
  · exact .inl (List.mem_singleton.mp separator)
  · exact .inr ((mem_words listed).2 c inside).2

theorem tidy_collapse (t : Text) : Tidy (collapse t) := by
  apply Tidy.intercalate
  intro w member
  exact ⟨(mem_words member).1, fun c inside => ((mem_words member).2 c inside).1⟩

end Stylesheet.Text
