import Stylesheet.Proofs.Blanks
import Stylesheet.Selector

set_option autoImplicit false

namespace Stylesheet.Text

namespace Nesting

def after (n : Nesting) (t : Text) : Nesting := t.foldl next n

@[simp] theorem after_nil (n : Nesting) : n.after [] = n := rfl

@[simp] theorem after_cons (n : Nesting) (c : Char) (t : Text) :
    n.after (c :: t) = (n.next c).after t := rfl

theorem after_append (n : Nesting) (t u : Text) : n.after (t ++ u) = (n.after t).after u :=
  List.foldl_append

theorem isTop_iff (n : Nesting) : n.isTop = true ↔ n = top := by
  obtain ⟨depth, quote, escaped⟩ := n
  simp [isTop, top, and_assoc]

/-- Outside escapes, and inside no quotes but the two kinds there are. -/
structure Plain (n : Nesting) : Prop where
  unescaped : n.escaped = false
  quoted : ∀ q ∈ n.quote, q = '"' ∨ q = '\''

theorem top_plain : top.Plain := ⟨rfl, by simp [top]⟩

theorem Plain.next {n : Nesting} (plain : n.Plain) {c : Char} (other : c ≠ '\\') :
    (n.next c).Plain := by
  obtain ⟨unescaped, quoted⟩ := plain
  unfold Nesting.next
  simp only [unescaped, Bool.false_eq_true, ↓reduceIte, other]
  split
  · split
    · exact ⟨rfl, by simp⟩
    · exact ⟨unescaped, quoted⟩
  · split
    · next isQuote => exact ⟨rfl, by simpa using isQuote⟩
    · split
      · exact ⟨rfl, quoted⟩
      · split
        · exact ⟨rfl, quoted⟩
        · exact ⟨unescaped, quoted⟩

theorem Plain.after {n : Nesting} (plain : n.Plain) {t : Text} (unescaped : '\\' ∉ t) :
    (n.after t).Plain := by
  induction t generalizing n with
  | nil => exact plain
  | cons c t ih =>
    obtain ⟨other, later⟩ := not_or.mp (mt List.mem_cons.mpr unescaped)
    exact ih (plain.next (Ne.symm other)) later

theorem Plain.next_blank {n : Nesting} (plain : n.Plain) {c : Char} (blank : isBlank c) :
    n.next c = n := by
  have other : ∀ d : Char, isBlank d = false → c ≠ d := by
    rintro d visible rfl
    simp [visible] at blank
  unfold Nesting.next
  simp only [plain.unescaped, Bool.false_eq_true, ↓reduceIte, other '\\' rfl, other '"' rfl,
    other '\'' rfl, other '(' rfl, other '[' rfl, other ')' rfl, other ']' rfl, decide_false,
    Bool.or_self]
  split
  · next q inside =>
    have visible : c ≠ q := by
      rcases plain.quoted q inside with rfl | rfl
      · exact other _ rfl
      · exact other _ rfl
    rw [if_neg visible]
  · rfl

theorem Plain.after_blank {n : Nesting} (plain : n.Plain) {w : Text} (blank : ∀ c ∈ w, isBlank c) :
    n.after w = n := by
  induction w with
  | nil => rfl
  | cons c w ih =>
    rw [after_cons, plain.next_blank (blank c List.mem_cons_self)]
    exact ih fun d member => blank d (List.mem_cons_of_mem c member)

end Nesting

open Nesting

/-- No comma of a text counts, after what has come before. -/
def Uncut (n : Nesting) : Text → Prop
  | [] => True
  | c :: t => ¬ (c = ',' ∧ n.isTop) ∧ Uncut (n.next c) t

theorem uncut_append (n : Nesting) (t u : Text) :
    Uncut n (t ++ u) ↔ Uncut n t ∧ Uncut (n.after t) u := by
  induction t generalizing n with
  | nil => simp [Uncut]
  | cons c t ih => simp [Uncut, ih, and_assoc]

theorem uncut_of_not_mem (n : Nesting) {t : Text} (absent : ',' ∉ t) : Uncut n t := by
  induction t generalizing n with
  | nil => trivial
  | cons c t ih =>
    obtain ⟨other, later⟩ := not_or.mp (mt List.mem_cons.mpr absent)
    exact ⟨fun comma => other comma.1.symm, ih _ later⟩

theorem splitCommasFrom_of_uncut {n : Nesting} {t : Text} (uncut : Uncut n t) :
    splitCommasFrom n t = [t] := by
  induction t generalizing n with
  | nil => rfl
  | cons c t ih =>
    obtain ⟨here, later⟩ := uncut
    have skipped : (decide (c = ',') && n.isTop) = false := by simpa using here
    simp only [splitCommasFrom, skipped, ih later, Bool.false_eq_true, ↓reduceIte,
      List.modifyHead_cons]

/-- A comma that counts divides a text. -/
theorem splitCommasFrom_append {n : Nesting} {t : Text} (uncut : Uncut n t)
    (closed : n.after t = .top)
    (u : Text) : splitCommasFrom n (t ++ ',' :: u) = t :: splitCommas u := by
  induction t generalizing n with
  | nil =>
    cases closed
    rfl
  | cons c t ih =>
    obtain ⟨here, later⟩ := uncut
    have skipped : (decide (c = ',') && n.isTop) = false := by simpa using here
    simp only [List.cons_append, splitCommasFrom, skipped, ih later closed, Bool.false_eq_true,
      ↓reduceIte, List.modifyHead_cons]

/-- Parts between commas that count: no part holds one, and a part before a comma ends outside
everything. -/
def Divided (n : Nesting) : List Text → Prop
  | [] => True
  | [t] => Uncut n t
  | t :: u :: rest => Uncut n t ∧ n.after t = .top ∧ Divided .top (u :: rest)

theorem splitCommasFrom_ne_nil (n : Nesting) (t : Text) : splitCommasFrom n t ≠ [] := by
  induction t generalizing n with
  | nil => simp [splitCommasFrom]
  | cons c t ih =>
    rw [splitCommasFrom]
    split
    · simp
    · simp [List.modifyHead_eq_nil_iff, ih]

theorem divided_splitCommasFrom (n : Nesting) (t : Text) : Divided n (splitCommasFrom n t) := by
  induction t generalizing n with
  | nil => trivial
  | cons c t ih =>
    obtain ⟨first, rest, split⟩ := List.exists_cons_of_ne_nil (splitCommasFrom_ne_nil (n.next c) t)
    have later := ih (n.next c)
    rw [split] at later
    rw [splitCommasFrom, split]
    by_cases counts : c = ',' ∧ n.isTop
    · obtain ⟨rfl, isTop⟩ := counts
      cases (isTop_iff n).mp isTop
      exact ⟨trivial, rfl, later⟩
    · have skipped : (decide (c = ',') && n.isTop) = false := by simpa using counts
      rw [skipped]
      -- The character joins the first part, which was divided from the state after it.
      cases rest with
      | nil => exact ⟨counts, later⟩
      | cons u rest => exact ⟨⟨counts, later.1⟩, later.2⟩

/-- The parts and the commas between them are the whole text. -/
theorem intercalate_splitCommasFrom (n : Nesting) (t : Text) :
    [','].intercalate (splitCommasFrom n t) = t := by
  induction t generalizing n with
  | nil => rfl
  | cons c t ih =>
    obtain ⟨first, rest, split⟩ := List.exists_cons_of_ne_nil (splitCommasFrom_ne_nil (n.next c) t)
    have later := ih (n.next c)
    rw [splitCommasFrom]
    by_cases counts : c = ',' ∧ n.isTop
    · rw [if_pos (by simpa using counts), split, List.intercalate_cons_cons, ← split, later,
        counts.1]
      rfl
    · rw [if_neg (by simpa using counts), split, List.modifyHead_cons, intercalate_head_cons,
        ← split, later]

theorem infix_intercalate {separator part : Text} {parts : List Text} (member : part ∈ parts) :
    part <:+: separator.intercalate parts := by
  induction parts with
  | nil => cases member
  | cons first parts ih =>
    cases parts with
    | nil =>
      cases List.mem_singleton.mp member
      simp
    | cons second parts =>
      rw [List.intercalate_cons_cons]
      rcases List.mem_cons.mp member with rfl | later
      · rw [List.append_assoc]
        exact (List.prefix_append _ _).isInfix
      · exact (ih later).trans (List.suffix_append _ _).isInfix

theorem splitCommasFrom_append_of_uncut {n : Nesting} {t : Text} (uncut : Uncut n t) (u : Text) :
    splitCommasFrom n (t ++ u) = (splitCommasFrom (n.after t) u).modifyHead (t ++ ·) := by
  induction t generalizing n with
  | nil => exact (congrFun List.modifyHead_id _).symm
  | cons c t ih =>
    obtain ⟨here, later⟩ := uncut
    have skipped : (decide (c = ',') && n.isTop) = false := by simpa using here
    simp only [List.cons_append, splitCommasFrom, skipped, Bool.false_eq_true, ↓reduceIte, ih later,
      List.modifyHead_modifyHead, after_cons]
    rfl

theorem after_trim {t : Text} (unescaped : '\\' ∉ t) : top.after (trim t) = top.after t := by
  obtain ⟨w, v, split, blankLeft, blankRight⟩ := exists_append_trim t
  have inner : '\\' ∉ trim t := fun member => unescaped (by rw [split]; simp [member])
  have whole : top.after (w ++ trim t ++ v) = top.after (trim t) := by
    rw [after_append, after_append, top_plain.after_blank blankLeft,
      (top_plain.after inner).after_blank blankRight]
  rw [← whole, ← split]

theorem uncut_trim {t : Text} (uncut : Uncut .top t) : Uncut .top (trim t) := by
  obtain ⟨w, v, split, blankLeft, _⟩ := exists_append_trim t
  rw [split, uncut_append, uncut_append, top_plain.after_blank blankLeft] at uncut
  exact uncut.1.2

end Stylesheet.Text

namespace Stylesheet.Selector

open Text Nesting

theorem uncut_of_divided {parts : List Text} (divided : Divided .top parts) :
    ∀ part ∈ parts, Uncut .top part := by
  induction parts with
  | nil => simp
  | cons part parts ih =>
    cases parts with
    | nil => exact List.forall_mem_singleton.mpr divided
    | cons next parts => exact List.forall_mem_cons.mpr ⟨divided.1, ih divided.2.2⟩

/-- Parts without the blanks around them, if anything is left. -/
theorem divided_trim {parts : List Text} (unescaped : ∀ part ∈ parts, '\\' ∉ part)
    (divided : Divided .top parts) : Divided .top ((parts.map trim).filter (!·.isEmpty)) := by
  induction parts with
  | nil => trivial
  | cons part parts ih =>
    have uncut : Uncut .top part := by
      cases parts with
      | nil => exact divided
      | cons next parts => exact divided.1
    have later : Divided .top ((parts.map trim).filter (!·.isEmpty)) := by
      cases parts with
      | nil => trivial
      | cons next parts =>
        exact ih (fun p member => unescaped p (List.mem_cons_of_mem part member)) divided.2.2
    rw [List.map_cons]
    by_cases empty : trim part = []
    · simpa [empty] using later
    · rw [List.filter_cons_of_pos (by simpa using empty)]
      cases kept : (parts.map trim).filter (!·.isEmpty) with
      | nil => exact uncut_trim uncut
      | cons next more =>
        rw [kept] at later
        cases parts with
        | nil => cases kept
        | cons q parts =>
          refine ⟨uncut_trim uncut, ?_, later⟩
          rw [after_trim (unescaped part List.mem_cons_self)]
          exact divided.2.1

/-- Branches that can be joined and divided again. -/
structure Separate (bs : List Text) : Prop where
  divided : Divided .top bs
  visible : ∀ b ∈ bs, b ≠ []
  trimmed : ∀ b ∈ bs, trim b = b

theorem separate_of_forall {bs : List Text} (uncut : ∀ b ∈ bs, Uncut .top b)
    (closed : ∀ b ∈ bs, top.after b = top) (visible : ∀ b ∈ bs, b ≠ [])
    (trimmed : ∀ b ∈ bs, trim b = b) : Separate bs := by
  refine ⟨?_, visible, trimmed⟩
  clear visible trimmed
  induction bs with
  | nil => trivial
  | cons b bs ih =>
    obtain ⟨first, later⟩ := List.forall_mem_cons.mp uncut
    obtain ⟨firstClosed, laterClosed⟩ := List.forall_mem_cons.mp closed
    cases bs with
    | nil => exact first
    | cons next bs => exact ⟨first, firstClosed, ih later laterClosed⟩

theorem infix_of_mem_branches {b selector : Text} (member : b ∈ branches selector) :
    b <:+: selector := by
  obtain ⟨part, inParts, rfl⟩ := List.mem_map.mp (List.mem_filter.mp member).1
  have inside : part <:+: selector := by
    have whole : part <:+: [','].intercalate (splitCommas selector) := infix_intercalate inParts
    rwa [splitCommas, intercalate_splitCommasFrom] at whole
  obtain ⟨w, v, split, _, _⟩ := exists_append_trim part
  exact List.IsInfix.trans ⟨w, v, split.symm⟩ inside

/-- The branches of a tidy selector are tidy. -/
theorem tidy_of_mem_branches {b selector : Text} (tidy : Tidy selector)
    (member : b ∈ branches selector) :
    Tidy b := by
  have inside := infix_of_mem_branches member
  obtain ⟨part, _, rfl⟩ := List.mem_map.mp (List.mem_filter.mp member).1
  exact ⟨fun c inBranch => tidy.spaces c (inside.subset inBranch), tidy.sparse.infix inside,
    fun c first => isBlank_head_trim first, fun c last => isBlank_last_trim last⟩

/-- The branches of a selector without escapes are separate. -/
theorem separate_branches {selector : Text} (unescaped : '\\' ∉ selector) :
    Separate (branches selector) := by
  refine ⟨divided_trim ?_ (divided_splitCommasFrom .top selector), ?_, ?_⟩
  · intro part member escape
    have inside : part <:+: selector := by
      rw [← intercalate_splitCommasFrom .top selector]
      exact infix_intercalate member
    exact unescaped (inside.subset escape)
  · intro b member
    simpa using (List.mem_filter.mp member).2
  · intro b member
    obtain ⟨part, _, rfl⟩ := List.mem_map.mp (List.mem_filter.mp member).1
    exact trim_eq_self (fun c first => isBlank_head_trim first)
      (fun c last => isBlank_last_trim last)

theorem branches_append_blank {w : Text} (blank : ∀ c ∈ w, isBlank c) (t : Text) :
    branches (w ++ t) = branches t := by
  have uncut : Uncut .top w := uncut_of_not_mem _ fun comma => by cases blank ',' comma
  obtain ⟨first, rest, split⟩ := List.exists_cons_of_ne_nil (splitCommasFrom_ne_nil .top t)
  rw [branches, branches, splitCommas, splitCommasFrom_append_of_uncut uncut,
    top_plain.after_blank blank, splitCommas, split, List.modifyHead_cons, List.map_cons,
    List.map_cons,
    trim_append_of_blank_left blank]

theorem branches_of_uncut {b : Text} (uncut : Uncut .top b) (visible : b ≠ [])
    (trimmed : trim b = b) :
    branches b = [b] := by
  rw [branches, splitCommas, splitCommasFrom_of_uncut uncut, List.map_singleton, trimmed,
    List.filter_cons, if_pos (by simpa using visible), List.filter_nil]

theorem branches_append_comma {b : Text} (uncut : Uncut .top b) (closed : top.after b = top)
    (visible : b ≠ []) (trimmed : trim b = b) (t : Text) :
    branches (b ++ ',' :: t) = b :: branches t := by
  rw [branches, splitCommas, splitCommasFrom_append uncut closed, List.map_cons, trimmed,
    List.filter_cons, if_pos (by simpa using visible)]
  rfl

/-- Branches that are written with commas and blanks between them are found again. -/
theorem branches_intercalate {w : Text} (blank : ∀ c ∈ w, isBlank c) {bs : List Text}
    (separate : Separate bs) : branches ((',' :: w).intercalate bs) = bs := by
  obtain ⟨divided, visible, trimmed⟩ := separate
  induction bs with
  | nil => rfl
  | cons b bs ih =>
    have own := visible b List.mem_cons_self
    have clean := trimmed b List.mem_cons_self
    cases bs with
    | nil =>
      rw [List.intercalate_singleton]
      exact branches_of_uncut divided own clean
    | cons next bs =>
      have later := ih divided.2.2 (fun c member => visible c (List.mem_cons_of_mem b member))
        (fun c member => trimmed c (List.mem_cons_of_mem b member))
      rw [List.intercalate_cons_cons, List.append_assoc, List.cons_append,
        branches_append_comma divided.1 divided.2.1 own clean, branches_append_blank blank, later]

end Stylesheet.Selector
