import Mathlib.Data.List.Infix
import Stylesheet.Image
import Stylesheet.Layout
import Stylesheet.Proofs.Blanks
import Stylesheet.Proofs.Compaction

set_option autoImplicit false

namespace Stylesheet.Layout

/-- Leaves out the spaces next to parentheses, where there is never more than one. -/
def unpadOnce : Text → Text
  | '(' :: ' ' :: t => '(' :: unpadOnce t
  | ' ' :: ')' :: t => ')' :: unpadOnce t
  | c :: t => c :: unpadOnce t
  | [] => []

/-- A character that is not next to padding is kept. -/
theorem unpadOnce_cons {c : Char} {t : Text} (noOpening : c = '(' → t.head? ≠ some ' ')
    (noClosing : c = ' ' → t.head? ≠ some ')') : unpadOnce (c :: t) = c :: unpadOnce t := by
  apply unpadOnce.eq_3
  · rintro u rfl rfl
    exact noOpening rfl rfl
  · rintro u rfl rfl
    exact noClosing rfl rfl

theorem head_ne_space {c : Char} {t : Text} (sparse : Text.Sparse (c :: t))
    (blank : Text.isBlank c) :
    t.head? ≠ some ' ' := by
  intro first
  exact (List.isChain_cons.mp sparse).1 ' ' first ⟨blank, rfl⟩

theorem countWhile_space {t : Text} (stop : t.head? ≠ some ' ') :
    Text.countWhile (· = ' ') t = 0 := by
  cases t with
  | nil => rfl
  | cons c t =>
    have other : c ≠ ' ' := fun same => stop (by rw [same]; rfl)
    simp [Text.countWhile, other]

/-- Padding is at most one space wide where no two spaces are next to each other. -/
theorem unpadded_eq_unpadOnce {t : Text} (sparse : t.Sparse) : unpadded t = unpadOnce t := by
  fun_induction unpadOnce t with
  | case1 t ih =>
    have stop := head_ne_space sparse.tail rfl
    have found : paddingLength (['(', ' '] ++ t) = ['(', ' '].length := by
      simp [paddingLength, countWhile_space stop]
    have replaced := Text.replace_append (f := unpad) (by simp) found
    have later : Text.replace paddingLength unpad t = unpadOnce t := ih sparse.tail.tail
    rw [later] at replaced
    exact replaced
  | case2 t ih =>
    have found : paddingLength ([' ', ')'] ++ t) = [' ', ')'].length := by
      have none : Text.countWhile (· = ' ') (')' :: t) = 0 := countWhile_space (by simp)
      simp [paddingLength, none]
    have replaced := Text.replace_append (f := unpad) (by simp) found
    have later : Text.replace paddingLength unpad t = unpadOnce t := ih sparse.tail.tail
    rw [later] at replaced
    exact replaced
  | case3 c t noOpening noClosing ih =>
    have none : paddingLength (c :: t) = 0 := by
      unfold paddingLength
      split
      · next u whole =>
        obtain ⟨rfl, rfl⟩ := List.cons.inj whole
        exact absurd rfl (noOpening u rfl)
      · -- After a comma the first space stays, and there is no second one.
        next u whole =>
        obtain ⟨rfl, rfl⟩ := List.cons.inj whole
        exact absurd rfl (head_ne_space sparse.tail rfl)
      · next u whole =>
        obtain ⟨rfl, rfl⟩ := List.cons.inj whole
        simp only [countWhile_space (head_ne_space sparse rfl), List.drop_zero]
        rw [if_neg]
        intro first
        cases t with
        | nil => cases first
        | cons d t =>
          cases first
          exact noClosing t rfl rfl
      · rfl
    have later : Text.replace paddingLength unpad t = unpadOnce t := ih sparse.tail
    rw [unpadded, Text.replace_cons none, later]
  | case4 => rfl

theorem mem_unpadOnce {t : Text} {c : Char} (member : c ∈ unpadOnce t) : c ∈ t := by
  fun_induction unpadOnce t with
  | case1 t ih =>
    rcases List.mem_cons.mp member with rfl | later
    · exact List.mem_cons_self
    · simp [ih later]
  | case2 t ih =>
    rcases List.mem_cons.mp member with rfl | later
    · simp
    · simp [ih later]
  | case3 d t _ _ ih =>
    rcases List.mem_cons.mp member with rfl | later
    · exact List.mem_cons_self
    · exact List.mem_cons_of_mem d (ih later)
  | case4 => cases member

/-- The first character stays, unless it is a space. -/
theorem head?_unpadOnce {t : Text} (visible : t.head? ≠ some ' ') :
    (unpadOnce t).head? = t.head? := by
  fun_cases unpadOnce t with
  | case1 t => rfl
  | case2 t => exact absurd rfl visible
  | case3 c t => rfl
  | case4 => rfl

theorem unpadOnce_ne_nil {t : Text} (nonempty : t ≠ []) : unpadOnce t ≠ [] := by
  fun_cases unpadOnce t with
  | case1 t => simp
  | case2 t => simp
  | case3 c t => simp
  | case4 => exact absurd rfl nonempty

/-- The last character stays, unless it is a space. -/
theorem getLast?_unpadOnce {t : Text} (visible : t.getLast? ≠ some ' ') :
    (unpadOnce t).getLast? = t.getLast? := by
  fun_induction unpadOnce t with
  | case1 t ih =>
    have more : t ≠ [] := by
      rintro rfl
      exact visible rfl
    have inner : ('(' :: ' ' :: t).getLast? = t.getLast? := by
      rw [List.getLast?_cons_of_ne_nil (by simp), List.getLast?_cons_of_ne_nil more]
    rw [inner] at visible ⊢
    rw [List.getLast?_cons_of_ne_nil (unpadOnce_ne_nil more), ih visible]
  | case2 t ih =>
    by_cases more : t = []
    · subst more
      rfl
    · have inner : (' ' :: ')' :: t).getLast? = t.getLast? := by
        rw [List.getLast?_cons_of_ne_nil (by simp), List.getLast?_cons_of_ne_nil more]
      rw [inner] at visible ⊢
      rw [List.getLast?_cons_of_ne_nil (unpadOnce_ne_nil more), ih visible]
  | case3 c t _ _ ih =>
    by_cases more : t = []
    · subst more
      rfl
    · rw [List.getLast?_cons_of_ne_nil more] at visible ⊢
      rw [List.getLast?_cons_of_ne_nil (unpadOnce_ne_nil more), ih visible]
  | case4 => rfl

theorem sparse_unpadOnce {t : Text} (sparse : t.Sparse) : (unpadOnce t).Sparse := by
  fun_induction unpadOnce t with
  | case1 t ih =>
    refine List.isChain_cons.mpr ⟨?_, ih sparse.tail.tail⟩
    rintro d _ ⟨blank, _⟩
    cases blank
  | case2 t ih =>
    refine List.isChain_cons.mpr ⟨?_, ih sparse.tail.tail⟩
    rintro d _ ⟨blank, _⟩
    cases blank
  | case3 c t _ _ ih =>
    refine List.isChain_cons.mpr ⟨?_, ih sparse.tail⟩
    rintro d first ⟨blank, later⟩
    rw [head?_unpadOnce (head_ne_space sparse blank)] at first
    exact (List.isChain_cons.mp sparse).1 d first ⟨blank, later⟩
  | case4 => exact List.isChain_nil

theorem tidy_unpadOnce {t : Text} (tidy : t.Tidy) : (unpadOnce t).Tidy := by
  have first : t.head? ≠ some ' ' := fun space => by cases tidy.head ' ' space
  have last : t.getLast? ≠ some ' ' := fun space => by cases tidy.last ' ' space
  refine ⟨fun c member => tidy.spaces c (mem_unpadOnce member),
    sparse_unpadOnce tidy.sparse, ?_, ?_⟩
  · rw [head?_unpadOnce first]
    exact tidy.head
  · rw [getLast?_unpadOnce last]
    exact tidy.last

/-- Leaving out padding leaves none. -/
theorem unpadOnce_unpadOnce {t : Text} (sparse : t.Sparse) :
    unpadOnce (unpadOnce t) = unpadOnce t := by
  fun_induction unpadOnce t with
  | case1 t ih =>
    have stop := head_ne_space sparse.tail rfl
    rw [unpadOnce_cons, ih sparse.tail.tail]
    · intro _
      rwa [head?_unpadOnce stop]
    · intro clash
      cases clash
  | case2 t ih =>
    rw [unpadOnce_cons, ih sparse.tail.tail]
    · intro clash
      cases clash
    · intro clash
      cases clash
  | case3 c t noOpening noClosing ih =>
    rw [unpadOnce_cons, ih sparse.tail]
    · rintro rfl space
      have stop : t.head? ≠ some ' ' := by
        intro first
        obtain ⟨u, rfl⟩ := List.head?_eq_some_iff.mp first
        exact noOpening u rfl rfl
      rw [head?_unpadOnce stop] at space
      exact stop space
    · rintro rfl closing
      rw [head?_unpadOnce (head_ne_space sparse rfl)] at closing
      obtain ⟨u, rfl⟩ := List.head?_eq_some_iff.mp closing
      exact noClosing u rfl rfl
  | case4 => rfl

end Stylesheet.Layout

namespace Stylesheet.Image

/-- Whether a value mentions `url(`, in any letter case. -/
def Mentioned (value : Text) : Prop := ['u', 'r', 'l', '('] <:+: value.map Char.toLower

instance (value : Text) : Decidable (Mentioned value) := inferInstanceAs (Decidable (_ <:+: _))

/-- A value that mentions no address has no reference in it. -/
theorem referenceLength_eq_zero {value u : Text} (unmentioned : ¬ Mentioned value)
    (suffix : u <:+ value) :
    referenceLength u = 0 := by
  unfold referenceLength
  split
  · next a b c t =>
    rw [if_neg]
    intro letters
    simp only [Bool.and_eq_true, decide_eq_true_eq] at letters
    obtain ⟨⟨isU, isR⟩, isL⟩ := letters
    apply unmentioned
    have here : ['u', 'r', 'l', '('] <+: (a :: b :: c :: '(' :: t).map Char.toLower := by
      refine ⟨t.map Char.toLower, ?_⟩
      simp [isU, isR, isL]
    exact here.isInfix.trans (suffix.map Char.toLower).isInfix
  · rfl

open Layout

/-- A letter in a value without padding was there before. -/
theorem unpadOnce_eq_cons {t u : Text} {c : Char} (split : unpadOnce t = c :: u)
    (noOpening : c ≠ '(')
    (noClosing : c ≠ ')') : ∃ rest, t = c :: rest ∧ unpadOnce rest = u := by
  revert split
  fun_cases unpadOnce t with
  | case1 t => exact fun split => absurd (List.cons.inj split).1.symm noOpening
  | case2 t => exact fun split => absurd (List.cons.inj split).1.symm noClosing
  | case3 d t =>
    intro split
    obtain ⟨rfl, rfl⟩ := List.cons.inj split
    exact ⟨t, rfl, rfl⟩
  | case4 => exact fun split => by cases split

theorem unpadOnce_eq_opening {t u : Text} (split : unpadOnce t = '(' :: u) :
    ∃ rest, t = '(' :: rest := by
  revert split
  fun_cases unpadOnce t with
  | case1 t => exact fun _ => ⟨' ' :: t, rfl⟩
  | case2 t => exact fun split => by cases split
  | case3 d t =>
    intro split
    rw [(List.cons.inj split).1]
    exact ⟨t, rfl⟩
  | case4 => exact fun split => by cases split

theorem exists_suffix_unpadOnce {t u : Text} (suffix : u <:+ unpadOnce t) :
    ∃ v, v <:+ t ∧ unpadOnce v = u := by
  have step : ∀ {v rest : Text} {c : Char}, u <:+ c :: unpadOnce rest → rest <:+ v →
      unpadOnce v = c :: unpadOnce rest →
        (u <:+ unpadOnce rest → ∃ w, w <:+ rest ∧ unpadOnce w = u) →
      ∃ w, w <:+ v ∧ unpadOnce w = u := by
    intro v rest c suffix inside whole later
    rcases List.suffix_cons_iff.mp suffix with same | shorter
    · exact ⟨v, List.suffix_refl v, whole.trans same.symm⟩
    · obtain ⟨w, inRest, found⟩ := later shorter
      exact ⟨w, inRest.trans inside, found⟩
  fun_induction unpadOnce t with
  | case1 t ih => exact step suffix (List.suffix_append ['(', ' '] t) rfl ih
  | case2 t ih => exact step suffix (List.suffix_append [' ', ')'] t) rfl ih
  | case3 c t noOpening noClosing ih =>
    exact step suffix (List.suffix_cons c t) (unpadOnce.eq_3 c t noOpening noClosing) ih
  | case4 => exact ⟨[], List.suffix_refl [], (List.suffix_nil.mp suffix).symm⟩

theorem toLower_eq_opening {c : Char} (lower : c.toLower = '(') : c = '(' := by
  unfold Char.toLower at lower
  split at lower
  · next upper =>
    have value : c.val + 32 = 40 := congrArg Char.val lower
    have low : 65 ≤ c.val := upper.1
    have high : c.val ≤ 90 := upper.2
    rw [UInt32.le_iff_toNat_le] at low high
    have sum : (c.val.toNat + 32) % 2 ^ 32 = 40 := congrArg UInt32.toNat value
    change 65 ≤ c.val.toNat at low
    change c.val.toNat ≤ 90 at high
    omega
  · exact lower

/-- No address is mentioned only for want of padding. -/
theorem mentioned_of_unpadOnce {t : Text} (mentioned : Mentioned (unpadOnce t)) : Mentioned t := by
  obtain ⟨before, after, whole⟩ := mentioned
  rw [List.append_assoc] at whole
  obtain ⟨x, u, split, _, lower⟩ := List.map_eq_append_iff.mp whole.symm
  obtain ⟨v, inside, found⟩ := exists_suffix_unpadOnce (t := t) ⟨x, split.symm⟩
  have letter : ∀ {c d : Char}, c.toLower = d → d ≠ '(' → d ≠ ')' → c ≠ '(' ∧ c ≠ ')' := by
    intro c d lower noOpening noClosing
    constructor
    · rintro rfl
      exact noOpening lower.symm
    · rintro rfl
      exact noClosing lower.symm
  simp only [List.cons_append, List.nil_append, List.map_eq_cons_iff] at lower
  obtain ⟨a, u, rfl, isU, b, u, rfl, isR, c, u, rfl, isL, d, u, rfl, isOpening, _⟩ := lower
  -- The three letters and the parenthesis stand next to each other in the padded value as well.
  obtain ⟨v₁, rfl, found₁⟩ := unpadOnce_eq_cons found (letter isU (by decide) (by decide)).1
    (letter isU (by decide) (by decide)).2
  obtain ⟨v₂, rfl, found₂⟩ := unpadOnce_eq_cons found₁ (letter isR (by decide) (by decide)).1
    (letter isR (by decide) (by decide)).2
  obtain ⟨v₃, rfl, found₃⟩ := unpadOnce_eq_cons found₂ (letter isL (by decide) (by decide)).1
    (letter isL (by decide) (by decide)).2
  rw [toLower_eq_opening isOpening] at found₃
  obtain ⟨v₄, rfl⟩ := unpadOnce_eq_opening found₃
  have here : ['u', 'r', 'l', '('] <+: (a :: b :: c :: '(' :: v₄).map Char.toLower := by
    refine ⟨v₄.map Char.toLower, ?_⟩
    simp [isU, isR, isL]
  exact here.isInfix.trans (inside.map Char.toLower).isInfix

end Stylesheet.Image
