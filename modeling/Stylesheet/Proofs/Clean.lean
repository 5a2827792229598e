import Stylesheet.Proofs.Branches
import Stylesheet.Proofs.Fields
import Stylesheet.Proofs.Settled
import Stylesheet.Text.Alphanumeric

set_option autoImplicit false

namespace Stylesheet

/-- The characters of words, except for colons. None of them divides, nests, joins or refers. -/
def isInert (c : Char) : Bool :=
  Scan.isPlain c && !(c ∈ [',', '(', ')', '[', ']', '>', '+', '~', '$'])

theorem isBlank_of_isInert {c : Char} (inert : isInert c) : Text.isBlank c = false := by
  simp only [isInert, Scan.isPlain, Bool.and_eq_true, Bool.not_eq_true'] at inert
  exact inert.1.2

theorem ne_of_isInert {c d : Char} (inert : isInert c) (other : isInert d = false) : c ≠ d := by
  rintro rfl
  simp [other] at inert

/-- A branch of words. No colon ends a word. -/
structure Selector.Clean (b : Text) : Prop where
  nonempty : b ≠ []
  tidy : b.Tidy
  inert : ∀ c ∈ b, c ≠ ' ' → c ≠ ':' → isInert c
  colons : b.IsChain fun c d => ¬ (c = ':' ∧ d = ' ')
  last : ∀ c ∈ b.getLast?, c ≠ ':'

structure Declaration.Clean (d : Declaration) : Prop where
  visible : d.key ≠ []
  key : ∀ c ∈ d.key, isInert c
  tidy : d.value.Tidy
  value : ∀ c ∈ d.value, c ≠ ' ' → isInert c

theorem isRunning_of_isInert {c : Char} (inert : isInert c) : Scan.isRunning c := by
  simp only [isInert, Bool.and_eq_true] at inert
  simp [Scan.isRunning, inert.1]

theorem Selector.Clean.running {b : Text} (clean : Clean b) : ∀ c ∈ b, Scan.isRunning c := by
  intro c member
  by_cases space : c = ' '
  · rw [space]
    rfl
  · by_cases colon : c = ':'
    · rw [colon]
      rfl
    · exact isRunning_of_isInert (clean.inert c member space colon)

def Text.wideBlanks : List Nat :=
  [0x85, 0xA0, 0x1680, 0x2000, 0x2001, 0x2002, 0x2003, 0x2004, 0x2005, 0x2006, 0x2007, 0x2008,
    0x2009, 0x200A, 0x2028, 0x2029, 0x202F, 0x205F, 0x3000]

theorem Text.isBlank_of_isAlphanumeric {c : Char} (wide : 0x80 ≤ c.toNat)
    (letter : isAlphanumeric c) : isBlank c = false := by
  have apart : ∀ n ∈ wideBlanks,
      (inRanges alphabeticRanges n || inRanges numericRanges n) = false := by
    decide +kernel
  cases blank : isBlank c with
  | false => rfl
  | true =>
    have listed : c.toNat ∈ wideBlanks := by
      simp only [isBlank, Bool.or_eq_true, Bool.and_eq_true, decide_eq_true_eq, beq_iff_eq] at blank
      simp only [wideBlanks, List.mem_cons, List.not_mem_nil, or_false]
      omega
    have none := apart c.toNat listed
    simp only [isAlphanumeric, isAlphabetic, Nat.not_lt.mpr wide, ↓reduceIte, none] at letter
    cases letter

theorem isInert_of_isAlphanumeric {c : Char} (letter : Text.isAlphanumeric c) : isInert c := by
  by_cases ascii : c.toNat < 0x80
  · have all : ∀ n < 0x80, Text.isAlphanumeric (Char.ofNat n) → isInert (Char.ofNat n) := by
      decide +kernel
    have own := all c.toNat ascii
    rw [Char.ofNat_toNat] at own
    exact own letter
  · have wide : 0x80 ≤ c.toNat := Nat.not_lt.mp ascii
    have other : ∀ d : Char, d.toNat < 0x80 → c ≠ d := by
      rintro d small rfl
      exact ascii small
    have notControl : ¬ c.toNat < 0x20 := by omega
    have plain : Mark.of c = .plain := by
      simp [Mark.of, other '\n' (by decide), other '\t' (by decide), other '\x0b' (by decide),
        other '\x0c' (by decide), other ' ' (by decide), other '{' (by decide),
        other '}' (by decide),
        other ':' (by decide), other ';' (by decide), other '@' (by decide), other '"' (by decide),
        other '\'' (by decide), notControl]
    simp [isInert, Scan.isPlain, plain, Text.isBlank_of_isAlphanumeric wide letter,
      other '\\' (by decide), other '/' (by decide), other '*' (by decide), other ',' (by decide),
      other '(' (by decide), other ')' (by decide), other '[' (by decide), other ']' (by decide),
      other '>' (by decide), other '+' (by decide), other '~' (by decide), other '$' (by decide)]

namespace Text

theorem replaceChar_append (c : Char) (replacement t u : Text) :
    replaceChar c replacement (t ++ u) =
      replaceChar c replacement t ++ replaceChar c replacement u :=
  List.flatMap_append

theorem mem_replaceChar {c d : Char} {replacement t : Text}
    (member : d ∈ replaceChar c replacement t) :
    d ∈ replacement ∨ d ∈ t := by
  obtain ⟨e, inText, inside⟩ := List.mem_flatMap.mp member
  split at inside
  · exact .inl inside
  · rw [List.mem_singleton.mp inside]
    exact .inr inText

theorem replaceChar_singleton (c d : Char) (replacement : Text) :
    replaceChar c replacement [d] = if d = c then replacement else [d] := by
  simp [replaceChar]

theorem replaceChar_ne_nil {c : Char} {replacement t : Text} (nonempty : replacement ≠ [])
    (some : t ≠ []) :
    replaceChar c replacement t ≠ [] := by
  obtain ⟨d, t, rfl⟩ := List.exists_cons_of_ne_nil some
  rw [← List.singleton_append, replaceChar_append, replaceChar_singleton]
  split <;> simp [nonempty]

theorem mem_head?_replaceChar {c d : Char} {replacement t : Text} (nonempty : replacement ≠ [])
    (first : d ∈ (replaceChar c replacement t).head?) : d ∈ replacement.head? ∨ d ∈ t.head? := by
  cases t with
  | nil => cases first
  | cons e t =>
    rw [← List.singleton_append, replaceChar_append, replaceChar_singleton] at first
    split at first
    · rw [List.head?_append_of_ne_nil _ nonempty] at first
      exact .inl first
    · exact .inr first

theorem mem_getLast?_replaceChar {c d : Char} {replacement t : Text} (nonempty : replacement ≠ [])
    (last : d ∈ (replaceChar c replacement t).getLast?) :
    d ∈ replacement.getLast? ∨ d ∈ t.getLast? := by
  rcases List.eq_nil_or_concat t with rfl | ⟨t, e, rfl⟩
  · cases last
  · rw [List.concat_eq_append, replaceChar_append, replaceChar_singleton] at last
    split at last
    · rw [List.getLast?_append_of_ne_nil _ nonempty] at last
      exact .inl last
    · rw [List.getLast?_append_of_ne_nil _ (by simp)] at last
      exact .inr (by simpa using last)

/-- A relation between neighbours is kept, if it holds for everything next to the replacement. -/
theorem isChain_replaceChar {R : Char → Char → Prop} {c : Char} {replacement t : Text}
    (nonempty : replacement ≠ []) (inside : replacement.IsChain R) (chain : t.IsChain R)
    (before : ∀ a, ∀ b ∈ replacement.head?, R a b)
    (after : ∀ a ∈ replacement.getLast?, ∀ b, R a b) :
    (replaceChar c replacement t).IsChain R := by
  induction t with
  | nil => exact List.isChain_nil
  | cons d t ih =>
    have later := ih chain.tail
    rw [← List.singleton_append, replaceChar_append, replaceChar_singleton]
    split
    · exact List.isChain_append.mpr ⟨inside, later, fun a last b _ => after a last b⟩
    · refine List.isChain_cons.mpr ⟨?_, later⟩
      intro e first
      rcases mem_head?_replaceChar nonempty first with inReplacement | inText
      · exact before d e inReplacement
      · exact (List.isChain_cons.mp chain).1 e inText

end Text

/-- A branch inside a branch is a branch again. -/
theorem Selector.Clean.combine {outer inner : Text} (outerClean : Clean outer)
    (innerClean : Clean inner) :
    Clean (combine outer inner) := by
  have outerVisible := outerClean.nonempty
  unfold Selector.combine
  split
  · refine ⟨Text.replaceChar_ne_nil outerVisible innerClean.nonempty, ⟨?_, ?_, ?_, ?_⟩, ?_, ?_, ?_⟩
    · intro c member
      rcases Text.mem_replaceChar member with inOuter | inInner
      · exact outerClean.tidy.spaces c inOuter
      · exact innerClean.tidy.spaces c inInner
    · apply Text.isChain_replaceChar outerVisible outerClean.tidy.sparse innerClean.tidy.sparse
      · intro a b first
        simp [outerClean.tidy.head b first]
      · intro a last b
        simp [outerClean.tidy.last a last]
    · intro c first
      rcases Text.mem_head?_replaceChar outerVisible first with inOuter | inInner
      · exact outerClean.tidy.head c inOuter
      · exact innerClean.tidy.head c inInner
    · intro c last
      rcases Text.mem_getLast?_replaceChar outerVisible last with inOuter | inInner
      · exact outerClean.tidy.last c inOuter
      · exact innerClean.tidy.last c inInner
    · intro c member
      rcases Text.mem_replaceChar member with inOuter | inInner
      · exact outerClean.inert c inOuter
      · exact innerClean.inert c inInner
    · apply Text.isChain_replaceChar outerVisible outerClean.colons innerClean.colons
      · rintro a b first ⟨_, rfl⟩
        cases outerClean.tidy.head ' ' first
      · rintro a last b ⟨colon, _⟩
        exact outerClean.last a last colon
    · intro c last
      rcases Text.mem_getLast?_replaceChar outerVisible last with inOuter | inInner
      · exact outerClean.last c inOuter
      · exact innerClean.last c inInner
  · refine ⟨by simp, outerClean.tidy.append_space innerClean.tidy outerVisible innerClean.nonempty,
      ?_, ?_, ?_⟩
    · intro c member space
      rcases List.mem_append.mp member with inOuter | inRest
      · exact outerClean.inert c inOuter space
      · exact innerClean.inert c ((List.mem_cons.mp inRest).resolve_left space) space
    · refine List.isChain_append.mpr
        ⟨outerClean.colons, List.isChain_cons.mpr ⟨by simp, innerClean.colons⟩, ?_⟩
      rintro a last b _ ⟨colon, _⟩
      exact outerClean.last a last colon
    · intro c last
      rw [List.getLast?_append_of_ne_nil _ (by simp),
        List.getLast?_cons_of_ne_nil innerClean.nonempty] at last
      exact innerClean.last c last

namespace Selector

theorem Clean.after_eq {b : Text} (clean : Clean b) : Text.Nesting.top.after b = .top := by
  have still : ∀ c ∈ b, Text.Nesting.top.next c = .top := by
    intro c member
    by_cases space : c = ' '
    · rw [space]
      rfl
    · by_cases colon : c = ':'
      · rw [colon]
        rfl
      · have inert := clean.inert c member space colon
        have other : ∀ d : Char, isInert d = false → c ≠ d := fun d => ne_of_isInert inert
        simp [Text.Nesting.next, Text.Nesting.top, other '\\' rfl, other '"' rfl, other '\'' rfl,
          other '(' rfl, other '[' rfl, other ')' rfl, other ']' rfl]
  clear clean
  induction b with
  | nil => rfl
  | cons c b ih =>
    rw [Text.Nesting.after_cons, still c List.mem_cons_self]
    exact ih fun d member => still d (List.mem_cons_of_mem c member)

/-- Clean branches can be joined and divided again. -/
theorem separate_of_clean {bs : List Text} (clean : ∀ b ∈ bs, Clean b) : Separate bs := by
  refine separate_of_forall (fun b member => ?_) (fun b member => (clean b member).after_eq)
    (fun b member => (clean b member).nonempty) (fun b member => ?_)
  · apply Text.uncut_of_not_mem
    intro comma
    cases (clean b member).inert ',' comma (by decide) (by decide)
  · exact Text.trim_eq_self (clean b member).tidy.head (clean b member).tidy.last

theorem tidy_intercalate {bs : List Text} (clean : ∀ b ∈ bs, Clean b) {w : Text}
    (single : w = [] ∨ w = [' ']) : Text.Tidy ((',' :: w).intercalate bs) := by
  induction bs with
  | nil => exact .of_visible (by simp)
  | cons b bs ih =>
    have own := clean b List.mem_cons_self
    have later := ih fun c member => clean c (List.mem_cons_of_mem b member)
    cases bs with
    | nil => simpa using own.tidy
    | cons next bs =>
      have comma : Text.Tidy (b ++ [',']) :=
        own.tidy.append (.of_visible (List.forall_mem_singleton.mpr rfl))
      rw [List.intercalate_cons_cons]
      rcases single with rfl | rfl
      · exact comma.append later
      · have joined := comma.append_space later (by simp)
          (Text.intercalate_ne_nil _ bs (clean next (by simp)).nonempty)
        simpa using joined

theorem mem_product {outer inner : List Text} {b : Text} (member : b ∈ product outer inner) :
    ∃ o ∈ outer, ∃ i ∈ inner, b = combine o i := by
  obtain ⟨o, inOuter, mapped⟩ := List.mem_flatMap.mp member
  obtain ⟨i, inInner, rfl⟩ := List.mem_map.mp mapped
  exact ⟨o, inOuter, i, inInner, rfl⟩

end Selector

namespace Declaration.Clean

variable {d : Declaration}

theorem isField_key (clean : d.Clean) : IsField d.key :=
  ⟨.of_visible fun c member => isBlank_of_isInert (clean.key c member),
    fun c member => isRunning_of_isInert (clean.key c member)⟩

theorem isField_value (clean : d.Clean) : IsField d.value := by
  refine ⟨clean.tidy, fun c member => ?_⟩
  by_cases space : c = ' '
  · rw [space]
    rfl
  · exact isRunning_of_isInert (clean.value c member space)

theorem unpadded_eq (clean : d.Clean) : Layout.unpadded d.value = d.value := by
  apply Text.replace_eq_self
  intro u suffix
  have absent : ∀ c ∈ u, c ≠ '(' ∧ c ≠ ',' ∧ c ≠ ')' := by
    intro c member
    refine ⟨?_, ?_, ?_⟩ <;> rintro rfl <;> cases clean.value _ (suffix.mem member) (by decide)
  unfold Layout.paddingLength
  split
  · exact absurd rfl (absent '(' List.mem_cons_self).1
  · exact absurd rfl (absent ',' List.mem_cons_self).2.1
  · next t =>
    rw [if_neg]
    intro closing
    have inside : ')' ∈ t := (List.drop_suffix _ t).mem (List.mem_of_mem_head? closing)
    exact absurd rfl (absent ')' (List.mem_cons_of_mem _ inside)).2.2
  · rfl

theorem settled (clean : d.Clean) :
    (Resolved.entry (.declaration d.key d.value)).Settled := by
  refine ⟨fun dollar => (by cases clean.value '$' dollar (by decide)), fun u suffix => ?_⟩
  unfold Image.referenceLength
  split
  · next t =>
    have paren : '(' ∈ d.value := suffix.mem (by simp)
    cases clean.value '(' paren (by decide)
  · rfl

theorem unbroken (clean : d.Clean) :
    (Resolved.entry (.declaration d.key d.value)).Unbroken := by
  refine ⟨fun broken => (by cases clean.key '\n' broken), fun broken => ?_⟩
  rw [clean.unpadded_eq] at broken
  cases clean.value '\n' broken (by decide)

end Declaration.Clean

end Stylesheet
