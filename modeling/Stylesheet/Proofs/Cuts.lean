import Stylesheet.Progress
import Stylesheet.Proofs.Branches

set_option autoImplicit false

namespace Stylesheet

/-- The characters with the Unicode property `White_Space`, by their codes. -/
def blankCodes : List Nat :=
  [9, 10, 11, 12, 13, 0x20, 0x85, 0xA0, 0x1680, 0x2000, 0x2001, 0x2002, 0x2003, 0x2004, 0x2005,
    0x2006, 0x2007, 0x2008, 0x2009, 0x200A, 0x2028, 0x2029, 0x202F, 0x205F, 0x3000]

theorem Reference.isNameChar_of_isBlank {c : Char} (blank : Text.isBlank c) :
    isNameChar c = false := by
  have none : ∀ n ∈ blankCodes, isNameChar (Char.ofNat n) = false := by decide +kernel
  have listed : c.toNat ∈ blankCodes := by
    simp only [Text.isBlank, Bool.or_eq_true, Bool.and_eq_true, decide_eq_true_eq, beq_iff_eq]
      at blank
    simp only [blankCodes, List.mem_cons, List.not_mem_nil, or_false]
    omega
  have own := none c.toNat listed
  rwa [Char.ofNat_toNat] at own

/-- A part of a text that is not followed by a character of a name. -/
def Text.Cut (part t : Text) : Prop :=
  ∃ before after, t = before ++ part ++ after ∧
    ∀ c ∈ after.head?, Reference.isNameChar c = false

namespace Text.Cut

variable {t u v : Text}

theorem subset (cut : Cut u t) : u ⊆ t := by
  obtain ⟨before, after, rfl, -⟩ := cut
  intro c member
  simp [member]

theorem suffix (isSuffix : u <:+ t) : Cut u t := by
  obtain ⟨before, rfl⟩ := isSuffix
  exact ⟨before, [], by simp, by simp⟩

theorem trans (inner : Cut u v) (outer : Cut v t) : Cut u t := by
  obtain ⟨before, after, rfl, ends⟩ := inner
  obtain ⟨around, beyond, rfl, outerEnds⟩ := outer
  refine ⟨around ++ before, after ++ beyond, by simp, ?_⟩
  intro c first
  cases after with
  | nil => exact outerEnds c first
  | cons d after => exact ends c first

theorem trim (t : Text) : Cut (Text.trim t) t := by
  obtain ⟨before, after, split, -, blank⟩ := exists_append_trim t
  exact ⟨before, after, split, fun c first =>
    Reference.isNameChar_of_isBlank (blank c (List.mem_of_mem_head? first))⟩

theorem between {inner : Text} (found : Call.between? '(' ')' t = some inner) : Cut inner t := by
  cases t with
  | nil => cases found
  | cons c t =>
    rw [Call.between?] at found
    split at found
    · rename_i closed
      simp only [Bool.and_eq_true, decide_eq_true_eq] at closed
      cases found
      obtain ⟨inner, rfl⟩ := List.getLast?_eq_some_iff.mp closed.2
      refine ⟨[c], [')'], by simp, ?_⟩
      intro d first
      cases first
      decide
    · cases found

/-- The parts between commas. -/
theorem of_mem_intercalate {part : Text} {parts : List Text} (member : part ∈ parts) :
    Cut part ([','].intercalate parts) := by
  induction parts with
  | nil => cases member
  | cons first parts ih =>
    rw [Text.intercalate_cons]
    rcases List.mem_cons.mp member with rfl | later
    · refine ⟨[], parts.flatMap ([','] ++ ·), rfl, ?_⟩
      intro c isFirst
      cases parts with
      | nil => cases isFirst
      | cons next parts =>
        cases isFirst
        decide
    · cases parts with
      | nil => cases later
      | cons next parts =>
        refine (ih later).trans (suffix ⟨first ++ [','], ?_⟩)
        rw [Text.intercalate_cons]
        simp

theorem unwrapped (t : Text) : Cut (Call.unwrapped t) t := by
  unfold Call.unwrapped
  split
  · rename_i inner found
    split
    · exact suffix (List.suffix_refl t)
    · exact (trim inner).trans (between found)
  · exact suffix (List.suffix_refl t)

theorem of_mem_readList {argument list : Text} (member : argument ∈ Call.readList list) :
    Cut argument list := by
  obtain ⟨part, inList, rfl⟩ := List.mem_map.mp member
  have inside : Cut part list := by
    have cut := of_mem_intercalate inList
    rwa [Text.splitCommas, Text.intercalate_splitCommasFrom] at cut
  exact (unwrapped _).trans ((trim part).trans inside)

end Text.Cut

/-- The arguments of a call are cut out of its text. -/
theorem Call.cut_of_mem_argumentList {text argument : Text} {call : Call}
    (read : ofText? text = some call) (member : argument ∈ call.argumentList) :
    Text.Cut argument text := by
  unfold ofText? at read
  dsimp only at read
  split at read
  · cases read
  · cases read
    unfold argumentList at member
    cases found : between? '(' ')' (Text.trim ((Text.trim text).dropWhile isNameChar)) with
    | none => simp [found] at member
    | some inner =>
      rw [found] at member
      by_cases empty : Text.trim inner = []
      · simp [Option.filter, empty] at member
      · have inList : argument ∈ readList (Text.trim inner) := by
          simpa [Option.filter, empty] using member
        exact (Text.Cut.of_mem_readList inList).trans ((Text.Cut.trim inner).trans
          ((Text.Cut.between found).trans ((Text.Cut.trim _).trans
            ((Text.Cut.suffix (List.dropWhile_suffix _)).trans (Text.Cut.trim text)))))

end Stylesheet
