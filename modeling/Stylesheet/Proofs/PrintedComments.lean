import Stylesheet.Proofs.Enclosures
import Stylesheet.Proofs.Reprint

set_option autoImplicit false

namespace Stylesheet

namespace Layout

open Scan

def Unmarked (t : Text) : Prop := t.IsChain fun c d => ¬ (c = '*' ∧ d = '/')

theorem Unmarked.unclosed {t : Text} (unmarked : Unmarked t) : ¬ ['*', '/'] <:+: t := by
  intro closed
  have pair := List.IsChain.infix unmarked closed
  simp at pair

theorem Unmarked.append_of_not_mem {t u : Text} (starless : '*' ∉ t) (unmarked : Unmarked u) :
    Unmarked (t ++ u) := by
  induction t with
  | nil => exact unmarked
  | cons c t ih =>
    obtain ⟨other, later⟩ := not_or.mp (mt List.mem_cons.mpr starless)
    apply List.isChain_cons.mpr
    refine ⟨fun d _ mark => other mark.1.symm, ih later⟩

theorem star_not_mem_words (text : Text) :
    '*' ∉ Text.collapse (text.filter (· ≠ '*')) := by
  intro star
  rcases Text.mem_collapse star with space | inText
  · cases space
  · simp at inText

theorem star_not_mem_indent (depth : Nat) : '*' ∉ indent depth := by
  intro star
  have gap := isGap_indent depth '*' star
  cases gap

theorem Unmarked.star {c : Char} {t : Text} (other : c ≠ '/') (unmarked : Unmarked (c :: t)) :
    Unmarked ('*' :: c :: t) := by
  apply List.isChain_cons.mpr
  refine ⟨?_, unmarked⟩
  rintro d isHead ⟨-, slash⟩
  cases isHead
  exact other slash

theorem unmarked_remark (text : Text) (depth : Nat) : Unmarked (remark text depth) := by
  have last : Unmarked (indent depth ++ [' ']) :=
    .append_of_not_mem (star_not_mem_indent depth) (List.isChain_singleton ' ')
  have words :
      Unmarked ([' '] ++ (Text.collapse (text.filter (· ≠ '*')) ++ (indent depth ++ [' ']))) :=
    .append_of_not_mem (by decide) (.append_of_not_mem (star_not_mem_words text) last)
  have line := Unmarked.append_of_not_mem (t := [' ']) (by decide) (words.star (by decide))
  have lines := Unmarked.append_of_not_mem (star_not_mem_indent depth) line
  exact lines.star (by decide)

section Printed

variable {text : Text} (unescaped : '\\' ∉ text)
  (legal : ∀ c ∈ text, c.toNat < 0x20 → Text.isBlank c) (depth : Nat)

include unescaped legal

/-- The reader takes what is printed for a comment as it is. -/
theorem taken_remark :
    ∀ c ∈ remark text depth, (Mark.of c ≠ .control ∧ c ≠ '\\') ∧ c ≠ '\r' := by
  have words : ∀ c ∈ Text.collapse (text.filter (· ≠ '*')),
      (Mark.of c ≠ .control ∧ c ≠ '\\') ∧ c ≠ '\r' := by
    intro c inWords
    by_cases blank : Text.isBlank c
    · rw [(Text.tidy_collapse _).spaces c inWords blank]
      decide
    · have inText : c ∈ text := by
        rcases Text.mem_collapse inWords with rfl | filtered
        · exact absurd rfl blank
        · exact List.mem_of_mem_filter filtered
      refine ⟨⟨fun control => ?_, ?_⟩, ?_⟩
      · have forbidden := (Mark.of_eq_control_iff c).mp control
        simp only [Text.isForbidden, Bool.and_eq_true, decide_eq_true_eq] at forbidden
        exact blank (legal c inText forbidden.1)
      · rintro rfl
        exact unescaped inText
      · rintro rfl
        exact blank rfl
  exact forall_remark (by decide) (by decide) (by decide) words depth

/-- A printed comment is one token, in any block and whatever follows it. -/
theorem readsAs_comment (place : Option Construct) :
    ReadsAs place [.comment (Text.trim (remark text depth)) 0] (comment text depth) := by
  have lineBreak : ∀ c ∈ ['\n'], isGap c := List.forall_mem_singleton.mpr rfl
  have taken := fun c member => (taken_remark unescaped legal depth c member).1
  have indented : ReadsAs place [] (indent depth) := .gaps (isGap_indent depth)
  have whole := ((ReadsAs.gaps lineBreak).append indented).append
    ((ReadsAs.comment taken (unmarked_remark text depth).unclosed).append (.gaps lineBreak))
  simpa [comment_eq] using whole

theorem noReturn_comment : '\r' ∉ comment text depth := by
  have inside : '\r' ∉ remark text depth :=
    fun member => (taken_remark unescaped legal depth _ member).2 rfl
  have indented : '\r' ∉ indent depth := by
    intro member
    have gap := isGap_indent depth '\r' member
    cases gap
  simp [comment_eq, inside, indented]

end Printed

end Layout

open Layout

/-- No text breaks out of a printed comment: it is read as one comment, and what is read is printed
as the text was, at every depth. -/
theorem scan_comment_printed {text : Text} (unescaped : '\\' ∉ text)
    (legal : ∀ c ∈ text, c.toNat < 0x20 → Text.isBlank c) (depth : Nat) :
    ∃ body line, scan (comment text depth) = .ok [.comment body line] ∧
      ∀ other, comment body other = comment text other := by
  obtain ⟨tokens, read, unlined⟩ := (readsAs_comment unescaped legal depth none).scan_eq
    (noReturn_comment unescaped legal depth)
  obtain ⟨token, rfl, same⟩ := List.map_eq_singleton_iff.mp unlined
  cases token with
  | comment body line =>
    have isBody : body = Text.trim (remark text depth) := (Token.comment.inj same).1
    refine ⟨body, line, read, fun other => ?_⟩
    simp only [comment, isBody, collapse_remark]
  | rule | atBlock | statement | property | close => cases same

/-- A text with marks of comments, quotes, delimiters, and a carriage return among its blanks. -/
theorem scan_comment_printed_marks :
    ∃ body line, scan (comment "*/\x7d*\x7b\"'\r\n/*/ @;".toList 1) = .ok [.comment body line] ∧
      ∀ other, comment body other = comment "*/\x7d*\x7b\"'\r\n/*/ @;".toList other := by
  have legal : "*/\x7d*\x7b\"'\r\n/*/ @;".toList.all fun c => c.toNat < 0x20 → Text.isBlank c := by
    decide
  exact scan_comment_printed (by decide) (by simpa using legal) 1

end Stylesheet
