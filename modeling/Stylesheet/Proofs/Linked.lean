import Stylesheet.Proofs.Cuts
import Stylesheet.Proofs.Provenance
import Stylesheet.Proofs.Turns

set_option autoImplicit false

namespace Stylesheet

namespace Text

/-- Every dollar sign is directly followed by a character of a name. -/
def isLinked : Text → Bool
  | [] => true
  | c :: t => (c ≠ '$' || t.head?.any Reference.isNameChar) && isLinked t

variable {t u : Text}

theorem isLinked_cons_iff {c : Char} : isLinked (c :: t) ↔
    (c = '$' → ∃ d ∈ t.head?, Reference.isNameChar d) ∧ isLinked t := by
  rw [isLinked, Bool.and_eq_true, Bool.or_eq_true, Option.any_eq_true, decide_eq_true_eq,
    ne_eq, ← imp_iff_not_or]
  rfl

theorem isLinked_append (left : isLinked t) (right : isLinked u) : isLinked (t ++ u) := by
  induction t with
  | nil => exact right
  | cons c t ih =>
    obtain ⟨first, rest⟩ := isLinked_cons_iff.mp left
    refine isLinked_cons_iff.mpr ⟨fun sign => ?_, ih rest⟩
    obtain ⟨d, isFirst, named⟩ := first sign
    exact ⟨d, List.mem_head?_append_of_mem_head? isFirst, named⟩

theorem isLinked_of_append_right (linked : isLinked (t ++ u)) : isLinked u := by
  induction t with
  | nil => exact linked
  | cons c t ih => exact ih (isLinked_cons_iff.mp linked).2

/-- A part that is not followed by a character of a name. -/
theorem isLinked_of_append_left (linked : isLinked (t ++ u))
    (ends : ∀ c ∈ u.head?, Reference.isNameChar c = false) : isLinked t := by
  induction t with
  | nil => rfl
  | cons c t ih =>
    obtain ⟨first, rest⟩ := isLinked_cons_iff.mp linked
    refine isLinked_cons_iff.mpr ⟨fun sign => ?_, ih rest⟩
    obtain ⟨d, isFirst, named⟩ := first sign
    cases t with
    | nil => simp [ends d isFirst] at named
    | cons e t => exact ⟨d, isFirst, named⟩

theorem Cut.isLinked (cut : Cut u t) (linked : t.isLinked) : u.isLinked := by
  obtain ⟨before, after, rfl, ends⟩ := cut
  rw [List.append_assoc] at linked
  exact isLinked_of_append_left (isLinked_of_append_right linked) ends

theorem isLinked_unifyLineEnds (linked : t.isLinked) : (unifyLineEnds t).isLinked := by
  fun_induction unifyLineEnds t with
  | case1 => rfl
  | case2 t ih =>
    have rest := isLinked_of_append_right (t := ['\r', '\n']) linked
    exact isLinked_cons_iff.mpr ⟨by simp, ih rest⟩
  | case3 c t other ih =>
    obtain ⟨first, rest⟩ := isLinked_cons_iff.mp linked
    refine isLinked_cons_iff.mpr ⟨fun sign => ?_, ih rest⟩
    have isSign : c = '$' := by
      split at sign
      · cases sign
      · exact sign
    obtain ⟨d, isFirst, named⟩ := first isSign
    -- No end of line is a character of a name, so the one after the sign stays.
    have notReturn : d ≠ '\r' := by
      rintro rfl
      simp [Reference.isNameChar_of_isBlank (c := '\r') rfl] at named
    obtain ⟨t, rfl⟩ := List.head?_eq_some_iff.mp isFirst
    refine ⟨d, ?_, named⟩
    rw [unifyLineEnds.eq_def]
    split
    · contradiction
    · rename_i same
      cases same
      contradiction
    · rename_i same
      cases same
      rw [if_neg notReturn]
      rfl

end Text

/-- The text of a token in which references are resolved is linked. -/
def Token.Linked : Token → Prop
  | property _ value _ => value.isLinked
  | statement _ params _ => params.isLinked
  | rule _ _ | atBlock _ _ _ | comment _ _ | close _ => True

namespace Scan

/-- The pending text together with what is still to be read, the text that was set aside, and the
tokens so far are linked. -/
structure Texts.Linked (x : Texts) (t : Text) : Prop where
  ahead : Text.isLinked (x.pending.reverse ++ t)
  aside : ∀ aside ∈ x.aside, Text.isLinked aside.reverse
  tokens : ∀ token ∈ x.tokens, token.Linked

variable {x y : Texts} {t rest : Text}

namespace Texts.Linked

theorem later {c : Char} (linked : x.Linked (c :: rest)) : rest.isLinked :=
  (Text.isLinked_cons_iff.mp (Text.isLinked_of_append_right linked.ahead)).2

/-- The pending text at a character that no name has. -/
theorem pending {c : Char} (linked : x.Linked (c :: rest))
    (ends : Reference.isNameChar c = false) : Text.isLinked x.pending.reverse := by
  refine Text.isLinked_of_append_left linked.ahead fun d isFirst => ?_
  cases isFirst
  exact ends

end Texts.Linked

theorem Ends.linked {line : Nat} {ended : List Token} (ends : Ends x line ended)
    (pending : Text.isLinked x.pending.reverse) : ∀ token ∈ ended, token.Linked := by
  have trimmed := (Text.Cut.trim x.pending.reverse).isLinked pending
  cases ends with
  | nothing noKey => simp
  | dropped isKey empty => simp
  | property isKey visible => exact List.forall_mem_singleton.mpr trimmed
  | statement inHeader started =>
    rw [List.forall_mem_singleton, Token.Linked, Texts.parts]
    cases x.key with
    | some name => exact trimmed
    | none => rfl

theorem Turn.linked (turn : Turn x t y rest) (linked : x.Linked t) : y.Linked rest := by
  cases turn with
  | done => exact linked
  | @write c d rest same =>
    refine ⟨?_, linked.aside, linked.tokens⟩
    rw [List.reverse_cons, List.append_assoc]
    rcases same with rfl | ⟨gap, rfl⟩
    · exact linked.ahead
    · have unnamed : Reference.isNameChar c = false := by
        rcases (isGap_iff c).mp gap with rfl | rfl | rfl | rfl | rfl <;>
          exact Reference.isNameChar_of_isBlank rfl
      exact Text.isLinked_append (linked.pending unnamed)
        (Text.isLinked_cons_iff.mpr ⟨by simp, linked.later⟩)
  | @escape d rest =>
    refine ⟨?_, linked.aside, linked.tokens⟩
    simpa using linked.ahead
  | endName gap inHeader started =>
    exact ⟨Text.isLinked_cons_iff.mpr ⟨by simp, linked.later⟩, linked.aside, linked.tokens⟩
  | startHeader =>
    exact ⟨Text.isLinked_cons_iff.mpr ⟨by simp, linked.later⟩, linked.aside, linked.tokens⟩
  | startValue outside => exact ⟨linked.later, linked.aside, linked.tokens⟩
  | openRule =>
    exact ⟨linked.later, linked.aside, List.forall_mem_cons.mpr ⟨trivial, linked.tokens⟩⟩
  | openAtBlock inHeader started =>
    exact ⟨linked.later, linked.aside, List.forall_mem_cons.mpr ⟨trivial, linked.tokens⟩⟩
  | endClause delimiter ends =>
    refine ⟨linked.later, linked.aside, ?_⟩
    simp only [List.forall_mem_append]
    rcases delimiter with ⟨rfl, rfl⟩ | ⟨rfl, rfl⟩
    · exact ⟨by simp, ends.linked (linked.pending (by decide)), linked.tokens⟩
    · exact ⟨List.forall_mem_singleton.mpr trivial, ends.linked (linked.pending (by decide)),
        linked.tokens⟩
  | openComment =>
    refine ⟨(Text.isLinked_cons_iff.mp linked.later).2, ?_, linked.tokens⟩
    intro aside isAside
    cases isAside
    exact linked.pending (by decide)
  | closeComment =>
    have after := (Text.isLinked_cons_iff.mp linked.later).2
    refine ⟨Text.isLinked_append ?_ after, by simp,
      List.forall_mem_cons.mpr ⟨trivial, linked.tokens⟩⟩
    cases isAside : x.aside with
    | none => rfl
    | some aside => exact linked.aside aside isAside

end Scan

/-- The tokens of a linked text are linked. -/
theorem linked_of_scan {source : Text} {tokens : List Token} (linked : source.isLinked)
    (read : scan source = .ok tokens) : ∀ token ∈ tokens, token.Linked := by
  obtain ⟨x, ended, same⟩ := Scan.exists_texts_of_scan (P := Scan.Texts.Linked)
    (fun turn => turn.linked) read
    ⟨Text.isLinked_unifyLineEnds linked, by simp [Scan.texts, Scan.start],
      by simp [Scan.texts, Scan.start]⟩
  intro token member
  exact ended.tokens token (by rw [same]; exact List.mem_reverse.mpr member)

namespace Reference

variable {t : Text}

/-- A dollar sign in a linked text begins a reference. -/
theorem length_ne_zero (linked : Text.isLinked ('$' :: t)) : length ('$' :: t) ≠ 0 := by
  obtain ⟨d, isFirst, named⟩ := (Text.isLinked_cons_iff.mp linked).1 rfl
  obtain ⟨t, rfl⟩ := List.head?_eq_some_iff.mp isFirst
  simp [length, Text.countWhile, named]

/-- A reference is a dollar sign and a name. -/
theorem exists_name_of_length (found : length t ≠ 0) :
    ∃ name, t.take (length t) = '$' :: name ∧ ∀ c ∈ name, isNameChar c := by
  unfold length at found ⊢
  split at found
  · rename_i t
    refine ⟨t.takeWhile isNameChar, ?_, fun c => List.mem_takeWhile_imp⟩
    split
    · rename_i none
      simp [none] at found
    · have isPrefix := List.prefix_iff_eq_take.mp (List.takeWhile_prefix isNameChar (l := t))
      rw [List.take_succ_cons, Text.countWhile, ← isPrefix]
  · exact absurd rfl found

theorem mem_names_of_mem_pieces {name : Text} (found : .found name ∈ Text.pieces length t) :
    name ∈ names t := List.mem_filterMap.mpr ⟨_, found, rfl⟩

end Reference

/-- The variables whose values have no dollar sign, and the declarations with linked values. -/
def Scope.linkedLaw : Scope.Law where
  value value := '$' ∉ value
  body d := d.value.isLinked

/-- No dollar sign is left in a linked text if all its references have values. -/
theorem Variables.Obey.not_mem_fill {vars : Variables} (obey : vars.Obey Scope.linkedLaw) {t : Text}
    (linked : t.isLinked) (known : vars.missing? t = none) : '$' ∉ vars.fill t := by
  intro member
  obtain ⟨before, behind, split⟩ := List.append_of_mem member
  cases Text.exists_origin split with
  | kept place unmatched =>
    rw [place] at linked
    exact Reference.length_ne_zero (Text.isLinked_of_append_right linked) unmatched
  | @found left right first second place matched isPiece inside =>
    have isName := Reference.mem_names_of_mem_pieces isPiece
    have has := List.find?_eq_none.mp known _ isName
    cases value : vars.get? (right.take (Reference.length right)) with
    | none => simp [lacks, value] at has
    | some text =>
      rw [value, Option.getD_some] at inside
      exact obey _ text value (by simp [inside])

theorem Token.Linked.allows {token : Token} (linked : token.Linked) :
    Scope.linkedLaw.Allows token where
  body key value line same := by
    subst same
    exact linked
  value params line same vars obey known := by
    subst same
    have rest : Text.Cut (params.dropWhile (!Text.isBlank ·)) params :=
      .suffix (List.dropWhile_suffix _)
    exact obey.not_mem_fill (((Text.Cut.trim _).trans rest).isLinked linked) known

/-- The tokens of a compilation are linked if all the texts are that it reads. -/
theorem Session.Tokens.linked {volume : Volume} {start : Session} {token : Token}
    (found : start.Tokens volume token) (texts : ∀ text, start.Reads volume text → text.isLinked) :
    token.Linked := by
  obtain ⟨text, tokens, reads, divided, member⟩ := found
  exact linked_of_scan (texts text reads) divided token member

end Stylesheet
