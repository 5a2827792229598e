import Stylesheet.Proofs.Spelling

set_option autoImplicit false

namespace Stylesheet

open Scan

/-- A text with one space between two words that the reader takes as it is. -/
structure IsField (t : Text) : Prop where
  tidy : t.Tidy
  running : ∀ c ∈ t, isRunning c

namespace IsField

variable {t : Text}

theorem unbroken (field : IsField t) : '\n' ∉ t := by
  intro member
  cases field.tidy.spaces '\n' member rfl

theorem running_gaps {w v : Text} (left : ∀ c ∈ w, isGap c) (field : IsField t)
    (right : ∀ c ∈ v, isGap c) : ∀ c ∈ w ++ t ++ v, isRunning c :=
  isRunning_between left field.running right

end IsField

def IsName (name : Text) : Prop := ∃ word, name = '@' :: word ∧ ∀ c ∈ word, isNamed c

namespace IsName

variable {name : Text}

theorem tidy (named : IsName name) : name.Tidy := by
  obtain ⟨word, rfl, letters⟩ := named
  apply Text.Tidy.of_visible
  intro c member
  rcases List.mem_cons.mp member with rfl | inWord
  · rfl
  · have facts := letters c inWord
    simp only [isNamed, Bool.and_eq_true, Bool.not_eq_true'] at facts
    cases blank : Text.isBlank c with
    | false => rfl
    | true => simp [isGap_of_isBlank facts.1 blank] at facts

theorem unbroken (named : IsName name) : '\n' ∉ name := by
  intro member
  cases named.tidy.spaces '\n' member rfl

theorem trim_eq_self (named : IsName name) : Text.trim name = name :=
  Text.trim_eq_self named.tidy.head named.tidy.last

end IsName

namespace Layout

/-- The parameters of an at-rule as they stand after its name. -/
def tail (params : Text) : Text := if params = [] then [] else ' ' :: params

theorem header_eq (name params : Text) : header name params = name ++ tail params := by
  unfold header tail
  split <;> simp

variable {params gap : Text}

theorem running_tail (field : IsField params) (gaps : ∀ c ∈ gap, isGap c) :
    ∀ c ∈ tail params ++ gap, isRunning c := by
  unfold tail
  split
  · exact fun c member => isRunning_of_isGap (gaps c member)
  · exact field.running_gaps (w := [' ']) (List.forall_mem_singleton.mpr rfl) gaps

/-- What follows a name is apart from it. -/
theorem head_tail (gaps : ∀ c ∈ gap, isGap c) : ∀ c ∈ (tail params ++ gap).head?, isGap c := by
  intro c first
  unfold tail at first
  split at first
  · exact gaps c (List.mem_of_mem_head? first)
  · cases first
    rfl

theorem trim_spaced_tail (field : IsField params) (gaps : ∀ c ∈ gap, isGap c) :
    Text.trim (spaced (tail params ++ gap)) = params := by
  unfold tail
  split
  · next empty =>
    subst empty
    exact trim_spaced_gaps (w := []) (by simp) field.tidy gaps
  · exact trim_spaced_gaps (w := [' ']) (List.forall_mem_singleton.mpr rfl) field.tidy gaps

end Layout

section

variable {place : Option Construct}

theorem Entry.Spelling.of_fields {key value : Text} (inside : place ≠ none) (visible : key ≠ [])
    (uncut : ':' ∉ key) (keyField : IsField key) (valueField : IsField value)
    (before between after : Text) (beforeColon : ∀ c ∈ before, isGap c)
    (afterColon : ∀ c ∈ between, isGap c) (atEnd : ∀ c ∈ after, isGap c) :
    Entry.Spelling place (.declaration key value)
      (key ++ before ++ ':' :: (between ++ value ++ after ++ [';'])) := by
  have keyRead : Text.trim (spaced (key ++ before)) = key :=
    trim_spaced_gaps (w := []) (by simp) keyField.tidy beforeColon
  have valueRead := trim_spaced_gaps afterColon valueField.tidy atEnd
  have uncutGap : ':' ∉ before := fun colon => by cases beforeColon ':' colon
  have spelled : Entry.Spelling place _ _ :=
    .declaration (key ++ before) (between ++ value ++ after) inside
      (keyField.running_gaps (w := []) (by simp) beforeColon) (by simp [uncut, uncutGap])
      (by rwa [keyRead]) (valueField.running_gaps afterColon atEnd)
  rwa [keyRead, valueRead] at spelled

theorem Entry.Spelling.of_header {name params : Text} (named : IsName name)
    (field : IsField params) (gap : Text) (gaps : ∀ c ∈ gap, isGap c) :
    Entry.Spelling place (.statement name params) (Layout.header name params ++ gap ++ [';']) := by
  have trimmedName := named.trim_eq_self
  obtain ⟨word, rfl, letters⟩ := named
  have spelled : Entry.Spelling place _ _ :=
    .statement word _ letters (Layout.running_tail field gaps) (Layout.head_tail gaps)
  rw [trimmedName, Layout.trim_spaced_tail field gaps] at spelled
  simpa [Layout.header_eq] using spelled

theorem Entry.Spelling.of_remark {text : Text} (remarks : ∀ c ∈ text, isRemark c ∧ c ≠ '}') :
    Entry.Spelling place (.comment (Text.trim text)) ('/' :: '*' :: (text ++ ['*', '/'])) :=
  .comment text (fun c member => (remarks c member).1) (fun brace => (remarks _ brace).2 rfl)

theorem Opening.Spelling.of_field {selector : Text} (field : IsField selector) (gap : Text)
    (gaps : ∀ c ∈ gap, isGap c) : Opening.Spelling (.rule selector) (selector ++ gap ++ ['{']) := by
  have selectorRead : Text.trim (spaced (selector ++ gap)) = selector :=
    trim_spaced_gaps (w := []) (by simp) field.tidy gaps
  have spelled := Opening.Spelling.rule (selector ++ gap)
    (field.running_gaps (w := []) (by simp) gaps)
  rwa [selectorRead] at spelled

theorem Opening.Spelling.of_header {name params : Text} (named : IsName name)
    (field : IsField params) (gap : Text) (gaps : ∀ c ∈ gap, isGap c) :
    Opening.Spelling (.atRule name params) (Layout.header name params ++ gap ++ ['{']) := by
  have trimmedName := named.trim_eq_self
  obtain ⟨word, rfl, letters⟩ := named
  have spelled :=
    Opening.Spelling.atRule word _ letters (Layout.running_tail field gaps) (Layout.head_tail gaps)
  rw [trimmedName, Layout.trim_spaced_tail field gaps] at spelled
  simpa [Layout.header_eq] using spelled

end

end Stylesheet
