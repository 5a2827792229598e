import Stylesheet.Proofs.Reread

set_option autoImplicit false

namespace Stylesheet

open Scan

/-- The characters of a field. None of them is a control character, quotes, nests or refers. -/
def isFieldChar (c : Char) : Bool :=
  0x20 ≤ c.toNat && c ∉ ['\\', '"', '\'', '{', '}', ';', '@', '$', '/', '*']

/-- Words with one space between neighbours. -/
def isField (t : Text) : Bool := Text.collapse t = t && t.all isFieldChar

/-- The name of an at-rule that has no meaning of its own. -/
def isOrdinaryName (name : Text) : Bool :=
  name.head? = some '@' && isField name.tail && ' ' ∉ name &&
    name ∉ [Keyword.declare, .define, .mixin, .load].map Keyword.text

/-- Whether the fields of a token are written in one way only, up to blanks. -/
def Resolved.isWritable : Resolved → Bool
  | entry (.declaration key value) => key ≠ [] && isField key && ':' ∉ key && isField value
  | entry (.statement name params) | opens (.atRule name params) =>
    isOrdinaryName name && isField params
  | entry (.comment text) | opens (.rule text) => isField text
  | closes => true

def Resolved.value? : Resolved → Option Text
  | entry (.declaration _ value) => some value
  | entry (.statement _ _) | entry (.comment _) | opens _ | closes => none

namespace Forest

/-- Ordinary fields everywhere, and declarations in blocks only. -/
def isWritable (forest : Forest) : Bool :=
  forest.stream.all Resolved.isWritable && forest.entries.all (!·.isDeclaration)

def values (forest : Forest) : List Text := forest.stream.filterMap Resolved.value?

end Forest

def Entry.source (gap : Text) : Entry → Text
  | declaration key value => key ++ gap ++ ':' :: (gap ++ value ++ gap ++ [';'])
  | statement name params => Layout.header name params ++ gap ++ [';']
  | comment text => ['/', '*'] ++ gap ++ text ++ gap ++ ['*', '/']

def Opening.source (gap : Text) : Opening → Text
  | rule selector => selector ++ gap ++ ['{']
  | atRule name params => Layout.header name params ++ gap ++ ['{']

/-- A forest with blanks where they may stand. -/
def Forest.source (gap : Text) : Forest → Text
  | empty => gap
  | entry e rest => gap ++ e.source gap ++ rest.source gap
  | block opening inner rest =>
    gap ++ opening.source gap ++ inner.source gap ++ '}' :: rest.source gap

theorem isRunning_of_isFieldChar {c : Char} (allowed : isFieldChar c)
    (space : Text.isBlank c → c = ' ') :
    isRunning c := by
  simp only [isFieldChar, Bool.and_eq_true, decide_eq_true_eq, List.mem_cons, List.not_mem_nil,
    or_false, not_or] at allowed
  apply isRunning_of_unmarked allowed.1 space
  simp [allowed]

theorem forall_isFieldChar {t : Text} (field : isField t) : ∀ c ∈ t, isFieldChar c := by
  simp only [isField, Bool.and_eq_true, List.all_eq_true] at field
  exact field.2

theorem IsField.of_isField {t : Text} (field : isField t) : IsField t := by
  have tidy : t.Tidy := by
    simp only [isField, Bool.and_eq_true, decide_eq_true_eq] at field
    rw [← field.1]
    exact Text.tidy_collapse t
  exact ⟨tidy, fun c member =>
    isRunning_of_isFieldChar (forall_isFieldChar field c member) (tidy.spaces c member)⟩

theorem IsName.of_isOrdinaryName {name : Text} (ordinary : isOrdinaryName name) : IsName name := by
  simp only [isOrdinaryName, Bool.and_eq_true, decide_eq_true_eq] at ordinary
  obtain ⟨⟨⟨first, field⟩, noSpace⟩, _⟩ := ordinary
  cases name with
  | nil => cases first
  | cons c word =>
    cases first
    have wholeWord := IsField.of_isField field
    refine ⟨word, rfl, fun c member => ?_⟩
    have still : isGap c = false := by
      cases gap : isGap c with
      | false => rfl
      | true =>
        have space := wholeWord.tidy.spaces c member (isBlank_of_isGap gap)
        exact absurd (List.mem_cons_of_mem '@' (space ▸ member)) noSpace
    simp [isNamed, wholeWord.running c member, still]

theorem ne_keyword_of_isOrdinaryName {name : Text} (ordinary : isOrdinaryName name)
    (keyword : Keyword) :
    name ≠ keyword.text := by
  simp only [isOrdinaryName, Bool.and_eq_true, decide_eq_true_eq] at ordinary
  rintro rfl
  apply ordinary.2
  cases keyword <;> simp

theorem Resolved.tame_of_isWritable {token : Resolved} (writable : token.isWritable)
    (unmentioned : ∀ value ∈ token.value?, ¬ Image.Mentioned value) : token.Tame := by
  match token with
  | .entry (.declaration key value) =>
    simp only [isWritable, Bool.and_eq_true, decide_eq_true_eq] at writable
    obtain ⟨⟨⟨nonempty, keyField⟩, uncut⟩, valueField⟩ := writable
    refine ⟨nonempty, .of_isField keyField, uncut, .of_isField valueField, ?_,
      unmentioned value rfl⟩
    intro dollar
    cases forall_isFieldChar valueField '$' dollar
  | .entry (.statement name params) =>
    simp only [isWritable, Bool.and_eq_true] at writable
    have other := ne_keyword_of_isOrdinaryName writable.1
    exact ⟨.of_isOrdinaryName writable.1, .of_isField writable.2, other .declare, other .mixin,
      other .load⟩
  | .opens (.atRule name params) =>
    simp only [isWritable, Bool.and_eq_true] at writable
    exact ⟨.of_isOrdinaryName writable.1, .of_isField writable.2,
      ne_keyword_of_isOrdinaryName writable.1 .define⟩
  | .entry (.comment text) =>
    exact fun c member => isRemark_of_isRunning ((IsField.of_isField writable).running c member)
  | .opens (.rule selector) => exact (IsField.of_isField writable).running
  | .closes => trivial

theorem Entry.spelling_source {e : Entry} (writable : (Resolved.entry e).isWritable)
    {place : Option Construct} (placed : place ≠ none ∨ e.isDeclaration = false) {gap : Text}
    (gaps : ∀ c ∈ gap, isGap c) : e.Spelling place (e.source gap) := by
  match e with
  | .declaration key value =>
    simp only [Resolved.isWritable, Bool.and_eq_true, decide_eq_true_eq] at writable
    obtain ⟨⟨⟨visible, keyField⟩, uncut⟩, valueField⟩ := writable
    exact .of_fields (placed.resolve_right (by simp [isDeclaration])) visible uncut
      (.of_isField keyField) (.of_isField valueField) gap gap gap gaps gaps gaps
  | .statement name params =>
    simp only [Resolved.isWritable, Bool.and_eq_true] at writable
    exact .of_header (.of_isOrdinaryName writable.1) (.of_isField writable.2) gap gaps
  | .comment text =>
    have field := IsField.of_isField writable
    have blank : ∀ c ∈ gap, Text.isBlank c := fun c member => isBlank_of_isGap (gaps c member)
    have spelled : Entry.Spelling place _ _ := .of_remark fun c member =>
      isRemark_of_isRunning (field.running_gaps gaps gaps c member)
    rw [Text.trim_append_of_blank_right _ blank, Text.trim_append_of_blank_left blank,
      Text.trim_eq_self field.tidy.head field.tidy.last] at spelled
    simpa [source] using spelled

theorem Opening.spelling_source {opening : Opening} (writable : (Resolved.opens opening).isWritable)
    {gap : Text} (gaps : ∀ c ∈ gap, isGap c) : opening.Spelling (opening.source gap) := by
  match opening with
  | .rule selector => exact .of_field (.of_isField writable) gap gaps
  | .atRule name params =>
    simp only [Resolved.isWritable, Bool.and_eq_true] at writable
    exact .of_header (.of_isOrdinaryName writable.1) (.of_isField writable.2) gap gaps

/-- The source of a forest is one way to write it. -/
theorem Forest.spelling_source {forest : Forest}
    (writable : ∀ token ∈ forest.stream, token.isWritable)
    {place : Option Construct}
    (placed : place ≠ none ∨ ∀ e ∈ forest.entries, e.isDeclaration = false) {gap : Text}
    (gaps : ∀ c ∈ gap, isGap c) : forest.Spelling place (forest.source gap) := by
  induction forest generalizing place with
  | empty => exact Spelling.empty.append_blanks gaps
  | entry e rest ih =>
    obtain ⟨own, others⟩ := forall_stream_entry.mp writable
    have first := Entry.spelling_source own
      (placed.imp_right fun bare => bare e List.mem_cons_self) gaps
    have later := ih others
      (placed.imp_right fun bare other member => bare other (List.mem_cons_of_mem e member))
    rw [source, List.append_assoc]
    exact .blanks gaps (.entry first later)
  | block opening inner rest innerIh restIh =>
    obtain ⟨own, within, _, others⟩ := forall_stream_block.mp writable
    have opened := Opening.spelling_source own gaps
    have inside : inner.Spelling (some opening.construct) (inner.source gap) :=
      innerIh within (.inl (by simp))
    have later := restIh others placed
    rw [source, List.append_assoc, List.append_assoc]
    exact .blanks gaps (.block opened inside later)

/-- A tree is compiled, and what it is compiled to is compiled to itself. -/
theorem compile_compile_source (forest : Forest) (writable : forest.isWritable)
    (unmentioned : ∀ value ∈ forest.values, ¬ Image.Mentioned value) (gap : Text)
    (gaps : ∀ c ∈ gap, isGap c) :
    ∃ out, ∀ (volume : Volume) (directory : Path),
      compile volume ⟨directory, false⟩ (forest.source gap) = .ok out ∧
        compile volume ⟨directory, false⟩ out = .ok out := by
  simp only [Forest.isWritable, Bool.and_eq_true, List.all_eq_true, Bool.not_eq_true'] at writable
  obtain ⟨fields, bare⟩ := writable
  have tame : ∀ token ∈ forest.stream, token.Tame := fun token member =>
    Resolved.tame_of_isWritable (fields token member) fun value found =>
      unmentioned value (List.mem_filterMap.mpr ⟨token, member, found⟩)
  have spelled : forest.Spelling none (forest.source gap) :=
    Forest.spelling_source fields (.inr bare) gaps
  refine ⟨Layout.finish (forest.print [] 0), fun volume directory => ⟨?_, ?_⟩⟩
  · rw [compile_spelling spelled fun token member => (tame token member).settled]
    simp only [Options.print, Bool.false_eq_true, ↓reduceIte]
  · exact Forest.compile_finish tame bare volume directory

namespace Forest

/-- A rule with a padded value, a comment, a rule and an at-rule inside. -/
def menu : Forest :=
  .block (.rule "nav, .menu".toList)
    (.entry (.declaration "width".toList "calc( 1px + 2px )".toList)
      (.entry (.comment "links".toList)
        (.block (.rule "&:hover".toList) (.entry (.declaration "color".toList "red".toList) .empty)
          (.block (.atRule "@media".toList "print".toList)
            (.entry (.declaration "color".toList "black".toList) .empty) .empty))))
    (.entry (.statement "@charset".toList []) .empty)

end Forest

theorem compile_compile_menu :
    Forest.menu.isWritable ∧
      ∃ out, ∀ (volume : Volume) (directory : Path),
        compile volume ⟨directory, false⟩ (Forest.menu.source ['\n']) = .ok out ∧
          compile volume ⟨directory, false⟩ out = .ok out :=
  have writable : Forest.menu.isWritable := by decide +kernel
  ⟨writable, compile_compile_source Forest.menu writable (by decide +kernel) ['\n']
    (List.forall_mem_singleton.mpr rfl)⟩

namespace Forest

/-- A rule whose value has an address in capital letters, with a space inside. -/
def capital : Forest :=
  .block (.rule ['a']) (.entry (.declaration ['k'] "URL(( a.png)".toList) .empty) .empty

/-- A directory with the file that the address names without its space. -/
def shelf : Volume := ⟨[(["(a.png".toList], .file [0x78] ⟨1000, 0⟩)], []⟩

end Forest

/-- With an address in capital letters, output can name a file that the source does not name. -/
theorem compile_capital_changes :
    Forest.capital.isWritable ∧ (∀ value ∈ Forest.capital.values, ¬ "url(".toList <:+: value) ∧
      ∃ out, compile Forest.shelf ⟨⟨['.']⟩, false⟩ (Forest.capital.source [' ']) = .ok out ∧
        compile Forest.shelf ⟨⟨['.']⟩, false⟩ out ≠ .ok out :=
  ⟨by decide +kernel, by decide +kernel, "a \x7b\n  k: URL((a.png);\n\x7d".toList,
    by decide +kernel, by decide +kernel⟩

end Stylesheet
