import Stylesheet.Proofs.Blocks

set_option autoImplicit false

namespace Stylesheet

/-- Declarations and rules, with branches and values as lists of words. -/
inductive Nested where
  | done
  | declaration (key : Text) (value : List Text) (rest : Nested)
  | rule (branches : List (List Text)) (items rest : Nested)
  deriving DecidableEq, Repr

namespace Nested

def phrase (words : List Text) : Text := [' '].intercalate words

def selector (branches : List (List Text)) : Text := [','].intercalate (branches.map phrase)

/-- How rules are written without blanks. -/
def source : Nested → Text
  | done => []
  | declaration key value rest => key ++ ':' :: (phrase value ++ ';' :: rest.source)
  | rule branches items rest => selector branches ++ '{' :: (items.source ++ '}' :: rest.source)

/-- The declarations that stand directly in a rule. -/
def declarations : Nested → List Declaration
  | done => []
  | declaration key value rest => ⟨key, phrase value⟩ :: rest.declarations
  | rule _ _ rest => rest.declarations

/-- The branches of a rule inside a rule with some branches, or inside none. -/
def inside (outer own : List Text) : List Text :=
  if outer = [] then own else Selector.product outer own

/-- All rules, each before the rules inside it. -/
def blocks (outer : List Text) : Nested → List Block
  | done => []
  | declaration _ _ rest => rest.blocks outer
  | rule branches items rest =>
    let own := inside outer (branches.map phrase)
    ⟨own, items.declarations⟩ :: (items.blocks own ++ rest.blocks outer)

def isSelectorChar (c : Char) : Bool :=
  Text.isAlphanumeric c || c ∈ ['.', '#', '_', '-', ':', '&']

def isValueChar (c : Char) : Bool := Text.isAlphanumeric c || c ∈ ['#', '%', '.', '_', '-']

/-- A word of a branch does not end with a colon. -/
def isBranch (words : List Text) : Bool :=
  !words.isEmpty && words.all fun w => !w.isEmpty && w.all isSelectorChar && w.getLast? ≠ some ':'

def isKey (key : Text) : Bool := !key.isEmpty && key.all fun c => isSelectorChar c && c ≠ ':'

def isValue (words : List Text) : Bool := words.all fun w => !w.isEmpty && w.all isValueChar

def isWellFormed : Nested → Bool
  | done => true
  | declaration key value rest => isKey key && isValue value && rest.isWellFormed
  | rule branches items rest =>
    !branches.isEmpty && branches.all isBranch && items.isWellFormed && rest.isWellFormed

theorem isInert_of_isSelectorChar {c : Char} (allowed : isSelectorChar c) (other : c ≠ ':') :
    isInert c := by
  simp only [isSelectorChar, Bool.or_eq_true, decide_eq_true_eq, List.mem_cons, List.not_mem_nil,
    or_false] at allowed
  rcases allowed with letter | rfl | rfl | rfl | rfl | rfl | rfl
  · exact isInert_of_isAlphanumeric letter
  · decide
  · decide
  · decide
  · decide
  · exact absurd rfl other
  · decide

theorem isInert_of_isValueChar {c : Char} (allowed : isValueChar c) : isInert c := by
  simp only [isValueChar, Bool.or_eq_true, decide_eq_true_eq, List.mem_cons, List.not_mem_nil,
    or_false] at allowed
  rcases allowed with letter | rfl | rfl | rfl | rfl | rfl
  · exact isInert_of_isAlphanumeric letter
  · decide
  · decide
  · decide
  · decide
  · decide

theorem isBlank_of_isSelectorChar {c : Char} (allowed : isSelectorChar c) :
    Text.isBlank c = false := by
  by_cases colon : c = ':'
  · rw [colon]
    rfl
  · exact isBlank_of_isInert (isInert_of_isSelectorChar allowed colon)

/-- The facts about the words of a branch. -/
theorem mem_branch {words : List Text} (branch : isBranch words) :
    words ≠ [] ∧ ∀ w ∈ words, w ≠ [] ∧ (∀ c ∈ w, isSelectorChar c) ∧ ∀ c ∈ w.getLast?, c ≠ ':' := by
  simp only [isBranch, Bool.and_eq_true, List.all_eq_true, Bool.not_eq_true',
    List.isEmpty_eq_false_iff, decide_eq_true_eq] at branch
  refine ⟨branch.1, fun w member => ?_⟩
  obtain ⟨⟨nonempty, chars⟩, last⟩ := branch.2 w member
  refine ⟨nonempty, chars, ?_⟩
  rintro c final rfl
  exact last final

theorem phrase_ne_nil {words : List Text} (nonempty : words ≠ []) (visible : ∀ w ∈ words, w ≠ []) :
    phrase words ≠ [] := by
  obtain ⟨w, ws, rfl⟩ := List.exists_cons_of_ne_nil nonempty
  exact Text.intercalate_ne_nil _ ws (visible w List.mem_cons_self)

/-- The words of a branch make a clean branch. -/
theorem clean_phrase {words : List Text} (branch : isBranch words) :
    Selector.Clean (phrase words) := by
  obtain ⟨nonempty, facts⟩ := mem_branch branch
  refine ⟨phrase_ne_nil nonempty fun w member => (facts w member).1, ?_, ?_, ?_, ?_⟩
  · apply Text.Tidy.intercalate
    intro w member
    exact ⟨(facts w member).1,
      fun c inside => isBlank_of_isSelectorChar ((facts w member).2.1 c inside)⟩
  · intro c member space colon
    rcases Text.mem_intercalate member with separator | ⟨w, listed, inside⟩
    · exact absurd (List.mem_singleton.mp separator) space
    · exact isInert_of_isSelectorChar ((facts w listed).2.1 c inside) colon
  · clear branch nonempty
    induction words with
    | nil => exact List.isChain_nil
    | cons w words ih =>
      obtain ⟨visible, chars, last⟩ := facts w List.mem_cons_self
      have own : w.IsChain fun c d => ¬ (c = ':' ∧ d = ' ') := by
        apply List.Pairwise.isChain
        apply List.pairwise_iff_forall_sublist.mpr
        rintro c d both ⟨_, rfl⟩
        have blank := isBlank_of_isSelectorChar (chars ' ' (both.subset (by simp)))
        cases blank
      have later := ih fun v member => facts v (List.mem_cons_of_mem w member)
      cases words with
      | nil => simpa [phrase] using own
      | cons v words =>
        rw [phrase, List.intercalate_cons_cons, List.append_assoc, List.singleton_append]
        refine List.isChain_append.mpr ⟨own, List.isChain_cons.mpr ⟨by simp, later⟩, ?_⟩
        intro c final d _
        simp [last c final]
  · intro c final
    obtain ⟨w, listed, last⟩ :=
      Text.mem_getLast?_intercalate (fun w member => (facts w member).1) final
    exact (facts w listed).2.2 c last

theorem clean_phrases {branches : List (List Text)} (own : ∀ words ∈ branches, isBranch words) :
    ∀ b ∈ branches.map phrase, Selector.Clean b := by
  intro b member
  obtain ⟨words, listed, rfl⟩ := List.mem_map.mp member
  exact clean_phrase (own words listed)

theorem clean_declaration {key : Text} {value : List Text} (keyOk : isKey key)
    (valueOk : isValue value) :
    Declaration.Clean ⟨key, phrase value⟩ := by
  simp only [isKey, Bool.and_eq_true, Bool.not_eq_true', List.isEmpty_eq_false_iff,
    List.all_eq_true, decide_eq_true_eq] at keyOk
  simp only [isValue, Bool.and_eq_true, Bool.not_eq_true', List.isEmpty_eq_false_iff,
    List.all_eq_true] at valueOk
  refine ⟨keyOk.1, fun c member => ?_, ?_, fun c member space => ?_⟩
  · exact isInert_of_isSelectorChar (keyOk.2 c member).1 (keyOk.2 c member).2
  · apply Text.Tidy.intercalate
    intro w member
    exact ⟨(valueOk w member).1,
      fun c inside => isBlank_of_isInert (isInert_of_isValueChar ((valueOk w member).2 c inside))⟩
  · rcases Text.mem_intercalate member with separator | ⟨w, listed, inside⟩
    · exact absurd (List.mem_singleton.mp separator) space
    · exact isInert_of_isValueChar ((valueOk w listed).2 c inside)

/-- The selectors around a rule, and the branches that they come to. -/
structure Names (ancestors outer : List Text) : Prop where
  empty : ancestors = [] ↔ outer = []
  clean : ∀ b ∈ outer, Selector.Clean b
  branches : Selector.branches (Selector.effective ancestors) = outer

theorem Names.nil : Names [] [] := ⟨by simp, by simp, rfl⟩

/-- The branches of a rule inside other rules are all combinations with theirs. -/
theorem Names.append {ancestors outer : List Text} (names : Names ancestors outer)
    {branches : List (List Text)} (nonempty : branches ≠ [])
    (own : ∀ words ∈ branches, isBranch words) :
    Names (ancestors ++ [selector branches]) (inside outer (branches.map phrase)) ∧
      Text.Tidy (Selector.effective (ancestors ++ [selector branches])) := by
  have cleanOwn := clean_phrases own
  have tidy : Text.Tidy (selector branches) := Selector.tidy_intercalate cleanOwn (.inl rfl)
  have found : Selector.branches (selector branches) = branches.map phrase :=
    Selector.branches_intercalate (w := []) (by simp) (Selector.separate_of_clean cleanOwn)
  by_cases outermost : ancestors = []
  · have noOuter := names.empty.mp outermost
    subst outermost noOuter
    rw [List.nil_append, Selector.effective_singleton, Text.collapse_eq_self tidy]
    refine ⟨⟨by simp [inside, nonempty], cleanOwn, ?_⟩, tidy⟩
    rw [Selector.effective_singleton, Text.collapse_eq_self tidy]
    exact found
  · have someOuter : outer ≠ [] := fun none => outermost (names.empty.mpr none)
    have cleanProduct : ∀ b ∈ Selector.product outer (branches.map phrase), Selector.Clean b := by
      intro b member
      obtain ⟨o, inOuter, i, inOwn, rfl⟩ := Selector.mem_product member
      exact (names.clean o inOuter).combine (cleanOwn i inOwn)
    have effective : Selector.effective (ancestors ++ [selector branches]) =
        Selector.ofBranches (Selector.product outer (branches.map phrase)) := by
      rw [Selector.effective_append outermost, Text.collapse_eq_self tidy, Selector.nest,
        names.branches, found]
      obtain ⟨o, outer, rfl⟩ := List.exists_cons_of_ne_nil someOuter
      rfl
    have product : inside outer (branches.map phrase) =
        Selector.product outer (branches.map phrase) :=
      if_neg someOuter
    rw [effective, product]
    refine ⟨⟨?_, cleanProduct, ?_⟩, Selector.tidy_intercalate cleanProduct (.inr rfl)⟩
    · obtain ⟨o, outer, rfl⟩ := List.exists_cons_of_ne_nil someOuter
      obtain ⟨words, branches, rfl⟩ := List.exists_cons_of_ne_nil nonempty
      simp [Selector.product]
    · rw [effective]
      exact Selector.branches_intercalate Text.isBlank_space
        (Selector.separate_of_clean cleanProduct)

def forest : Nested → Forest
  | done => .empty
  | declaration key value rest => .entry (.declaration key (phrase value)) rest.forest
  | rule branches items rest => .block (.rule (selector branches)) items.forest rest.forest

theorem isField_selector {branches : List (List Text)}
    (own : ∀ words ∈ branches, isBranch words) : IsField (selector branches) := by
  have clean := clean_phrases own
  refine ⟨Selector.tidy_intercalate clean (.inl rfl), fun c member => ?_⟩
  rcases Text.mem_intercalate member with separator | ⟨b, listed, inside⟩
  · rw [List.mem_singleton.mp separator]
    decide
  · exact (clean b listed).running c inside

/-- The source is one way to write the tree. -/
theorem spelling {sheet : Nested} (wellFormed : sheet.isWellFormed) {place : Option Construct}
    (placed : place ≠ none ∨ sheet.declarations = []) :
    Forest.Spelling place sheet.forest sheet.source := by
  induction sheet generalizing place with
  | done => exact .empty
  | declaration key value rest ih =>
    simp only [isWellFormed, Bool.and_eq_true] at wellFormed
    obtain ⟨⟨keyOk, valueOk⟩, restOk⟩ := wellFormed
    have inBlock : place ≠ none := placed.resolve_right (by simp [declarations])
    have clean := clean_declaration keyOk valueOk
    have spelled := Entry.Spelling.of_fields inBlock clean.visible
      (fun colon => by cases clean.key ':' colon) clean.isField_key clean.isField_value [] [] []
      (by simp) (by simp) (by simp)
    have whole := Forest.Spelling.entry spelled (ih restOk (.inl inBlock))
    simpa [source, forest] using whole
  | rule branches items rest itemsIh restIh =>
    simp only [isWellFormed, Bool.and_eq_true, List.all_eq_true] at wellFormed
    obtain ⟨⟨⟨_, own⟩, itemsOk⟩, restOk⟩ := wellFormed
    have opened := Opening.Spelling.of_field (isField_selector own) [] (by simp)
    have whole :=
      Forest.Spelling.block opened (itemsIh itemsOk (.inl (by simp))) (restIh restOk placed)
    simpa [source, forest] using whole

/-- Nothing in nested rules is left to resolve, and nothing in them breaks a line. -/
theorem mem_stream {sheet : Nested} (wellFormed : sheet.isWellFormed) :
    ∀ token ∈ sheet.forest.stream, token.Settled ∧ token.Unbroken := by
  induction sheet with
  | done => simp [forest, Forest.stream]
  | declaration key value rest ih =>
    simp only [isWellFormed, Bool.and_eq_true] at wellFormed
    obtain ⟨⟨keyOk, valueOk⟩, restOk⟩ := wellFormed
    have clean := clean_declaration keyOk valueOk
    exact Forest.forall_stream_entry.mpr ⟨⟨clean.settled, clean.unbroken⟩, ih restOk⟩
  | rule branches items rest itemsIh restIh =>
    simp only [isWellFormed, Bool.and_eq_true] at wellFormed
    obtain ⟨⟨_, itemsOk⟩, restOk⟩ := wellFormed
    exact Forest.forall_stream_block.mpr
      ⟨⟨trivial, trivial⟩, itemsIh itemsOk, ⟨trivial, trivial⟩, restIh restOk⟩

theorem clean_declarations {sheet : Nested} (wellFormed : sheet.isWellFormed) :
    ∀ d ∈ sheet.declarations, d.Clean := by
  induction sheet with
  | done => simp [declarations]
  | declaration key value rest ih =>
    simp only [isWellFormed, Bool.and_eq_true] at wellFormed
    obtain ⟨⟨keyOk, valueOk⟩, restOk⟩ := wellFormed
    intro d member
    rcases List.mem_cons.mp member with rfl | later
    · exact clean_declaration keyOk valueOk
    · exact ih restOk d later
  | rule branches items rest _ ih =>
    simp only [isWellFormed, Bool.and_eq_true] at wellFormed
    exact ih wellFormed.2

theorem lines_forest {sheet : Nested} (wellFormed : sheet.isWellFormed) :
    sheet.forest.lines 1 = Block.Gaps.printed.body sheet.declarations := by
  induction sheet with
  | done => rfl
  | declaration key value rest ih =>
    have clean := clean_declarations wellFormed ⟨key, phrase value⟩ List.mem_cons_self
    simp only [isWellFormed, Bool.and_eq_true] at wellFormed
    have unpadded := clean.unpadded_eq
    simp only [forest, Forest.lines_entry, Entry.print, Layout.declaration, unpadded,
      ih wellFormed.2, declarations, Block.Gaps.body, List.flatMap_cons, Block.Gaps.line]
    simp [Layout.indent, Block.Gaps.printed]
  | rule branches items rest _ ih =>
    simp only [isWellFormed, Bool.and_eq_true] at wellFormed
    exact ih wellFormed.2

/-- What is printed for nested rules is the list of their blocks. -/
theorem print_forest {sheet : Nested} (wellFormed : sheet.isWellFormed)
    {ancestors outer : List Text}
    (names : Names ancestors outer) (placed : ancestors ≠ [] ∨ sheet.declarations = []) :
    (∀ b ∈ sheet.blocks outer, b.Clean) ∧
      sheet.forest.print ancestors 0 = (sheet.blocks outer).flatMap fun b => '\n' :: b.print := by
  induction sheet generalizing ancestors outer with
  | done => exact ⟨by simp [blocks], rfl⟩
  | declaration key value rest ih =>
    simp only [isWellFormed, Bool.and_eq_true] at wellFormed
    have inside : ancestors ≠ [] := placed.resolve_right (by simp [declarations])
    obtain ⟨clean, printed⟩ := ih wellFormed.2 names (.inl inside)
    refine ⟨clean, ?_⟩
    simp only [forest, Forest.print, if_neg inside, List.nil_append]
    exact printed
  | rule branches items rest itemsIh restIh =>
    have wf := wellFormed
    simp only [isWellFormed, Bool.and_eq_true, List.all_eq_true, Bool.not_eq_true',
      List.isEmpty_eq_false_iff] at wf
    obtain ⟨⟨⟨nonempty, own⟩, itemsOk⟩, restOk⟩ := wf
    obtain ⟨inner, tidy⟩ := names.append nonempty own
    have innerBranches : inside outer (branches.map phrase) ≠ [] := fun none =>
      absurd (inner.empty.mpr none) (by simp)
    obtain ⟨cleanItems, printedItems⟩ := itemsIh itemsOk inner (.inl (by simp))
    obtain ⟨cleanRest, printedRest⟩ := restIh restOk names placed
    have ownClean : Block.Clean ⟨inside outer (branches.map phrase), items.declarations⟩ :=
      ⟨innerBranches, inner.clean, clean_declarations itemsOk⟩
    constructor
    · intro b member
      simp only [blocks, List.mem_cons, List.mem_append] at member
      rcases member with rfl | inItems | inRest
      · exact ownClean
      · exact cleanItems b inItems
      · exact cleanRest b inRest
    · have header : Layout.selector (Selector.effective (ancestors ++ [selector branches])) 0 =
          Block.Gaps.printed.head (inside outer (branches.map phrase)) := by
        rw [Layout.selector, Text.collapse_eq_self tidy, inner.branches]
        rfl
      simp only [forest, Forest.print, Layout.block, Layout.braces, header, lines_forest itemsOk,
        printedItems, printedRest, blocks, List.flatMap_cons, List.flatMap_append,
        Block.print_eq_written, Block.written]
      simp [Layout.indent, Block.Gaps.printed]

end Nested

/-- Nested rules are compiled to the list of their blocks, each with every combination of its
branches and those around it; compacted output is the blocks without blanks and last
semicolons. -/
theorem compile_nested (sheet : Nested) (wellFormed : sheet.isWellFormed)
    (rulesOnly : sheet.declarations = []) (volume : Volume) (directory : Path) :
    compile volume ⟨directory, false⟩ sheet.source =
        .ok (['\n'].intercalate ((sheet.blocks []).map Block.print)) ∧
      compile volume ⟨directory, true⟩ sheet.source =
        .ok ((sheet.blocks []).flatMap Block.compacted) := by
  obtain ⟨clean, printed⟩ := Nested.print_forest wellFormed .nil (.inr rulesOnly)
  have facts := Nested.mem_stream wellFormed
  have lined := Forest.lined_print (fun token member => (facts token member).2) [] 0
  have compiled : ∀ options, compile volume options sheet.source =
      .ok (options.print (sheet.forest.print [] 0)) :=
    compile_spelling (Nested.spelling wellFormed (.inr rulesOnly))
      (fun token member => (facts token member).1)
      volume
  rw [printed] at lined compiled
  have finished := Block.finish_lines clean lined
  constructor
  · rw [compiled]
    simp only [Options.print, Bool.false_eq_true, ↓reduceIte, finished, Block.printAll]
  · rw [compiled]
    simp only [Options.print, ↓reduceIte, finished, Block.compact_printAll clean]

/-- Two branches around two branches, one of which places the outer branch itself. -/
def Nested.hovering : Nested :=
  .rule [[['a']], [['b'], ['c']]]
    (.declaration ['k'] [['v'], ['w']]
      (.rule [["&:hover".toList], [['d']]] (.declaration ['x'] [['y']] .done)
        (.declaration ['l'] [['m']] .done)))
    .done

theorem compile_nested_hovering :
    Nested.hovering.isWellFormed = true ∧ Nested.hovering.declarations = [] ∧
      compile ⟨[], []⟩ ⟨⟨['.']⟩, false⟩ "a,b c\x7bk:v w;&:hover,d\x7bx:y;\x7dl:m;\x7d".toList =
        .ok ("a,\nb c \x7b\n  k: v w;\n  l: m;\n\x7d\n" ++
          "a:hover,\na d,\nb c:hover,\nb c d \x7b\n  x: y;\n\x7d").toList ∧
      compile ⟨[], []⟩ ⟨⟨['.']⟩, true⟩ "a,b c\x7bk:v w;&:hover,d\x7bx:y;\x7dl:m;\x7d".toList =
        .ok "a,b c\x7bk:v w;l:m\x7da:hover,a d,b c:hover,b c d\x7bx:y\x7d".toList := by
  have wellFormed : Nested.hovering.isWellFormed = true := by decide
  have compiled := compile_nested Nested.hovering wellFormed rfl ⟨[], []⟩ ⟨['.']⟩
  have written : Nested.hovering.source =
      "a,b c\x7bk:v w;&:hover,d\x7bx:y;\x7dl:m;\x7d".toList := by
    decide +kernel
  rw [written] at compiled
  refine ⟨wellFormed, rfl, compiled.1.trans ?_, compiled.2.trans ?_⟩
  · exact congrArg Except.ok (by decide +kernel)
  · exact congrArg Except.ok (by decide +kernel)

end Stylesheet
