import Stylesheet.Proofs.Reprint

set_option autoImplicit false

namespace Stylesheet

open Scan

/-- Whether an entry has to stand in a block. -/
def Entry.isDeclaration : Entry → Bool
  | declaration _ _ => true
  | statement _ _ | comment _ => false

theorem Layout.isRemark_remark {text : Text} (remarks : ∀ c ∈ text, isRemark c ∧ c ≠ '}')
    (depth : Nat) :
    ∀ c ∈ remark text depth, isRemark c ∧ c ≠ '}' := by
  have words : ∀ c ∈ Text.collapse (text.filter (· ≠ '*')), isRemark c ∧ c ≠ '}' := by
    intro c inWords
    rcases Text.mem_collapse inWords with rfl | inText
    · decide
    · exact remarks c (List.mem_of_mem_filter inText)
  exact forall_remark (by decide) (by decide) (by decide) words depth

/-- A printed entry is a way to write what is read again. -/
theorem Entry.spelling_again {e : Entry} (tame : (Resolved.entry e).Tame) {place : Option Construct}
    (placed : place ≠ none ∨ e.isDeclaration = false) (depth : Nat) {rest : Forest} {u : Text}
    (later : rest.Spelling place u) :
    (Forest.entry (e.again depth) rest).Spelling place (e.print depth ++ u) := by
  cases e with
  | declaration key value =>
    obtain ⟨visible, keyField, uncut, valueField, _, _⟩ := tame
    have once := Layout.unpadded_eq_unpadOnce valueField.tidy.sparse
    have onceField : IsField (Layout.unpadOnce value) :=
      ⟨Layout.tidy_unpadOnce valueField.tidy,
        fun c member => valueField.running c (Layout.mem_unpadOnce member)⟩
    have inBlock := placed.resolve_right (by simp [isDeclaration])
    have spelled := Entry.Spelling.of_fields inBlock visible uncut keyField onceField [] [' '] []
      (by simp) (List.forall_mem_singleton.mpr rfl) (by simp)
    have whole := Forest.Spelling.blanks (Layout.isGap_indent depth) (.entry spelled later)
    simpa [again, print, Layout.declaration, once] using whole
  | statement name params =>
    obtain ⟨named, field, _⟩ := tame
    have spelled : Entry.Spelling place _ _ := .of_header named field [] (by simp)
    have whole := Forest.Spelling.blanks (Layout.isGap_indent depth) (.entry spelled later)
    simpa [again, print, Layout.statement] using whole
  | comment text =>
    have remarks := Layout.isRemark_remark tame depth
    have spelled : Entry.Spelling place _ _ := .of_remark remarks
    have ended : rest.Spelling place ('\n' :: u) := .blank (by decide) later
    have whole := Forest.Spelling.blank (c := '\n') (by decide)
      (Forest.Spelling.blanks (Layout.isGap_indent depth) (.entry spelled ended))
    simpa [again, print, Layout.comment_eq] using whole

namespace Forest

theorem spelling_ofEntries {entries : List Entry} (tame : ∀ e ∈ entries, (Resolved.entry e).Tame)
    {place : Option Construct} (inside : place ≠ none) (depth : Nat) :
    (ofEntries (entries.map (Entry.again depth))).Spelling place
      (entries.flatMap (Entry.print depth)) := by
  induction entries with
  | nil => exact .empty
  | cons e entries ih =>
    have later := ih fun other member => tame other (List.mem_cons_of_mem e member)
    rw [List.flatMap_cons]
    exact Entry.spelling_again (tame e List.mem_cons_self) (.inl inside) depth later

end Forest

theorem Layout.isRunning_selector {selector : Text} (running : ∀ c ∈ selector, isRunning c)
    (depth : Nat) :
    ∀ c ∈ Layout.selector selector depth, isRunning c := by
  intro c member
  rcases Text.mem_intercalate member with separator | ⟨branch, listed, inside⟩
  · rcases List.mem_cons.mp separator with rfl | inIndent
    · decide
    · exact isRunning_of_isGap (isGap_indent depth c inIndent)
  · have inSelector := (Selector.infix_of_mem_branches listed).subset inside
    rcases Text.mem_collapse inSelector with rfl | own
    · decide
    · exact running c own

namespace Forest

/-- The printed block of a rule is a way to write what is read again. -/
theorem spelling_ruleAgain {ancestors : List Text}
    (running : ∀ selector ∈ ancestors, ∀ c ∈ selector, isRunning c) {inner rest : Forest}
    (tame : ∀ e ∈ inner.entries, (Resolved.entry e).Tame) {place : Option Construct} (depth : Nat)
    {v : Text} (later : rest.Spelling place v) :
    (ruleAgain ancestors depth inner rest).Spelling place
      (Layout.block (Selector.effective ancestors) (inner.lines (depth + 1)) depth ++ v) := by
  have effective : ∀ c ∈ Selector.effective ancestors, isRunning c :=
    Selector.forall_effective (P := fun c => isRunning c) (by decide) (by decide) running
  have header : ∀ c ∈ Layout.selector (Selector.effective ancestors) depth ++ [' '],
      isRunning c := by
    intro c member
    rcases List.mem_append.mp member with inSelector | space
    · exact Layout.isRunning_selector effective depth c inSelector
    · rw [List.mem_singleton.mp space]
      decide
  have body : Spelling (some .rule) _ _ :=
    (spelling_ofEntries tame (by simp) (depth + 1)).append_blanks (Layout.isGap_indent depth)
  have spelled : Spelling place _ _ := .block (.rule _ header) body later
  have whole := Spelling.blanks (Layout.isGap_indent depth) spelled
  simpa [ruleAgain, Layout.block, Layout.braces, lines, Selector.again] using whole

theorem spelling_atBlock {name params : Text} (named : IsName name) (field : IsField params)
    {inner rest : Forest} {place : Option Construct} (depth : Nat) {u v : Text}
    (inside : inner.Spelling (some .atBlock) u) (later : rest.Spelling place v) :
    (block (.atRule name params) inner rest).Spelling place
      (Layout.atBlock (Layout.header name params) u depth ++ v) := by
  have opened := Opening.Spelling.of_header named field [' '] (List.forall_mem_singleton.mpr rfl)
  have ended : inner.Spelling (some .atBlock) (u ++ Layout.indent depth) :=
    inside.append_blanks (Layout.isGap_indent depth)
  have spelled : Spelling place _ _ := .block opened ended (.blank (c := '\n') (by decide) later)
  have whole := Spelling.blanks (Layout.isGap_indent depth) spelled
  simpa [Layout.atBlock, Layout.braces] using whole

/-- Output is a way to write the flat forest. -/
theorem spelling_flat {forest : Forest} (tame : ∀ token ∈ forest.stream, token.Tame)
    {ancestors : List Text} (running : ∀ selector ∈ ancestors, ∀ c ∈ selector, isRunning c)
    {place : Option Construct}
    (placed : place ≠ none ∨ ancestors ≠ [] ∨ ∀ e ∈ forest.entries, e.isDeclaration = false)
    (depth : Nat) :
    (forest.flat ancestors depth).Spelling place (forest.print ancestors depth) := by
  induction forest generalizing ancestors place depth with
  | empty => exact .empty
  | entry e rest ih =>
    obtain ⟨own, others⟩ := forall_stream_entry.mp tame
    have later := ih others running
      (placed.imp_right (Or.imp_right fun none other member =>
        none other (List.mem_cons_of_mem e member)))
      depth
    by_cases outside : ancestors = []
    · subst outside
      have here : place ≠ none ∨ e.isDeclaration = false :=
        placed.imp_right fun bare => (bare.resolve_left (by simp)) e List.mem_cons_self
      exact Entry.spelling_again own here depth later
    · simpa only [flat, print, outside, ↓reduceIte, List.nil_append] using later
  | block opening inner rest innerIh restIh =>
    obtain ⟨own, inside, _, others⟩ := forall_stream_block.mp tame
    have entries : ∀ e ∈ inner.entries, (Resolved.entry e).Tame := fun e member =>
      inside _ (entry_mem_stream member)
    have later := restIh others running placed depth
    cases opening with
    | rule selector =>
      have extended : ∀ s ∈ ancestors ++ [selector], ∀ c ∈ s, isRunning c :=
        List.forall_mem_append.mpr ⟨running, List.forall_mem_singleton.mpr own⟩
      have nested : Spelling place _ _ := innerIh inside extended (.inr (.inl (by simp))) depth
      simpa only [flat, print, List.append_assoc] using
        spelling_ruleAgain extended entries depth (nested.append later)
    | atRule name params =>
      obtain ⟨named, field, _⟩ := own
      have wrappedSpelled : (inner.wrappedAgain ancestors (depth + 1)).Spelling (some .atBlock)
          (inner.wrapped ancestors (depth + 1)) := by
        unfold wrappedAgain wrapped
        split
        · exact .empty
        · simpa using spelling_ruleAgain running entries (depth + 1) .empty
      have nested : Spelling (some .atBlock) _ _ :=
        innerIh inside running (.inl (by simp)) (depth + 1)
      exact spelling_atBlock named field depth (wrappedSpelled.append nested) later

end Forest

namespace Resolved.Tame

theorem unbroken {token : Resolved} (tame : token.Tame) : token.Unbroken := by
  match token, tame with
  | .entry (.declaration key value), ⟨_, keyField, _, valueField, _⟩ =>
    refine ⟨keyField.unbroken, fun member => valueField.unbroken ?_⟩
    rw [Layout.unpadded_eq_unpadOnce valueField.tidy.sparse] at member
    exact Layout.mem_unpadOnce member
  | .entry (.statement name params), ⟨named, field, _⟩ => exact ⟨named.unbroken, field.unbroken⟩
  | .opens (.atRule name params), ⟨named, field, _⟩ => exact ⟨named.unbroken, field.unbroken⟩
  | .entry (.comment text), _ => trivial
  | .opens (.rule selector), _ => trivial
  | .closes, _ => trivial

theorem settled {token : Resolved} (tame : token.Tame) : token.Settled := by
  match token, tame with
  | .entry (.declaration key value), ⟨_, _, _, _, noVariable, noImage⟩ =>
    exact ⟨noVariable, fun _ suffix => Image.referenceLength_eq_zero noImage suffix⟩
  | .entry (.statement name params), ⟨_, _, ordinary⟩ => exact ordinary
  | .opens (.atRule name params), ⟨_, _, ordinary⟩ => exact ordinary
  | .entry (.comment text), _ => trivial
  | .opens (.rule selector), _ => trivial
  | .closes, _ => trivial

/-- Nothing to resolve comes up when an entry is printed and read again. -/
theorem settled_again {e : Entry} (tame : (Resolved.entry e).Tame) (depth : Nat) :
    (Resolved.entry (e.again depth)).Settled := by
  cases e with
  | declaration key value =>
    obtain ⟨_, _, _, field, noVariable, noImage⟩ := tame
    have once := Layout.unpadded_eq_unpadOnce field.tidy.sparse
    refine ⟨fun member => noVariable (Layout.mem_unpadOnce (once ▸ member)), ?_⟩
    rw [once]
    intro u suffix
    exact Image.referenceLength_eq_zero
      (fun mentioned => noImage (Image.mentioned_of_unpadOnce mentioned)) suffix
  | statement name params => exact tame.settled
  | comment text => trivial

end Resolved.Tame

namespace Forest

theorem stream_ofEntries (entries : List Entry) :
    (ofEntries entries).stream = entries.map Resolved.entry := by
  induction entries with
  | nil => rfl
  | cons e entries ih => exact congrArg (Resolved.entry e :: ·) ih

theorem settled_ruleAgain {ancestors : List Text} {inner rest : Forest}
    (tame : ∀ e ∈ inner.entries, (Resolved.entry e).Tame) (depth : Nat)
    (later : ∀ token ∈ rest.stream, token.Settled) :
    ∀ token ∈ (ruleAgain ancestors depth inner rest).stream, token.Settled := by
  refine forall_stream_block.mpr ⟨trivial, ?_, trivial, later⟩
  rw [stream_ofEntries, List.map_map]
  intro token member
  obtain ⟨e, listed, rfl⟩ := List.mem_map.mp member
  exact Resolved.Tame.settled_again (tame e listed) (depth + 1)

theorem settled_flat {forest : Forest} (tame : ∀ token ∈ forest.stream, token.Tame)
    (ancestors : List Text) (depth : Nat) :
    ∀ token ∈ (forest.flat ancestors depth).stream, token.Settled := by
  induction forest generalizing ancestors depth with
  | empty => simp [flat, stream]
  | entry e rest ih =>
    obtain ⟨own, others⟩ := forall_stream_entry.mp tame
    have later := ih others ancestors depth
    rw [flat]
    split
    · exact forall_stream_entry.mpr ⟨own.settled_again depth, later⟩
    · exact later
  | block opening inner rest innerIh restIh =>
    obtain ⟨own, inside, _, others⟩ := forall_stream_block.mp tame
    have entries : ∀ e ∈ inner.entries, (Resolved.entry e).Tame := fun e member =>
      inside _ (entry_mem_stream member)
    have later := restIh others ancestors depth
    cases opening with
    | rule selector =>
      apply settled_ruleAgain entries
      rw [stream_append]
      exact List.forall_mem_append.mpr ⟨innerIh inside _ depth, later⟩
    | atRule name params =>
      have wrapped :
          ∀ token ∈ (inner.wrappedAgain ancestors (depth + 1)).stream, token.Settled := by
        unfold wrappedAgain
        split
        · simp [stream]
        · exact settled_ruleAgain entries (depth + 1) (by simp [stream])
      refine forall_stream_block.mpr ⟨own.settled, ?_, trivial, later⟩
      rw [stream_append]
      exact List.forall_mem_append.mpr ⟨wrapped, innerIh inside ancestors (depth + 1)⟩

/-- What is printed for a forest is compiled to itself. -/
theorem compile_finish {forest : Forest} (tame : ∀ token ∈ forest.stream, token.Tame)
    (bare : ∀ e ∈ forest.entries, e.isDeclaration = false) (volume : Volume) (directory : Path) :
    compile volume ⟨directory, false⟩ (Layout.finish (forest.print [] 0)) =
      .ok (Layout.finish (forest.print [] 0)) := by
  have lined := lined_print (fun token member => (tame token member).unbroken) [] 0
  have printed : (forest.flat [] 0).Spelling none (forest.print [] 0) :=
    spelling_flat tame (by simp) (.inr (.inr bare)) 0
  have spelled : (forest.flat [] 0).Spelling none (Layout.finish (forest.print [] 0)) := by
    -- What the last pass leaves out are line breaks after closing braces, and blanks at the ends.
    rw [Layout.finish, Layout.dropPaddingLines_eq_self lined]
    exact (printed.thinned (Layout.thinned_closingGaps _)).trim
  rw [compile_spelling spelled (settled_flat tame [] 0), print_flat tame (by simp)]
  simp only [Options.print, Bool.false_eq_true, ↓reduceIte]

end Forest

end Stylesheet
