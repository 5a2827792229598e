import Stylesheet.Proofs.Clean
import Stylesheet.Proofs.Values

set_option autoImplicit false

namespace Stylesheet

open Scan

/-- Whether a token can be printed and read again. -/
def Resolved.Tame : Resolved → Prop
  | entry (.declaration key value) =>
    key ≠ [] ∧ IsField key ∧ ':' ∉ key ∧ IsField value ∧ '$' ∉ value ∧ ¬ Image.Mentioned value
  | entry (.statement name params) => IsName name ∧ IsField params ∧
    name ≠ Keyword.declare.text ∧ name ≠ Keyword.mixin.text ∧ name ≠ Keyword.load.text
  | entry (.comment text) => ∀ c ∈ text, isRemark c ∧ c ≠ '}'
  | opens (.rule selector) => ∀ c ∈ selector, isRunning c
  | opens (.atRule name params) => IsName name ∧ IsField params ∧ name ≠ Keyword.define.text
  | closes => True

/-- What stands between the marks of a printed comment. -/
def Layout.remark (text : Text) (depth : Nat) : Text :=
  '*' :: (indent depth ++ ([' ', '*', ' '] ++ (Text.collapse (text.filter (· ≠ '*')) ++
    (indent depth ++ [' ']))))

theorem Layout.comment_eq (text : Text) (depth : Nat) :
    comment text depth =
      '\n' :: (indent depth ++ ('/' :: '*' :: (remark text depth ++ ['*', '/'])) ++ ['\n']) := by
  simp [comment, remark]

/-- A comment is printed with its words, stars and blanks. -/
theorem Layout.forall_remark {P : Char → Prop} (star : P '*') (space : P ' ') (lineBreak : P '\n')
    {text : Text} (words : ∀ c ∈ Text.collapse (text.filter (· ≠ '*')), P c) (depth : Nat) :
    ∀ c ∈ remark text depth, P c := by
  have blank : ∀ c ∈ indent depth, P c := by
    intro c member
    rcases List.mem_cons.mp member with rfl | inSpaces
    · exact lineBreak
    · rw [(List.mem_replicate.mp inSpaces).2]
      exact space
  intro c member
  simp only [remark, List.mem_cons, List.mem_append, List.not_mem_nil, or_false] at member
  rcases member with rfl | inIndent | (rfl | rfl | rfl) | inWords | inIndent | rfl
  · exact star
  · exact blank c inIndent
  · exact space
  · exact star
  · exact space
  · exact words c inWords
  · exact blank c inIndent
  · exact space

/-- A printed entry as it is read again. -/
def Entry.again (depth : Nat) : Entry → Entry
  | declaration key value => declaration key (Layout.unpadded value)
  | statement name params => statement name params
  | comment text => comment (Text.trim (Layout.remark text depth))

def Selector.again (selector : Text) (depth : Nat) : Text :=
  Text.trim (spaced (Layout.selector selector depth ++ [' ']))

namespace Forest

def ofEntries (entries : List Entry) : Forest := entries.foldr entry empty

def ruleAgain (ancestors : List Text) (depth : Nat) (inner rest : Forest) : Forest :=
  block (.rule (Selector.again (Selector.effective ancestors) depth))
    (ofEntries (inner.entries.map (Entry.again (depth + 1)))) rest

/-- The entries of an at-rule inside rules, as they are read again. -/
def wrappedAgain (ancestors : List Text) (depth : Nat) (inner : Forest) : Forest :=
  if ancestors = [] ∨ inner.entries = [] then empty else ruleAgain ancestors depth inner empty

/-- The forest that is read from the output of a forest. -/
def flat (ancestors : List Text) (depth : Nat) : Forest → Forest
  | empty => empty
  | entry e rest =>
    if ancestors = [] then entry (e.again depth) (rest.flat ancestors depth)
    else rest.flat ancestors depth
  | block (.rule selector) inner rest =>
    ruleAgain (ancestors ++ [selector]) depth inner
      ((inner.flat (ancestors ++ [selector]) depth).append (rest.flat ancestors depth))
  | block (.atRule name params) inner rest =>
    block (.atRule name params)
      ((inner.wrappedAgain ancestors (depth + 1)).append (inner.flat ancestors (depth + 1)))
      (rest.flat ancestors depth)

end Forest

theorem Layout.isGap_indent (depth : Nat) : ∀ c ∈ indent depth, isGap c := by
  intro c member
  rcases List.mem_cons.mp member with rfl | space
  · decide
  · rw [(List.mem_replicate.mp space).2]
    decide

theorem Layout.isBlank_indent (depth : Nat) {t : Text} (spaces : ∀ c ∈ t, c = ' ') :
    ∀ c ∈ indent depth ++ t, Text.isBlank c := by
  intro c member
  rcases List.mem_append.mp member with inIndent | inSpaces
  · exact isBlank_of_isGap (isGap_indent depth c inIndent)
  · rw [spaces c inSpaces]
    rfl

/-- The words of a comment are found again. -/
theorem Layout.collapse_remark (text : Text) (depth : Nat) :
    Text.collapse ((Text.trim (remark text depth)).filter (· ≠ '*')) =
      Text.collapse (text.filter (· ≠ '*')) := by
  let inside := Text.collapse (text.filter (· ≠ '*'))
  have keepBlank : ∀ w : Text, (∀ c ∈ w, Text.isBlank c) → w.filter (· ≠ '*') = w := by
    intro w blank
    apply List.filter_eq_self.mpr
    intro c member
    have other : c ≠ '*' := by
      rintro rfl
      cases blank '*' member
    simpa using other
  have unstarred : inside.filter (· ≠ '*') = inside := by
    apply List.filter_eq_self.mpr
    intro c member
    rcases Text.mem_collapse member with rfl | inText
    · rfl
    · exact (List.mem_filter.mp inText).2
  have trimmed : Text.collapse ((Text.trim (remark text depth)).filter (· ≠ '*')) =
      Text.collapse ((remark text depth).filter (· ≠ '*')) := by
    obtain ⟨w, v, split, left, right⟩ := Text.exists_append_trim (remark text depth)
    have whole : (remark text depth).filter (· ≠ '*') =
        w ++ (Text.trim (remark text depth)).filter (· ≠ '*') ++ v := by
      rw [split, List.filter_append, List.filter_append, keepBlank w left, keepBlank v right,
        ← split]
    rw [whole, Text.collapse_append_blanks left _ right]
  have starless : (remark text depth).filter (· ≠ '*') =
      (indent depth ++ [' ', ' ']) ++ inside ++ (indent depth ++ [' ']) := by
    have parts : remark text depth = ['*'] ++ (indent depth ++ ([' '] ++ (['*'] ++ ([' '] ++
        (inside ++ (indent depth ++ [' '])))))) := rfl
    have indented : (indent depth).filter (· ≠ '*') = indent depth :=
      keepBlank _ fun c member => isBlank_of_isGap (isGap_indent depth c member)
    simp only [parts, List.filter_append, indented, unstarred]
    simp
  rw [trimmed, starless, Text.collapse_append_blanks (isBlank_indent depth (by simp)) _
    (isBlank_indent depth (by simp)), Text.collapse_eq_self (Text.tidy_collapse _)]

theorem Entry.print_again {e : Entry} (tame : (Resolved.entry e).Tame) (depth : Nat) :
    (e.again depth).print depth = e.print depth := by
  cases e with
  | declaration key value =>
    obtain ⟨_, _, _, field, _⟩ := tame
    have once := Layout.unpadded_eq_unpadOnce field.tidy.sparse
    have twice : Layout.unpadded (Layout.unpadded value) = Layout.unpadded value := by
      rw [once, Layout.unpadded_eq_unpadOnce (Layout.sparse_unpadOnce field.tidy.sparse),
        Layout.unpadOnce_unpadOnce field.tidy.sparse]
    simp only [again, print, Layout.declaration, twice]
  | statement name params => rfl
  | comment text => simp only [again, print, Layout.comment, Layout.collapse_remark]

/-- Tidy texts with commas and blanks between them. -/
theorem Text.collapse_intercalate {w : Text} (blank : ∀ c ∈ w, isBlank c) (some : w ≠ [])
    {parts : List Text}
    (tidy : ∀ part ∈ parts, part ≠ [] ∧ Tidy part) :
    collapse ((',' :: w).intercalate parts) = [',', ' '].intercalate parts := by
  induction parts with
  | nil => rfl
  | cons part parts ih =>
    obtain ⟨nonempty, own⟩ := tidy part List.mem_cons_self
    have others : ∀ p ∈ parts, p ≠ [] ∧ Tidy p := fun p member =>
      tidy p (List.mem_cons_of_mem part member)
    have later := ih others
    cases parts with
    | nil =>
      rw [List.intercalate_singleton, List.intercalate_singleton]
      exact collapse_eq_self own
    | cons next parts =>
      obtain ⟨b, w, rfl⟩ := List.exists_cons_of_ne_nil some
      have comma : Tidy (part ++ [',']) :=
        own.append (.of_visible (List.forall_mem_singleton.mpr rfl))
      have visibleLeft : words (part ++ [',']) ≠ [] := by
        obtain ⟨c, part, rfl⟩ := List.exists_cons_of_ne_nil nonempty
        exact words_ne_nil (own.head c rfl) _
      have rest : ∀ d ∈ w, isBlank d := fun d member => blank d (List.mem_cons_of_mem b member)
      have dropped := words_append_blanks rest ((',' :: b :: w).intercalate (next :: parts))
      have visibleRight : words (w ++ (',' :: b :: w).intercalate (next :: parts)) ≠ [] := by
        obtain ⟨nextNonempty, nextTidy⟩ := others next List.mem_cons_self
        obtain ⟨c, next, rfl⟩ := List.exists_cons_of_ne_nil nextNonempty
        rw [dropped, intercalate_head_cons]
        exact words_ne_nil (nextTidy.head c rfl) _
      have split : (',' :: b :: w).intercalate (part :: next :: parts) =
          (part ++ [',']) ++ b :: (w ++ (',' :: b :: w).intercalate (next :: parts)) := by
        rw [List.intercalate_cons_cons]
        simp
      rw [split, collapse_append_blank (blank b List.mem_cons_self) visibleLeft visibleRight,
        collapse_eq_self comma, List.intercalate_cons_cons, ← later]
      simp only [collapse, dropped]
      simp

theorem Scan.spaced_intercalate (separator : Text) (parts : List Text) :
    spaced (separator.intercalate parts) = (spaced separator).intercalate (parts.map spaced) := by
  induction parts with
  | nil => rfl
  | cons part parts ih =>
    cases parts with
    | nil => simp
    | cons next parts =>
      rw [List.intercalate_cons_cons, spaced_append, spaced_append, ih, List.map_cons,
        List.map_cons, List.map_cons, List.intercalate_cons_cons]

theorem Layout.spaced_indent (depth : Nat) :
    spaced (indent depth) = ' ' :: List.replicate (2 * depth) ' ' := by
  simp [indent, spaced, isGap, Mark.of]

/-- The branches of a printed selector are found again. -/
theorem Selector.branches_again {selector : Text} (unescaped : '\\' ∉ selector) (depth : Nat) :
    branches (Text.collapse (again selector depth)) = branches (Text.collapse selector) := by
  let bs := branches (Text.collapse selector)
  have noEscape : '\\' ∉ Text.collapse selector := by
    intro member
    rcases Text.mem_collapse member with space | inside
    · cases space
    · exact unescaped inside
  have separate : Separate bs := separate_branches noEscape
  have tidy : ∀ b ∈ bs, b ≠ [] ∧ b.Tidy := fun b member =>
    ⟨separate.visible b member, tidy_of_mem_branches (Text.tidy_collapse selector) member⟩
  have unspaced : spaced (Layout.selector selector depth) =
      (',' :: ' ' :: List.replicate (2 * depth) ' ').intercalate bs := by
    have same : bs.map spaced = bs :=
      (List.map_congr_left fun b member => spaced_tidy (tidy b member).2).trans (List.map_id bs)
    rw [Layout.selector, spaced_intercalate, same, spaced_cons, Layout.spaced_indent]
    rfl
  have padding : ∀ c ∈ ' ' :: List.replicate (2 * depth) ' ', Text.isBlank c := by
    intro c member
    rw [← List.replicate_succ] at member
    rw [(List.mem_replicate.mp member).2]
    rfl
  rw [again, Text.collapse_trim, spaced_append, unspaced]
  have trailing := Text.collapse_append_blanks (w := []) (by simp)
    ((',' :: ' ' :: List.replicate (2 * depth) ' ').intercalate bs) Text.isBlank_space
  rw [List.nil_append] at trailing
  rw [show spaced [' '] = [' '] from rfl, trailing,
    Text.collapse_intercalate padding (by simp) tidy]
  exact branches_intercalate Text.isBlank_space separate

theorem Layout.block_again {selector : Text} (unescaped : '\\' ∉ selector) (body : Text)
    (depth : Nat) :
    block (Text.collapse (Selector.again selector depth)) body depth =
      block selector body depth := by
  have idempotent : Text.collapse (Text.collapse (Selector.again selector depth)) =
      Text.collapse (Selector.again selector depth) := Text.collapse_eq_self (Text.tidy_collapse _)
  rw [block, Layout.selector, idempotent, Selector.branches_again unescaped, ← Layout.selector,
    ← block]

namespace Forest

theorem entries_ofEntries (entries : List Entry) : (ofEntries entries).entries = entries := by
  induction entries with
  | nil => rfl
  | cons e entries ih => exact congrArg (e :: ·) ih

theorem print_ofEntries {ancestors : List Text} (inside : ancestors ≠ []) (depth : Nat)
    (entries : List Entry) : (ofEntries entries).print ancestors depth = [] := by
  induction entries with
  | nil => rfl
  | cons e entries ih =>
    change (if ancestors = [] then _ else []) ++ (ofEntries entries).print ancestors depth = []
    rw [if_neg inside, ih]
    rfl

/-- The tokens directly in a forest are printed as before. -/
theorem lines_again {inner : Forest} (tame : ∀ e ∈ inner.entries, (Resolved.entry e).Tame)
    (depth : Nat) :
    (ofEntries (inner.entries.map (Entry.again depth))).lines depth = inner.lines depth := by
  rw [lines, entries_ofEntries, lines, List.flatMap_map]
  exact List.flatMap_congr fun e member => Entry.print_again (tame e member) depth

theorem print_ruleAgain {ancestors : List Text} (unescaped : '\\' ∉ Selector.effective ancestors)
    {inner : Forest} (tame : ∀ e ∈ inner.entries, (Resolved.entry e).Tame) (depth : Nat)
    (rest : Forest) :
    (ruleAgain ancestors depth inner rest).print [] depth =
      Layout.block (Selector.effective ancestors) (inner.lines (depth + 1)) depth ++
        rest.print [] depth := by
  simp only [ruleAgain, print, List.nil_append, Selector.effective_singleton,
    lines_again tame, Layout.block_again unescaped]
  rw [print_ofEntries (by simp), List.append_nil]

end Forest

namespace Selector

/-- What holds for the characters of two branches, and for a space, holds for the combined
branch. -/
theorem forall_combine {P : Char → Prop} (space : P ' ') {outer inner : Text}
    (left : ∀ c ∈ outer, P c)
    (right : ∀ c ∈ inner, P c) : ∀ c ∈ combine outer inner, P c := by
  intro c member
  unfold combine at member
  split at member
  · rcases Text.mem_replaceChar member with inOuter | inInner
    · exact left c inOuter
    · exact right c inInner
  · rcases List.mem_append.mp member with inOuter | inRest
    · exact left c inOuter
    · rcases List.mem_cons.mp inRest with rfl | inInner
      · exact space
      · exact right c inInner

theorem forall_ofBranches {P : Char → Prop} (space : P ' ') (comma : P ',') {bs : List Text}
    (each : ∀ b ∈ bs, ∀ c ∈ b, P c) : ∀ c ∈ ofBranches bs, P c := by
  intro c member
  rcases Text.mem_intercalate member with separator | ⟨b, listed, inside⟩
  · simp only [List.mem_cons, List.not_mem_nil, or_false] at separator
    rcases separator with rfl | rfl
    · exact comma
    · exact space
  · exact each b listed c inside

theorem forall_nest {P : Char → Prop} (space : P ' ') (comma : P ',') {outer inner : Text}
    (left : ∀ c ∈ outer, P c) (right : ∀ c ∈ inner, P c) : ∀ c ∈ nest outer inner, P c := by
  have inOuter : ∀ b ∈ branches outer, ∀ c ∈ b, P c := fun b listed c member =>
    left c ((infix_of_mem_branches listed).subset member)
  have inInner : ∀ b ∈ branches inner, ∀ c ∈ b, P c := fun b listed c member =>
    right c ((infix_of_mem_branches listed).subset member)
  unfold nest
  split
  · exact forall_ofBranches space comma inInner
  · apply forall_ofBranches space comma
    intro b member
    obtain ⟨o, listedOuter, i, listedInner, rfl⟩ := mem_product member
    exact forall_combine space (inOuter o listedOuter) (inInner i listedInner)

/-- What holds for the characters of selectors holds for those of their effective selector. -/
theorem forall_effective {P : Char → Prop} (space : P ' ') (comma : P ',') {selectors : List Text}
    (each : ∀ selector ∈ selectors, ∀ c ∈ selector, P c) : ∀ c ∈ effective selectors, P c := by
  have collapsed : ∀ selector : Text, (∀ c ∈ selector, P c) →
      ∀ c ∈ Text.collapse selector, P c := by
    intro selector own c member
    rcases Text.mem_collapse member with rfl | inside
    · exact space
    · exact own c inside
  induction selectors using List.reverseRecOn with
  | nil => simp [effective]
  | append_singleton selectors selector ih =>
    have own := collapsed selector (each selector (by simp))
    by_cases outermost : selectors = []
    · subst outermost
      exact own
    · rw [effective_append outermost]
      exact forall_nest space comma (ih fun s member => each s (by simp [member])) own

end Selector

namespace Forest

/-- What is read from output is printed as that output. -/
theorem print_flat {forest : Forest} (tame : ∀ token ∈ forest.stream, token.Tame)
    {ancestors : List Text}
    (running : ∀ selector ∈ ancestors, ∀ c ∈ selector, isRunning c) (depth : Nat) :
    (forest.flat ancestors depth).print [] depth = forest.print ancestors depth := by
  have unescaped : ∀ selectors : List Text, (∀ selector ∈ selectors, ∀ c ∈ selector, isRunning c) →
      '\\' ∉ Selector.effective selectors := by
    intro selectors each member
    cases Selector.forall_effective (P := fun c => isRunning c) (by decide) (by decide)
      each _ member
  induction forest generalizing ancestors depth with
  | empty => rfl
  | entry e rest ih =>
    obtain ⟨own, others⟩ := forall_stream_entry.mp tame
    have later := ih others running depth
    by_cases outside : ancestors = []
    · simp only [flat, outside, ↓reduceIte, print, Entry.print_again own]
      rw [outside] at later
      rw [later]
    · -- The entry is in the block of the innermost rule, and nothing is printed for it here.
      simp only [flat, outside, ↓reduceIte, print, List.nil_append, later]
  | block opening inner rest innerIh restIh =>
    obtain ⟨own, inside, _, others⟩ := forall_stream_block.mp tame
    have entries : ∀ e ∈ inner.entries, (Resolved.entry e).Tame := fun e member =>
      inside _ (entry_mem_stream member)
    have later := restIh others running depth
    cases opening with
    | rule selector =>
      have extended : ∀ s ∈ ancestors ++ [selector], ∀ c ∈ s, isRunning c :=
        List.forall_mem_append.mpr ⟨running, List.forall_mem_singleton.mpr own⟩
      simp only [flat, print_ruleAgain (unescaped _ extended) entries, print_append, later,
        innerIh inside extended depth, print, List.append_assoc]
    | atRule name params =>
      have wrappedPrint : (inner.wrappedAgain ancestors (depth + 1)).print [] (depth + 1) =
          inner.wrapped ancestors (depth + 1) := by
        unfold wrappedAgain wrapped
        split
        · rfl
        · rw [print_ruleAgain (unescaped _ running) entries]
          exact List.append_nil _
      have noAncestors : ∀ (f : Forest) (d : Nat), f.wrapped [] d = [] := fun f d =>
        if_pos (.inl rfl)
      simp only [flat, print, noAncestors, List.nil_append, print_append, wrappedPrint, later,
        innerIh inside running (depth + 1)]

end Forest

end Stylesheet
