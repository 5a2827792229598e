import Stylesheet.Proofs.Composition

set_option autoImplicit false

namespace Stylesheet

open Stylesheet.Compact (isBrace)

namespace Text

/-- How many braces are open after one more character, unless it closes none of them. -/
def nest? (depth : Nat) (c : Char) : Option Nat :=
  if c = '{' then some (depth + 1)
  else if c = '}' then (if depth = 0 then none else some (depth - 1))
  else some depth

/-- Every brace of a text has its partner. -/
def Balanced (t : Text) : Prop := t.foldlM nest? 0 = some 0

/-- Only braces count for their balance. -/
theorem foldlM_nest?_filter (depth : Nat) (t : Text) :
    (t.filter isBrace).foldlM nest? depth = t.foldlM nest? depth := by
  induction t generalizing depth with
  | nil => rfl
  | cons c t ih =>
    by_cases brace : isBrace c
    · rw [List.filter_cons_of_pos brace, List.foldlM_cons, List.foldlM_cons]
      cases nest? depth c with
      | none => rfl
      | some next => exact ih next
    · have other : nest? depth c = some depth := by
        simp only [isBrace, Bool.or_eq_true, decide_eq_true_eq, not_or] at brace
        rw [nest?, if_neg brace.1, if_neg brace.2]
      rw [List.filter_cons_of_neg brace, List.foldlM_cons, other]
      exact ih depth

theorem filter_isBrace_eq_nil {t : Text} (braceless : ∀ c ∈ t, isBrace c = false) :
    t.filter isBrace = [] := by
  apply List.filter_eq_nil_iff.mpr
  intro c member
  rw [braceless c member]
  exact Bool.false_ne_true

theorem filter_isBrace_trim (t : Text) : (trim t).filter isBrace = t.filter isBrace := by
  have blanks : ∀ w : Text, (∀ c ∈ w, isBlank c) → w.filter isBrace = [] := by
    intro w blank
    apply filter_isBrace_eq_nil
    intro c member
    rw [← Bool.not_eq_true]
    intro brace
    simp only [isBrace, Bool.or_eq_true, decide_eq_true_eq] at brace
    have isBlank := blank c member
    rcases brace with rfl | rfl <;> cases isBlank
  obtain ⟨before, after, split, left, right⟩ := exists_append_trim t
  conv_rhs => rw [split]
  rw [List.filter_append, List.filter_append, blanks before left, blanks after right,
    List.nil_append, List.append_nil]

theorem filter_isBrace_intercalate (lines : List Text) :
    (['\n'].intercalate lines).filter isBrace = lines.flatMap (List.filter isBrace) := by
  induction lines with
  | nil => rfl
  | cons line lines ih =>
    rw [intercalate_cons, List.filter_append, List.filter_flatMap, List.flatMap_cons]
    rfl

theorem Thinned.filter_isBrace {t u : Text} (thin : Thinned t u) :
    t.filter isBrace = u.filter isBrace := by
  induction thin with
  | nil => rfl
  | keep c _ ih => rw [List.filter_cons, List.filter_cons, ih]
  | drop _ ih =>
    have brace : isBrace '}' := rfl
    have other : ¬ isBrace '\n' := by decide
    rw [List.filter_cons_of_pos brace, List.filter_cons_of_pos brace,
      List.filter_cons_of_neg other, ih]

end Text

namespace Layout

theorem filter_isBrace_dropPaddingLines (t : Text) :
    (dropPaddingLines t).filter isBrace = t.filter isBrace := by
  have padding : ∀ line : Text, isPaddingLine line → line.filter isBrace = [] := by
    intro line isPadding
    simp only [isPaddingLine, Bool.and_eq_true, List.all_eq_true, Bool.or_eq_true,
      decide_eq_true_eq] at isPadding
    apply Text.filter_isBrace_eq_nil
    intro c member
    rcases isPadding.2 c member with rfl | rfl <;> rfl
  have kept : ∀ lines : List Text,
      (lines.filter (!isPaddingLine ·)).flatMap (List.filter isBrace) =
        lines.flatMap (List.filter isBrace) := by
    intro lines
    induction lines with
    | nil => rfl
    | cons line lines ih =>
      by_cases isPadding : isPaddingLine line
      · rw [List.filter_cons_of_neg (by simp [isPadding]), List.flatMap_cons,
          padding line isPadding, List.nil_append, ih]
      · rw [List.filter_cons_of_pos (by simp [isPadding]), List.flatMap_cons, List.flatMap_cons, ih]
  have whole : (Text.lines t).dropLast ++ (Text.lines t).getLast?.toList = Text.lines t := by
    rw [List.getLast?_eq_some_getLast (Text.lines_ne_nil t)]
    exact List.dropLast_append_getLast (Text.lines_ne_nil t)
  have divided : ['\n'].intercalate (Text.lines t) = t := List.intercalate_splitOn '\n'
  unfold dropPaddingLines
  rw [Text.filter_isBrace_intercalate, List.flatMap_append, kept, ← List.flatMap_append, whole,
    ← Text.filter_isBrace_intercalate, divided]

/-- The last pass leaves all braces in their order. -/
theorem filter_isBrace_finish (t : Text) : (finish t).filter isBrace = t.filter isBrace := by
  rw [finish, Text.filter_isBrace_trim, ← (thinned_closingGaps _).filter_isBrace,
    filter_isBrace_dropPaddingLines]

theorem not_isBrace_indent (depth : Nat) : ∀ c ∈ indent depth, isBrace c = false := by
  intro c member
  rcases List.mem_cons.mp member with rfl | space
  · rfl
  · rw [List.eq_of_mem_replicate space]
    rfl

end Layout

section

variable {xs : List Char} {opened : Opening → Prop} {depth : Nat}

def HasBraces (xs : List Char) : Prop := '{' ∈ xs ∧ '}' ∈ xs

theorem Text.Free.not_isBrace {t : Text} (free : t.Free xs) (braces : HasBraces xs) :
    ∀ c ∈ t, isBrace c = false := by
  intro c member
  rw [← Bool.not_eq_true]
  intro brace
  simp only [isBrace, Bool.or_eq_true, decide_eq_true_eq] at brace
  rcases brace with rfl | rfl
  · exact free.not_mem braces.1 member
  · exact free.not_mem braces.2 member

theorem Layout.free_unpadded (few : xs ⊆ Layout.signs) {value : Text} (free : value.Free xs) :
    (unpadded value).Free xs := by
  apply free.replace
  intro m _ c member listed
  have sign := few listed
  have other : ∀ d ∈ ['(', ',', ' ', ')'], d ∉ Layout.signs := by simp [signs]
  have kept : c ∈ ['(', ',', ' ', ')'] := by
    unfold unpad at member
    split at member
    · simp [List.mem_singleton.mp member]
    · simp only [List.mem_cons, List.not_mem_nil, or_false] at member
      rcases member with rfl | rfl <;> simp
    · simp [List.mem_singleton.mp member]
  exact other c kept sign

theorem Layout.free_header (few : xs ⊆ Layout.signs) {name params : Text} (named : name.Free xs)
    (given : params.Free xs) : (header name params).Free xs := by
  unfold header
  split
  · exact named
  · unfold Text.Free
    rw [List.forall_mem_append, List.forall_mem_cons]
    exact ⟨named, Layout.not_mem_of_subset few (by decide), given⟩

theorem Layout.not_isBrace_selector {selector : Text} (braces : HasBraces xs)
    (few : xs ⊆ Layout.signs) (free : selector.Free xs) (depth : Nat) :
    ∀ c ∈ Layout.selector selector depth, isBrace c = false := by
  intro c member
  rcases Text.mem_intercalate member with separator | ⟨branch, listed, inside⟩
  · rcases List.mem_cons.mp separator with rfl | inIndent
    · rfl
    · exact not_isBrace_indent depth c inIndent
  · have inText := (Selector.infix_of_mem_branches listed).subset inside
    exact (free.collapse few).not_isBrace braces c inText

/-- What is printed for an entry has no braces. -/
theorem Entry.not_isBrace_print {e : Entry} (braces : HasBraces xs) (few : xs ⊆ Layout.signs)
    (made : (Resolved.entry e).Made xs opened) (depth : Nat) :
    ∀ c ∈ e.print depth, isBrace c = false := by
  have pad := Layout.not_isBrace_indent depth
  cases e with
  | declaration key value =>
    have key := made.1.not_isBrace braces
    have value := (Layout.free_unpadded few made.2.1).not_isBrace braces
    simp only [print, Layout.declaration, List.forall_mem_append]
    exact ⟨⟨⟨⟨pad, key⟩, by simp [isBrace]⟩, value⟩, by simp [isBrace]⟩
  | statement name params =>
    have header := (Layout.free_header few made.1 made.2.1).not_isBrace braces
    simp only [print, Layout.statement, List.forall_mem_append]
    exact ⟨⟨pad, header⟩, by simp [isBrace]⟩
  | comment text =>
    have filtered := Text.Free.of_subset made (List.filter_sublist (p := (· ≠ '*'))).subset
    have words := (filtered.collapse few).not_isBrace braces
    simp only [print, Layout.comment, List.cons_append, List.forall_mem_cons,
      List.forall_mem_append]
    exact ⟨rfl, ⟨⟨⟨⟨⟨pad, by simp [isBrace]⟩, pad⟩, by simp [isBrace]⟩, words⟩, pad⟩,
      by simp [isBrace]⟩

theorem Opening.not_isBrace_header {opening : Opening} (braces : HasBraces xs)
    (few : xs ⊆ Layout.signs) (made : (Resolved.opens opening).Made xs opened) (depth : Nat) :
    ∀ c ∈ opening.header depth, isBrace c = false := by
  cases opening with
  | rule selector => exact Layout.not_isBrace_selector braces few made.1 depth
  | atRule name params => exact (Layout.free_header few made.1.1 made.1.2.1).not_isBrace braces

/-- The braces of a block are its own and those of its body. -/
theorem Opening.filter_isBrace_enclose {opening : Opening} {depth : Nat}
    (header : ∀ c ∈ opening.header depth, isBrace c = false) (body : Text) :
    (opening.enclose body depth).filter isBrace = '{' :: (body.filter isBrace ++ ['}']) := by
  have pad := Text.filter_isBrace_eq_nil (Layout.not_isBrace_indent depth)
  have opens := Text.filter_isBrace_eq_nil header
  have inBraces : (Layout.braces (opening.header depth) body depth).filter isBrace =
      '{' :: (body.filter isBrace ++ ['}']) := by
    simp only [Layout.braces, List.filter_append, pad, opens, List.nil_append, List.append_nil]
    rfl
  cases opening with
  | rule selector => exact inBraces
  | atRule name params =>
    have whole := congrArg (· ++ [].filter isBrace) inBraces
    rw [enclose, Layout.atBlock, List.filter_append]
    exact whole.trans (List.append_nil _)

namespace Forest

def braces : Forest → Text
  | empty => []
  | entry _ rest => rest.braces
  | block _ inner rest => '{' :: inner.braces ++ '}' :: rest.braces

theorem filter_isBrace_layOut (braces : HasBraces xs) (few : xs ⊆ Layout.signs) {forest : Forest}
    (made : ∀ token ∈ forest.stream, token.Made xs opened) (depth : Nat) :
    (forest.layOut depth).filter isBrace = forest.braces := by
  induction forest generalizing depth with
  | empty => rfl
  | entry e rest ih =>
    obtain ⟨own, others⟩ := forall_stream_entry.mp made
    have line := Text.filter_isBrace_eq_nil (Entry.not_isBrace_print braces few own depth)
    rw [layOut, List.filter_append, line, ih others depth]
    rfl
  | block opening inner rest innerIh restIh =>
    obtain ⟨own, inside, -, others⟩ := forall_stream_block.mp made
    rw [layOut, List.filter_append, restIh others depth,
      opening.filter_isBrace_enclose (opening.not_isBrace_header braces few own depth),
      innerIh inside (depth + 1)]
    simp only [Forest.braces, List.cons_append, List.append_assoc, List.nil_append]

/-- The braces of a forest match. -/
theorem foldlM_braces (forest : Forest) (depth : Nat) :
    forest.braces.foldlM Text.nest? depth = some depth := by
  induction forest generalizing depth with
  | empty => rfl
  | entry e rest ih => exact ih depth
  | block opening inner rest innerIh restIh =>
    rw [braces, List.cons_append, List.foldlM_cons]
    change (inner.braces ++ '}' :: rest.braces).foldlM Text.nest? (depth + 1) = _
    rw [List.foldlM_append, innerIh]
    exact restIh depth

theorem balanced_finish (braces : HasBraces xs) (few : xs ⊆ Layout.signs) {forest : Forest}
    (made : ∀ token ∈ forest.stream, token.Made xs opened) :
    (Layout.finish (forest.layOut 0)).Balanced := by
  unfold Text.Balanced
  rw [← Text.foldlM_nest?_filter, Layout.filter_isBrace_finish,
    filter_isBrace_layOut braces few made]
  exact forest.foldlM_braces 0

end Forest

end

namespace Session

variable {volume : Volume} {start s : Session}

def Braceless (volume : Volume) (start : Session) : Prop :=
  ∀ token, start.Tokens volume token → ∀ field ∈ token.fields, field.Free ['{', '}']

/-- Output is the layout of a forest. The forest has no braces in its texts, and its blocks are some
that the compilation opens, so its blocks are the blocks of the output. -/
def Prints (volume : Volume) (start : Session) (forest : Forest) (css : Text) : Prop :=
  css = Layout.finish (forest.layOut 0) ∧
    ∀ token ∈ forest.stream, token.Made ['{', '}'] (start.Opens volume)

/-- The blocks of output are closed, and no rule is inside a rule unless a file with rules is
imported into one. -/
def Flattens (volume : Volume) (start : Session) (css : Text) : Prop :=
  css.Balanced ∧ ∃ forest, start.Prints volume forest css ∧
    (start.RulesApart volume → forest.isFlat false)

theorem Outputs.flattens {raw : Text} (outputs : start.Outputs volume raw) (begins : start.Begins)
    (braceless : start.Braceless volume) : start.Flattens volume (Layout.finish raw) := by
  have few : ['{', '}'] ⊆ Layout.signs := by simp [Layout.signs]
  obtain ⟨forest, rfl, flat, made⟩ := outputs.laid few begins braceless id
  exact ⟨Forest.balanced_finish ⟨by simp, by simp⟩ few made, forest, ⟨rfl, made⟩, flat⟩

end Session

open Session (ofText ofFile)

/-- In all output the braces are balanced, and no rule is inside a rule as long as no rule stands in
a file that is imported into one. -/
theorem compile_flattens (volume : Volume) (options : Options)
    (unminified : options.minify = false) :
    (∀ source css, compile volume options source = .ok css →
      (ofText options source).Braceless volume → (ofText options source).Flattens volume css) ∧
    ∀ path css, compileFile volume options path = .ok css →
      (ofFile volume path).Braceless volume → (ofFile volume path).Flattens volume css := by
  apply Session.forall_output (P := fun start css => start.Braceless volume →
    start.Flattens volume css) volume options unminified
  intro start raw begins outputs braceless
  exact outputs.flattens begins braceless

/-- Whether rules are apart can be seen in the course of a compilation. -/
theorem Session.rulesApart_of_course {volume : Volume} {start : Session} {n : Nat}
    (ended : start.after volume n = none)
    (checked : (start.course volume n).all fun s =>
      !inRule s.waiting || s.tokens.all (!·.isRule)) : start.RulesApart volume := by
  intro text all imported divided token member
  obtain ⟨s, reached, isText, inside⟩ := imported
  have own := List.all_eq_true.mp checked s (mem_course ended reached)
  rw [inside, Bool.not_true, Bool.false_or, tokens, isText, Option.bind_some, divided] at own
  simpa using List.all_eq_true.mp own token member

/-- A file with rules and a file without any. -/
def ruleFiles : Volume :=
  let file (name : Char) (text : String) := ([[name]], Node.file (Text.encode text.toList) ⟨0, 0⟩)
  ⟨[file 'b' "p \x7b k: v; q \x7b l: w \x7d \x7d", file 'c' "/* x */"], []⟩

/-- The file with rules is imported into an at-rule, and the other one into a rule. -/
theorem compile_flattens_apart :
    let source :=
      "@media m \x7b @import 'b'; \x7d\na \x7b @import 'c'; d \x7b e: f \x7d \x7d".toList
    let css := ("@media m \x7b\n  p \x7b\n    k: v;\n  \x7d\n  p q \x7b\n    l: w;\n  \x7d\n" ++
      "\x7d\n\na \x7b\n\n  /**\n   * x\n   */\n\n\x7d\na d \x7b\n  e: f;\n\x7d").toList
    compile ruleFiles .default source = .ok css ∧
      (ofText .default source).Braceless ruleFiles ∧
      (ofText .default source).RulesApart ruleFiles ∧
      (ofText .default source).Flattens ruleFiles css := by
  intro source css
  have compiled : compile ruleFiles .default source = .ok css := by decide +kernel
  have ended : (ofText .default source).after ruleFiles 23 = none := by decide +kernel
  have braceless : (ofText .default source).Braceless ruleFiles :=
    Session.free_of_course ended (by decide +kernel)
  have apart := Session.rulesApart_of_course ended (by decide +kernel)
  exact ⟨compiled, braceless, apart,
    (compile_flattens ruleFiles .default rfl).1 source css compiled braceless⟩

namespace Forest

/-- Blocks that are all rules have no rules inside them in a flat forest. -/
theorem braces_of_isFlat {forest : Forest} {inRule : Bool}
    (plain : ∀ opening, .opens opening ∈ forest.stream → opening.isPlain)
    (flat : forest.isFlat inRule) :
    ∃ n, forest.braces = (List.replicate n ['{', '}']).flatten ∧ (inRule → n = 0) := by
  induction forest generalizing inRule with
  | empty => exact ⟨0, rfl, fun _ => rfl⟩
  | entry e rest ih =>
    exact ih (fun opening inside => plain opening (List.mem_cons_of_mem _ inside)) flat
  | block opening inner rest innerIh restIh =>
    have isPlain := plain opening List.mem_cons_self
    simp only [isFlat, isPlain, Bool.and_true, Bool.or_true, Bool.and_eq_true, Bool.not_eq_true']
      at flat
    obtain ⟨⟨outside, inside⟩, later⟩ := flat
    obtain ⟨m, innerBraces, none⟩ := innerIh (fun o member => plain o (by simp [stream, member]))
      inside
    obtain ⟨n, restBraces, -⟩ := restIh (fun o member => plain o (by simp [stream, member])) later
    refine ⟨n + 1, ?_, by simp [outside]⟩
    rw [braces, innerBraces, restBraces, none rfl, List.replicate_succ, List.flatten_cons]
    rfl

end Forest

/-- The rules of a file that is imported into a rule are written into its block. -/
theorem compile_import_not_flat :
    let source := "a \x7b @import 'b'; \x7d".toList
    let css := "a \x7b\n  p \x7b\n    k: v;\n  \x7d\n  p q \x7b\n    l: w;\n  \x7d\n\x7d".toList
    compile ruleFiles .default source = .ok css ∧
      (ofText .default source).Braceless ruleFiles ∧
      ∀ forest, (ofText .default source).Prints ruleFiles forest css → ¬ forest.isFlat false := by
  intro source css
  have ended : (ofText .default source).after ruleFiles 30 = none := by decide +kernel
  refine ⟨by decide +kernel, Session.free_of_course ended (by decide +kernel), ?_⟩
  intro forest prints flat
  have noAtRule : (((ofText .default source).course ruleFiles 30).flatMap Session.tokens).all
      (!·.isAtBlock) := by decide +kernel
  have noSign : (((ofText .default source).course ruleFiles 30).filterMap Session.selector?).all
      fun selector => (Opening.rule selector).isPlain := by decide +kernel
  have plain : ∀ opening, .opens opening ∈ forest.stream → opening.isPlain := by
    intro opening member
    have made := prints.2 _ member
    cases opening with
    | rule selector => exact List.all_eq_true.mp noSign _ (made.2.mem_course ended)
    | atRule name params =>
      obtain ⟨line, found⟩ := made.2
      cases List.all_eq_true.mp noAtRule _ (found.mem_course ended)
  obtain ⟨n, braces, -⟩ := Forest.braces_of_isFlat plain flat
  have printed :=
    Forest.filter_isBrace_layOut ⟨by simp, by simp⟩ (by simp [Layout.signs]) prints.2 0
  rw [← Layout.filter_isBrace_finish, ← prints.1, braces] at printed
  have nested : css.filter isBrace = ['{', '{', '}', '{', '}', '}'] := by decide +kernel
  rw [nested] at printed
  cases n with
  | zero => cases printed
  | succ n => simp [List.replicate_succ] at printed

end Stylesheet
