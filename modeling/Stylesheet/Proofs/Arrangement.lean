import Stylesheet.Proofs.FlatOutput

set_option autoImplicit false

namespace Stylesheet

namespace Layout

def spaces (depth : Nat) : Text := List.replicate (2 * depth) ' '

theorem not_mem_spaces {c : Char} (other : c ≠ ' ') (depth : Nat) : c ∉ spaces depth :=
  fun member => other (List.eq_of_mem_replicate member)

/-- The text of a line after its spaces: it starts with something visible, has no braces and stays
on its line. -/
structure Lead (t : Text) : Prop where
  free : t.Free signs
  visible : ∃ c ∈ t.head?, Text.isBlank c = false

/-- Lines of output at a depth. Before a block there can be lines with other branches of its
selector, which end in a comma. -/
inductive Arranged : Nat → List Text → Prop
  | nil {depth : Nat} : Arranged depth []
  | empty {depth : Nat} {lines : List Text} (rest : Arranged depth lines) :
      Arranged depth ([] :: lines)
  | line {depth : Nat} {t : Text} {c : Char} {lines : List Text} (lead : Lead t)
      (ends : c = ';' ∨ c = ',') (rest : Arranged depth lines) :
      Arranged depth ((spaces depth ++ t ++ [c]) :: lines)
  | comment {depth : Nat} {words : Text} {lines : List Text} (free : words.Free signs)
      (rest : Arranged depth lines) :
      Arranged depth ((spaces depth ++ ['/', '*', '*']) ::
        (spaces depth ++ [' ', '*', ' '] ++ words) :: (spaces depth ++ [' ', '*', '/']) :: lines)
  | block {depth : Nat} {t : Text} {inner lines : List Text} (lead : Lead t)
      (inside : Arranged (depth + 1) inner) (rest : Arranged depth lines) :
      Arranged depth ((spaces depth ++ t ++ [' ', '{']) ::
        (inner ++ (spaces depth ++ ['}']) :: lines))

inductive Omits : List Text → List Text → Prop
  | nil : Omits [] []
  | keep (line : Text) {lines fewer : List Text} (rest : Omits lines fewer) :
      Omits (line :: lines) (line :: fewer)
  | drop {lines fewer : List Text} (rest : Omits lines fewer) : Omits ([] :: lines) fewer

namespace Omits

theorem refl (lines : List Text) : Omits lines lines := by
  induction lines with
  | nil => exact .nil
  | cons line lines ih => exact .keep line ih

theorem cons_of_ne {line : Text} {lines fewer : List Text} (nonempty : line ≠ [])
    (omits : Omits (line :: lines) fewer) : ∃ rest, fewer = line :: rest ∧ Omits lines rest := by
  cases omits with
  | keep _ rest => exact ⟨_, rfl, rest⟩
  | drop _ => exact absurd rfl nonempty

theorem of_append {first second fewer : List Text} (omits : Omits (first ++ second) fewer) :
    ∃ left right, fewer = left ++ right ∧ Omits first left ∧ Omits second right := by
  induction first generalizing fewer with
  | nil => exact ⟨[], fewer, rfl, .nil, omits⟩
  | cons line first ih =>
    cases omits with
    | keep _ rest =>
      obtain ⟨left, right, rfl, inFirst, inSecond⟩ := ih rest
      exact ⟨line :: left, right, rfl, .keep line inFirst, inSecond⟩
    | drop rest =>
      obtain ⟨left, right, rfl, inFirst, inSecond⟩ := ih rest
      exact ⟨left, right, rfl, .drop inFirst, inSecond⟩

/-- Empty lines at the end. -/
theorem concat {lines fewer : List Text} (omits : Omits lines fewer) :
    Omits (lines ++ [[]]) fewer := by
  induction omits with
  | nil => exact .drop .nil
  | keep line _ ih => exact .keep line ih
  | drop _ ih => exact .drop ih

end Omits

namespace Arranged

variable {depth : Nat} {lines : List Text}

theorem append {others : List Text} (first : Arranged depth lines)
    (second : Arranged depth others) : Arranged depth (lines ++ others) := by
  induction first with
  | nil => exact second
  | empty _ ih => exact .empty (ih second)
  | line lead ends _ ih => exact .line lead ends (ih second)
  | comment free _ ih => exact .comment free (ih second)
  | block lead inside _ _ ih =>
    have whole := Arranged.block lead inside (ih second)
    simpa using whole

/-- Without some of their empty lines, lines stay arranged. -/
theorem omits {fewer : List Text} (arranged : Arranged depth lines) (omits : Omits lines fewer) :
    Arranged depth fewer := by
  induction arranged generalizing fewer with
  | nil =>
    cases omits
    exact .nil
  | empty _ ih =>
    cases omits with
    | keep _ rest => exact .empty (ih rest)
    | drop rest => exact ih rest
  | line lead ends _ ih =>
    obtain ⟨_, rfl, later⟩ := omits.cons_of_ne (by simp)
    exact .line lead ends (ih later)
  | comment free _ ih =>
    obtain ⟨_, rfl, fromText⟩ := omits.cons_of_ne (by simp)
    obtain ⟨_, rfl, fromClosing⟩ := fromText.cons_of_ne (by simp)
    obtain ⟨_, rfl, later⟩ := fromClosing.cons_of_ne (by simp)
    exact .comment free (ih later)
  | block lead _ _ innerIh ih =>
    obtain ⟨_, rfl, fromBody⟩ := omits.cons_of_ne (by simp)
    obtain ⟨_, _, rfl, inside, fromClosing⟩ := fromBody.of_append
    obtain ⟨_, rfl, later⟩ := fromClosing.cons_of_ne (by simp)
    exact .block lead (innerIh inside) (ih later)

/-- A line that is not empty has something visible on it. -/
theorem mem (arranged : Arranged depth lines) :
    ∀ line ∈ lines, '\n' ∉ line ∧ (line = [] ∨ ∃ c ∈ line, Text.isBlank c = false) := by
  have margin : ∀ depth, '\n' ∉ spaces depth := not_mem_spaces (by decide)
  have unbroken : ∀ {t : Text}, t.Free signs → '\n' ∉ t := fun free =>
    free.not_mem (by simp [signs])
  induction arranged with
  | nil => simp
  | empty _ ih => exact List.forall_mem_cons.mpr ⟨⟨by simp, .inl rfl⟩, ih⟩
  | @line depth t c lines lead ends _ ih =>
    have visible : Text.isBlank c = false := by rcases ends with rfl | rfl <;> rfl
    have other : '\n' ≠ c := by rcases ends with rfl | rfl <;> decide
    refine List.forall_mem_cons.mpr ⟨⟨?_, .inr ⟨c, by simp, visible⟩⟩, ih⟩
    simp [margin, unbroken lead.free, other]
  | @comment depth words lines free _ ih =>
    refine List.forall_mem_cons.mpr ⟨⟨by simp [margin], .inr ⟨'/', by simp, rfl⟩⟩, ?_⟩
    refine List.forall_mem_cons.mpr ⟨⟨?_, .inr ⟨'*', by simp, rfl⟩⟩, ?_⟩
    · simp [margin, unbroken free]
    · exact List.forall_mem_cons.mpr ⟨⟨by simp [margin], .inr ⟨'/', by simp, rfl⟩⟩, ih⟩
  | @block depth t inner lines lead _ _ innerIh ih =>
    refine List.forall_mem_cons.mpr ⟨⟨?_, .inr ⟨'{', by simp, rfl⟩⟩, ?_⟩
    · simp [margin, unbroken lead.free]
    · refine List.forall_mem_append.mpr ⟨innerIh, List.forall_mem_cons.mpr ⟨?_, ih⟩⟩
      exact ⟨by simp [margin], .inr ⟨'}', by simp, rfl⟩⟩

theorem lined (arranged : Arranged depth lines) : Lined (ofLines lines) := by
  refine ⟨lines, rfl, fun line member => ⟨(arranged.mem line member).1, ?_⟩⟩
  rcases (arranged.mem line member).2 with rfl | ⟨c, inside, visible⟩
  · rfl
  · exact isPaddingLine_of_visible inside visible

/-- The last line ends with something visible. -/
theorem last (arranged : Arranged depth lines) :
    ∀ line ∈ lines.getLast?, ∀ c ∈ line.getLast?, Text.isBlank c = false := by
  have step : ∀ {line : Text} {lines : List Text}, (∀ c ∈ line.getLast?, Text.isBlank c = false) →
      (∀ line ∈ lines.getLast?, ∀ c ∈ line.getLast?, Text.isBlank c = false) →
      ∀ l ∈ (line :: lines).getLast?, ∀ c ∈ l.getLast?, Text.isBlank c = false := by
    intro line lines own later l isLast
    cases lines with
    | nil =>
      cases isLast
      exact own
    | cons next lines => exact later l isLast
  induction arranged with
  | nil => simp
  | empty _ ih => exact step (by simp) ih
  | line lead ends _ ih =>
    refine step ?_ ih
    simp only [List.getLast?_append, List.getLast?_singleton, Option.some_or, Option.mem_def,
      Option.some.injEq, forall_eq']
    rcases ends with rfl | rfl <;> rfl
  | comment free rest ih =>
    rw [List.getLast?_cons_cons, List.getLast?_cons_cons]
    exact step (by simp [List.getLast?_append]; rfl) ih
  | block lead _ _ _ ih =>
    rw [← List.cons_append, List.getLast?_append_of_ne_nil _ (by simp)]
    exact step (by simp [List.getLast?_append]; rfl) ih

/-- Outside all blocks a line has no spaces before it. -/
theorem first {line : Text} (arranged : Arranged 0 (line :: lines)) (nonempty : line ≠ []) :
    ∃ c ∈ line.head?, Text.isBlank c = false := by
  cases arranged with
  | empty => exact absurd rfl nonempty
  | line lead =>
    obtain ⟨c, isFirst, visible⟩ := lead.visible
    exact ⟨c, by simp [spaces, Option.mem_def.mp isFirst], visible⟩
  | comment => exact ⟨'/', rfl, rfl⟩
  | block lead =>
    obtain ⟨c, isFirst, visible⟩ := lead.visible
    exact ⟨c, by simp [spaces, Option.mem_def.mp isFirst], visible⟩

end Arranged

/-- A character is kept. After a brace one of two line breaks can be left out. -/
theorem exists_of_thinned {c : Char} {t u : Text} (thin : Text.Thinned (c :: t) u) :
    ∃ v, u = c :: v ∧
      (Text.Thinned t v ∨ ∃ w, t = '\n' :: '\n' :: w ∧ Text.Thinned ('\n' :: w) v) := by
  cases thin with
  | keep _ rest => exact ⟨_, rfl, .inl rest⟩
  | drop rest => exact ⟨_, rfl, .inr ⟨_, rfl, rest⟩⟩

/-- What is left of a line and of the lines after it. -/
theorem omits_of_thinned {lines : List Text} (unbroken : ∀ line ∈ lines, '\n' ∉ line)
    {line u : Text} (own : '\n' ∉ line) (thin : Text.Thinned (line ++ ofLines lines) u) :
    ∃ fewer, u = line ++ ofLines fewer ∧ Omits lines fewer := by
  induction lines generalizing line u with
  | nil =>
    induction line generalizing u with
    | nil =>
      cases thin
      exact ⟨[], rfl, .nil⟩
    | cons c line lineIh =>
      have later : '\n' ∉ line := fun member => own (List.mem_cons_of_mem c member)
      rw [List.cons_append] at thin
      obtain ⟨v, rfl, kept | ⟨w, split, -⟩⟩ := exists_of_thinned thin
      · obtain ⟨fewer, rfl, omits⟩ := lineIh later kept
        exact ⟨fewer, rfl, omits⟩
      · rw [ofLines, List.flatMap_nil, List.append_nil] at split
        simp [split] at later
  | cons next lines ih =>
    obtain ⟨nextUnbroken, others⟩ := List.forall_mem_cons.mp unbroken
    have afterNext := @ih others
    induction line generalizing u with
    | nil =>
      obtain ⟨v, rfl, rest⟩ := thin.cons_of_ne (by decide)
      obtain ⟨fewer, rfl, omits⟩ := afterNext nextUnbroken rest
      exact ⟨next :: fewer, rfl, .keep next omits⟩
    | cons c line lineIh =>
      have later : '\n' ∉ line := fun member => own (List.mem_cons_of_mem c member)
      obtain ⟨v, rfl, kept | ⟨w, split, rest⟩⟩ := exists_of_thinned thin
      · obtain ⟨fewer, rfl, omits⟩ := lineIh later kept
        exact ⟨fewer, rfl, omits⟩
      · -- Two line breaks follow, so the line ends here and the next one is empty.
        have ends : line = [] := by
          cases line with
          | nil => rfl
          | cons d line =>
            cases (List.cons.inj split).1
            simp at later
        subst ends
        have empty : next = [] := by
          cases next with
          | nil => rfl
          | cons d next =>
            cases (List.cons.inj (List.cons.inj split).2).1
            simp at nextUnbroken
        subst empty
        have after : ofLines lines = '\n' :: w := (List.cons.inj split).2
        rw [← after] at rest
        obtain ⟨fewer, rfl, omits⟩ := @afterNext [] _ (by simp) rest
        exact ⟨fewer, rfl, .drop omits⟩

/-- Trimming leaves out the empty lines at the end. -/
theorem exists_trim_end (lines : List Text) :
    ∃ fewer, Omits lines fewer ∧ Text.trim (ofLines lines) = Text.trim (ofLines fewer) ∧
      ∀ line ∈ fewer.getLast?, line ≠ [] := by
  induction lines using List.reverseRecOn with
  | nil => exact ⟨[], .nil, rfl, by simp⟩
  | append_singleton lines line ih =>
    by_cases empty : line = []
    · subst empty
      obtain ⟨fewer, omits, same, nonempty⟩ := ih
      refine ⟨fewer, omits.concat, ?_, nonempty⟩
      have split : ofLines (lines ++ [[]]) = ofLines lines ++ ['\n'] := by simp [ofLines]
      rw [split, Text.trim_append_of_blank_right _ Text.isBlank_break, same]
    · exact ⟨lines ++ [line], .refl _, rfl, by simpa using empty⟩

/-- Joined lines end as the last of them. -/
theorem getLast?_ofLines {lines : List Text} {last : Text} (isLast : last ∈ lines.getLast?)
    (nonempty : last ≠ []) : (ofLines lines).getLast? = last.getLast? := by
  obtain ⟨init, rfl⟩ := List.getLast?_eq_some_iff.mp isLast
  have split : ofLines (init ++ [last]) = ofLines init ++ '\n' :: last := by simp [ofLines]
  rw [split, List.getLast?_append_of_ne_nil _ (by simp), List.getLast?_cons_of_ne_nil nonempty]

/-- Trimming leaves out the empty lines at the beginning. -/
theorem exists_trim_start {lines : List Text} (arranged : Arranged 0 lines)
    (nonempty : ∀ line ∈ lines.getLast?, line ≠ []) :
    ∃ fewer, Omits lines fewer ∧ Text.trim (ofLines lines) = ['\n'].intercalate fewer := by
  induction lines with
  | nil => exact ⟨[], .nil, rfl⟩
  | cons line lines ih =>
    have split : ofLines (line :: lines) = '\n' :: ['\n'].intercalate (line :: lines) := by
      rw [Text.intercalate_cons]
      rfl
    by_cases empty : line = []
    · subst empty
      have later : ∀ line ∈ lines.getLast?, line ≠ [] := by
        intro line isLast
        cases lines with
        | nil => cases isLast
        | cons next lines => exact nonempty line isLast
      obtain ⟨fewer, omits, trimmed⟩ := ih (arranged.omits (.drop (.refl _))) later
      refine ⟨fewer, .drop omits, ?_⟩
      rw [← trimmed]
      exact Text.trim_append_of_blank_left Text.isBlank_break (ofLines lines)
    · have first : ∀ c ∈ (['\n'].intercalate (line :: lines)).head?, Text.isBlank c = false := by
        obtain ⟨c, isFirst, visible⟩ := arranged.first empty
        rw [Text.head?_intercalate empty, Option.mem_def.mp isFirst]
        simpa using visible
      have last : ∀ c ∈ (['\n'].intercalate (line :: lines)).getLast?, Text.isBlank c = false := by
        intro c isLast
        obtain ⟨last, lastLine⟩ := Option.isSome_iff_exists.mp (List.getLast?_isSome.mpr
          (List.cons_ne_nil line lines))
        apply arranged.last last lastLine
        rw [← getLast?_ofLines lastLine (nonempty last lastLine), split,
          List.getLast?_cons_of_ne_nil (Text.intercalate_ne_nil _ _ empty)]
        exact isLast
      refine ⟨line :: lines, .refl _, ?_⟩
      rw [split]
      exact (Text.trim_append_of_blank_left Text.isBlank_break _).trans
        (Text.trim_eq_self first last)

/-- The lines of trimmed output are arranged. -/
theorem Arranged.lines_trim {lines : List Text} (arranged : Arranged 0 lines) :
    Arranged 0 (Text.lines (Text.trim (ofLines lines))) := by
  obtain ⟨front, ends, same, nonempty⟩ := exists_trim_end lines
  obtain ⟨fewer, starts, trimmed⟩ := exists_trim_start (arranged.omits ends) nonempty
  have kept := (arranged.omits ends).omits starts
  rw [same, trimmed]
  by_cases none : fewer = []
  · rw [none]
    exact .empty .nil
  · have divided : Text.lines (['\n'].intercalate fewer) = fewer :=
      List.splitOn_intercalate _ (fun line member => (kept.mem line member).1) none
    rwa [divided]

/-- The lines of output are arranged. -/
theorem Arranged.lines_finish {lines : List Text} (arranged : Arranged 0 lines) :
    Arranged 0 (Text.lines (finish (ofLines lines))) := by
  have thin := thinned_closingGaps (ofLines lines)
  obtain ⟨fewer, closed, omits⟩ := @omits_of_thinned lines
    (fun line member => (arranged.mem line member).1) [] _ (by simp) thin
  rw [finish, dropPaddingLines_eq_self arranged.lined, closed]
  exact (arranged.omits omits).lines_trim

theorem ofLines_append (lines others : List Text) :
    ofLines (lines ++ others) = ofLines lines ++ ofLines others := List.flatMap_append

/-- The lines of a block whose header is on one line. -/
theorem Lead.arranged_braces {t : Text} (lead : Lead t) {depth : Nat} {inner : List Text}
    (inside : Arranged (depth + 1) inner) :
    ∃ lines, braces t (ofLines inner) depth = ofLines lines ∧ Arranged depth lines := by
  refine ⟨_, ?_, .block lead inside .nil⟩
  simp [braces, ofLines, indent, spaces]

/-- The lines of a block with one branch of a selector on each line. -/
theorem arranged_branches {branches : List Text} (leads : ∀ branch ∈ branches, Lead branch)
    (nonempty : branches ≠ []) {depth : Nat} {inner : List Text}
    (inside : Arranged (depth + 1) inner) :
    ∃ lines, braces ((',' :: indent depth).intercalate branches) (ofLines inner) depth =
      ofLines lines ∧ Arranged depth lines := by
  induction branches with
  | nil => exact absurd rfl nonempty
  | cons branch branches ih =>
    obtain ⟨lead, others⟩ := List.forall_mem_cons.mp leads
    cases branches with
    | nil =>
      rw [List.intercalate_singleton]
      exact lead.arranged_braces inside
    | cons next branches =>
      obtain ⟨lines, printed, arranged⟩ := ih others (by simp)
      refine ⟨_, ?_, .line lead (.inr rfl) arranged⟩
      have split : braces ((',' :: indent depth).intercalate (branch :: next :: branches))
          (ofLines inner) depth = indent depth ++ branch ++ [','] ++
            braces ((',' :: indent depth).intercalate (next :: branches)) (ofLines inner)
              depth := by
        rw [List.intercalate_cons_cons]
        simp [braces]
      rw [split, printed]
      simp [ofLines, indent, spaces]

/-- The header of an at-rule is the text of a line. -/
theorem Lead.header {name params : Text} (named : name.Free signs) (given : params.Free signs)
    (isName : name.head? = some '@') : Lead (header name params) := by
  refine ⟨free_header (List.Subset.refl _) named given, '@', ?_, rfl⟩
  unfold Layout.header
  split <;> simp [isName]

/-- A branch of a selector is the text of a line. -/
theorem lead_of_mem_branches {selector branch : Text} (free : selector.Free signs)
    (member : branch ∈ Selector.branches selector) : Lead branch := by
  refine ⟨free.of_subset (Selector.infix_of_mem_branches member).subset, ?_⟩
  obtain ⟨isTrimmed, visible⟩ := List.mem_filter.mp member
  obtain ⟨part, -, rfl⟩ := List.mem_map.mp isTrimmed
  cases first : (Text.trim part).head? with
  | none => simp [List.head?_eq_none_iff.mp first] at visible
  | some c => exact ⟨c, rfl, Text.isBlank_head_trim first⟩

end Layout

open Layout (Arranged Lead ofLines)

variable {opened : Opening → Prop}

/-- The lines of an entry. -/
theorem Entry.exists_arranged {e : Entry} (made : (Resolved.entry e).Made Layout.signs opened)
    (depth : Nat) : ∃ lines, e.print depth = ofLines lines ∧ Arranged depth lines := by
  have few := List.Subset.refl Layout.signs
  cases e with
  | declaration key value =>
    obtain ⟨keyFree, valueFree, c, isFirst, visible⟩ := made
    have lead : Lead (key ++ [':', ' '] ++ Layout.unpadded value) := by
      refine ⟨?_, c, by simp [Option.mem_def.mp isFirst], visible⟩
      unfold Text.Free
      rw [List.forall_mem_append, List.forall_mem_append]
      exact ⟨⟨keyFree, by simp [Layout.signs]⟩, Layout.free_unpadded few valueFree⟩
    refine ⟨_, ?_, .line lead (.inl rfl) .nil⟩
    simp [print, Layout.declaration, ofLines, Layout.indent, Layout.spaces]
  | statement name params =>
    obtain ⟨nameFree, paramsFree, named⟩ := made
    refine ⟨_, ?_, .line (.header nameFree paramsFree named) (.inl rfl) .nil⟩
    simp [print, Layout.statement, ofLines, Layout.indent, Layout.spaces]
  | comment text =>
    have filtered := Text.Free.of_subset made (List.filter_sublist (p := (· ≠ '*'))).subset
    refine ⟨_, ?_, .empty (.comment (filtered.collapse few) (.empty .nil))⟩
    simp [print, Layout.comment, ofLines, Layout.indent, Layout.spaces]

/-- The lines of a block. -/
theorem Opening.exists_arranged {opening : Opening}
    (made : (Resolved.opens opening).Made Layout.signs opened)
    (named : ∀ selector, opening = .rule selector → Layout.selector selector 0 ≠ []) {depth : Nat}
    {inner : List Text} (inside : Arranged (depth + 1) inner) :
    ∃ lines, opening.enclose (ofLines inner) depth = ofLines lines ∧ Arranged depth lines := by
  have few := List.Subset.refl Layout.signs
  cases opening with
  | rule selector =>
    apply Layout.arranged_branches
    · exact fun branch member => Layout.lead_of_mem_branches (made.1.collapse few) member
    · intro none
      apply named selector rfl
      rw [Layout.selector, none]
      rfl
    · exact inside
  | atRule name params =>
    obtain ⟨⟨nameFree, paramsFree, named⟩, -⟩ := made
    have lead := Lead.header nameFree paramsFree named
    obtain ⟨lines, printed, arranged⟩ := lead.arranged_braces inside
    refine ⟨lines ++ [[]], ?_, arranged.append (.empty .nil)⟩
    rw [enclose, Layout.atBlock, printed, Layout.ofLines_append]
    rfl

/-- The lines of a forest. -/
theorem Forest.exists_arranged {forest : Forest}
    (made : ∀ token ∈ forest.stream, token.Made Layout.signs opened)
    (named : ∀ selector, .opens (.rule selector) ∈ forest.stream → Layout.selector selector 0 ≠ [])
    (depth : Nat) : ∃ lines, forest.layOut depth = ofLines lines ∧ Arranged depth lines := by
  induction forest generalizing depth with
  | empty => exact ⟨[], rfl, .nil⟩
  | entry e rest ih =>
    obtain ⟨own, others⟩ := forall_stream_entry.mp made
    obtain ⟨first, printed, arranged⟩ := Entry.exists_arranged own depth
    obtain ⟨later, laid, arrangedRest⟩ := ih others
      (fun selector member => named selector (List.mem_cons_of_mem _ member)) depth
    refine ⟨first ++ later, ?_, arranged.append arrangedRest⟩
    rw [layOut, printed, laid, Layout.ofLines_append]
  | block opening inner rest innerIh restIh =>
    obtain ⟨own, inside, -, others⟩ := forall_stream_block.mp made
    obtain ⟨body, laidBody, arrangedBody⟩ := innerIh inside
      (fun selector member => named selector (by simp [stream, member])) (depth + 1)
    obtain ⟨later, laid, arrangedRest⟩ := restIh others
      (fun selector member => named selector (by simp [stream, member])) depth
    obtain ⟨first, printed, arranged⟩ := opening.exists_arranged own
      (fun selector same => named selector (by simp [stream, same])) arrangedBody
    refine ⟨first ++ later, ?_, arranged.append arrangedRest⟩
    rw [layOut, laidBody, printed, laid, Layout.ofLines_append]

end Stylesheet
