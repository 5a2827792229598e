import Stylesheet.Proofs.Clean
import Stylesheet.Proofs.Compaction
import Stylesheet.Proofs.Lines

set_option autoImplicit false

namespace Stylesheet

/-- A rule on its own. -/
structure Block where
  branches : List Text
  declarations : List Declaration
  deriving DecidableEq, Repr

namespace Block

def print (b : Block) : Text :=
  [',', '\n'].intercalate b.branches ++ [' ', '{'] ++
    b.declarations.flatMap
      (fun d => ['\n', ' ', ' '] ++ d.key ++ [':', ' '] ++ d.value ++ [';']) ++ ['\n', '}']

/-- A block without the blanks and the semicolon that it does not need. -/
def compacted (b : Block) : Text :=
  [','].intercalate b.branches ++ ['{'] ++
    [';'].intercalate (b.declarations.map fun d => d.key ++ ':' :: d.value) ++ ['}']

structure Clean (b : Block) : Prop where
  nonempty : b.branches ≠ []
  branches : ∀ branch ∈ b.branches, Selector.Clean branch
  declarations : ∀ d ∈ b.declarations, d.Clean

/-- The blanks of a block: after commas, before the opening brace, before keys, after colons, and
before the closing brace. -/
structure Gaps where
  comma : Text
  brace : Text
  indent : Text
  colon : Text
  close : Text

namespace Gaps

def printed : Gaps := ⟨['\n'], [' '], ['\n', ' ', ' '], [' '], ['\n']⟩

/-- The blanks that are left once those before braces are dropped. -/
def inside : Gaps := ⟨['\n'], [], ['\n', ' ', ' '], [' '], []⟩

def none : Gaps := ⟨[], [], [], [], []⟩

def head (g : Gaps) (branches : List Text) : Text := (',' :: g.comma).intercalate branches

def line (g : Gaps) (d : Declaration) : Text :=
  g.indent ++ (d.key ++ ':' :: (g.colon ++ (d.value ++ [';'])))

def body (g : Gaps) (declarations : List Declaration) : Text :=
  declarations.flatMap fun d => g.line d

/-- Whether all blanks are spaces and line breaks. -/
def Simple (g : Gaps) : Prop :=
  ∀ w ∈ [g.comma, g.brace, g.indent, g.colon, g.close], ∀ c ∈ w, c = ' ' ∨ c = '\n'

theorem simple_printed : printed.Simple := by
  simp [Simple, printed]

theorem simple_none : none.Simple := by
  simp [Simple, none]

end Gaps

def written (g : Gaps) (b : Block) : Text :=
  g.head b.branches ++ (g.brace ++ '{' :: (g.body b.declarations ++ (g.close ++ ['}'])))

theorem print_eq_written (b : Block) : b.print = b.written .printed := by
  simp [print, written, Gaps.printed, Gaps.head, Gaps.body, Gaps.line]

/-- The characters of a block, except for its braces. -/
def isQuiet (c : Char) : Bool := isInert c || c ∈ [' ', '\n', ',', ':', ';']

theorem isBrace_of_isQuiet {c : Char} (quiet : isQuiet c) : Compact.isBrace c = false := by
  cases brace : Compact.isBrace c with
  | false => rfl
  | true =>
    simp only [Compact.isBrace, Bool.or_eq_true, decide_eq_true_eq] at brace
    rcases brace with rfl | rfl <;> cases quiet

section Quiet

variable {g : Gaps}

theorem isQuiet_of_simple (simple : g.Simple) {w : Text}
    (listed : w ∈ [g.comma, g.brace, g.indent, g.colon, g.close]) : ∀ c ∈ w, isQuiet c := by
  intro c member
  rcases simple w listed c member with rfl | rfl <;> rfl

theorem isQuiet_head (simple : g.Simple) {branches : List Text}
    (clean : ∀ branch ∈ branches, Selector.Clean branch) : ∀ c ∈ g.head branches, isQuiet c := by
  intro c member
  rcases Text.mem_intercalate member with inSeparator | ⟨branch, listed, inBranch⟩
  · rcases List.mem_cons.mp inSeparator with rfl | inGap
    · rfl
    · exact isQuiet_of_simple simple (by simp) c inGap
  · by_cases space : c = ' '
    · simp [isQuiet, space]
    · by_cases colon : c = ':'
      · simp [isQuiet, colon]
      · simp [isQuiet, (clean branch listed).inert c inBranch space colon]

theorem isQuiet_body (simple : g.Simple) {ds : List Declaration} (clean : ∀ d ∈ ds, d.Clean) :
    ∀ c ∈ g.body ds, isQuiet c := by
  intro c member
  obtain ⟨d, listed, inside⟩ := List.mem_flatMap.mp member
  have own := clean d listed
  simp only [Gaps.line, List.mem_append, List.mem_cons, List.not_mem_nil, or_false] at inside
  rcases inside with inIndent | inKey | rfl | inColon | inValue | rfl
  · exact isQuiet_of_simple simple (by simp) c inIndent
  · simp [isQuiet, own.key c inKey]
  · rfl
  · exact isQuiet_of_simple simple (by simp) c inColon
  · by_cases space : c = ' '
    · simp [isQuiet, space]
    · simp [isQuiet, own.value c inValue space]
  · rfl

/-- The characters of a block. -/
theorem Clean.mem_written {b : Block} (clean : b.Clean) (simple : g.Simple) :
    ∀ c ∈ b.written g, isQuiet c ∨ Compact.isBrace c := by
  intro c member
  simp only [written, List.mem_append, List.mem_cons, List.not_mem_nil, or_false] at member
  rcases member with inHead | inBrace | rfl | inBody | inClose | rfl
  · exact .inl (isQuiet_head simple clean.branches c inHead)
  · exact .inl (isQuiet_of_simple simple (by simp) c inBrace)
  · exact .inr rfl
  · exact .inl (isQuiet_body simple clean.declarations c inBody)
  · exact .inl (isQuiet_of_simple simple (by simp) c inClose)
  · exact .inr rfl

end Quiet

theorem head_last {g : Gaps} {branches : List Text}
    (clean : ∀ branch ∈ branches, Selector.Clean branch) :
    ∀ c ∈ (g.head branches).getLast?, Text.isBlank c = false := by
  intro c last
  obtain ⟨branch, member, final⟩ :=
    Text.mem_getLast?_intercalate (fun branch member => (clean branch member).nonempty) last
  exact (clean branch member).tidy.last c final

theorem head_first {g : Gaps} {branches : List Text} (nonempty : branches ≠ [])
    (clean : ∀ branch ∈ branches, Selector.Clean branch) (rest : Text) :
    ∀ c ∈ (g.head branches ++ rest).head?, Text.isBlank c = false := by
  intro c first
  obtain ⟨branch, branches, rfl⟩ := List.exists_cons_of_ne_nil nonempty
  have own := clean branch List.mem_cons_self
  rw [Gaps.head, List.head?_append_of_ne_nil _ (Text.intercalate_ne_nil _ branches own.nonempty),
    Text.head?_intercalate own.nonempty] at first
  exact own.tidy.head c first

theorem body_last {g : Gaps} (ds : List Declaration) : ∀ c ∈ (g.body ds).getLast?, c = ';' := by
  intro c last
  rcases List.eq_nil_or_concat ds with rfl | ⟨ds, d, rfl⟩
  · cases last
  · have ends : g.body (ds.concat d) =
        (g.body ds ++ (g.indent ++ (d.key ++ ':' :: (g.colon ++ d.value)))) ++ [';'] := by
      simp [Gaps.body, Gaps.line]
    rw [ends, List.getLast?_concat] at last
    exact (Option.some.inj last).symm

open Stylesheet.Compact

/-- Dropping the blanks before braces. -/
theorem Clean.dropBeforeBraces_printed {b : Block} (clean : b.Clean) {w : Text}
    (quiet : ∀ c ∈ w, isQuiet c) (rest : Text) :
    dropBeforeBraces (w ++ (b.written .printed ++ rest)) =
      w ++ (b.written .inside ++ dropBeforeBraces rest) := by
  have simple := Gaps.simple_printed
  let head := Gaps.printed.head b.branches
  let body := Gaps.printed.body b.declarations
  have headOpen : ∀ c ∈ w ++ head, isBrace c = false := by
    intro c member
    apply isBrace_of_isQuiet
    rcases List.mem_append.mp member with inBreak | inHead
    · exact quiet c inBreak
    · exact isQuiet_head simple clean.branches c inHead
  have headLast : ∀ c ∈ (w ++ head).getLast?, Text.isBlank c = false := by
    intro c last
    have nonempty : head ≠ [] := by
      obtain ⟨branch, branches, split⟩ := List.exists_cons_of_ne_nil clean.nonempty
      have own := clean.branches branch (by simp [split])
      simp only [head, Gaps.head, split]
      exact Text.intercalate_ne_nil _ branches own.nonempty
    rw [List.getLast?_append_of_ne_nil _ nonempty] at last
    exact head_last clean.branches c last
  have bodyOpen : ∀ c ∈ body, isBrace c = false := fun c member =>
    isBrace_of_isQuiet (isQuiet_body simple clean.declarations c member)
  have bodyLast : ∀ c ∈ body.getLast?, Text.isBlank c = false := by
    intro c last
    rw [body_last b.declarations c last]
    rfl
  calc dropBeforeBraces (w ++ (b.written .printed ++ rest))
      = dropBeforeBraces ((w ++ head) ++ ([' '] ++ '{' :: (body ++ (['\n'] ++ '}' :: rest)))) := by
        simp [written, head, body, Gaps.printed]
    _ = (w ++ head) ++ '{' :: (body ++ '}' :: dropBeforeBraces rest) := by
        rw [dropBeforeBraces_append headOpen headLast,
          dropBeforeBraces_brace Text.isBlank_space rfl,
          dropBeforeBraces_append bodyOpen bodyLast,
          dropBeforeBraces_brace Text.isBlank_break rfl]
    _ = w ++ (b.written .inside ++ dropBeforeBraces rest) := by
        simp [written, head, body, Gaps.inside, Gaps.printed, Gaps.head, Gaps.body, Gaps.line]

/-- A branch has no blanks to drop. -/
theorem dropAfter_branch {branch : Text} (clean : Selector.Clean branch) (rest : Text) :
    dropAfter (branch ++ rest) = branch ++ dropAfter rest := by
  have delimiter : ∀ c ∈ branch, isDelimiter c → c = ':' := by
    intro c member delimits
    by_contra other
    have space : c ≠ ' ' := by
      rintro rfl
      cases delimits
    have inert := clean.inert c member space other
    simp only [isDelimiter, isBrace, Bool.or_eq_true, decide_eq_true_eq] at delimits
    rcases delimits with ((rfl | rfl) | rfl) | rfl | rfl <;> cases inert
  apply dropAfter_append
  · apply List.IsChain.imp_of_mem_imp _ clean.colons
    rintro c d inBranch later apart ⟨delimits, blank⟩
    exact apart ⟨delimiter c inBranch delimits, clean.tidy.spaces d later blank⟩
  · intro c last
    cases delimits : isDelimiter c with
    | false => rfl
    | true =>
      exact absurd (delimiter c (List.mem_of_mem_getLast? last) delimits) (clean.last c last)

/-- Dropping the blanks after commas. -/
theorem dropAfter_head {branches : List Text} (clean : ∀ branch ∈ branches, Selector.Clean branch)
    (rest : Text) :
    dropAfter (Gaps.inside.head branches ++ rest) = Gaps.none.head branches ++ dropAfter rest := by
  induction branches with
  | nil => rfl
  | cons branch branches ih =>
    have own := clean branch List.mem_cons_self
    have others : ∀ b ∈ branches, Selector.Clean b := fun b member =>
      clean b (List.mem_cons_of_mem branch member)
    cases branches with
    | nil =>
      simp only [Gaps.head, List.intercalate_singleton]
      exact dropAfter_branch own rest
    | cons next branches =>
      have visible := head_first (g := .inside) (by simp) others rest
      have later := ih others
      simp only [Gaps.head, List.intercalate_cons_cons, List.append_assoc, List.cons_append]
        at later visible ⊢
      rw [dropAfter_branch own]
      have comma := dropAfter_delimiter (c := ',') rfl Text.isBlank_break visible
      simp only [Gaps.inside, Gaps.none, List.nil_append, List.singleton_append] at comma later ⊢
      rw [comma, later]

/-- A text of words has no blanks to drop. -/
theorem dropAfter_words {t : Text} (inert : ∀ c ∈ t, c ≠ ' ' → isInert c) (rest : Text) :
    dropAfter (t ++ rest) = t ++ dropAfter rest := by
  have free : ∀ c ∈ t, isDelimiter c = false := by
    intro c member
    cases delimits : isDelimiter c with
    | false => rfl
    | true =>
      have space : c ≠ ' ' := by
        rintro rfl
        cases delimits
      have own := inert c member space
      simp only [isDelimiter, isBrace, Bool.or_eq_true, decide_eq_true_eq] at delimits
      rcases delimits with ((rfl | rfl) | rfl) | rfl | rfl <;> cases own
  apply dropAfter_append
  · apply List.Pairwise.isChain
    apply List.pairwise_iff_forall_sublist.mpr
    intro c d both
    simp [free c (both.subset List.mem_cons_self)]
  · exact fun c last => free c (List.mem_of_mem_getLast? last)

/-- Dropping the blanks after braces, colons and semicolons. -/
theorem dropAfter_body {ds : List Declaration} (clean : ∀ d ∈ ds, d.Clean) {opener : Char}
    (delimiter : isDelimiter opener) (rest : Text) :
    dropAfter (opener :: (Gaps.inside.body ds ++ '}' :: rest)) =
      opener :: (Gaps.none.body ds ++ dropAfter ('}' :: rest)) := by
  induction ds generalizing opener with
  | nil => exact dropAfter_delimiter delimiter (w := []) (by simp) (by simp; rfl)
  | cons d ds ih =>
    have own := clean d List.mem_cons_self
    let after := Gaps.inside.body ds ++ '}' :: rest
    have later : dropAfter (';' :: after) = ';' :: (Gaps.none.body ds ++ dropAfter ('}' :: rest)) :=
      ih (fun e member => clean e (List.mem_cons_of_mem d member)) rfl
    have keyFirst : ∀ c ∈ (d.key ++ ':' :: ([' '] ++ (d.value ++ ';' :: after))).head?,
        Text.isBlank c = false := by
      intro c first
      rw [List.head?_append_of_ne_nil _ own.visible] at first
      exact isBlank_of_isInert (own.key c (List.mem_of_mem_head? first))
    have valueFirst : ∀ c ∈ (d.value ++ ';' :: after).head?, Text.isBlank c = false := by
      intro c first
      rw [List.head?_append] at first
      rcases Option.or_eq_some_iff.mp first with inValue | ⟨_, semicolon⟩
      · exact own.tidy.head c inValue
      · cases semicolon
        rfl
    calc dropAfter (opener :: (Gaps.inside.body (d :: ds) ++ '}' :: rest))
        = dropAfter (opener :: (['\n', ' ', ' '] ++
            (d.key ++ ':' :: ([' '] ++ (d.value ++ ';' :: after))))) := by
          simp [Gaps.body, Gaps.line, Gaps.inside, after]
      _ = opener :: (d.key ++ ':' :: (d.value ++ dropAfter (';' :: after))) := by
          rw [dropAfter_delimiter delimiter (by simp [Text.isBlank]) keyFirst,
            dropAfter_words (fun c member _ => own.key c member),
            dropAfter_delimiter rfl Text.isBlank_space valueFirst, dropAfter_words own.value]
      _ = opener :: (Gaps.none.body (d :: ds) ++ dropAfter ('}' :: rest)) := by
          rw [later]
          simp [Gaps.body, Gaps.line, Gaps.none]

/-- Dropping all other blanks of a block, and those after it. -/
theorem Clean.dropAfter_inside {b : Block} (clean : b.Clean) {w : Text}
    (blank : ∀ c ∈ w, Text.isBlank c) {rest : Text}
    (visible : ∀ c ∈ rest.head?, Text.isBlank c = false) :
    dropAfter (b.written .inside ++ (w ++ rest)) = b.written .none ++ dropAfter rest := by
  calc dropAfter (b.written .inside ++ (w ++ rest))
      = dropAfter (Gaps.inside.head b.branches ++
          '{' :: (Gaps.inside.body b.declarations ++ '}' :: (w ++ rest))) := by
        simp [written, Gaps.inside]
    _ = Gaps.none.head b.branches ++
          '{' :: (Gaps.none.body b.declarations ++ '}' :: dropAfter rest) := by
        rw [dropAfter_head clean.branches, dropAfter_body clean.declarations rfl,
          dropAfter_delimiter rfl blank visible]
    _ = b.written .none ++ dropAfter rest := by
        simp [written, Gaps.none]

theorem dropLastSemicolons_body {ds : List Declaration} (clean : ∀ d ∈ ds, d.Clean) (rest : Text) :
    dropLastSemicolons (Gaps.none.body ds ++ '}' :: rest) =
      [';'].intercalate (ds.map fun d => d.key ++ ':' :: d.value) ++
        '}' :: dropLastSemicolons rest := by
  induction ds with
  | nil => exact dropLastSemicolons_append (t := ['}']) (by decide) rest
  | cons d ds ih =>
    have own := clean d List.mem_cons_self
    have others : ∀ e ∈ ds, e.Clean := fun e member => clean e (List.mem_cons_of_mem d member)
    have noSemicolon : ';' ∉ d.key ++ ':' :: d.value := by
      intro member
      simp only [List.mem_append, List.mem_cons] at member
      rcases member with inKey | colon | inValue
      · cases own.key ';' inKey
      · cases colon
      · cases own.value ';' inValue (by decide)
    have split : Gaps.none.body (d :: ds) ++ '}' :: rest =
        (d.key ++ ':' :: d.value) ++ ';' :: (Gaps.none.body ds ++ '}' :: rest) := by
      simp [Gaps.body, Gaps.line, Gaps.none]
    rw [split, dropLastSemicolons_append noSemicolon]
    cases ds with
    | nil =>
      rw [show Gaps.none.body [] ++ '}' :: rest = '}' :: rest from rfl, dropLastSemicolons_last]
      simp
    | cons e ds =>
      obtain ⟨c, key, first⟩ := List.exists_cons_of_ne_nil (others e List.mem_cons_self).visible
      have goesOn : c ≠ '}' := by
        have inert := (others e List.mem_cons_self).key c (by simp [first])
        exact ne_of_isInert inert rfl
      obtain ⟨more, continued⟩ : ∃ more, Gaps.none.body (e :: ds) ++ '}' :: rest = c :: more :=
        ⟨_, by simp [Gaps.body, Gaps.line, Gaps.none, first]; rfl⟩
      rw [continued, dropLastSemicolons_between goesOn, ← continued, ih others]
      simp [List.intercalate_cons_cons]

/-- Dropping the last semicolon of a block. -/
theorem Clean.dropLastSemicolons_none {b : Block} (clean : b.Clean) (rest : Text) :
    dropLastSemicolons (b.written .none ++ rest) = b.compacted ++ dropLastSemicolons rest := by
  have noSemicolon : ';' ∉ Gaps.none.head b.branches ++ ['{'] := by
    intro member
    rcases List.mem_append.mp member with inHead | brace
    · rcases Text.mem_intercalate inHead with comma | ⟨branch, listed, inBranch⟩
      · simp [Gaps.none] at comma
      · cases (clean.branches branch listed).inert ';' inBranch (by decide) (by decide)
    · simp at brace
  calc dropLastSemicolons (b.written .none ++ rest)
      = dropLastSemicolons ((Gaps.none.head b.branches ++ ['{']) ++
          (Gaps.none.body b.declarations ++ '}' :: rest)) := by
        simp [written, Gaps.none]
    _ = b.compacted ++ dropLastSemicolons rest := by
        rw [dropLastSemicolons_append noSemicolon, dropLastSemicolons_body clean.declarations]
        simp [compacted, Gaps.head, Gaps.none]

def printAll (blocks : List Block) : Text := ['\n'].intercalate (blocks.map print)

theorem dropBeforeBraces_lines {blocks : List Block} (clean : ∀ b ∈ blocks, b.Clean) :
    dropBeforeBraces (blocks.flatMap fun b => '\n' :: b.written .printed) =
      blocks.flatMap fun b => '\n' :: b.written .inside := by
  induction blocks with
  | nil => rfl
  | cons b blocks ih =>
    have own := clean b List.mem_cons_self
    have first := own.dropBeforeBraces_printed (w := ['\n']) (List.forall_mem_singleton.mpr rfl)
      (blocks.flatMap fun b => '\n' :: b.written .printed)
    rw [ih fun c member => clean c (List.mem_cons_of_mem b member)] at first
    simpa using first

theorem dropAfter_lines {b : Block} {blocks : List Block} (own : b.Clean)
    (clean : ∀ c ∈ blocks, c.Clean) :
    dropAfter (b.written .inside ++ blocks.flatMap fun c => '\n' :: c.written .inside) =
      (b :: blocks).flatMap (written .none) := by
  induction blocks generalizing b with
  | nil =>
    have last : dropAfter (b.written .inside ++ ([] ++ [])) = b.written .none ++ dropAfter [] :=
      own.dropAfter_inside (by simp) (by simp)
    simpa [dropAfter] using last
  | cons next blocks ih =>
    have nextClean := clean next List.mem_cons_self
    have later := ih nextClean fun c member => clean c (List.mem_cons_of_mem next member)
    have visible : ∀ c ∈ (next.written .inside ++
        blocks.flatMap fun c => '\n' :: c.written .inside).head?, Text.isBlank c = false := by
      rw [written, List.append_assoc]
      exact head_first nextClean.nonempty nextClean.branches _
    have first := own.dropAfter_inside Text.isBlank_break visible
    rw [later] at first
    simpa using first

theorem dropLastSemicolons_all {blocks : List Block} (clean : ∀ b ∈ blocks, b.Clean) :
    dropLastSemicolons (blocks.flatMap (written .none)) = blocks.flatMap compacted := by
  induction blocks with
  | nil => rfl
  | cons b blocks ih =>
    rw [List.flatMap_cons, (clean b List.mem_cons_self).dropLastSemicolons_none,
      ih fun c member => clean c (List.mem_cons_of_mem b member), List.flatMap_cons]

/-- Compacting printed blocks leaves out everything that they do not need. -/
theorem compact_printAll {blocks : List Block} (clean : ∀ b ∈ blocks, b.Clean) :
    compact (printAll blocks) = blocks.flatMap compacted := by
  cases blocks with
  | nil => rfl
  | cons b blocks =>
    have own := clean b List.mem_cons_self
    have others : ∀ c ∈ blocks, c.Clean := fun c member => clean c (List.mem_cons_of_mem b member)
    have printed : printAll (b :: blocks) =
        b.written .printed ++ blocks.flatMap fun c => '\n' :: c.written .printed := by
      simp [printAll, Text.intercalate_cons, print_eq_written, List.flatMap_map]
    have noComment : '/' ∉ printAll (b :: blocks) := by
      intro member
      rcases Text.mem_intercalate member with separator | ⟨text, listed, inside⟩
      · cases List.mem_singleton.mp separator
      · obtain ⟨c, inBlocks, rfl⟩ := List.mem_map.mp listed
        rw [print_eq_written] at inside
        rcases (clean c inBlocks).mem_written Gaps.simple_printed '/' inside with quiet | brace
        · cases quiet
        · cases brace
    have braces := own.dropBeforeBraces_printed (w := []) (by simp)
      (blocks.flatMap fun c => '\n' :: c.written .printed)
    rw [dropBeforeBraces_lines others, List.nil_append, List.nil_append] at braces
    have first : ∀ c ∈ (b.written .inside ++
        blocks.flatMap fun c => '\n' :: c.written .inside).head?, Text.isBlank c = false := by
      rw [written, List.append_assoc]
      exact head_first own.nonempty own.branches _
    have calm : ∀ c ∈ (b :: blocks).flatMap (written .none), isQuiet c ∨ isBrace c := by
      intro c member
      obtain ⟨d, listed, inside⟩ := List.mem_flatMap.mp member
      exact (clean d listed).mem_written Gaps.simple_none c inside
    have noCombinator : ∀ c ∈ (b :: blocks).flatMap (written .none), isCombinator c = false := by
      intro c member
      cases combinator : isCombinator c with
      | false => rfl
      | true =>
        simp only [isCombinator, Bool.or_eq_true, decide_eq_true_eq] at combinator
        rcases combinator with (rfl | rfl) | rfl <;> rcases calm _ member with quiet | brace <;>
          first | cases quiet | cases brace
    have noEscape : '\\' ∉ (b :: blocks).flatMap (written .none) := by
      intro member
      rcases calm _ member with quiet | brace
      · cases quiet
      · cases brace
    rw [compact, dropComments_eq_self noComment, printed, braces, dropAfterDelimiters_eq first,
      dropAfter_lines own others, dropAroundCombinators_eq_self noCombinator,
      joinContinuations_eq_self noEscape, dropLastSemicolons_all clean]

theorem print_head {b : Block} (clean : b.Clean) (rest : Text) :
    ∃ c t, b.print ++ rest = c :: t ∧ Text.isBlank c = false := by
  have first := head_first (g := .printed) clean.nonempty clean.branches
    (Gaps.printed.brace ++ '{' :: (Gaps.printed.body b.declarations ++
      (Gaps.printed.close ++ '}' :: rest)))
  have whole : b.print ++ rest = Gaps.printed.head b.branches ++ (Gaps.printed.brace ++
      '{' :: (Gaps.printed.body b.declarations ++ (Gaps.printed.close ++ '}' :: rest))) := by
    simp [print_eq_written, written]
  rw [← whole] at first
  cases split : b.print ++ rest with
  | nil => simp [print] at split
  | cons c t =>
    rw [split] at first
    exact ⟨c, t, rfl, first c rfl⟩

/-- There is no gap between the blocks. -/
theorem replace_closingGaps {blocks : List Block} (clean : ∀ b ∈ blocks, b.Clean)
    (f : Text → Text) :
    Text.replace Layout.closingGapLength f (blocks.flatMap fun b => '\n' :: b.print) =
      blocks.flatMap fun b => '\n' :: b.print := by
  induction blocks with
  | nil => rfl
  | cons b blocks ih =>
    have own := clean b List.mem_cons_self
    have others : ∀ c ∈ blocks, c.Clean := fun c member => clean c (List.mem_cons_of_mem b member)
    let before := '\n' :: (Gaps.printed.head b.branches ++ ([' ', '{'] ++
      (Gaps.printed.body b.declarations ++ ['\n'])))
    let after := blocks.flatMap fun c => '\n' :: c.print
    have split : ((b :: blocks).flatMap fun b => '\n' :: b.print) = before ++ '}' :: after := by
      simp [before, after, print_eq_written, written, Gaps.printed]
    have noBrace : '}' ∉ before := by
      intro member
      have simple := Gaps.simple_printed
      simp only [before, List.mem_cons, List.mem_append, List.not_mem_nil, or_false] at member
      rcases member with clash | inHead | clash | inBody | clash
      · cases clash
      · cases isQuiet_head simple own.branches '}' inHead
      · rcases clash with clash | clash <;> cases clash
      · cases isQuiet_body simple own.declarations '}' inBody
      · cases clash
    have unmatched : ∀ u, u <:+ before → u ≠ [] →
        Layout.closingGapLength (u ++ '}' :: after) = 0 := by
      intro u suffix nonempty
      obtain ⟨c, u, rfl⟩ := List.exists_cons_of_ne_nil nonempty
      unfold Layout.closingGapLength
      split
      · next whole =>
        rw [(List.cons.inj whole).1] at suffix
        exact absurd (suffix.mem List.mem_cons_self) noBrace
      · rfl
    have closed : Layout.closingGapLength ('}' :: after) = 0 := by
      cases blocks with
      | nil => rfl
      | cons next blocks =>
        obtain ⟨c, t, first, visible⟩ := print_head (others next List.mem_cons_self)
          (blocks.flatMap fun c => '\n' :: c.print)
        have starts : after = '\n' :: c :: t := by
          simp only [after, List.flatMap_cons, List.cons_append, first]
        rw [starts]
        unfold Layout.closingGapLength
        split
        · next whole =>
          cases (List.cons.inj (List.cons.inj (List.cons.inj whole).2).2).1
          cases visible
        · rfl
    rw [split, Text.replace_append_of_unmatched unmatched, Text.replace_cons closed, ih others]

/-- The last pass takes the line break away that comes before the first block. -/
theorem finish_lines {blocks : List Block} (clean : ∀ b ∈ blocks, b.Clean)
    (lined : Layout.Lined (blocks.flatMap fun b => '\n' :: b.print)) :
    Layout.finish (blocks.flatMap fun b => '\n' :: b.print) = printAll blocks := by
  rw [Layout.finish, Layout.dropPaddingLines_eq_self lined, replace_closingGaps clean]
  cases blocks with
  | nil => rfl
  | cons b blocks =>
    have split : ((b :: blocks).flatMap fun b => '\n' :: b.print) =
        ['\n'] ++ printAll (b :: blocks) := by
      simp [printAll, Text.intercalate_cons, List.flatMap_map]
    have first : ∀ c ∈ (printAll (b :: blocks)).head?, Text.isBlank c = false := by
      obtain ⟨c, t, starts, visible⟩ := print_head (clean b List.mem_cons_self)
        (blocks.flatMap fun c => '\n' :: c.print)
      have whole : printAll (b :: blocks) = c :: t := by
        rw [← starts]
        simp [printAll, Text.intercalate_cons, List.flatMap_map]
      rw [whole]
      simpa using visible
    have last : ∀ c ∈ (printAll (b :: blocks)).getLast?, Text.isBlank c = false := by
      intro c final
      obtain ⟨text, listed, ends⟩ := Text.mem_getLast?_intercalate (by simp [print]) final
      obtain ⟨d, _, rfl⟩ := List.mem_map.mp listed
      rw [print, List.getLast?_append_of_ne_nil _ (by simp)] at ends
      cases ends
      rfl
    rw [split, Text.trim_append_of_blank_left Text.isBlank_break, Text.trim_eq_self first last]

end Block

end Stylesheet
