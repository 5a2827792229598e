import Stylesheet.Proofs.Arrangement

set_option autoImplicit false

namespace Stylesheet

namespace Layout

def opensComment (line : Text) : Bool := Text.trim line = ['/', '*', '*']

def openBlocks (lines : List Text) : Int := lines.flatten.count '{' - lines.flatten.count '}'

/-- How many spaces a line has before it: two for each block that the lines before it leave open, of
which a closing brace closes one, and one more on the second and third line of a comment. -/
def margin (before : List Text) (line : Text) : Int :=
  2 * (openBlocks before - if Text.trim line = ['}'] then 1 else 0) +
    if (before.reverse.take 2).any opensComment then 1 else 0

/-- Every line with something visible on it starts with as many spaces as it should, no more and no
fewer. -/
def Indented (css : Text) : Prop :=
  ∀ before line after, Text.lines css = before ++ line :: after →
    (∃ c ∈ line, Text.isBlank c = false) →
    (Text.countWhile (· = ' ') line : Int) = margin before line

def IndentedAfter (before : List Text) : List Text → Prop
  | [] => True
  | line :: lines =>
    ((∃ c ∈ line, Text.isBlank c = false) →
      (Text.countWhile (· = ' ') line : Int) = margin before line) ∧
    IndentedAfter (before ++ [line]) lines

namespace IndentedAfter

theorem append {before lines others : List Text} (first : IndentedAfter before lines)
    (second : IndentedAfter (before ++ lines) others) : IndentedAfter before (lines ++ others) := by
  induction lines generalizing before with
  | nil => simpa using second
  | cons line lines ih => exact ⟨first.1, ih first.2 (by simpa using second)⟩

theorem of_split {before between after : List Text} {line : Text}
    (indented : IndentedAfter before (between ++ line :: after)) :
    (∃ c ∈ line, Text.isBlank c = false) →
      (Text.countWhile (· = ' ') line : Int) = margin (before ++ between) line := by
  induction between generalizing before with
  | nil =>
    rw [List.append_nil]
    exact indented.1
  | cons next between ih =>
    have later := ih indented.2
    rwa [List.append_assoc] at later

end IndentedAfter

theorem openBlocks_append (lines others : List Text) :
    openBlocks (lines ++ others) = openBlocks lines + openBlocks others := by
  simp only [openBlocks, List.flatten_append, List.count_append]
  omega

theorem openBlocks_singleton {line : Text} (opening : '{' ∉ line) (closing : '}' ∉ line) :
    openBlocks [line] = 0 := by
  simp [openBlocks, List.count_eq_zero_of_not_mem, opening, closing]

/-- What is visible on a line stays when it is trimmed. -/
theorem mem_trim {line : Text} {c : Char} (member : c ∈ line) (visible : Text.isBlank c = false) :
    c ∈ Text.trim line := by
  obtain ⟨before, after, split, left, right⟩ := Text.exists_append_trim line
  rw [split] at member
  rcases List.mem_append.mp member with inFront | inAfter
  · rcases List.mem_append.mp inFront with inBefore | inside
    · simp [left c inBefore] at visible
    · exact inside
  · simp [right c inAfter] at visible

/-- A line with a visible character that the first line of a comment lacks is not such a line. -/
theorem opensComment_eq_false {line : Text} {c : Char} (member : c ∈ line)
    (visible : Text.isBlank c = false) (other : c ∉ ['/', '*', '*']) :
    opensComment line = false := by
  rw [← Bool.not_eq_true]
  intro isOpening
  have inside := mem_trim member visible
  rw [of_decide_eq_true isOpening] at inside
  exact other inside

theorem trim_spaces_append (depth : Nat) (t : Text) :
    Text.trim (spaces depth ++ t) = Text.trim t := by
  apply Text.trim_append_of_blank_left
  intro c member
  rw [List.eq_of_mem_replicate member]
  rfl

/-- The second line of a comment is not the first one of another. -/
theorem opensComment_second (depth : Nat) (words : Text) :
    opensComment (spaces depth ++ [' ', '*', ' '] ++ words) = false := by
  have start : (Text.trim ('*' :: ' ' :: words)).head? = some '*' := Text.head?_trim rfl rfl
  have trimmed : Text.trim (spaces depth ++ [' ', '*', ' '] ++ words) =
      Text.trim ('*' :: ' ' :: words) := by
    rw [List.append_assoc, trim_spaces_append]
    exact Text.trim_append_of_blank_left Text.isBlank_space ('*' :: ' ' :: words)
  rw [← Bool.not_eq_true]
  intro isOpening
  rw [← trimmed, of_decide_eq_true isOpening] at start
  cases start

/-- No comment is open after some lines. -/
def Calm (before : List Text) : Prop := (before.reverse.take 2).any opensComment = false

theorem Calm.concat {before : List Text} (calm : Calm before) {line : Text}
    (other : opensComment line = false) : Calm (before ++ [line]) := by
  unfold Calm at calm ⊢
  rw [List.reverse_append, List.reverse_singleton, List.singleton_append]
  cases lines : before.reverse with
  | nil => simp [other]
  | cons last lines =>
    rw [lines] at calm
    simp only [List.take_succ_cons, List.any_cons, Bool.or_eq_false_iff] at calm
    simp [other, calm.1]

/-- A line that closes no block has two spaces for each block around it, and one more in a
comment. -/
theorem margin_eq {before : List Text} {depth : Nat} (level : openBlocks before = depth)
    {line : Text} (other : '}' ∉ line) :
    margin before line = 2 * depth + if (before.reverse.take 2).any opensComment then 1 else 0 := by
  have notClosing : Text.trim line ≠ ['}'] := by
    intro closing
    apply other
    apply (Text.Cut.trim line).subset
    simp [closing]
  rw [margin, level, if_neg notClosing, Int.sub_zero]

theorem Calm.margin_eq {before : List Text} (calm : Calm before) {depth : Nat}
    (level : openBlocks before = depth) {line : Text} (other : '}' ∉ line) :
    margin before line = 2 * depth := by
  unfold Calm at calm
  rw [Layout.margin_eq level other, calm]
  simp

/-- The spaces of a line are counted up to its text. -/
theorem countWhile_spaces (n : Nat) {c : Char} (visible : Text.isBlank c = false) (t : Text) :
    Text.countWhile (· = ' ') (List.replicate n ' ' ++ c :: t) = n := by
  rw [Text.countWhile_append]
  · exact List.length_replicate
  · intro d member
    exact decide_eq_true (List.eq_of_mem_replicate member)
  · intro d isFirst
    cases isFirst
    rw [decide_eq_false_iff_not]
    rintro rfl
    cases visible

/-- The second and the third line of a comment have one space more. -/
theorem countWhile_spaces_star (depth : Nat) (t : Text) :
    Text.countWhile (· = ' ') (spaces depth ++ ' ' :: '*' :: t) = 2 * depth + 1 := by
  have split : spaces depth ++ ' ' :: '*' :: t =
      List.replicate (2 * depth + 1) ' ' ++ '*' :: t := by
    rw [List.replicate_succ', List.append_assoc]
    rfl
  rw [split]
  exact countWhile_spaces _ rfl t

theorem Lead.countWhile_eq {t : Text} (lead : Lead t) (depth : Nat) (more : Text) :
    Text.countWhile (· = ' ') (spaces depth ++ t ++ more) = 2 * depth := by
  obtain ⟨c, isFirst, visible⟩ := lead.visible
  obtain ⟨rest, rfl⟩ := List.head?_eq_some_iff.mp isFirst
  rw [List.append_assoc]
  exact countWhile_spaces _ visible _

/-- Lines that are indented, close the blocks that they open, and end outside comments. -/
structure Settles (before lines : List Text) : Prop where
  indented : IndentedAfter before lines
  closed : openBlocks lines = 0
  calm : Calm (before ++ lines)

theorem Settles.cons {before lines : List Text} {line : Text}
    (own : (∃ c ∈ line, Text.isBlank c = false) →
      (Text.countWhile (· = ' ') line : Int) = margin before line)
    (level : openBlocks [line] = 0) (rest : Settles (before ++ [line]) lines) :
    Settles before (line :: lines) := by
  refine ⟨⟨own, rest.indented⟩, ?_, ?_⟩
  · rw [← List.singleton_append, openBlocks_append, level, rest.closed]
    rfl
  · have calm := rest.calm
    rwa [List.append_assoc] at calm

section

variable {depth : Nat} {before lines : List Text} (level : openBlocks before = depth)
  (calm : Calm before)
  (rest : ∀ {after}, openBlocks after = depth → Calm after → Settles after lines)

include level calm rest

theorem Settles.line {t : Text} {c : Char} (lead : Lead t) (ends : c = ';' ∨ c = ',') :
    Settles before ((spaces depth ++ t ++ [c]) :: lines) := by
  have opening : '{' ∉ spaces depth ++ t ++ [c] := by
    have inText : '{' ∉ t := lead.free.not_mem (by simp [signs])
    rcases ends with rfl | rfl <;> simp [not_mem_spaces, inText]
  have closing : '}' ∉ spaces depth ++ t ++ [c] := by
    have inText : '}' ∉ t := lead.free.not_mem (by simp [signs])
    rcases ends with rfl | rfl <;> simp [not_mem_spaces, inText]
  have closed := openBlocks_singleton opening closing
  refine .cons ?_ closed (rest ?_ (calm.concat ?_))
  · intro _
    rw [calm.margin_eq level closing, lead.countWhile_eq]
    rfl
  · rw [openBlocks_append, level, closed, Int.add_zero]
  · apply opensComment_eq_false (c := c) (by simp) <;> rcases ends with rfl | rfl <;> decide

theorem Settles.comment {words : Text} (free : words.Free signs) :
    Settles before ((spaces depth ++ ['/', '*', '*']) ::
      (spaces depth ++ [' ', '*', ' '] ++ words) :: (spaces depth ++ [' ', '*', '/']) ::
        lines) := by
  have isOpening : opensComment (spaces depth ++ ['/', '*', '*']) := by
    rw [opensComment, trim_spaces_append]
    rfl
  have isClosing : opensComment (spaces depth ++ [' ', '*', '/']) = false := by
    rw [opensComment, trim_spaces_append]
    rfl
  have isText := opensComment_second depth words
  have noOpening : '{' ∉ words := free.not_mem (by simp [signs])
  have noClosing : '}' ∉ words := free.not_mem (by simp [signs])
  have closedFirst : openBlocks [spaces depth ++ ['/', '*', '*']] = 0 :=
    openBlocks_singleton (by simp [not_mem_spaces]) (by simp [not_mem_spaces])
  have closedSecond : openBlocks [spaces depth ++ [' ', '*', ' '] ++ words] = 0 :=
    openBlocks_singleton (by simp [not_mem_spaces, noOpening]) (by simp [not_mem_spaces, noClosing])
  have closedThird : openBlocks [spaces depth ++ [' ', '*', '/']] = 0 :=
    openBlocks_singleton (by simp [not_mem_spaces]) (by simp [not_mem_spaces])
  have afterFirst : openBlocks (before ++ [spaces depth ++ ['/', '*', '*']]) = depth := by
    rw [openBlocks_append, level, closedFirst, Int.add_zero]
  have afterSecond : openBlocks (before ++ [spaces depth ++ ['/', '*', '*']] ++
      [spaces depth ++ [' ', '*', ' '] ++ words]) = depth := by
    rw [openBlocks_append, afterFirst, closedSecond, Int.add_zero]
  refine .cons ?_ closedFirst (.cons ?_ closedSecond (.cons ?_ closedThird (rest ?_ ?_)))
  · intro _
    rw [calm.margin_eq level (by simp [not_mem_spaces]), spaces, countWhile_spaces _ rfl]
    rfl
  · intro _
    rw [margin_eq afterFirst (by simp [not_mem_spaces, noClosing]), List.append_assoc]
    simp [countWhile_spaces_star, isOpening]
  · intro _
    rw [margin_eq afterSecond (by simp [not_mem_spaces])]
    simp [countWhile_spaces_star, isOpening]
  · rw [openBlocks_append, afterSecond, closedThird, Int.add_zero]
  · have last : (before ++ [spaces depth ++ ['/', '*', '*']] ++
        [spaces depth ++ [' ', '*', ' '] ++ words] ++
          [spaces depth ++ [' ', '*', '/']]).reverse.take 2 =
          [spaces depth ++ [' ', '*', '/'], spaces depth ++ [' ', '*', ' '] ++ words] := by simp
    unfold Calm
    rw [last, List.any_cons, List.any_cons, isClosing, isText]
    rfl

theorem Settles.block {t : Text} (lead : Lead t) {inner : List Text}
    (inside : ∀ {after}, openBlocks after = (depth + 1 : Nat) → Calm after → Settles after inner) :
    Settles before ((spaces depth ++ t ++ [' ', '{']) ::
      (inner ++ (spaces depth ++ ['}']) :: lines)) := by
  have noOpening : '{' ∉ t := lead.free.not_mem (by simp [signs])
  have noClosing : '}' ∉ t := lead.free.not_mem (by simp [signs])
  have opens : openBlocks [spaces depth ++ t ++ [' ', '{']] = 1 := by
    simp [openBlocks, List.count_eq_zero_of_not_mem, not_mem_spaces, noOpening, noClosing]
  have closes : openBlocks [spaces depth ++ ['}']] = -1 := by
    simp [openBlocks, List.count_eq_zero_of_not_mem, not_mem_spaces]
  have isClosing : Text.trim (spaces depth ++ ['}']) = ['}'] := by
    rw [trim_spaces_append]
    rfl
  have body : Settles (before ++ [spaces depth ++ t ++ [' ', '{']]) inner := by
    apply inside
    · rw [openBlocks_append, level, opens]
      rfl
    · exact calm.concat (opensComment_eq_false (c := '{') (by simp) rfl (by decide))
  have atEnd : openBlocks (before ++ [spaces depth ++ t ++ [' ', '{']] ++ inner) = depth + 1 := by
    rw [openBlocks_append, openBlocks_append, level, opens, body.closed, Int.add_zero]
  have later : Settles (before ++ [spaces depth ++ t ++ [' ', '{']] ++ inner ++
      [spaces depth ++ ['}']]) lines := by
    apply rest
    · rw [openBlocks_append, atEnd, closes]
      omega
    · exact body.calm.concat (opensComment_eq_false (c := '}') (by simp) rfl (by decide))
  refine ⟨⟨?_, body.indented.append ⟨?_, later.indented⟩⟩, ?_, ?_⟩
  · intro _
    rw [calm.margin_eq level (by simp [not_mem_spaces, noClosing]), lead.countWhile_eq]
    rfl
  · intro _
    have outside : ((before ++ [spaces depth ++ t ++ [' ', '{']] ++ inner).reverse.take 2).any
        opensComment = false := body.calm
    rw [margin, atEnd, if_pos isClosing, outside, spaces, countWhile_spaces _ rfl]
    simp
  · have split : (spaces depth ++ t ++ [' ', '{']) :: (inner ++ (spaces depth ++ ['}']) :: lines) =
        [spaces depth ++ t ++ [' ', '{']] ++ (inner ++ ([spaces depth ++ ['}']] ++ lines)) := rfl
    rw [split, openBlocks_append, openBlocks_append, openBlocks_append, opens, body.closed, closes,
      later.closed]
    rfl
  · have outside := later.calm
    simpa using outside

end

/-- Arranged lines are indented, whatever comes before them. -/
theorem Arranged.settles {depth : Nat} {lines : List Text} (arranged : Arranged depth lines)
    {before : List Text} (level : openBlocks before = depth) (calm : Calm before) :
    Settles before lines := by
  induction arranged generalizing before with
  | nil => exact ⟨trivial, rfl, by simpa using calm⟩
  | empty _ ih =>
    refine .cons (by simp) rfl (ih ?_ (calm.concat rfl))
    rw [openBlocks_append, level]
    rfl
  | line lead ends _ ih => exact .line level calm ih lead ends
  | comment free _ ih => exact .comment level calm ih free
  | block lead _ _ innerIh ih => exact .block level calm ih lead innerIh

theorem Arranged.indented {css : Text} (arranged : Arranged 0 (Text.lines css)) : Indented css := by
  have settled : Settles [] (Text.lines css) := arranged.settles rfl rfl
  intro before line after divided
  rw [divided] at settled
  exact settled.indented.of_split

end Layout

open Session (ofText ofFile)

/-- No token has a brace or a line break in its texts, and every rule has a selector to print. -/
structure Session.Regular (volume : Volume) (start : Session) : Prop where
  free : ∀ token, start.Tokens volume token → ∀ field ∈ token.fields, field.Free ['{', '}', '\n']
  selected : ∀ selector, start.Selects volume selector → Layout.selector selector 0 ≠ []

theorem Session.Outputs.indented {volume : Volume} {start : Session} {raw : Text}
    (outputs : start.Outputs volume raw) (begins : start.Begins) (regular : start.Regular volume) :
    Layout.Indented (Layout.finish raw) ∧ (Layout.finish raw).Balanced := by
  have few := List.Subset.refl Layout.signs
  have laid : Laid False (Resolved.Made Layout.signs (start.Opens volume)) false 0 raw :=
    outputs.laid few begins regular.free False.elim
  obtain ⟨forest, rfl, -, made⟩ := laid
  have named : ∀ selector, .opens (.rule selector) ∈ forest.stream →
      Layout.selector selector 0 ≠ [] := fun selector member =>
    regular.selected selector (made _ member).2
  obtain ⟨lines, printed, arranged⟩ := forest.exists_arranged made named 0
  refine ⟨?_, Forest.balanced_finish ⟨by simp [Layout.signs], by simp [Layout.signs]⟩ few made⟩
  rw [printed]
  exact arranged.lines_finish.indented

/-- In all output every line is indented as deep as it is nested, and the braces are balanced. -/
theorem compile_indented (volume : Volume) (options : Options)
    (unminified : options.minify = false) :
    (∀ source css, compile volume options source = .ok css →
      (ofText options source).Regular volume → Layout.Indented css ∧ css.Balanced) ∧
    ∀ path css, compileFile volume options path = .ok css →
      (ofFile volume path).Regular volume → Layout.Indented css ∧ css.Balanced := by
  apply Session.forall_output (P := fun start css => start.Regular volume →
    Layout.Indented css ∧ css.Balanced) volume options unminified
  intro start raw begins outputs regular
  exact outputs.indented begins regular

/-- A comment and rules are imported into a rule with two branches. -/
theorem compile_indented_imported :
    let source := "@media m \x7b a, b \x7b @import 'c'; @import 'b'; k: v \x7d \x7d".toList
    let css := ("@media m \x7b\n  a,\n  b \x7b\n\n    /**\n     * x\n     */\n\n    p \x7b\n" ++
      "      k: v;\n    \x7d\n    p q \x7b\n      l: w;\n    \x7d\n    k: v;\n  \x7d\n\x7d").toList
    compile ruleFiles .default source = .ok css ∧ (ofText .default source).Regular ruleFiles ∧
      Layout.Indented css ∧ Text.Balanced css := by
  intro source css
  have compiled : compile ruleFiles .default source = .ok css := by decide +kernel
  have ended : (ofText .default source).after ruleFiles 21 = none := by decide +kernel
  have printed : (((ofText .default source).course ruleFiles 21).filterMap Session.selector?).all
      (Layout.selector · 0 ≠ []) := by decide +kernel
  have regular : (ofText .default source).Regular ruleFiles :=
    ⟨Session.free_of_course ended (by decide +kernel), fun selector selects =>
      of_decide_eq_true (List.all_eq_true.mp printed selector (selects.mem_course ended))⟩
  exact ⟨compiled, regular,
    (compile_indented ruleFiles .default rfl).1 source css compiled regular⟩

end Stylesheet
