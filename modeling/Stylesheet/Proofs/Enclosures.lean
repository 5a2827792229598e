import Stylesheet.Proofs.Reading
import Stylesheet.Proofs.Seams

set_option autoImplicit false

namespace Stylesheet

namespace Text

/-- The control characters that are no layout. -/
def isForbidden (c : Char) : Bool :=
  c.toNat < 0x20 && !(c = '\n' || c = '\t' || c = '\x0b' || c = '\x0c')

/-- Whether a text ends in a backslash that takes the next character, if each backslash takes one
from left to right. -/
def escapesNext (t : Text) : Bool := t.foldl (fun taken c => !taken && c = '\\') false

/-- A forbidden character behind the beginning of a text, which no backslash takes. -/
structure Stray (t before : Text) (c : Char) : Prop where
  place : before ++ [c] <+: t
  forbidden : isForbidden c
  untaken : before.escapesNext = false

/-- The first forbidden character that no backslash takes. -/
def FirstStray (t before : Text) (c : Char) : Prop :=
  t.Stray before c ∧ ∀ u d, t.Stray u d → before.length ≤ u.length

variable {t u : Text} {c d : Char}

theorem not_stray_nil : ¬ Stray [] u c := fun stray => by simpa using stray.place

theorem append_singleton_prefix_cons : u ++ [d] <+: c :: t ↔
    u = [] ∧ d = c ∨ ∃ v, u = c :: v ∧ v ++ [d] <+: t := by
  cases u with
  | nil => simp
  | cons e u => simp [List.cons_prefix_cons, and_assoc]

theorem escapesNext_cons (plain : c ≠ '\\') : escapesNext (c :: t) = escapesNext t := by
  simp [escapesNext, plain]

theorem escapesNext_escape (d : Char) (t : Text) :
    escapesNext ('\\' :: d :: t) = escapesNext t := by
  simp [escapesNext]

/-- The characters after one that is no backslash. -/
theorem stray_cons (plain : c ≠ '\\') : Stray (c :: t) u d ↔
    u = [] ∧ d = c ∧ isForbidden c ∨ ∃ v, u = c :: v ∧ t.Stray v d := by
  constructor
  · rintro ⟨place, forbidden, untaken⟩
    rcases append_singleton_prefix_cons.mp place with ⟨rfl, rfl⟩ | ⟨v, rfl, later⟩
    · exact .inl ⟨rfl, rfl, forbidden⟩
    · exact .inr ⟨v, rfl, later, forbidden, escapesNext_cons plain ▸ untaken⟩
  · rintro (⟨rfl, rfl, forbidden⟩ | ⟨v, rfl, place, forbidden, untaken⟩)
    · exact ⟨by simp, forbidden, rfl⟩
    · exact ⟨append_singleton_prefix_cons.mpr (.inr ⟨v, rfl, place⟩), forbidden,
        (escapesNext_cons plain).trans untaken⟩

theorem stray_cons_of_allowed (plain : c ≠ '\\') (allowed : isForbidden c = false) :
    Stray (c :: t) u d ↔ ∃ v, u = c :: v ∧ t.Stray v d := by
  simp [stray_cons plain, allowed]

/-- The characters after an escape. -/
theorem stray_escape {e : Char} : Stray ('\\' :: e :: t) u d ↔
    ∃ v, u = '\\' :: e :: v ∧ t.Stray v d := by
  constructor
  · rintro ⟨place, forbidden, untaken⟩
    rcases append_singleton_prefix_cons.mp place with ⟨rfl, rfl⟩ | ⟨v, rfl, later⟩
    · cases forbidden
    · rcases append_singleton_prefix_cons.mp later with ⟨rfl, -⟩ | ⟨w, rfl, last⟩
      · cases untaken
      · exact ⟨w, rfl, last, forbidden, escapesNext_escape e w ▸ untaken⟩
  · rintro ⟨v, rfl, place, forbidden, untaken⟩
    exact ⟨by simpa [List.cons_prefix_cons] using place, forbidden,
      (escapesNext_escape e v).trans untaken⟩

/-- A forbidden character at the beginning is the first one. -/
theorem firstStray_cons_of_forbidden (forbidden : isForbidden c) :
    FirstStray (c :: t) u d ↔ u = [] ∧ d = c := by
  have plain : c ≠ '\\' := by
    rintro rfl
    cases forbidden
  have here : Stray (c :: t) [] c := (stray_cons plain).mpr (.inl ⟨rfl, rfl, forbidden⟩)
  constructor
  · rintro ⟨stray, first⟩
    obtain rfl := List.length_eq_zero_iff.mp (Nat.le_zero.mp (first [] c here))
    rcases (stray_cons plain).mp stray with ⟨-, same, -⟩ | ⟨v, impossible, -⟩
    · exact ⟨rfl, same⟩
    · cases impossible
  · rintro ⟨rfl, rfl⟩
    exact ⟨here, fun u d _ => Nat.zero_le _⟩

/-- If all stray characters come after a beginning of the text, then so does the first one. -/
theorem firstStray_append {before : Text}
    (strays : ∀ u d, (before ++ t).Stray u d ↔ ∃ v, u = before ++ v ∧ t.Stray v d) :
    FirstStray (before ++ t) u d ↔ ∃ v, u = before ++ v ∧ t.FirstStray v d := by
  constructor
  · rintro ⟨stray, first⟩
    obtain ⟨v, rfl, later⟩ := (strays u d).mp stray
    refine ⟨v, rfl, later, fun w e other => ?_⟩
    simpa using first (before ++ w) e ((strays _ e).mpr ⟨w, rfl, other⟩)
  · rintro ⟨v, rfl, stray, first⟩
    refine ⟨(strays _ d).mpr ⟨v, rfl, stray⟩, fun w e other => ?_⟩
    obtain ⟨w, rfl, later⟩ := (strays w e).mp other
    simpa using first w e later

theorem exists_firstStray (stray : t.Stray u c) : ∃ v d, t.FirstStray v d := by
  induction size : u.length using Nat.strongRecOn generalizing u c with
  | ind bound ih =>
    by_cases first : ∀ v d, t.Stray v d → u.length ≤ v.length
    · exact ⟨u, c, stray, first⟩
    · push Not at first
      obtain ⟨v, d, other, shorter⟩ := first
      exact ih v.length (by omega) other rfl

end Text

theorem Mark.of_eq_control_iff (c : Char) : Mark.of c = .control ↔ Text.isForbidden c := by
  by_cases listed : c ∈ marked
  · simp only [marked, List.mem_cons, List.not_mem_nil, or_false] at listed
    rcases listed with rfl | rfl | rfl | rfl | rfl | rfl | rfl | rfl | rfl | rfl | rfl | rfl <;>
      decide
  · simp only [marked, List.mem_cons, List.not_mem_nil, or_false, not_or] at listed
    simp [Mark.of, Text.isForbidden, listed]

/-- What is neither a brace, a quote nor another delimiter. -/
theorem Mark.not_mem_of_mark {c : Char}
    (other : Mark.of c = .layout ∨ Mark.of c = .space ∨ Mark.of c = .plain) :
    c ∉ ['\'', '"', '{', '}', ';', '@', ':'] := by
  intro member
  simp only [List.mem_cons, List.not_mem_nil, or_false] at member
  rcases member with rfl | rfl | rfl | rfl | rfl | rfl | rfl <;> simp [Mark.of] at other

namespace Position

theorem after_append (p : Position) (t u : Text) : p.after (t ++ u) = (p.after t).after u :=
  List.foldl_append

/-- The position after a text counts its line breaks and what follows the last one. -/
theorem after_start (t : Text) :
    start.after t = ⟨1 + t.count '\n', (t.reverse.takeWhile (· ≠ '\n')).length⟩ := by
  induction t using List.reverseRecOn with
  | nil => rfl
  | append_singleton t c ih =>
    rw [after_append, ih]
    change advance _ c = _
    by_cases isBreak : c = '\n'
    · simp [advance, isBreak, Nat.add_assoc]
    · simp [advance, isBreak]

end Position

namespace Enclosure

inductive Verbatim where
  | singleQuoted
  | doubleQuoted
  | comment
  deriving DecidableEq, Repr

inductive Clause where
  | header
  | value
  deriving DecidableEq, Repr

inductive Block where
  | rule
  | atBlock
  deriving DecidableEq, Repr

/-- Something that was opened by a character of a text, and how many characters stand before
that one. -/
structure Opened (Kind : Type) where
  kind : Kind
  offset : Nat
  deriving DecidableEq, Repr

namespace Verbatim

def quote? : Verbatim → Option Char
  | singleQuoted => some '\''
  | doubleQuoted => some '"'
  | comment => none

def construct : Verbatim → Construct
  | singleQuoted => .singleQuoted
  | doubleQuoted => .doubleQuoted
  | comment => .comment

end Verbatim

def Clause.construct : Clause → Construct
  | header => .header
  | value => .value

def Block.construct : Block → Construct
  | rule => .rule
  | atBlock => .atBlock

end Enclosure

/-- What a text ends inside of: blocks, innermost first, in them at most one at-rule or value, and
in that at most one string or comment. -/
structure Enclosure where
  verbatim : Option (Enclosure.Opened Enclosure.Verbatim)
  clause : Option (Enclosure.Opened Enclosure.Clause)
  blocks : List (Enclosure.Opened Enclosure.Block)
  deriving DecidableEq, Repr

namespace Enclosure

def start : Enclosure := ⟨none, none, []⟩

/-- Whether a colon begins a value: always in the body of a rule, and in that of an at-rule if the
next delimiter, even one in a string, is not the brace of a block. -/
def beginsValue (e : Enclosure) (rest : Text) : Bool :=
  match e.blocks.head?.map Opened.kind with
  | none => false
  | some .rule => true
  | some .atBlock => !Scan.opensBlock rest

def nextBlock (e : Enclosure) : Block :=
  if e.clause.map Opened.kind = some .header then .atBlock else .rule

def plain (e : Enclosure) (offset : Nat) (c : Char) (rest : Text) : Enclosure :=
  if c = '\'' then { e with verbatim := some ⟨.singleQuoted, offset⟩ }
  else if c = '"' then { e with verbatim := some ⟨.doubleQuoted, offset⟩ }
  else if c = '{' then { e with clause := none, blocks := ⟨e.nextBlock, offset⟩ :: e.blocks }
  else if c = '}' then { e with clause := none, blocks := e.blocks.tail }
  else if c = ';' then { e with clause := none }
  else if c = '@' then { e with clause := e.clause.or (some ⟨.header, offset⟩) }
  else if c = ':' then
    { e with clause := e.clause.or (if e.beginsValue rest then some ⟨.value, offset⟩ else none) }
  else e

def single (e : Enclosure) (offset : Nat) (c : Char) (rest : Text) : Enclosure :=
  match e.verbatim with
  | some opened => if opened.kind.quote? = some c then { e with verbatim := none } else e
  | none => e.plain offset c rest

def pair? (e : Enclosure) (offset : Nat) (c d : Char) : Option Enclosure :=
  if c = '\\' then some e
  else if c = '/' && d = '*' && e.verbatim.isNone then
    some { e with verbatim := some ⟨.comment, offset⟩ }
  else if c = '*' && d = '/' && e.verbatim.map Opened.kind = some .comment then
    some { e with verbatim := none }
  else none

def run (e : Enclosure) (offset : Nat) : Text → Enclosure
  | [] => e
  | [c] => e.single offset c []
  | c :: d :: rest =>
    match e.pair? offset c d with
    | some e => e.run (offset + 2) rest
    | none => (e.single offset c (d :: rest)).run (offset + 1) (d :: rest)

theorem plain_eq_self {e : Enclosure} {c : Char}
    (other : c ∉ ['\'', '"', '{', '}', ';', '@', ':']) (offset : Nat) (rest : Text) :
    e.plain offset c rest = e := by
  simp only [List.mem_cons, List.not_mem_nil, or_false, not_or] at other
  simp [plain, other]

def layers (e : Enclosure) : List (Opened Construct) :=
  e.verbatim.toList.map (fun opened => ⟨opened.kind.construct, opened.offset⟩) ++
    (e.clause.toList.map (fun opened => ⟨opened.kind.construct, opened.offset⟩) ++
      e.blocks.map fun opened => ⟨opened.kind.construct, opened.offset⟩)

def Opened.frame (t : Text) (opened : Opened Construct) : Frame :=
  ⟨opened.kind, 1 + (t.take opened.offset).count '\n'⟩

def frames (e : Enclosure) (t : Text) : List Frame := e.layers.map (Opened.frame t)

end Enclosure

/-- The quote that ends a string. -/
theorem Mark.of_eq_quote_iff (c : Char) (v : Enclosure.Verbatim) :
    Mark.of c = .quote v.construct ↔ v.quote? = some c := by
  constructor
  · refine forall_of (P := fun c mark => mark = .quote v.construct → v.quote? = some c) ?_ ?_ ?_ c
    · cases v <;> simp [marked, Mark.of, Enclosure.Verbatim.construct, Enclosure.Verbatim.quote?]
    · simp
    · simp
  · intro same
    cases v <;> cases same <;> rfl

def Text.enclosure (t : Text) : Enclosure := Enclosure.start.run 0 t

namespace Scan

variable {s next : Scan} {c d : Char} {rest : Text}

namespace Paired

theorem position_eq (paired : s.Paired c d next) :
    next.position = (s.position.advance c).advance d := by
  cases paired <;> rfl

/-- No character of a pair is stray. -/
theorem stray_iff (paired : s.Paired c d next) {t u : Text} {e : Char} :
    Text.Stray ([c, d] ++ t) u e ↔ ∃ v, u = [c, d] ++ v ∧ t.Stray v e := by
  cases paired with
  | escape d => exact Text.stray_escape
  | openComment outside | closeComment inside =>
    simp [Text.stray_cons_of_allowed, Text.isForbidden]

end Paired

theorem single_eq_error_iff (s : Scan) (c : Char) (rest : Text) (error : ScanError) :
    s.single c rest = .error error ↔
      Text.isForbidden c ∧ error = .controlCharacter c (s.position.advance c) := by
  rw [← Mark.of_eq_control_iff]
  unfold single
  dsimp only
  cases Mark.of c with
  | control => simp [advance, eq_comm]
  | layout | space | openBrace | closeBrace | colon | semicolon | atSign | quote | plain => simp

theorem position_single (formed : s.WellFormed) (read : s.single c rest = .ok next) :
    next.position = s.position.advance c :=
  (congrArg Outline.position (outline_single formed read)).trans
    (Outline.position_single s.outline c)

/-- The error at the first stray character, if all of them come after a beginning of the text. -/
theorem exists_firstStray_append_iff {before t : Text} {p : Position} {error : ScanError}
    (strays : ∀ u d, (before ++ t).Stray u d ↔ ∃ v, u = before ++ v ∧ t.Stray v d) :
    (∃ u c, (before ++ t).FirstStray u c ∧
        error = .controlCharacter c ((p.after u).advance c)) ↔
      ∃ u c, t.FirstStray u c ∧
        error = .controlCharacter c (((p.after before).after u).advance c) := by
  constructor
  · rintro ⟨u, c, first, same⟩
    obtain ⟨v, rfl, later⟩ := (Text.firstStray_append strays).mp first
    exact ⟨v, c, later, Position.after_append p before v ▸ same⟩
  · rintro ⟨v, c, first, same⟩
    exact ⟨before ++ v, c, (Text.firstStray_append strays).mpr ⟨v, rfl, first⟩,
      Position.after_append p before v ▸ same⟩

/-- Reading fails at the first stray character. -/
theorem run_eq_error_iff (formed : s.WellFormed) (t : Text) (error : ScanError) :
    s.run t = .error error ↔
      ∃ u c, t.FirstStray u c ∧
        error = .controlCharacter c ((s.position.after u).advance c) := by
  induction s, t using run.induct with
  | case1 s => simp [run, Text.FirstStray, Text.not_stray_nil]
  | case2 s c =>
    rw [run, single_eq_error_iff]
    by_cases forbidden : Text.isForbidden c
    · simp [Text.firstStray_cons_of_forbidden forbidden, forbidden, Position.after]
    · have none (u : Text) (d : Char) : ¬ Text.FirstStray [c] u d := by
        rintro ⟨⟨place, isForbidden, -⟩, -⟩
        rcases Text.append_singleton_prefix_cons.mp place with ⟨-, rfl⟩ | ⟨v, -, later⟩
        · exact forbidden isForbidden
        · simp at later
      simp [forbidden, none]
  | case3 s c d rest after pair ih =>
    have paired := paired_of_eq_some pair
    rw [run, pair]
    change after.run rest = .error error ↔ _
    rw [ih (formed.pair pair), paired.position_eq]
    -- No character of a pair is stray, so the first one comes after it.
    exact (exists_firstStray_append_iff fun u d => paired.stray_iff).symm
  | case4 s c d rest pair failure single =>
    obtain ⟨forbidden, same⟩ := (single_eq_error_iff s c _ _).mp single
    simp only [run, pair, single, same, Text.firstStray_cons_of_forbidden forbidden]
    simp [Position.after, eq_comm]
  | case5 s c d rest pair after single ih =>
    have allowed : Text.isForbidden c = false := by
      by_contra forbidden
      have failed := (single_eq_error_iff s c (d :: rest) _).mpr ⟨by simpa using forbidden, rfl⟩
      rw [single] at failed
      cases failed
    have strays (u : Text) (e : Char) : Text.Stray ([c] ++ d :: rest) u e ↔
        ∃ v, u = [c] ++ v ∧ Text.Stray (d :: rest) v e :=
      Text.stray_cons_of_allowed (ne_of_pair_eq_none pair) allowed
    simp only [run, pair, single]
    rw [ih (formed.single single), position_single formed single]
    exact (exists_firstStray_append_iff strays).symm

open Enclosure (Opened)

section Enclosed

variable {t : Text} {e : Enclosure} {offset : Nat} (frames : s.frames = e.frames t)

include frames

theorem top_of_frames : s.top = e.layers.head?.map Opened.kind := by
  rw [top, frames, Enclosure.frames, List.head?_map, Option.map_map]
  rfl

theorem outline_verbatim_of_frames :
    s.outline.verbatim = e.verbatim.map fun opened => opened.kind.construct := by
  obtain ⟨verbatim, clause, blocks⟩ := e
  rw [outline, top_of_frames frames]
  rcases verbatim with _ | ⟨_ | _ | _, _⟩
  · rcases clause with _ | ⟨_ | _, _⟩
    · rcases blocks with _ | ⟨⟨_ | _, _⟩, _⟩ <;> rfl
    · rfl
    · rfl
  · rfl
  · rfl
  · rfl

/-- A clause that ends is no longer open. -/
theorem frames_endClause (outside : e.verbatim = none) :
    s.endClause.frames = Enclosure.frames { e with clause := none } t := by
  obtain ⟨verbatim, clause, blocks⟩ := e
  cases outside
  have isTop := top_of_frames frames
  have ended : s.endProperty.frames = s.frames.tail := by
    unfold endProperty
    dsimp only
    split <;> rfl
  unfold endClause
  rcases clause with _ | ⟨_ | _, _⟩
  · rcases blocks with _ | ⟨⟨_ | _, _⟩, _⟩ <;> rw [isTop] <;> exact frames
  · rw [isTop]
    exact congrArg List.tail frames
  · rw [isTop]
    exact ended.trans (congrArg List.tail frames)

theorem frames_closeBlock (outside : e.verbatim = none) (unclaused : e.clause = none) :
    s.closeBlock.frames = Enclosure.frames { e with blocks := e.blocks.tail } t := by
  obtain ⟨verbatim, clause, blocks⟩ := e
  cases outside
  cases unclaused
  have isTop := top_of_frames frames
  unfold closeBlock
  rcases blocks with _ | ⟨⟨_ | _, _⟩, _⟩ <;> rw [isTop]
  · exact frames
  · exact congrArg List.tail frames
  · exact congrArg List.tail frames

variable (line : s.position.line = 1 + (t.take offset).count '\n')

include line

theorem frames_openBrace (outside : e.verbatim = none) :
    s.openBrace.frames = Enclosure.frames
      { e with clause := none, blocks := ⟨e.nextBlock, offset⟩ :: e.blocks } t := by
  obtain ⟨verbatim, clause, blocks⟩ := e
  cases outside
  have isTop := top_of_frames frames
  unfold openBrace
  rcases clause with _ | ⟨_ | _, _⟩
  · have opened : s.enterRule.frames = ⟨.rule, s.position.line⟩ :: s.frames := rfl
    rw [line, frames] at opened
    rcases blocks with _ | ⟨⟨_ | _, _⟩, _⟩ <;> rw [isTop] <;> exact opened
  · have opened : s.enterAtBlock.frames = ⟨.atBlock, s.position.line⟩ :: s.frames.tail := rfl
    rw [line, frames] at opened
    rw [isTop]
    exact opened
  · have opened : s.reclassify.enterRule.frames = ⟨.rule, s.position.line⟩ :: s.frames.tail := rfl
    rw [line, frames] at opened
    rw [isTop]
    exact opened

theorem frames_atSign (outside : e.verbatim = none) :
    s.atSign.frames =
      Enclosure.frames { e with clause := e.clause.or (some ⟨.header, offset⟩) } t := by
  obtain ⟨verbatim, clause, blocks⟩ := e
  cases outside
  have isTop := top_of_frames frames
  have started : ({ s with key := none, pending := ['@'] }.enter .header).frames =
      Opened.frame t ⟨.header, offset⟩ :: Enclosure.frames ⟨none, clause, blocks⟩ t := by
    rw [enter, line]
    exact congrArg (_ :: ·) frames
  unfold atSign
  rcases clause with _ | ⟨_ | _, _⟩
  · rcases blocks with _ | ⟨⟨_ | _, _⟩, _⟩ <;> rw [isTop] <;> exact started
  · rw [isTop]
    exact frames
  · rw [isTop]
    exact frames

theorem frames_colon (outside : e.verbatim = none) (rest : Text) :
    (s.colon rest).frames = Enclosure.frames
      { e with clause := e.clause.or (if e.beginsValue rest then some ⟨.value, offset⟩ else none) }
      t := by
  obtain ⟨verbatim, clause, blocks⟩ := e
  cases outside
  have isTop := top_of_frames frames
  have started : s.startValue.frames = ⟨.value, s.position.line⟩ :: s.frames := rfl
  rw [line, frames] at started
  unfold colon Enclosure.beginsValue
  rcases clause with _ | ⟨_ | _, _⟩
  · rcases blocks with _ | ⟨⟨_ | _, _⟩, _⟩ <;> rw [isTop]
    · exact frames
    · exact started
    · cases opens : opensBlock rest with
      | true => exact frames
      | false => exact started
  · rw [isTop]
    exact frames
  · rw [isTop]
    exact frames

theorem frames_quote (outside : e.verbatim = none) (c : Char) (v : Enclosure.Verbatim) :
    (s.quote c v.construct).frames =
      Enclosure.frames { e with verbatim := some ⟨v, offset⟩ } t := by
  obtain ⟨verbatim, clause, blocks⟩ := e
  cases outside
  have isTop := top_of_frames frames
  have entered : ((s.enter v.construct).write c).frames =
      ⟨v.construct, s.position.line⟩ :: s.frames := rfl
  rw [line, frames] at entered
  unfold quote
  rcases clause with _ | ⟨_ | _, _⟩
  · rcases blocks with _ | ⟨⟨_ | _, _⟩, _⟩ <;> rw [isTop] <;> exact entered
  · rw [isTop]
    exact entered
  · rw [isTop]
    exact entered

end Enclosed

section Reading

variable {t : Text} {e : Enclosure} {offset : Nat}

theorem line_of_place {before : Text} (place : s.position = Position.start.after before) :
    s.position.line = 1 + ((before ++ t).take before.length).count '\n' := by
  rw [place, Position.line_after, List.take_left]
  rfl

theorem frames_blank (s : Scan) : s.blank.frames = s.frames := by
  unfold blank
  split <;> rfl

/-- In a string or a comment only its end counts. -/
theorem frames_single_inside {v : Construct} (inside : s.outline.verbatim = some v)
    (read : s.single c rest = .ok next) :
    next.frames = if Mark.of c = .quote v then s.frames.tail else s.frames := by
  have advanced : (s.advance c).outline.verbatim = some v := inside
  cases lone_of_eq_ok read with
  | quote marks =>
    rw [quote_inside advanced (Mark.of_eq_quote marks), marks]
    simp only [Mark.quote.injEq]
    split <;> rfl
  | layout marks =>
    rw [inVerbatim_eq_isSome, advanced, marks]
    rfl
  | space => exact frames_blank _
  | openBrace => rw [openBrace_inside advanced]; rfl
  | closeBrace => rw [closeBrace_inside advanced]; rfl
  | colon => rw [colon_inside advanced]; rfl
  | semicolon => rw [semicolon_inside advanced]; rfl
  | atSign => rw [atSign_inside advanced]; rfl
  | plain marks => rw [marks]; rfl

/-- Outside strings and comments all delimiters count. -/
theorem frames_single_outside (frames : s.frames = e.frames t) (outside : e.verbatim = none)
    (line : s.position.line = 1 + (t.take offset).count '\n')
    (read : s.single c rest = .ok next) : next.frames = (e.plain offset c rest).frames t := by
  have advanced : (s.advance c).frames = e.frames t := frames
  have free : (s.advance c).outline.verbatim = none := by
    rw [outline_verbatim_of_frames advanced, outside]
    rfl
  have kept (other : Mark.of c = .layout ∨ Mark.of c = .space ∨ Mark.of c = .plain) :
      e.plain offset c rest = e :=
    Enclosure.plain_eq_self (Mark.not_mem_of_mark other) offset rest
  have sameLine (visible : c ≠ '\n') :
      (s.advance c).position.line = 1 + (t.take offset).count '\n' := by
    rw [← line]
    simp [advance, Position.advance, visible]
  cases lone_of_eq_ok read with
  | layout marks =>
    rw [kept (.inl marks), inVerbatim_outside free]
    exact (frames_blank _).trans frames
  | space =>
    rw [kept (.inr (.inl rfl))]
    exact (frames_blank _).trans frames
  | plain marks =>
    rw [kept (.inr (.inr marks))]
    exact frames
  | openBrace => exact frames_openBrace advanced (sameLine (by decide)) outside
  | closeBrace =>
    rw [closeBrace, inVerbatim_outside free]
    exact frames_closeBlock (frames_endClause advanced outside) outside rfl
  | colon => exact frames_colon advanced (sameLine (by decide)) outside rest
  | semicolon =>
    rw [semicolon, inVerbatim_outside free]
    exact frames_endClause advanced outside
  | atSign => exact frames_atSign advanced (sameLine (by decide)) outside
  | @quote _ string marks =>
    obtain ⟨v, rfl⟩ : ∃ v : Enclosure.Verbatim, v.construct = string := by
      rcases Mark.of_eq_quote marks with rfl | rfl
      · exact ⟨.singleQuoted, rfl⟩
      · exact ⟨.doubleQuoted, rfl⟩
    have isQuote := (Mark.of_eq_quote_iff c v).mp marks
    cases v with
    | singleQuoted =>
      cases isQuote
      exact frames_quote advanced (sameLine (by decide)) outside _ .singleQuoted
    | doubleQuoted =>
      cases isQuote
      exact frames_quote advanced (sameLine (by decide)) outside _ .doubleQuoted
    | comment => cases isQuote

theorem frames_single (frames : s.frames = e.frames t)
    (line : s.position.line = 1 + (t.take offset).count '\n')
    (read : s.single c rest = .ok next) : next.frames = (e.single offset c rest).frames t := by
  have verbatim := outline_verbatim_of_frames frames
  unfold Enclosure.single
  cases isVerbatim : e.verbatim with
  | none => exact frames_single_outside frames isVerbatim line read
  | some opened =>
    rw [isVerbatim] at verbatim
    rw [frames_single_inside verbatim read]
    simp only [Mark.of_eq_quote_iff]
    split
    · rw [frames, Enclosure.frames, Enclosure.layers, isVerbatim]
      rfl
    · exact frames

theorem frames_pair (frames : s.frames = e.frames t)
    (line : s.position.line = 1 + (t.take offset).count '\n') (c d : Char) :
    (s.pair? c d).map Scan.frames = (e.pair? offset c d).map (·.frames t) := by
  have verbatim := outline_verbatim_of_frames frames
  have outside : (!s.inVerbatim) = e.verbatim.isNone := by
    rw [inVerbatim_eq_isSome, verbatim, Option.not_isSome, Option.isNone_map]
  have inside : s.top = some .comment ↔ e.verbatim.map Opened.kind = some .comment := by
    rw [← outline_verbatim_eq_comment_iff, verbatim]
    rcases e.verbatim with _ | ⟨_ | _ | _, _⟩ <;> simp [Enclosure.Verbatim.construct]
  unfold pair? Enclosure.pair?
  simp only [outside, inside]
  split
  · exact congrArg some frames
  · split
    · rename_i opens
      simp only [Bool.and_eq_true, decide_eq_true_eq, Option.isNone_iff_eq_none] at opens
      obtain ⟨⟨rfl, rfl⟩, isOutside⟩ := opens
      have opened : ((s.advance '/').advance '*').openComment.frames =
          ⟨.comment, s.position.line⟩ :: s.frames := rfl
      rw [line, frames, Enclosure.frames, Enclosure.layers, isOutside] at opened
      exact congrArg some opened
    · split
      · rename_i closes
        simp only [Bool.and_eq_true, decide_eq_true_eq] at closes
        obtain ⟨opened, isVerbatim, -⟩ := Option.map_eq_some_iff.mp closes.2
        have left : ((s.advance c).advance d).closeComment.frames = s.frames.tail := rfl
        rw [frames, Enclosure.frames, Enclosure.layers, isVerbatim] at left
        exact congrArg some left
      · rfl

/-- The constructs that are open after a text are those it ends inside of. Lines count from the
beginning, so what was read before stays in sight. -/
theorem frames_run {before : Text} (formed : s.WellFormed)
    (place : s.position = Position.start.after before)
    (frames : s.frames = e.frames (before ++ t)) (read : s.run t = .ok next) :
    next.frames = (e.run before.length t).frames (before ++ t) := by
  induction s, t using run.induct generalizing before e with
  | case1 s =>
    cases read
    exact frames
  | case2 s c => exact frames_single frames (line_of_place place) read
  | case3 s c d rest after pair ih =>
    have together := frames_pair frames (line_of_place place) c d
    rw [pair, Option.map_some, eq_comm] at together
    obtain ⟨paired, isPair, same⟩ := Option.map_eq_some_iff.mp together
    have later : after.position = Position.start.after (before ++ [c, d]) := by
      rw [(paired_of_eq_some pair).position_eq, place, Position.after_append]
      rfl
    have framed : after.frames = paired.frames (before ++ [c, d] ++ rest) := by
      simpa using same.symm
    rw [run, pair] at read
    have rest := ih (formed.pair pair) later framed read
    rw [Enclosure.run, isPair]
    simpa using rest
  | case4 s c d rest pair error single =>
    rw [run, pair] at read
    simp only [single] at read
    cases read
  | case5 s c d rest pair after single ih =>
    have apart := frames_pair frames (line_of_place place) c d
    rw [pair, Option.map_none, eq_comm, Option.map_eq_none_iff] at apart
    have framed : after.frames =
        (e.single before.length c (d :: rest)).frames (before ++ [c] ++ d :: rest) := by
      simpa using frames_single frames (line_of_place place) single
    have later : after.position = Position.start.after (before ++ [c]) := by
      rw [position_single formed single, place, Position.after_append]
      rfl
    rw [run, pair] at read
    simp only [single] at read
    have rest := ih (formed.single single) later framed read
    rw [Enclosure.run, apart]
    simpa using rest

theorem finish_eq_error_iff (frames : s.frames = e.frames t) (error : ScanError) :
    s.finish = .error error ↔ ∃ opened ∈ e.layers.head?,
      error = .unterminated opened.kind (1 + (t.take opened.offset).count '\n') := by
  rw [finish, frames, Enclosure.frames]
  cases e.layers with
  | nil => simp
  | cons opened layers => simp [Opened.frame, eq_comm]

/-- Reading from the beginning fails at the first stray character, on its line and column. -/
theorem run_start_eq_error_iff (t : Text) (error : ScanError) :
    start.run t = .error error ↔
      ∃ before c, t.FirstStray before c ∧ error = .controlCharacter c
        ⟨1 + before.count '\n', 1 + (before.reverse.takeWhile (· ≠ '\n')).length⟩ := by
  rw [run_eq_error_iff ⟨_, _, _, start_layered⟩]
  refine exists₂_congr fun before c => and_congr_right fun first => ?_
  have visible : c ≠ '\n' := by
    rintro rfl
    cases first.1.forbidden
  have position : (start.position.after before).advance c =
      ⟨1 + before.count '\n', 1 + (before.reverse.takeWhile (· ≠ '\n')).length⟩ := by
    rw [show start.position = Position.start from rfl, Position.after_start]
    simp [Position.advance, visible, Nat.add_comm]
  rw [position]

end Reading

end Scan

/-- Why a text cannot be divided into tokens: its first control character that no backslash takes,
or else the innermost of what it ends inside of. -/
theorem scan_eq_error_iff (source : Text) (error : ScanError) :
    let t := Text.unifyLineEnds source
    scan source = .error error ↔
      (∃ before c, t.FirstStray before c ∧ error = .controlCharacter c
        ⟨1 + before.count '\n', 1 + (before.reverse.takeWhile (· ≠ '\n')).length⟩) ∨
      (∀ before c, ¬ t.Stray before c) ∧ ∃ opened ∈ t.enclosure.layers.head?,
        error = .unterminated opened.kind (1 + (t.take opened.offset).count '\n') := by
  intro t
  have failed := Scan.run_start_eq_error_iff t
  unfold scan
  cases ran : Scan.start.run t with
  | error problem =>
    obtain ⟨before, c, first, -⟩ := (failed problem).mp ran
    have unreadable : ¬ ∀ before c, ¬ t.Stray before c := fun none => none before c first.1
    rw [← failed, ran]
    simp [unreadable, Except.bind]
  | ok last =>
    have readable : ∀ before c, ¬ t.Stray before c := by
      intro before c stray
      obtain ⟨u, d, first⟩ := Text.exists_firstStray stray
      have fails := (failed _).mpr ⟨u, d, first, rfl⟩
      rw [ran] at fails
      cases fails
    have frames : last.frames = t.enclosure.frames t :=
      @Scan.frames_run _ _ t Enclosure.start [] ⟨_, _, _, Scan.start_layered⟩ rfl rfl ran
    rw [← failed, ran]
    change last.finish = _ ↔ _
    rw [Scan.finish_eq_error_iff frames]
    simp [readable]

end Stylesheet
