import Stylesheet.Proofs.Composition
import Stylesheet.Proofs.Holding
import Stylesheet.Proofs.Lookahead
import Stylesheet.Proofs.Remarks

set_option autoImplicit false

namespace Stylesheet

open Token (openBlocks)

/-- The open blocks of a reader are those that its tokens, latest first, have opened. -/
def Grounds (frames : List Frame) (tokens : List Token) : Prop :=
  ((frames.map Frame.construct).filter Construct.isBlock).map (fun c => decide (c = .rule)) =
    (openBlocks tokens.reverse).map Token.isRule

namespace Grounds

variable {frames : List Frame} {tokens : List Token} {f : Frame} {token : Token}

theorem openBlocks_cons (token : Token) (tokens : List Token) :
    openBlocks (token :: tokens).reverse = Token.enclose (openBlocks tokens.reverse) token := by
  simp [openBlocks]

theorem emit (grounds : Grounds frames tokens) (opensNone : token.isBlock = false)
    (closesNone : token.isClose = false) : Grounds frames (token :: tokens) := by
  unfold Grounds
  rw [openBlocks_cons, Token.enclose, opensNone, closesNone]
  exact grounds

theorem enter (grounds : Grounds frames tokens) (other : f.construct.isBlock = false) :
    Grounds (f :: frames) tokens := by
  unfold Grounds
  rw [List.map_cons, List.filter_cons_of_neg (by simp [other])]
  exact grounds

theorem leave (grounds : Grounds (f :: frames) tokens) (other : f.construct.isBlock = false) :
    Grounds frames tokens := by
  unfold Grounds at grounds
  rwa [List.map_cons, List.filter_cons_of_neg (by simp [other])] at grounds

theorem rule (grounds : Grounds frames tokens) (line : Nat) (selector : Text) (n : Nat) :
    Grounds (⟨.rule, line⟩ :: frames) (.rule selector n :: tokens) := by
  unfold Grounds at grounds ⊢
  rw [openBlocks_cons, List.map_cons, List.filter_cons_of_pos rfl, List.map_cons, grounds]
  simp [Token.enclose, Token.isBlock, Token.isRule]

theorem atBlock (grounds : Grounds frames tokens) (line : Nat) (name params : Text) (n : Nat) :
    Grounds (⟨.atBlock, line⟩ :: frames) (.atBlock name params n :: tokens) := by
  unfold Grounds at grounds ⊢
  rw [openBlocks_cons, List.map_cons, List.filter_cons_of_pos rfl, List.map_cons, grounds]
  simp [Token.enclose, Token.isBlock, Token.isRule]

/-- A brace closes the innermost block, if there is one. -/
theorem close (grounds : Grounds frames tokens) (inBlocks : ∀ f ∈ frames, f.construct.isBlock)
    (n : Nat) : Grounds frames.tail (.close n :: tokens) := by
  have all (frames : List Frame) (inBlocks : ∀ f ∈ frames, f.construct.isBlock) :
      (frames.map Frame.construct).filter Construct.isBlock = frames.map Frame.construct :=
    List.filter_eq_self.mpr (List.forall_mem_map.mpr inBlocks)
  unfold Grounds at grounds ⊢
  rw [all frames inBlocks] at grounds
  rw [openBlocks_cons, all _ fun f member => inBlocks f (List.mem_of_mem_tail member),
    List.map_tail, List.map_tail, grounds, ← List.map_tail]
  rfl

end Grounds

namespace Scan

variable {s next : Scan}

def Grounded (s : Scan) : Prop := Grounds s.frames s.tokens

theorem start_grounded : start.Grounded := rfl

/-- The frames of a reader by its innermost construct. -/
theorem exists_of_top {c : Construct} (top : s.top = some c) :
    ∃ line frames, s.frames = ⟨c, line⟩ :: frames := by
  obtain ⟨⟨construct, line⟩, first, rfl⟩ := Option.map_eq_some_iff.mp top
  obtain ⟨frames, whole⟩ := List.head?_eq_some_iff.mp first
  exact ⟨line, frames, whole⟩

namespace Grounded

theorem leave (grounded : s.Grounded) {c : Construct} (top : s.top = some c)
    (other : c.isBlock = false) : Grounds s.frames.tail s.tokens := by
  obtain ⟨line, frames, split⟩ := exists_of_top top
  rw [Grounded, split] at grounded
  rw [split]
  exact grounded.leave other

theorem blank (grounded : s.Grounded) : s.blank.Grounded := by
  unfold Scan.blank
  split <;> exact grounded

theorem openBrace (grounded : s.Grounded) : s.openBrace.Grounded := by
  unfold Scan.openBrace
  split
  · rename_i top
    exact (grounded.leave top rfl).atBlock _ _ _ _
  · rename_i top
    exact (grounded.leave top rfl).rule _ _ _
  · exact grounded
  · exact grounded
  · exact grounded
  · exact Grounds.rule grounded _ _ _

theorem endClause (grounded : s.Grounded) : s.endClause.Grounded := by
  unfold Scan.endClause
  split
  · rename_i top
    unfold Scan.endProperty
    dsimp only
    split
    · exact grounded.leave top rfl
    · exact (grounded.leave top rfl).emit rfl rfl
  · rename_i top
    exact (grounded.leave top rfl).emit rfl rfl
  · exact grounded

theorem closeBrace (grounded : s.Grounded) (formed : s.WellFormed) : s.closeBrace.Grounded := by
  unfold Scan.closeBrace
  cases inside : s.inVerbatim with
  | true => exact grounded
  | false =>
    obtain ⟨-, blocks, -, layered, -⟩ := formed.ends inside
    have stack : s.endClause.frames.map Frame.construct = blocks := by simpa using layered.stack
    have inBlocks : ∀ f ∈ s.endClause.frames, f.construct.isBlock := by
      intro f member
      exact layered.inBlocks _ (stack ▸ List.mem_map_of_mem member)
    have closed := Grounds.close grounded.endClause inBlocks s.endClause.position.line
    simp only [Bool.false_eq_true, ↓reduceIte, closeBlock]
    split
    · exact closed
    · rename_i none
      have empty : s.endClause.frames = [] := by
        cases frames : s.endClause.frames with
        | nil => rfl
        | cons f frames =>
          have isBlock := inBlocks f (by simp [frames])
          simp [top, frames, isBlock] at none
      rw [empty] at closed
      unfold Grounded
      rw [show (s.endClause.clear.emit (.close s.endClause.position.line)).frames = [] from empty]
      exact closed

theorem semicolon (grounded : s.Grounded) : s.semicolon.Grounded := by
  unfold Scan.semicolon
  split
  · exact grounded
  · exact grounded.endClause

theorem colon (grounded : s.Grounded) (rest : Text) : (s.colon rest).Grounded := by
  have started : s.startValue.Grounded := Grounds.enter grounded rfl
  unfold Scan.colon
  split
  · exact started
  · split
    · exact grounded
    · exact started
  · exact grounded

theorem atSign (grounded : s.Grounded) : s.atSign.Grounded := by
  unfold Scan.atSign
  split
  · exact Grounds.enter grounded rfl
  · exact Grounds.enter grounded rfl
  · exact Grounds.enter grounded rfl
  · exact grounded

theorem quote (grounded : s.Grounded) {c : Char} {string : Construct}
    (marks : Mark.of c = .quote string) : (s.quote c string).Grounded := by
  have isString := Mark.of_eq_quote marks
  have other : string.isBlock = false := by rcases isString with rfl | rfl <;> rfl
  have ended : (if s.top = some string then s.leave.write c else s.write c).Grounded := by
    split
    · rename_i top
      exact grounded.leave top other
    · exact grounded
  unfold Scan.quote
  split
  · exact grounded
  · exact ended
  · exact ended
  · exact Grounds.enter grounded other

theorem single (grounded : s.Grounded) (formed : s.WellFormed) {c : Char} {rest : Text}
    (read : s.single c rest = .ok next) : next.Grounded := by
  have here : (s.advance c).Grounded := grounded
  cases lone_of_eq_ok read with
  | layout marks =>
    split
    · exact here
    · exact here.blank
  | space => exact here.blank
  | openBrace => exact here.openBrace
  | closeBrace => exact here.closeBrace (formed.advance _)
  | colon => exact here.colon rest
  | semicolon => exact here.semicolon
  | atSign => exact here.atSign
  | quote marks => exact here.quote marks
  | plain marks => exact here

theorem pair (grounded : s.Grounded) {c d : Char} (read : s.pair? c d = some next) :
    next.Grounded := by
  cases paired_of_eq_some read with
  | escape d => exact grounded
  | openComment outside => exact Grounds.enter grounded rfl
  | closeComment inside =>
    have emitted : Grounds s.frames.tail s.tokens := grounded.leave inside rfl
    exact emitted.emit rfl rfl

/-- In the body of a rule, the token that opened the innermost block is a rule. -/
theorem exists_openBlocks (grounded : s.Grounded) (inRule : s.top = some .rule) :
    ∃ token outer, openBlocks s.tokens.reverse = token :: outer ∧ token.isRule := by
  obtain ⟨line, frames, split⟩ := exists_of_top inRule
  rw [Grounded, Grounds, split] at grounded
  obtain ⟨token, outer, blocks, isRule, -⟩ := List.map_eq_cons_iff.mp grounded.symm
  exact ⟨token, outer, blocks, isRule⟩

end Grounded

/-- What holds before each step holds after any number of them. -/
theorem steps_invariant {P : Text → Scan → Prop}
    (pair : ∀ {c d : Char} {rest : Text} {s next : Scan}, P (c :: d :: rest) s →
      s.pair? c d = some next → P rest next)
    (single : ∀ {c : Char} {rest : Text} {s next : Scan}, P (c :: rest) s →
      s.single c rest = .ok next → P rest next)
    {n : Nat} {t rest : Text} (begins : P t s) (read : steps n s t = .ok (next, rest)) :
    P rest next := by
  induction n generalizing s t with
  | zero =>
    cases read
    exact begins
  | succ n ih =>
    obtain ⟨⟨between, left⟩, stepped, later⟩ := exists_of_bind_eq_ok read
    refine ih ?_ later
    match t with
    | [] =>
      cases stepped
      exact begins
    | [c] =>
      obtain ⟨_, taken, same⟩ := exists_of_map_eq_ok stepped
      cases same
      exact single begins taken
    | c :: d :: more =>
      simp only [step] at stepped
      cases paired : s.pair? c d with
      | some after =>
        rw [paired] at stepped
        cases stepped
        exact pair begins paired
      | none =>
        rw [paired] at stepped
        obtain ⟨_, taken, same⟩ := exists_of_map_eq_ok stepped
        cases same
        exact single begins taken

theorem steps_grounded {source rest : Text} {n : Nat}
    (read : steps n start source = .ok (s, rest)) : s.WellFormed ∧ s.Grounded :=
  steps_invariant (P := fun _ s => s.WellFormed ∧ s.Grounded)
    (fun now paired => ⟨now.1.pair paired, now.2.pair paired⟩)
    (fun now taken => ⟨now.1.single taken, now.2.single now.1 taken⟩)
    ⟨⟨_, _, _, start_layered⟩, start_grounded⟩ read

end Scan

namespace Text

def strings (t : Text) : List Text :=
  (pieces verbatimLength t).filterMap fun
    | .plain _ => none
    | .found m => if m.head?.any isQuote then some m else none

/-- A text as it becomes pending: comments are not part of it, and layout reads as a space. -/
def spoken (t : Text) : Text :=
  (pieces verbatimLength t).flatMap fun
    | .plain c => [if Scan.isGap c then ' ' else c]
    | .found m => if ['/', '*'] <+: m then [] else m

def remarks (t : Text) : List Text :=
  (pieces verbatimLength t).filterMap fun
    | .plain _ => none
    | .found m => if ['/', '*'] <+: m then some (trim (inRemark (m.drop 2))) else none

/-- A text with its strings, escapes and comments made blank. -/
def blanked (t : Text) : Text := replace verbatimLength (fun _ => [' ']) t

/-- Whether a text is read to its end as one value: its strings and comments are complete, and
nothing else in it ends the value or makes a selector of it. -/
def isValue (t : Text) : Bool :=
  (t.blanked.all fun c => c ∉ [';', '{', '}', '"', '\'', '\\']) &&
    !decide (['/', '*'] <:+: t.blanked) && t.unescaped.all fun c => Mark.of c ≠ .control

variable {t : Text}

/-- A value from its end to its start. -/
inductive IsValue : Text → Prop
  | nil : IsValue []
  | letter {c : Char} {t : Text} (unmatched : verbatimLength (c :: t) = 0)
      (other : c ∉ [';', '{', '}', '"', '\'', '\\']) (legal : Mark.of c ≠ .control)
      (unopened : ¬ ['/', '*'] <+: c :: t) (rest : IsValue t) : IsValue (c :: t)
  | verbatim {m t : Text} (isVerbatim : IsVerbatim m)
      (found : verbatimLength (m ++ t) = m.length)
      (legal : ∀ c ∈ m.unescaped, Mark.of c ≠ .control) (rest : IsValue t) : IsValue (m ++ t)

theorem isValue_of (valid : t.isValue) : IsValue t := by
  simp only [isValue, Bool.and_eq_true, List.all_eq_true, decide_eq_true_eq, Bool.not_eq_true',
    decide_eq_false_iff_not] at valid
  obtain ⟨⟨calm, unopened⟩, legal⟩ := valid
  induction t using induction_by verbatimLength_eq_zero_or with
  | nil => exact .nil
  | plain c t unmatched ih =>
    have split : blanked (c :: t) = c :: blanked t := replace_cons unmatched
    rw [split] at calm unopened
    have other := calm c List.mem_cons_self
    have escape : c ≠ '\\' := by
      rintro rfl
      simp at other
    rw [unescaped_cons escape] at legal
    refine .letter unmatched other (legal c List.mem_cons_self) ?_ (ih ?_ ?_ ?_)
    · rintro ⟨u, same⟩
      obtain ⟨rfl, rfl⟩ := List.cons.inj same
      have star : blanked ('*' :: u) = '*' :: blanked u := replace_cons rfl
      exact unopened ⟨[], blanked u, by simp [star]⟩
    · exact fun d member => legal d (List.mem_cons_of_mem c member)
    · exact fun d member => calm d (List.mem_cons_of_mem c member)
    · exact fun inside => unopened (inside.trans (List.suffix_cons c _).isInfix)
  | verbatim m t isVerbatim found ih =>
    obtain ⟨c, d, w, rfl, -⟩ := isVerbatim.exists_first
    have split : blanked (c :: d :: w ++ t) = ' ' :: blanked t := replace_append (by simp) found
    rw [split] at calm unopened
    rw [isVerbatim.unescaped_append] at legal
    refine .verbatim isVerbatim found (fun e member => legal e (by simp [member])) (ih ?_ ?_ ?_)
    · exact fun e member => legal e (by simp [member])
    · exact fun e member => calm e (List.mem_cons_of_mem ' ' member)
    · exact fun inside => unopened (inside.trans (List.suffix_cons ' ' _).isInfix)

theorem spoken_plain {c : Char} (unmatched : verbatimLength (c :: t) = 0) :
    spoken (c :: t) = (if Scan.isGap c then ' ' else c) :: spoken t := by
  rw [spoken, pieces_plain unmatched]
  rfl

theorem strings_plain {c : Char} (unmatched : verbatimLength (c :: t) = 0) :
    strings (c :: t) = strings t := by
  rw [strings, pieces_plain unmatched]
  rfl

theorem spoken_found {m : Text} (isVerbatim : IsVerbatim m)
    (found : verbatimLength (m ++ t) = m.length) :
    spoken (m ++ t) = (if ['/', '*'] <+: m then [] else m) ++ spoken t := by
  obtain ⟨c, d, w, rfl, -⟩ := isVerbatim.exists_first
  rw [spoken, pieces_found (by simp) found]
  rfl

theorem strings_found {m : Text} (isVerbatim : IsVerbatim m)
    (found : verbatimLength (m ++ t) = m.length) :
    strings (m ++ t) = (if m.head?.any isQuote then [m] else []) ++ strings t := by
  obtain ⟨c, d, w, rfl, -⟩ := isVerbatim.exists_first
  rw [strings, pieces_found (by simp) found, List.filterMap_cons]
  by_cases quotes : isQuote c <;> simp [quotes, strings]

theorem remarks_plain {c : Char} (unmatched : verbatimLength (c :: t) = 0) :
    remarks (c :: t) = remarks t := by
  rw [remarks, pieces_plain unmatched]
  rfl

theorem remarks_found {m : Text} (isVerbatim : IsVerbatim m)
    (found : verbatimLength (m ++ t) = m.length) :
    remarks (m ++ t) =
      (if ['/', '*'] <+: m then [trim (inRemark (m.drop 2))] else []) ++ remarks t := by
  obtain ⟨c, d, w, rfl, -⟩ := isVerbatim.exists_first
  rw [remarks, pieces_found (by simp) found, List.filterMap_cons]
  by_cases opens : ['/', '*'] <+: c :: d :: w <;> simp [opens, remarks]

theorem mem_spoken {c : Char} (member : c ∈ t.spoken) : c ∈ t ∨ c = ' ' := by
  induction t using induction_by verbatimLength_eq_zero_or with
  | nil => cases member
  | plain d t unmatched ih =>
    rw [spoken_plain unmatched] at member
    rcases List.mem_cons.mp member with rfl | later
    · by_cases gap : Scan.isGap d <;> simp [gap]
    · exact (ih later).imp_left (List.mem_cons_of_mem d)
  | verbatim m t isVerbatim found ih =>
    rw [spoken_found isVerbatim found] at member
    rcases List.mem_append.mp member with own | later
    · split at own
      · cases own
      · exact .inl (List.mem_append_left t own)
    · exact (ih later).imp_left (List.mem_append_right m)

/-- The strings of a text are in it as it is read. -/
theorem holds_spoken (t : Text) : Holds t.strings t.spoken := by
  induction t using induction_by verbatimLength_eq_zero_or with
  | nil => exact .nil _
  | plain c t unmatched ih =>
    rw [strings_plain unmatched, spoken_plain unmatched]
    exact ih.append_left [_]
  | verbatim m t isVerbatim found ih =>
    rw [strings_found isVerbatim found, spoken_found isVerbatim found]
    cases isVerbatim with
    | remark => simpa [isQuote] using ih
    | @string q w quotes =>
      have other : ¬ ['/', '*'] <+: q :: w := by
        rw [List.cons_prefix_cons]
        rintro ⟨rfl, -⟩
        cases quotes
      rw [if_neg other, List.head?_cons, Option.any_some, if_pos quotes]
      exact .cons [] ih
    | escape d => simpa [isQuote] using ih.append_left ['\\', d]

theorem framed_of_mem_strings {s : Text} (member : s ∈ t.strings) : Framed isQuote s := by
  induction t using induction_by verbatimLength_eq_zero_or with
  | nil => cases member
  | plain c t unmatched ih => exact ih (by rwa [strings_plain unmatched] at member)
  | verbatim m t isVerbatim found ih =>
    rw [strings_found isVerbatim found, List.mem_append] at member
    rcases member with own | later
    · cases isVerbatim with
      | remark => simp [isQuote] at own
      | string quotes closes =>
        obtain rfl : s = _ := by simpa [quotes] using own
        exact framed_of_closes quotes closes
      | escape => simp [isQuote] at own
    · exact ih later

end Text

namespace Scan

variable {s next : Scan}

theorem tokens_closeBlock (s : Scan) :
    s.closeBlock.tokens = .close s.position.line :: s.tokens := by
  unfold closeBlock
  dsimp only
  split <;> rfl

theorem tokens_endClause (s : Scan) : s.tokens <:+ s.endClause.tokens := by
  unfold endClause
  split
  · unfold endProperty
    dsimp only
    split
    · exact List.suffix_rfl
    · exact List.suffix_cons _ _
  · exact List.suffix_cons _ _
  · exact List.suffix_rfl

theorem tokens_openBrace (s : Scan) : s.tokens <:+ s.openBrace.tokens := by
  unfold openBrace
  split <;> first | exact List.suffix_rfl | exact List.suffix_cons _ _

theorem tokens_single {c : Char} {rest : Text} (read : s.single c rest = .ok next) :
    s.tokens <:+ next.tokens := by
  have blank (x : Scan) : x.tokens <:+ x.blank.tokens := by
    unfold blank
    split <;> exact List.suffix_rfl
  cases lone_of_eq_ok read with
  | layout marks =>
    split
    · exact List.suffix_rfl
    · exact blank (s.advance c)
  | space => exact blank (s.advance ' ')
  | openBrace => exact tokens_openBrace (s.advance '{')
  | closeBrace =>
    unfold closeBrace
    split
    · exact List.suffix_rfl
    · rw [tokens_closeBlock]
      exact (tokens_endClause (s.advance '}')).trans (List.suffix_cons _ _)
  | colon =>
    unfold colon
    split
    · exact List.suffix_rfl
    · split <;> exact List.suffix_rfl
    · exact List.suffix_rfl
  | semicolon =>
    unfold semicolon
    split
    · exact List.suffix_rfl
    · exact tokens_endClause (s.advance ';')
  | atSign =>
    unfold atSign
    split <;> exact List.suffix_rfl
  | quote marks =>
    unfold quote
    split
    · exact List.suffix_rfl
    · split <;> exact List.suffix_rfl
    · split <;> exact List.suffix_rfl
    · exact List.suffix_rfl
  | plain marks => exact List.suffix_rfl

theorem tokens_pair {c d : Char} (read : s.pair? c d = some next) : s.tokens <:+ next.tokens := by
  cases paired_of_eq_some read with
  | escape d => exact List.suffix_rfl
  | openComment outside => exact List.suffix_rfl
  | closeComment inside => exact List.suffix_cons _ _

/-- Tokens that were read are kept. -/
theorem tokens_run {t : Text} {last : Scan} (read : s.run t = .ok last) :
    s.tokens <:+ last.tokens :=
  run_invariant (P := fun _ x => s.tokens <:+ x.tokens)
    (fun now paired => now.trans (tokens_pair paired))
    (fun now taken => now.trans (tokens_single taken)) List.suffix_rfl read

end Scan

namespace Spot

variable {x : Spot} {p : Position} {w : Text} {tokens : List Token}

/-- A visible letter of a value is pending. -/
theorem single_letter_of_value (inValue : x.top = some .value) {c : Char}
    (other : c ∉ [';', '{', '}', '"', '\'', '\\']) (legal : Mark.of c ≠ .control)
    (visible : ¬ Scan.isGap c) (rest : Text) :
    (x.reader p w tokens).single c rest = .ok (x.reader (p.advance c) (c :: w) tokens) := by
  have alone := Mark.char_of c
  cases marks : Mark.of c <;> rw [marks] at alone
  case layout => simp [Scan.isGap, marks] at visible
  case space => simp [Scan.isGap, marks] at visible
  case control => exact absurd marks legal
  case plain => exact single_plain marks rest
  case openBrace => simp [alone '{' rfl] at other
  case closeBrace => simp [alone '}' rfl] at other
  case semicolon => simp [alone ';' rfl] at other
  case quote string =>
    rw [mark_of_eq_quote_iff, string?] at marks
    split at marks
    · simp_all
    · split at marks
      · simp_all
      · cases marks
  case colon =>
    obtain rfl := alone ':' rfl
    have keeps : Scan.keepsColon (x.reader (p.advance ':') w tokens).top rest := by
      rw [top_reader, inValue]
      rfl
    rw [Scan.single, marks, advance_reader]
    exact congrArg Except.ok (Scan.colon_eq_write keeps)
  case atSign =>
    obtain rfl := alone '@' rfl
    rw [Scan.single, marks, advance_reader, Scan.atSign, top_reader, inValue]
    rfl

/-- A letter of a value is pending, and layout as a space. -/
theorem run_letter_of_value (inValue : x.top = some .value) {c : Char} {rest : Text}
    (other : c ∉ [';', '{', '}', '"', '\'', '\\']) (legal : Mark.of c ≠ .control)
    (unopened : ¬ ['/', '*'] <+: c :: rest) :
    (x.reader p w tokens).run (c :: rest) =
      (x.reader (p.advance c) ((if Scan.isGap c then ' ' else c) :: w) tokens).run rest := by
  have bare : c ≠ '\\' := by
    rintro rfl
    simp at other
  have named : x.isUnnamed = false := by simp [isUnnamed, inValue]
  rw [run_lone bare unopened]
  by_cases gap : Scan.isGap c
  · rw [single_gap gap, blank_reader named, if_pos gap]
    rfl
  · rw [single_letter_of_value inValue other legal gap, if_neg gap]
    rfl

variable (p w tokens)

/-- A value is read to its end. Its comments become tokens. -/
theorem run_value (inValue : x.top = some .value) {value : Text} (isValue : value.IsValue)
    {rest : Text} (ends : rest.head? ≠ some '*') :
    ∃ p', ∃ remarks : List Token,
      remarks.map Token.unlined = value.remarks.map (Token.comment · 0) ∧
      (x.reader p w tokens).run (value ++ rest) =
        (x.reader p' (value.spoken.reverse ++ w) (remarks.reverse ++ tokens)).run rest := by
  induction isValue generalizing p w tokens with
  | nil => exact ⟨p, [], rfl, rfl⟩
  | @letter c t unmatched other legal unopened later ih =>
    have unopened' : ¬ ['/', '*'] <+: c :: (t ++ rest) := by
      cases t with
      | nil =>
        rintro ⟨u, same⟩
        obtain ⟨-, rfl⟩ := List.cons.inj same
        exact ends rfl
      | cons d t => simpa using unopened
    obtain ⟨p', remarks, comments, read⟩ := ih (p.advance c)
      ((if Scan.isGap c then ' ' else c) :: w) tokens
    refine ⟨p', remarks, by rwa [Text.remarks_plain unmatched], ?_⟩
    rw [List.cons_append, run_letter_of_value inValue other legal unopened', read,
      Text.spoken_plain unmatched]
    simp
  | @verbatim m t isVerbatim found legal later ih =>
    rw [Text.spoken_found isVerbatim found, Text.remarks_found isVerbatim found]
    cases isVerbatim with
    | @remark v closes =>
      have inside : ∀ c ∈ v.unescaped, Mark.of c ≠ .control := by
        rw [Text.unescaped_cons (by decide), Text.unescaped_cons (by decide)] at legal
        exact fun c member => legal c (by simp [member])
      obtain ⟨p₁, read⟩ := @run_remark x p w tokens _ closes inside (t ++ rest)
      obtain ⟨p', remarks, comments, read'⟩ := ih p₁ w
        (.comment (Text.trim v.inRemark) p₁.line :: tokens)
      refine ⟨p', .comment (Text.trim v.inRemark) p₁.line :: remarks, ?_, ?_⟩
      · simp [comments, Token.unlined]
      · rw [List.append_assoc]
        simpa using read.trans read'
    | @string q v quotes closes =>
      obtain ⟨string, marks⟩ := Scan.mark_of_isQuote quotes
      obtain ⟨bare, slash, -⟩ := Scan.ne_of_quote marks
      have inside : ∀ c ∈ v.unescaped, Mark.of c ≠ .control := by
        rw [Text.unescaped_cons bare] at legal
        exact fun c member => legal c (by simp [member])
      have other : ¬ ['/', '*'] <+: q :: v := fun here =>
        slash (List.cons_prefix_cons.mp here).1.symm
      obtain ⟨p₁, read⟩ := @run_string x p w tokens _ _ marks _ closes inside (t ++ rest)
      obtain ⟨p', remarks, comments, read'⟩ := ih p₁ ((q :: v).reverse ++ w) tokens
      refine ⟨p', remarks, by rwa [if_neg other], ?_⟩
      rw [List.append_assoc, if_neg other, List.reverse_append, List.append_assoc]
      exact read.trans read'
    | escape d =>
      obtain ⟨p', remarks, comments, read⟩ := ih ((p.advance '\\').advance d)
        (d :: '\\' :: w) tokens
      refine ⟨p', remarks, comments, ?_⟩
      rw [List.append_assoc]
      simpa using (run_escape d (t ++ rest)).trans read

/-- After the colon of a declaration in the body of a rule, the value is read to its end, and there
the clause is ended. -/
theorem run_colon_value (inRule : x.top = some .rule) (noKey : x.key = none)
    (keyed : Text.trim w.reverse ≠ []) {value : Text} (isValue : value.IsValue) (rest : Text)
    (ends : rest.head? ≠ some '*') :
    ∃ y : Spot, ∃ p', ∃ remarks : List Token,
      remarks.map Token.unlined = value.remarks.map (Token.comment · 0) ∧
      (x.reader p w tokens).run (':' :: (value ++ rest)) =
        (y.reader p' value.spoken.reverse (remarks.reverse ++ tokens)).run rest ∧
      ∀ q, (y.reader q value.spoken.reverse (remarks.reverse ++ tokens)).endClause =
        x.reader q [] (.property (Text.trim w.reverse) (Text.trim value.spoken) q.line ::
          (remarks.reverse ++ tokens)) := by
  let y := x.enter (some w.reverse) ⟨.value, (p.advance ':').line⟩ rfl
  obtain ⟨p', remarks, comments, read⟩ := run_value (p.advance ':') [] tokens
    (show y.top = some .value from rfl) isValue ends
  refine ⟨y, p', remarks, comments, ?_, fun q => ?_⟩
  · have starts : Scan.keepsColon (x.reader p w tokens).top (value ++ rest) = false := by
      rw [top_reader, inRule]
      rfl
    rw [List.append_nil] at read
    exact (Scan.run_startValue _ _ starts).trans read
  · rw [endClause_value rfl]
    have isKey : Text.trim (y.key.getD []) = Text.trim w.reverse := rfl
    rw [property, isKey, if_neg keyed, List.reverse_reverse, List.singleton_append]
    simp only [reader, noKey]
    rfl

theorem run_declaration (inRule : x.top = some .rule) (noKey : x.key = none)
    (keyed : Text.trim w.reverse ≠ []) {value : Text} (isValue : value.IsValue) (rest : Text) :
    ∃ p', ∃ remarks : List Token,
      remarks.map Token.unlined = value.remarks.map (Token.comment · 0) ∧
      (x.reader p w tokens).run (':' :: (value ++ ';' :: rest)) =
        (x.reader p' [] (.property (Text.trim w.reverse) (Text.trim value.spoken) p'.line ::
          (remarks.reverse ++ tokens))).run rest := by
  obtain ⟨y, p', remarks, comments, read, ended⟩ := run_colon_value p w tokens inRule
    noKey keyed isValue (';' :: rest) (by simp)
  refine ⟨p'.advance ';', remarks, comments, ?_⟩
  rw [read, Scan.run_semicolon, advance_reader, Scan.semicolon, inVerbatim_reader, ended]
  rfl

/-- A declaration ends with a semicolon or with the rule. -/
theorem exists_run_declared (inRule : x.top = some .rule) (noKey : x.key = none)
    (keyed : Text.trim w.reverse ≠ []) {value : Text} (isValue : value.IsValue) {stop : Char}
    (stops : stop = ';' ∨ stop = '}') (rest : Text) :
    ∃ line, ∃ remarks : List Token, ∃ next : Scan,
      remarks.map Token.unlined = value.remarks.map (Token.comment · 0) ∧
      .property (Text.trim w.reverse) (Text.trim value.spoken) line ::
        (remarks.reverse ++ tokens) <:+ next.tokens ∧
      (x.reader p w tokens).run (':' :: (value ++ stop :: rest)) = next.run rest := by
  rcases stops with rfl | rfl
  · obtain ⟨p', remarks, comments, read⟩ := run_declaration p w tokens inRule noKey keyed
      isValue rest
    exact ⟨p'.line, remarks, _, comments, List.suffix_rfl, read⟩
  · obtain ⟨y, p', remarks, comments, read, ended⟩ := run_colon_value p w tokens inRule
      noKey keyed isValue ('}' :: rest) (by simp)
    refine ⟨(p'.advance '}').line, remarks, _, comments, ?_, read.trans (Scan.run_closeBrace _ _)⟩
    rw [advance_reader, Scan.closeBrace, inVerbatim_reader, ended, if_neg (by simp),
      Scan.tokens_closeBlock]
    exact List.suffix_cons _ _

end Spot

/-- A declaration in the body of a rule, from its colon on, becomes a token, after those of its
comments. -/
theorem scan_declared {text value after : Text} {n : Nat} {s : Scan} {stop : Char}
    {tokens : List Token} (read : scan text = .ok tokens)
    (reached : Scan.steps n .start (Text.unifyLineEnds text) =
      .ok (s, ':' :: (value ++ stop :: after)))
    (inRule : s.top = some .rule) (keyed : s.text ≠ []) (isValue : value.isValue)
    (stops : stop = ';' ∨ stop = '}') :
    ∃ (remarks : List Token) (line : Nat) (rest : List Token),
      remarks.map Token.unlined = value.remarks.map (Token.comment · 0) ∧
      tokens = s.tokens.reverse ++ remarks ++
        .property s.text (Text.trim value.spoken) line :: rest := by
  obtain ⟨formed, -⟩ := Scan.steps_grounded reached
  have outside : s.inVerbatim = false := by
    rw [Scan.inVerbatim, inRule]
    rfl
  obtain ⟨x, key, frames, reader⟩ := formed.exists_spot outside
  have noKey : x.key = none := key.trans (formed.stored.1 (by rw [inRule]; rfl))
  have top : x.top = some .rule := by
    rw [← inRule, Spot.top, frames]
    rfl
  obtain ⟨line, remarks, next, comments, kept, ran⟩ := Spot.exists_run_declared s.position _
    s.tokens top noKey keyed (Text.isValue_of isValue) stops after
  rw [← reader] at ran
  obtain ⟨last, done, finished⟩ := exists_of_bind_eq_ok read
  rw [Scan.run_eq_bind_steps n, reached] at done
  have ended : next.run after = .ok last := ran ▸ done
  obtain ⟨more, whole⟩ := kept.trans (Scan.tokens_run ended)
  refine ⟨remarks, line, more.reverse, comments, ?_⟩
  rw [← (Scan.finish_eq_ok finished).2, ← whole]
  simp [Scan.text]

end Stylesheet
