import Mathlib.Data.List.Induction
import Stylesheet.Proofs.Lines
import Stylesheet.Proofs.Reading

set_option autoImplicit false

namespace Stylesheet

open Scan

/-- A resolved token as it is read, without its line. -/
def Resolved.token : Resolved → Token
  | entry (.declaration key value) => .property key value 0
  | entry (.statement name params) => .statement name params 0
  | entry (.comment text) => .comment text 0
  | opens (.rule selector) => .rule selector 0
  | opens (.atRule name params) => .atBlock name params 0
  | closes => .close 0

def Opening.construct : Opening → Construct
  | rule _ => .rule
  | atRule _ _ => .atBlock

theorem Opening.isBlock_construct (opening : Opening) : opening.construct.isBlock := by
  cases opening <;> rfl

def isNamed (c : Char) : Bool := isRunning c && !isGap c

theorem isRunning_of_isNamed {t : Text} (named : ∀ c ∈ t, isNamed c) :
    ∀ c ∈ t, isRunning c ∧ isGap c = false := by
  simpa [isNamed] using named

/-- Characters that are in no entry. -/
def isForeign (c : Char) : Bool :=
  !isRunning c && c ∉ [';', '@', '/', '*'] && (!isRemark c || c = '}')

/-- How an entry can be written, inside a block or outside all blocks. -/
inductive Entry.Spelling (place : Option Construct) : Entry → Text → Prop
  | declaration (key value : Text) (inside : place ≠ none) (keyRuns : ∀ c ∈ key, isRunning c)
      (uncut : ':' ∉ key) (visible : Text.trim (spaced key) ≠ [])
      (valueRuns : ∀ c ∈ value, isRunning c) :
      Spelling place (.declaration (Text.trim (spaced key)) (Text.trim (spaced value)))
        (key ++ ':' :: (value ++ [';']))
  | statement (name params : Text) (nameRuns : ∀ c ∈ name, isNamed c)
      (paramsRun : ∀ c ∈ params, isRunning c) (apart : ∀ c ∈ params.head?, isGap c) :
      Spelling place (.statement (Text.trim ('@' :: name)) (Text.trim (spaced params)))
        ('@' :: (name ++ (params ++ [';'])))
  | comment (text : Text) (remark : ∀ c ∈ text, isRemark c) (unclosed : '}' ∉ text) :
      Spelling place (.comment (Text.trim text)) ('/' :: '*' :: (text ++ ['*', '/']))

/-- How the beginning of a block can be written, with its brace. -/
inductive Opening.Spelling : Opening → Text → Prop
  | rule (selector : Text) (running : ∀ c ∈ selector, isRunning c) :
      Spelling (.rule (Text.trim (spaced selector))) (selector ++ ['{'])
  | atRule (name params : Text) (nameRuns : ∀ c ∈ name, isNamed c)
      (paramsRun : ∀ c ∈ params, isRunning c) (apart : ∀ c ∈ params.head?, isGap c) :
      Spelling (.atRule (Text.trim ('@' :: name)) (Text.trim (spaced params)))
        ('@' :: (name ++ (params ++ ['{'])))

/-- How a forest can be written inside a block, or outside all blocks. -/
inductive Forest.Spelling : Option Construct → Forest → Text → Prop
  | empty {place : Option Construct} : Spelling place .empty []
  | blank {place : Option Construct} {forest : Forest} {c : Char} {t : Text} (gap : isGap c)
      (spelled : Spelling place forest t) : Spelling place forest (c :: t)
  | entry {place : Option Construct} {e : Entry} {rest : Forest} {t u : Text}
      (first : e.Spelling place t) (later : Spelling place rest u) :
      Spelling place (.entry e rest) (t ++ u)
  | block {place : Option Construct} {opening : Opening} {inner rest : Forest} {t u v : Text}
      (opened : opening.Spelling t) (inside : Spelling (some opening.construct) inner u)
      (later : Spelling place rest v) :
      Spelling place (.block opening inner rest) (t ++ (u ++ '}' :: v))

theorem Text.unifyLineEnds_eq_self {t : Text} (noReturn : '\r' ∉ t) : unifyLineEnds t = t := by
  induction t with
  | nil => rfl
  | cons c t ih =>
    obtain ⟨other, later⟩ := not_or.mp (mt List.mem_cons.mpr noReturn)
    have different : c ≠ '\r' := Ne.symm other
    rw [unifyLineEnds, ih later, if_neg different]
    exact fun _ clash _ => different clash

theorem Scan.trim_spaced_cons {c : Char} (gap : isGap c) (t : Text) :
    Text.trim (spaced (c :: t)) = Text.trim (spaced t) := by
  rw [spaced_cons, if_pos gap]
  exact Text.trim_append_of_blank_left Text.isBlank_space (spaced t)

theorem Scan.isBlank_of_isGap {c : Char} (gap : isGap c) : Text.isBlank c := by
  rcases (isGap_iff c).mp gap with rfl | rfl | rfl | rfl | rfl <;> rfl

theorem Scan.spaced_tidy {t : Text} (tidy : t.Tidy) : spaced t = t :=
  spaced_eq_self fun c member gap => tidy.spaces c member (isBlank_of_isGap gap)

theorem Scan.not_mem_of_isRunning {c : Char} (still : isRunning c = false) {t : Text}
    (running : ∀ d ∈ t, isRunning d) : c ∉ t := by
  intro member
  simp [running c member] at still

theorem Scan.isRunning_of_isGap {c : Char} (gap : isGap c) : isRunning c := by
  simp [isRunning, gap]

/-- What can be read as a field can be read in a comment. -/
theorem Scan.isRemark_of_isRunning {c : Char} (running : isRunning c) : isRemark c ∧ c ≠ '}' := by
  simp only [isRunning, Bool.or_eq_true, decide_eq_true_eq] at running
  rcases running with (plain | gap) | rfl
  · simp only [isPlain, Bool.and_eq_true, decide_eq_true_eq] at plain
    obtain ⟨⟨⟨⟨marks, escape⟩, slash⟩, _⟩, _⟩ := plain
    refine ⟨by simp [isRemark, marks, escape, slash], ?_⟩
    rintro rfl
    cases marks
  · rcases (isGap_iff c).mp gap with rfl | rfl | rfl | rfl | rfl <;> decide
  · decide

/-- A character without a meaning of its own is read as it is. -/
theorem Scan.isRunning_of_unmarked {c : Char} (high : 0x20 ≤ c.toNat)
    (space : Text.isBlank c → c = ' ')
    (unmarked : c ∉ ['\\', '{', '}', ';', '@', '"', '\'', '/', '*']) : isRunning c := by
  simp only [List.mem_cons, List.not_mem_nil, or_false, not_or] at unmarked
  obtain ⟨escape, opening, closing, semicolon, atSign, double, single, slash, star⟩ := unmarked
  by_cases colon : c = ':'
  · rw [colon]
    decide
  · cases blank : Text.isBlank c with
    | true =>
      rw [space blank]
      decide
    | false =>
      have visible : ∀ d : Char, Text.isBlank d → c ≠ d := by
        rintro d isBlank rfl
        simp [blank] at isBlank
      have marks : Mark.of c = .plain := by
        simp [Mark.of, visible '\n' rfl, visible '\t' rfl, visible '\x0b' rfl, visible '\x0c' rfl,
          visible ' ' rfl, opening, closing, colon, semicolon, atSign, double, single,
          show ¬ c.toNat < 32 by omega]
      simp [isRunning, isPlain, marks, escape, slash, star, blank]

theorem Scan.isBlank_spaced {t : Text} (gaps : ∀ c ∈ t, isGap c) :
    ∀ c ∈ spaced t, Text.isBlank c := by
  intro c member
  obtain ⟨d, inText, rfl⟩ := List.mem_map.mp member
  rw [if_pos (gaps d inText)]
  rfl

theorem Scan.trim_spaced {t : Text} (tidy : t.Tidy) : Text.trim (spaced t) = t := by
  rw [spaced_tidy tidy, Text.trim_eq_self tidy.head tidy.last]

/-- Blanks around a text are not read. -/
theorem Scan.trim_spaced_between {w v : Text} (left : ∀ c ∈ w, isGap c) (t : Text)
    (right : ∀ c ∈ v, isGap c) : Text.trim (spaced (w ++ t ++ v)) = Text.trim (spaced t) := by
  rw [spaced_append, spaced_append, Text.trim_append_of_blank_right _ (isBlank_spaced right),
    Text.trim_append_of_blank_left (isBlank_spaced left)]

/-- A tidy text is read as it is, with blanks around it. -/
theorem Scan.trim_spaced_gaps {w t v : Text} (left : ∀ c ∈ w, isGap c) (tidy : t.Tidy)
    (right : ∀ c ∈ v, isGap c) : Text.trim (spaced (w ++ t ++ v)) = t := by
  rw [trim_spaced_between left t right, trim_spaced tidy]

theorem Scan.isRunning_between {w t v : Text} (left : ∀ c ∈ w, isGap c)
    (running : ∀ c ∈ t, isRunning c) (right : ∀ c ∈ v, isGap c) :
    ∀ c ∈ w ++ t ++ v, isRunning c := by
  intro c member
  rcases List.mem_append.mp member with before | after
  · rcases List.mem_append.mp before with inLeft | inside
    · exact isRunning_of_isGap (left c inLeft)
    · exact running c inside
  · exact isRunning_of_isGap (right c after)

namespace Entry.Spelling

variable {place : Option Construct} {e : Entry} {t : Text}

theorem read (spelled : e.Spelling place t) :
    ReadsAs place [(Resolved.entry e).token] t := by
  intro s blocks before h inBlock placed rest
  cases spelled with
  | declaration key value inside keyRuns uncut visible valueRuns =>
    have outer : blocks ≠ [] := by
      rintro rfl
      exact inside placed.symm
    simpa [Resolved.token] using h.declaration inBlock outer keyRuns uncut visible valueRuns rest
  | statement name params nameRuns paramsRun apart =>
    have word := isRunning_of_isNamed nameRuns
    simpa [Resolved.token] using h.statement inBlock word paramsRun apart rest
  | comment text remark unclosed =>
    have taken : ∀ c ∈ text, _ := fun c member => taken_of_isRemark (remark c member)
    simpa [Resolved.token] using h.comment inBlock taken (unclosed_of_isRemark remark) rest

/-- A blank at the start of an entry belongs to its key. -/
theorem of_blank {c : Char} (spelled : e.Spelling place (c :: t)) (isBlank : Text.isBlank c) :
    e.Spelling place t := by
  generalize whole : c :: t = u at spelled
  cases spelled with
  | declaration key value inside keyRuns uncut visible valueRuns =>
    cases key with
    | nil =>
      cases (List.cons.inj whole).1
      cases isBlank
    | cons d key =>
      obtain ⟨rfl, rfl⟩ := List.cons.inj whole
      have gap := isGap_of_isBlank (keyRuns c List.mem_cons_self) isBlank
      rw [trim_spaced_cons gap] at visible ⊢
      exact declaration key value inside (fun d member => keyRuns d (List.mem_cons_of_mem c member))
        (fun member => uncut (List.mem_cons_of_mem c member)) visible valueRuns
  | statement name params nameRuns paramsRun apart =>
    cases (List.cons.inj whole).1
    cases isBlank
  | comment text remark unclosed =>
    cases (List.cons.inj whole).1
    cases isBlank

/-- An entry ends with a semicolon or with the end of a comment. -/
theorem last_eq (spelled : e.Spelling place t) : ∃ u, t = u ++ [';'] ∨ t = u ++ ['/'] := by
  cases spelled with
  | declaration key value => exact ⟨key ++ ':' :: value, .inl (by simp)⟩
  | statement name params => exact ⟨'@' :: (name ++ params), .inl (by simp)⟩
  | comment text => exact ⟨'/' :: '*' :: (text ++ ['*']), .inr (by simp)⟩

/-- The characters that no entry holds. -/
theorem not_mem (spelled : e.Spelling place t) {c : Char} (foreign : isForeign c) : c ∉ t := by
  simp only [isForeign, Bool.and_eq_true, Bool.or_eq_true, Bool.not_eq_true', decide_eq_true_eq]
    at foreign
  obtain ⟨⟨still, other⟩, hidden⟩ := foreign
  have unmarked : c ≠ ':' ∧ c ≠ ';' ∧ c ≠ '@' ∧ c ≠ '/' ∧ c ≠ '*' := by
    refine ⟨?_, ?_, ?_, ?_, ?_⟩ <;> rintro rfl <;> revert still other <;> decide
  cases spelled with
  | declaration key value inside keyRuns uncut visible valueRuns =>
    simp [not_mem_of_isRunning still keyRuns, not_mem_of_isRunning still valueRuns, unmarked]
  | statement name params nameRuns paramsRun apart =>
    have nameRunning := fun d member => (isRunning_of_isNamed nameRuns d member).1
    simp [not_mem_of_isRunning still nameRunning, not_mem_of_isRunning still paramsRun, unmarked]
  | comment text remark unclosed =>
    have notText : c ∉ text := by
      intro member
      rcases hidden with illegal | rfl
      · simp [remark c member] at illegal
      · exact unclosed member
    simp [notText, unmarked]

end Entry.Spelling

namespace Opening.Spelling

variable {opening : Opening} {t : Text}

theorem read (spelled : opening.Spelling t) :
    OpensAs opening.construct (Resolved.opens opening).token t := by
  intro s blocks before h inBlock rest
  cases spelled with
  | rule selector running =>
    simpa [Resolved.token, Opening.construct] using h.openRule inBlock running rest
  | atRule name params nameRuns paramsRun apart =>
    have word := isRunning_of_isNamed nameRuns
    simpa [Resolved.token, Opening.construct] using h.openAtBlock inBlock word paramsRun apart rest

theorem of_blank {c : Char} (spelled : opening.Spelling (c :: t)) (isBlank : Text.isBlank c) :
    opening.Spelling t := by
  generalize whole : c :: t = u at spelled
  cases spelled with
  | rule selector running =>
    cases selector with
    | nil =>
      cases (List.cons.inj whole).1
      cases isBlank
    | cons d selector =>
      obtain ⟨rfl, rfl⟩ := List.cons.inj whole
      have gap := isGap_of_isBlank (running c List.mem_cons_self) isBlank
      rw [trim_spaced_cons gap]
      exact rule selector fun d member => running d (List.mem_cons_of_mem c member)
  | atRule name params nameRuns paramsRun apart =>
    cases (List.cons.inj whole).1
    cases isBlank

theorem not_mem (spelled : opening.Spelling t) {c : Char} (foreign : isForeign c)
    (other : c ≠ '{') : c ∉ t := by
  simp only [isForeign, Bool.and_eq_true, Bool.not_eq_true', decide_eq_true_eq] at foreign
  obtain ⟨⟨still, unmarked⟩, _⟩ := foreign
  cases spelled with
  | rule selector running => simp [not_mem_of_isRunning still running, other]
  | atRule name params nameRuns paramsRun apart =>
    have nameRunning := fun d member => (isRunning_of_isNamed nameRuns d member).1
    have notAt : c ≠ '@' := by
      rintro rfl
      exact unmarked (by simp)
    simp [not_mem_of_isRunning still nameRunning, not_mem_of_isRunning still paramsRun, notAt,
      other]

end Opening.Spelling

namespace Forest.Spelling

variable {place : Option Construct} {forest : Forest} {t : Text}

/-- The reader takes a written forest for its tokens, whatever follows. -/
theorem read (spelled : Spelling place forest t) :
    ReadsAs place (forest.stream.map Resolved.token) t := by
  induction spelled with
  | empty => exact .nil
  | blank gap _ ih => exact (ReadsAs.gap gap).append ih
  | entry first _ ih => exact first.read.append ih
  | block opened _ _ innerIh restIh =>
    have whole := (ReadsAs.block opened.read (Opening.isBlock_construct _) innerIh).append restIh
    simpa [stream, Resolved.token] using whole

theorem append {other : Forest} {u : Text} (spelled : Spelling place forest t)
    (more : Spelling place other u) : Spelling place (forest.append other) (t ++ u) := by
  induction spelled with
  | empty => exact more
  | blank gap _ ih => exact blank gap (ih more)
  | entry first _ ih =>
    rw [List.append_assoc]
    exact entry first (ih more)
  | block opened inside _ _ restIh =>
    rw [List.append_assoc, List.append_assoc, List.cons_append]
    exact block opened inside (restIh more)

theorem blanks {u : Text} (gaps : ∀ c ∈ u, isGap c) (spelled : Spelling place forest t) :
    Spelling place forest (u ++ t) := by
  induction u with
  | nil => exact spelled
  | cons c u ih =>
    exact blank (gaps c List.mem_cons_self)
      (ih fun d member => gaps d (List.mem_cons_of_mem c member))

theorem append_blanks {u : Text} (spelled : Spelling place forest t) (gaps : ∀ c ∈ u, isGap c) :
    Spelling place forest (t ++ u) := by
  have blank := blanks gaps (@empty place)
  rw [List.append_nil] at blank
  simpa only [append_empty] using spelled.append blank

theorem noReturn (spelled : Spelling place forest t) : '\r' ∉ t := by
  induction spelled with
  | empty => exact List.not_mem_nil
  | @blank _ _ c t gap _ ih =>
    refine List.not_mem_cons_of_ne_of_not_mem ?_ ih
    rintro rfl
    revert gap
    decide
  | entry first _ ih =>
    exact List.mem_append.not.mpr (not_or.mpr ⟨first.not_mem (by decide), ih⟩)
  | block opened _ _ innerIh restIh =>
    simp [opened.not_mem (c := '\r') (by decide) (by decide), innerIh, restIh]

/-- A blank at the start can be left out. -/
theorem of_blank {c : Char} (spelled : Spelling place forest (c :: t)) (isBlank : Text.isBlank c) :
    Spelling place forest t := by
  generalize whole : c :: t = u at spelled
  cases spelled with
  | empty => cases whole
  | blank gap spelled =>
    obtain ⟨rfl, rfl⟩ := List.cons.inj whole
    exact spelled
  | @entry _ _ _ first _ spelled later =>
    cases first with
    | nil =>
      obtain ⟨u, ends | ends⟩ := spelled.last_eq <;> simp at ends
    | cons d first =>
      obtain ⟨rfl, rfl⟩ := List.cons.inj whole
      exact entry (spelled.of_blank isBlank) later
  | @block _ _ _ _ first _ _ opened inside later =>
    cases first with
    | nil => generalize nothing : ([] : Text) = w at opened; cases opened <;> simp at nothing
    | cons d first =>
      obtain ⟨rfl, rfl⟩ := List.cons.inj whole
      exact block (opened.of_blank isBlank) inside later

/-- A blank at the end can be left out. -/
theorem of_append_blank {c : Char} (spelled : Spelling place forest (t ++ [c]))
    (isBlank : Text.isBlank c) : Spelling place forest t := by
  generalize whole : t ++ [c] = u at spelled
  induction spelled generalizing t with
  | empty => simp at whole
  | @blank _ _ d u gap spelled ih =>
    cases t with
    | nil =>
      obtain ⟨rfl, rfl⟩ := List.cons.inj whole
      exact spelled
    | cons e t =>
      obtain ⟨rfl, rfl⟩ := List.cons.inj whole
      exact blank gap (ih rfl)
  | @entry _ _ _ first u spelled later ih =>
    -- No entry ends with a blank, so the blank is in what follows the entry.
    rcases List.eq_nil_or_concat u with rfl | ⟨u, d, rfl⟩
    · rw [List.append_nil] at whole
      obtain ⟨w, ends | ends⟩ := spelled.last_eq <;> rw [ends] at whole <;>
        obtain ⟨_, same⟩ := List.append_inj' whole rfl <;> cases same <;> cases isBlank
    · rw [List.concat_eq_append, ← List.append_assoc] at whole
      obtain ⟨rfl, same⟩ := List.append_inj' whole rfl
      cases same
      exact entry spelled (ih (by simp))
  | @block _ _ _ _ first u v opened inside later innerIh restIh =>
    rcases List.eq_nil_or_concat v with rfl | ⟨v, d, rfl⟩
    · rw [← List.append_assoc] at whole
      obtain ⟨_, same⟩ := List.append_inj' whole rfl
      cases same
      cases isBlank
    · rw [show first ++ (u ++ '}' :: v.concat d) = (first ++ (u ++ '}' :: v)) ++ [d] by simp]
        at whole
      obtain ⟨rfl, same⟩ := List.append_inj' whole rfl
      cases same
      exact block opened inside (restIh (by simp))

theorem trimStart (spelled : Spelling place forest t) :
    Spelling place forest (Text.trimStart t) := by
  induction t with
  | nil => exact spelled
  | cons c t ih =>
    unfold Text.trimStart
    rw [List.dropWhile_cons]
    split
    · exact ih (spelled.of_blank ‹_›)
    · exact spelled

theorem trimEnd (spelled : Spelling place forest t) : Spelling place forest (Text.trimEnd t) := by
  induction t using List.reverseRecOn with
  | nil => exact spelled
  | append_singleton t c ih =>
    unfold Text.trimEnd
    rw [List.reverse_append, List.reverse_singleton, List.singleton_append, List.dropWhile_cons]
    split
    · exact ih (spelled.of_append_blank ‹_›)
    · simpa using spelled

/-- The blanks around a forest can be left out. -/
theorem trim (spelled : Spelling place forest t) : Spelling place forest (Text.trim t) :=
  spelled.trimStart.trimEnd

/-- Line breaks after closing braces can be left out. -/
theorem thinned_append (spelled : Spelling place forest t) {rest result : Text}
    (stays : rest.head? ≠ some '\n') (thin : Text.Thinned (t ++ rest) result) :
    ∃ u more, result = u ++ more ∧ Spelling place forest u ∧ Text.Thinned rest more := by
  induction spelled generalizing rest result with
  | empty => exact ⟨[], result, rfl, empty, thin⟩
  | @blank _ _ c t gap _ ih =>
    have other : c ≠ '}' := by
      rintro rfl
      revert gap
      decide
    obtain ⟨result, rfl, thinRest⟩ := thin.cons_of_ne other
    obtain ⟨u, more, rfl, spelled, left⟩ := ih stays thinRest
    exact ⟨c :: u, more, rfl, blank gap spelled, left⟩
  | entry first _ ih =>
    rw [List.append_assoc] at thin
    obtain ⟨result, rfl, thinRest⟩ := thin.append_of_not_mem (first.not_mem (by decide))
    obtain ⟨u, more, rfl, spelled, left⟩ := ih stays thinRest
    exact ⟨_, more, (List.append_assoc ..).symm, entry first spelled, left⟩
  | @block _ _ _ _ o u v opened _ _ innerIh restIh =>
    rw [List.append_assoc, List.append_assoc, List.cons_append] at thin
    obtain ⟨result, rfl, thinBody⟩ :=
      thin.append_of_not_mem (opened.not_mem (by decide) (by decide))
    obtain ⟨inner, result, rfl, inside, thinRest⟩ := innerIh (by simp) thinBody
    obtain ⟨result, rfl, kept⟩ := thinRest.brace
    rcases kept with kept | ⟨after, dropped, kept⟩
    · obtain ⟨later, more, rfl, spelled, left⟩ := restIh stays kept
      exact ⟨o ++ (inner ++ '}' :: later), more, by simp, block opened inside spelled, left⟩
    · -- The line break that is left out belongs to what follows the block.
      obtain ⟨later, more, split, spelled, left⟩ := restIh stays (dropped ▸ kept.keep '\n')
      cases later with
      | nil =>
        have same := left.head?_eq
        rw [← List.nil_append more, ← split] at same
        exact absurd same stays
      | cons d later =>
        obtain ⟨rfl, rfl⟩ := List.cons.inj split
        exact ⟨o ++ (inner ++ '}' :: later), more, by simp,
          block opened inside (spelled.of_blank rfl), left⟩

theorem thinned (spelled : Spelling place forest t) {result : Text}
    (thin : Text.Thinned t result) : Spelling place forest result := by
  rw [← List.append_nil t] at thin
  obtain ⟨u, more, rfl, spelled, left⟩ := spelled.thinned_append (by simp) thin
  cases left
  rwa [List.append_nil]

end Forest.Spelling

/-- A text that is taken for some tokens outside all blocks is divided into them. -/
theorem Scan.Rests.scan_eq {last : Scan} {tokens : List Token} {t : Text}
    (rests : last.Rests [] tokens) (read : start.run (t ++ []) = last.run [])
    (noReturn : '\r' ∉ t) :
    scan t = .ok last.tokens.reverse ∧ last.tokens.reverse.map Token.unlined = tokens.reverse := by
  constructor
  · have noFrames : last.frames = [] := List.map_eq_nil_iff.mp rests.frames
    rw [scan, Text.unifyLineEnds_eq_self noReturn, ← List.append_nil t, read]
    simp [run, Except.bind, finish, noFrames]
  · rw [List.map_reverse, rests.tokens]

theorem Scan.ReadsAs.scan_eq {expected : List Token} {t : Text}
    (reads : ReadsAs none expected t) (noReturn : '\r' ∉ t) :
    ∃ tokens, scan t = .ok tokens ∧ tokens.map Token.unlined = expected := by
  obtain ⟨last, rests, read⟩ := reads start_rests (by simp) rfl []
  obtain ⟨scanned, same⟩ := rests.scan_eq read noReturn
  exact ⟨_, scanned, by simpa using same⟩

/-- A written forest is read into its tokens. -/
theorem scan_spelling {forest : Forest} {t : Text} (spelled : forest.Spelling none t) :
    ∃ tokens, scan t = .ok tokens ∧
      tokens.map Token.unlined = forest.stream.map Resolved.token :=
  spelled.read.scan_eq spelled.noReturn

end Stylesheet
