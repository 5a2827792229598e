import Stylesheet.Proofs.Fields

set_option autoImplicit false

namespace Stylesheet

open Scan

/-- The characters of a field. None of them is a control character or a blank other than a space,
escapes, quotes, delimits or belongs to a comment mark. -/
def isTextChar (c : Char) : Bool :=
  0x20 ≤ c.toNat && (!Text.isBlank c || c = ' ') &&
    c ∉ ['\\', '{', '}', ';', '@', '"', '\'', '/', '*']

/-- A field, without blanks around it. -/
def isText (t : Text) : Bool := Text.trim t = t && t.all isTextChar

def isAtName (name : Text) : Bool :=
  name.head? = some '@' && name.tail ≠ [] && name.tail.all fun c => isTextChar c && c ≠ ' '

def string? (c : Char) : Option Construct :=
  if c = '"' then some .doubleQuoted else if c = '\'' then some .singleQuoted else none

/-- The characters of a string, apart from the quotation mark that ends it. -/
def isStringChar (c : Char) : Bool := Mark.of c ≠ .control && c ≠ '\\'

/-- Characters of a field and complete strings, where a string may be open at the beginning. -/
def isQuotedFrom : Option Construct → Text → Bool
  | inside, [] => inside.isNone
  | none, c :: t =>
    match string? c with
    | some string => isQuotedFrom (some string) t
    | none => isTextChar c && isQuotedFrom none t
  | some string, c :: t =>
    if string? c = some string then isQuotedFrom none t
    else isStringChar c && isQuotedFrom (some string) t

/-- The value of a declaration, without blanks around it. -/
def isQuotedText (t : Text) : Bool := Text.trim t = t && isQuotedFrom none t

/-- Whether an entry can be written on a line inside a block, or outside all blocks. -/
def Entry.isRenderable (place : Option Construct) : Entry → Bool
  | declaration key value =>
    place ≠ none && key ≠ [] && isText key && ':' ∉ key && isQuotedText value &&
      (place ≠ some .atBlock || '{' ∉ value)
  | statement name params => isAtName name && isText params
  | comment text => isText text

def Opening.isRenderable : Opening → Bool
  | rule selector => isText selector
  | atRule name params => isAtName name && isText params

/-- Whether all of a forest can be written on lines. -/
def Forest.isRenderable (place : Option Construct) : Forest → Bool
  | empty => true
  | entry e rest => e.isRenderable place && rest.isRenderable place
  | block opening inner rest =>
    opening.isRenderable && inner.isRenderable (some opening.construct) && rest.isRenderable place

def Resolved.line : Resolved → Text
  | entry (.declaration key value) => key ++ [':', ' '] ++ value ++ [';']
  | entry (.statement name params) => name ++ [' '] ++ params ++ [';']
  | entry (.comment text) => ['/', '*', ' '] ++ text ++ [' ', '*', '/']
  | opens (.rule selector) => selector ++ [' ', '{']
  | opens (.atRule name params) => name ++ [' '] ++ params ++ [' ', '{']
  | closes => ['}']

/-- A forest, one token on each line. -/
def Forest.render (forest : Forest) : Text :=
  ['\n'].intercalate (forest.stream.map Resolved.line)

theorem isRunning_of_isTextChar {c : Char} (allowed : isTextChar c) :
    isRunning c ∧ (isGap c → c = ' ') := by
  simp only [isTextChar, Bool.and_eq_true, Bool.or_eq_true, Bool.not_eq_true',
    decide_eq_true_eq] at allowed
  obtain ⟨⟨high, visible⟩, unmarked⟩ := allowed
  have space : Text.isBlank c → c = ' ' := by
    intro blank
    rcases visible with seen | space
    · simp [seen] at blank
    · exact space
  exact ⟨isRunning_of_unmarked high space unmarked, fun gap => space (isBlank_of_isGap gap)⟩

theorem isRunning_of_isText {t : Text} (text : isText t) : ∀ c ∈ t, isRunning c := by
  simp only [isText, Bool.and_eq_true, List.all_eq_true] at text
  exact fun c member => (isRunning_of_isTextChar (text.2 c member)).1

theorem trim_spaced_of_isText {t : Text} (text : isText t) : Text.trim (spaced t) = t := by
  simp only [isText, Bool.and_eq_true, decide_eq_true_eq, List.all_eq_true] at text
  rw [spaced_eq_self fun c member => (isRunning_of_isTextChar (text.2 c member)).2, text.1]

theorem IsName.of_isAtName {name : Text} (named : isAtName name) : IsName name := by
  simp only [isAtName, Bool.and_eq_true, decide_eq_true_eq, List.all_eq_true] at named
  obtain ⟨⟨first, _⟩, word⟩ := named
  cases name with
  | nil => cases first
  | cons c letters =>
    cases first
    refine ⟨letters, rfl, fun d member => ?_⟩
    obtain ⟨allowed, visible⟩ := word d member
    obtain ⟨running, space⟩ := isRunning_of_isTextChar allowed
    have still : isGap d = false := by
      by_contra gap
      exact visible (space (by simpa using gap))
    simp [isNamed, running, still]

theorem mark_of_eq_quote_iff (c : Char) (string : Construct) :
    Mark.of c = .quote string ↔ string? c = some string := by
  constructor
  · refine Mark.forall_of (P := fun c mark => mark = .quote string → string? c = some string)
      ?_ ?_ ?_ c
    · simp [Mark.marked, Mark.of, string?]
    · simp
    · simp
  · intro begins
    unfold string? at begins
    split at begins
    · rename_i isDouble
      cases begins
      rw [isDouble]
      rfl
    · split at begins
      · rename_i isSingle
        cases begins
        rw [isSingle]
        rfl
      · cases begins

/-- No quotation mark is the first character of a pair. -/
theorem ne_of_string {c : Char} {string : Construct} (begins : string? c = some string) :
    c ≠ '\\' ∧ c ≠ '/' ∧ c ≠ '*' := by
  refine ⟨?_, ?_, ?_⟩ <;> rintro rfl <;> cases begins

namespace Scan

variable {s : Scan}

/-- The reader once the string that it is in has ended. -/
def outside (s : Scan) : Option Construct → Scan
  | none => s
  | some _ => s.leave

/-- A quotation mark in a value begins a string. -/
theorem run_beginString (inValue : s.top = some .value) {c : Char} {string : Construct}
    (begins : string? c = some string) (rest : Text) :
    s.run (c :: rest) = (((s.advance c).enter string).write c).run rest := by
  have sameTop : (s.advance c).top = some .value := inValue
  rw [run_cons s c rest (ne_of_string begins), single, (mark_of_eq_quote_iff c string).mpr begins]
  simp only [quote, sameTop, Except.bind]

/-- The same quotation mark ends it. -/
theorem run_endString {c : Char} {string : Construct} (inString : s.top = some string)
    (ends : string? c = some string) (rest : Text) :
    s.run (c :: rest) = ((s.advance c).leave.write c).run rest := by
  have sameTop : (s.advance c).top = some string := inString
  have marks := (mark_of_eq_quote_iff c string).mpr ends
  rw [run_cons s c rest (ne_of_string ends), single, marks]
  rcases Mark.of_eq_quote marks with rfl | rfl <;> simp [quote, sameTop, Except.bind]

/-- All else in a string stands for itself, the first characters of pairs too. -/
theorem run_inString {c : Char} {string : Construct} (inString : s.top = some string)
    (isString : string = .singleQuoted ∨ string = .doubleQuoted) (goesOn : string? c ≠ some string)
    (legal : isStringChar c) (rest : Text) :
    s.run (c :: rest) = ((s.advance c).write c).run rest := by
  simp only [isStringChar, Bool.and_eq_true, decide_eq_true_eq] at legal
  have isVerbatim : string.isVerbatim := by rcases isString with rfl | rfl <;> rfl
  have notComment : string ≠ .comment := by rcases isString with rfl | rfl <;> decide
  have unpaired : ∀ d, s.pair? c d = none := by
    intro d
    simp [pair?, legal.2, inVerbatim, inString, isVerbatim, notComment]
  have taken : s.single c rest = .ok ((s.advance c).write c) :=
    single_verbatim s c rest inString isVerbatim legal.1
      fun marks => goesOn ((mark_of_eq_quote_iff c string).mp marks)
  rw [run_cons_of_unpaired s c rest unpaired, taken]
  rfl

/-- A value with strings becomes pending as it is. -/
theorem run_quotedFrom {inside : Option Construct} {value : Text}
    (quoted : isQuotedFrom inside value)
    (strings : ∀ string ∈ inside, string = .singleQuoted ∨ string = .doubleQuoted)
    (isTop : ∀ string ∈ inside, s.top = some string)
    (inValue : (s.outside inside).top = some .value) (rest : Text) :
    ∃ position, s.run (value ++ rest) =
      ({ s.outside inside with position, pending := value.reverse ++ s.pending }).run rest := by
  induction value generalizing s inside with
  | nil =>
    cases inside with
    | none => exact ⟨s.position, rfl⟩
    | some string => cases quoted
  | cons c value ih =>
    cases inside with
    | none =>
      have top : s.top = some .value := inValue
      simp only [isQuotedFrom] at quoted
      cases begins : string? c with
      | some string =>
        rw [begins] at quoted
        have isString := Mark.of_eq_quote ((mark_of_eq_quote_iff c string).mpr begins)
        obtain ⟨position, read⟩ := ih (s := ((s.advance c).enter string).write c) quoted
          (by simpa using isString) (by simp [Scan.top, write, enter]) inValue
        refine ⟨position, ?_⟩
        rw [List.cons_append, run_beginString top begins, read]
        simp [outside, write, enter, leave, advance]
      | none =>
        rw [begins] at quoted
        simp only [Bool.and_eq_true] at quoted
        obtain ⟨running, gap⟩ := isRunning_of_isTextChar quoted.1
        have own : spaced [c] = [c] := spaced_eq_self (by simpa using gap)
        obtain ⟨between, first⟩ := run_value s [c] (value ++ rest) (by simpa using running) top
        rw [own] at first
        obtain ⟨position, read⟩ :=
          ih (s := { s with position := between, pending := c :: s.pending }) quoted.2
            (by simp) (by simp) inValue
        refine ⟨position, ?_⟩
        rw [List.cons_append, show c :: (value ++ rest) = [c] ++ (value ++ rest) from rfl, first]
        simpa [outside] using read
    | some string =>
      have top := isTop string rfl
      simp only [isQuotedFrom] at quoted
      by_cases ends : string? c = some string
      · rw [if_pos ends] at quoted
        obtain ⟨position, read⟩ := ih (s := (s.advance c).leave.write c) quoted
          (by simp) (by simp) inValue
        refine ⟨position, ?_⟩
        rw [List.cons_append, run_endString top ends, read]
        simp [outside, write, leave, advance]
      · rw [if_neg ends, Bool.and_eq_true] at quoted
        obtain ⟨position, read⟩ := ih (s := (s.advance c).write c) quoted.2 strings isTop inValue
        refine ⟨position, ?_⟩
        rw [List.cons_append, run_inString top (strings string rfl) ends quoted.1, read]
        simp [outside, write, leave, advance]

theorem opensBlock_of_not_mem {t : Text} (unopened : '{' ∉ t) (rest : Text) :
    opensBlock (t ++ ';' :: rest) = false := by
  unfold opensBlock
  rw [List.find?_append]
  cases found : t.find? (fun c => c = ';' || c = '}' || c = '{') with
  | none => simp
  | some c =>
    have other : c ≠ '{' := by
      rintro rfl
      exact unopened (List.mem_of_find?_eq_some found)
    simpa using other

end Scan

/-- The line of a declaration, whose value may hold strings. -/
theorem readsAs_declaration {place : Option Construct} {key value : Text} (inside : place ≠ none)
    (visible : key ≠ []) (text : isText key) (uncut : ':' ∉ key) (quoted : isQuotedText value)
    (unopened : place = some .atBlock → '{' ∉ value) :
    ReadsAs place [.property key value 0] (key ++ [':', ' '] ++ value ++ [';']) := by
  intro s blocks before h inBlock placed rest
  simp only [isQuotedText, Bool.and_eq_true, decide_eq_true_eq] at quoted
  have outer : blocks ≠ [] := by
    rintro rfl
    exact inside placed.symm
  have ends : blocks.head? = some .atBlock → opensBlock (' ' :: value ++ ';' :: rest) = false := by
    intro inAtBlock
    apply opensBlock_of_not_mem
    simpa using unopened (placed.symm.trans inAtBlock)
  have spaceQuoted : isQuotedFrom none (' ' :: value) := by
    simpa [isQuotedFrom, string?, show isTextChar ' ' from rfl] using quoted.2
  have reads : ∀ s : Scan, s.top = some .value → ∃ position, s.run (' ' :: value ++ ';' :: rest) =
      ({ s with position, pending := (' ' :: value).reverse ++ s.pending }).run (';' :: rest) :=
    fun s inValue => run_quotedFrom spaceQuoted (by simp) (by simp) inValue (';' :: rest)
  have keyRead := trim_spaced_of_isText text
  have valueRead : Text.trim (' ' :: value) = value :=
    (Text.trim_append_of_blank_left Text.isBlank_space value).trans quoted.1
  have whole := h.declaration_of_value inBlock outer (isRunning_of_isText text) uncut
    (by rwa [keyRead]) ends reads
  rw [keyRead, valueRead] at whole
  simpa using whole

theorem isGap_space : ∀ c ∈ [' '], isGap c := List.forall_mem_singleton.mpr rfl

/-- The reader takes the line of an entry for that entry. -/
theorem Entry.readsAs_line {place : Option Construct} {e : Entry} (fits : e.isRenderable place) :
    ReadsAs place [(Resolved.entry e).token] (Resolved.entry e).line := by
  match e with
  | .declaration key value =>
    simp only [isRenderable, Bool.and_eq_true, Bool.or_eq_true, decide_eq_true_eq] at fits
    obtain ⟨⟨⟨⟨⟨inside, visible⟩, text⟩, uncut⟩, quoted⟩, unopened⟩ := fits
    exact readsAs_declaration inside visible text uncut quoted fun inAtBlock =>
      unopened.resolve_left (absurd inAtBlock)
  | .statement name params =>
    simp only [isRenderable, Bool.and_eq_true] at fits
    have named := IsName.of_isAtName fits.1
    have nameRead := named.trim_eq_self
    obtain ⟨word, rfl, letters⟩ := named
    have spelled : Spelling place _ _ := .statement word ([' '] ++ params ++ []) letters
      (isRunning_between isGap_space (isRunning_of_isText fits.2) (by simp)) (by simp [isGap_iff])
    rw [nameRead, trim_spaced_between isGap_space params (by simp), trim_spaced_of_isText fits.2]
      at spelled
    simpa [Resolved.line] using spelled.read
  | .comment text =>
    have running := isRunning_between isGap_space (isRunning_of_isText fits) isGap_space
    have spelled : Spelling place _ _ :=
      .of_remark fun c member => isRemark_of_isRunning (running c member)
    rw [Text.trim_append_of_blank_right _ Text.isBlank_space,
      Text.trim_append_of_blank_left Text.isBlank_space] at spelled
    have own : Text.trim text = text := by
      simp only [isRenderable, isText, Bool.and_eq_true, decide_eq_true_eq] at fits
      exact fits.1
    rw [own] at spelled
    simpa [Resolved.line] using spelled.read

theorem Opening.opensAs_line {opening : Opening} (fits : opening.isRenderable) :
    OpensAs opening.construct (Resolved.opens opening).token (Resolved.opens opening).line := by
  match opening with
  | .rule selector =>
    have spelled := Spelling.rule ([] ++ selector ++ [' '])
      (isRunning_between (by simp) (isRunning_of_isText fits) isGap_space)
    rw [trim_spaced_between (by simp) selector isGap_space, trim_spaced_of_isText fits] at spelled
    simpa [Resolved.line] using spelled.read
  | .atRule name params =>
    simp only [isRenderable, Bool.and_eq_true] at fits
    have named := IsName.of_isAtName fits.1
    have nameRead := named.trim_eq_self
    obtain ⟨word, rfl, letters⟩ := named
    have spelled := Spelling.atRule word ([' '] ++ params ++ [' ']) letters
      (isRunning_between isGap_space (isRunning_of_isText fits.2) isGap_space) (by simp [isGap_iff])
    rw [nameRead, trim_spaced_between isGap_space params isGap_space, trim_spaced_of_isText fits.2]
      at spelled
    simpa [Resolved.line] using spelled.read

theorem Layout.ofLines_cons (line : Text) (lines : List Text) :
    ofLines (line :: lines) = '\n' :: ['\n'].intercalate (line :: lines) := by
  rw [Text.intercalate_cons]
  rfl

namespace Forest

variable {place : Option Construct} {forest : Forest}

/-- What is read at the beginning of a line can be read after a line break. -/
theorem readsAs_ofLines (whole : ReadsAs place (forest.stream.map Resolved.token) forest.render) :
    ReadsAs place (forest.stream.map Resolved.token)
      (Layout.ofLines (forest.stream.map Resolved.line)) := by
  unfold render at whole
  cases lines : forest.stream.map Resolved.line with
  | nil =>
    rw [lines] at whole
    exact whole
  | cons line more =>
    rw [lines] at whole
    rw [Layout.ofLines_cons]
    exact (ReadsAs.gap (c := '\n') rfl).append whole

theorem readsAs_render (fits : forest.isRenderable place) :
    ReadsAs place (forest.stream.map Resolved.token) forest.render := by
  induction forest generalizing place with
  | empty => exact .nil
  | entry e rest ih =>
    simp only [isRenderable, Bool.and_eq_true] at fits
    rw [render, stream, List.map_cons, List.map_cons, Text.intercalate_cons]
    exact (Entry.readsAs_line fits.1).append (readsAs_ofLines (ih fits.2))
  | block opening inner rest innerIh restIh =>
    simp only [isRenderable, Bool.and_eq_true] at fits
    obtain ⟨⟨opens, inside⟩, later⟩ := fits
    have body := (readsAs_ofLines (innerIh inside)).append (ReadsAs.gap (c := '\n') rfl)
    have whole := (ReadsAs.block (Opening.opensAs_line opens) opening.isBlock_construct body).append
      (readsAs_ofLines (restIh later))
    simpa [render, stream, Text.intercalate_cons, Layout.ofLines, Resolved.token, Resolved.line]
      using whole

end Forest

theorem noReturn_of_isText {t : Text} (text : isText t) : '\r' ∉ t := by
  intro member
  cases isRunning_of_isText text '\r' member

theorem noReturn_of_isQuotedFrom {inside : Option Construct} {t : Text}
    (quoted : isQuotedFrom inside t) : '\r' ∉ t := by
  induction t generalizing inside with
  | nil => exact List.not_mem_nil
  | cons c t ih =>
    intro member
    rcases List.mem_cons.mp member with rfl | later
    · -- A carriage return begins no string and stands neither in a field nor in a string.
      cases inside with
      | none => cases quoted
      | some string =>
        simp only [isQuotedFrom, show string? '\r' = none from rfl, reduceCtorEq, ↓reduceIte]
          at quoted
        cases quoted
    · cases inside with
      | none =>
        simp only [isQuotedFrom] at quoted
        split at quoted
        · exact ih quoted later
        · exact ih (Bool.and_eq_true_iff.mp quoted).2 later
      | some string =>
        simp only [isQuotedFrom] at quoted
        split at quoted
        · exact ih quoted later
        · exact ih (Bool.and_eq_true_iff.mp quoted).2 later

theorem noReturn_of_isName {name : Text} (named : IsName name) : '\r' ∉ name := by
  intro member
  cases named.tidy.spaces '\r' member rfl

theorem Entry.noReturn_line {place : Option Construct} {e : Entry} (fits : e.isRenderable place) :
    '\r' ∉ (Resolved.entry e).line := by
  match e with
  | .declaration key value =>
    simp only [isRenderable, isQuotedText, Bool.and_eq_true] at fits
    obtain ⟨⟨⟨⟨_, text⟩, _⟩, _, quoted⟩, _⟩ := fits
    simp [Resolved.line, noReturn_of_isText text, noReturn_of_isQuotedFrom quoted]
  | .statement name params =>
    simp only [isRenderable, Bool.and_eq_true] at fits
    simp [Resolved.line, noReturn_of_isName (.of_isAtName fits.1), noReturn_of_isText fits.2]
  | .comment text => simp [Resolved.line, noReturn_of_isText fits]

theorem Opening.noReturn_line {opening : Opening} (fits : opening.isRenderable) :
    '\r' ∉ (Resolved.opens opening).line := by
  match opening with
  | .rule selector => simp [Resolved.line, noReturn_of_isText fits]
  | .atRule name params =>
    simp only [isRenderable, Bool.and_eq_true] at fits
    simp [Resolved.line, noReturn_of_isName (.of_isAtName fits.1), noReturn_of_isText fits.2]

namespace Forest

theorem noReturn_lines {place : Option Construct} {forest : Forest}
    (fits : forest.isRenderable place) : ∀ token ∈ forest.stream, '\r' ∉ token.line := by
  induction forest generalizing place with
  | empty => simp [stream]
  | entry e rest ih =>
    simp only [isRenderable, Bool.and_eq_true] at fits
    exact forall_stream_entry.mpr ⟨Entry.noReturn_line fits.1, ih fits.2⟩
  | block opening inner rest innerIh restIh =>
    simp only [isRenderable, Bool.and_eq_true] at fits
    obtain ⟨⟨opens, inside⟩, later⟩ := fits
    exact forall_stream_block.mpr
      ⟨Opening.noReturn_line opens, innerIh inside, by simp [Resolved.line], restIh later⟩

theorem noReturn_render {place : Option Construct} {forest : Forest}
    (fits : forest.isRenderable place) : '\r' ∉ forest.render := by
  intro member
  rcases Text.mem_intercalate member with separator | ⟨line, isLine, inside⟩
  · cases List.mem_singleton.mp separator
  · obtain ⟨token, inStream, rfl⟩ := List.mem_map.mp isLine
    exact noReturn_lines fits token inStream inside

end Forest

/-- A forest that is written line by line is read back, token by token. -/
theorem scan_render (forest : Forest) (fits : forest.isRenderable none) :
    ∃ tokens, scan forest.render = .ok tokens ∧
      tokens.map Token.unlined = forest.stream.map Resolved.token :=
  (Forest.readsAs_render fits).scan_eq (Forest.noReturn_render fits)

namespace Forest

/-- Colons in selectors, keys and parameters, and strings with delimiters in rules and at-rules. -/
def delimited : Forest :=
  .entry (.statement "@charset".toList []) <|
  .block (.rule "a:not(b:hover), c".toList)
    (.entry (.declaration "k".toList "'\x7b;\x7d: @/* \"' x:y \"it's\"".toList) <|
      .block (.rule "d:hover:focus".toList) (.entry (.declaration "k".toList []) .empty) .empty) <|
  .block (.atRule "@media".toList "(min-width: 1px)".toList)
    (.entry (.declaration "k".toList "';\x7d'".toList) <|
      .block (.rule "e:hover".toList)
        (.entry (.declaration "a b".toList "\"\x7b\" : 'x'".toList) .empty) <|
      .entry (.comment "x: y".toList) .empty)
    .empty

end Forest

theorem scan_render_delimited :
    Forest.delimited.isRenderable none ∧
      ∃ tokens, scan Forest.delimited.render = .ok tokens ∧
        tokens.map Token.unlined = Forest.delimited.stream.map Resolved.token :=
  have fits : Forest.delimited.isRenderable none := by decide +kernel
  ⟨fits, scan_render Forest.delimited fits⟩

end Stylesheet
