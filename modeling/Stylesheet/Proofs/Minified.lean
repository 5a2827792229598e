import Stylesheet.Compile
import Stylesheet.Proofs.Spared

set_option autoImplicit false

namespace Stylesheet

def Stroke.literal? (x : Stroke) : Option Text :=
  if 2 ≤ x.ink.length ∧ x.ink.head? ≠ some '\\' then some x.ink else none

namespace Text

theorem literals_plain {c : Char} {t : Text} (unmatched : sealLength (c :: t) = 0) :
    literals (c :: t) = literals t := by
  rw [literals, pieces_plain unmatched]
  rfl

theorem literals_found {m t : Text} (nonempty : m ≠ []) (found : sealLength (m ++ t) = m.length) :
    literals (m ++ t) =
      (if m.head? = some '\\' then literals t else m :: literals t) := by
  rw [literals, pieces_found nonempty found, List.filterMap_cons]
  by_cases escape : m.head? = some '\\' <;> simp only [escape, ↓reduceIte] <;> rfl

/-- The string literals of a text are among its strokes. -/
theorem literals_eq (t : Text) (opened : Bool) :
    (Cell.strokes opened (t.cellsBy sealLength)).filterMap Stroke.literal? = t.literals := by
  induction t using induction_by sealLength_eq_zero_or generalizing opened with
  | nil => rfl
  | plain c t unmatched ih =>
    rw [literals_plain unmatched, ← ih opened]
    cases visible : isBlank c with
    | true =>
      rw [cellsBy_blank unmatched visible]
      generalize cellsBy sealLength t = k
      cases k with
      | nil => rfl
      | cons x k =>
        simp only [List.modifyHead_cons, Cell.strokes, Cell.isRemark]
        by_cases skipped : (decide (x.ink = []) || decide (['/', '*'] <+: x.ink)) = true
        · simp only [skipped, ↓reduceIte]
        · simp only [skipped, ↓reduceIte, Bool.false_eq_true, List.filterMap_cons]
          rfl
    | false =>
      rw [cellsBy_visible unmatched visible, ih opened, ← ih (Cell.is Compact.isMark ⟨[], [c]⟩)]
      simp [Cell.strokes, Cell.isRemark, Stroke.literal?, Cell.stroke]
  | verbatim m t isVerbatim found ih =>
    have other : Cell.isRemark ⟨[], m⟩ = false := by
      cases isVerbatim with
      | remark => simp [sealLength_cons (c := '/') (by decide)] at found
      | string quotes closes =>
        have solid : Cell.Solid ⟨[], _ :: _⟩ := .string (by simp) quotes closes
        exact solid.not_isRemark
      | escape d => simp [Cell.isRemark]
    obtain ⟨c, d, w, rfl, -⟩ := isVerbatim.exists_first
    rw [literals_found (by simp) found, cellsBy_found isVerbatim found]
    simp only [Cell.strokes, other, reduceCtorEq, decide_false, Bool.or_self, Bool.false_eq_true,
      ↓reduceIte, List.filterMap_cons, ih]
    by_cases escape : c = '\\' <;> simp [Cell.stroke, Stroke.literal?, escape]

end Text

def Token.literals : Token → List Text
  | property _ value _ => value.literals
  | _ => []

def Gist.literals : Gist → List Text
  | property _ value => value.filterMap Stroke.literal?
  | _ => []

/-- What tokens say contains their string literals. -/
theorem Token.flatMap_literals (tokens : List Token) :
    tokens.flatMap Token.literals = (tokens.filterMap Token.gist).flatMap Gist.literals := by
  have each (token : Token) : token.literals = token.gist.toList.flatMap Gist.literals := by
    cases token with
    | property key value line => simp [Token.literals, Token.gist, Gist.literals, Text.strokes,
        Text.literals_eq]
    | _ => rfl
  induction tokens with
  | nil => rfl
  | cons token tokens ih =>
    rw [List.flatMap_cons, List.filterMap_cons, ih, each]
    cases token.gist <;> simp

theorem compile_minify (volume : Volume) (options : Options) (source : Text) :
    compile volume { options with minify := true } source =
      (compile volume { options with minify := false } source).map compact := by
  unfold compile compileTokens compileIn
  cases scan source with
  | error e => rfl
  | ok tokens =>
    simp only [bind, Except.bind, pure, Except.pure, Options.print]
    generalize compileRaw _ _ 0 .empty tokens = result
    cases result with
    | error e => rfl
    | ok raw => simp [Except.map]

/-- Where compacting spares the strings of the output, the minified output has the same string
literals in its declarations, in the same order, and no rule and no declaration is missing. -/
theorem compile_minified {volume : Volume} {options : Options} {source css : Text}
    (compiled : compile volume { options with minify := false } source = .ok css)
    (spared : css.isSpared) {tokens : List Token} (read : scan css = .ok tokens) :
    ∃ tokens', compile volume { options with minify := true } source = .ok (compact css) ∧
      scan (compact css) = .ok tokens' ∧
      tokens'.flatMap Token.literals = tokens.flatMap Token.literals ∧
      tokens'.filterMap Token.gist = tokens.filterMap Token.gist := by
  obtain ⟨tokens', read', same⟩ := css.scan_compact spared read
  refine ⟨tokens', ?_, read', ?_, same⟩
  · rw [compile_minify, compiled]
    rfl
  · rw [Token.flatMap_literals, Token.flatMap_literals, same]

/-- Strings with delimiters and the mark of a comment, an escaped colon, and a comment. -/
theorem compile_minified_quoted :
    let source : Text := ("/* c */ a > b \x7b k: \"x:y;\x7bz\x7d/*\" 'p q' \x7d " ++
      ".p\\:q \x7b n: \"r\" \x7d").toList
    let css : Text := ("/**\n * c\n */\n\na > b \x7b\n  k: \"x:y;\x7bz\x7d/*\" 'p q';\n\x7d\n" ++
      ".p\\:q \x7b\n  n: \"r\";\n\x7d").toList
    let tokens : List Token := [.comment "*\n * c".toList 3, .rule "a > b".toList 5,
      .property ['k'] "\"x:y;\x7bz\x7d/*\" 'p q'".toList 6, .close 7, .rule ".p\\:q".toList 8,
      .property ['n'] "\"r\"".toList 9, .close 10]
    (compile ⟨[], []⟩ ⟨⟨['.']⟩, false⟩ source = .ok css ∧ css.isSpared ∧ scan css = .ok tokens) ∧
      compact css = "a>b\x7bk:\"x:y;\x7bz\x7d/*\" 'p q'\x7d.p\\:q\x7bn:\"r\"\x7d".toList ∧
      ∃ tokens', compile ⟨[], []⟩ ⟨⟨['.']⟩, true⟩ source = .ok (compact css) ∧
        scan (compact css) = .ok tokens' ∧
        tokens'.flatMap Token.literals = tokens.flatMap Token.literals ∧
        tokens'.filterMap Token.gist = tokens.filterMap Token.gist := by
  intro source css tokens
  have compiled : compile ⟨[], []⟩ ⟨⟨['.']⟩, false⟩ source = .ok css := by decide +kernel
  have spared : css.isSpared := by decide +kernel
  have read : scan css = .ok tokens := by decide +kernel
  exact ⟨⟨compiled, spared, read⟩, by decide +kernel,
    @compile_minified ⟨[], []⟩ ⟨⟨['.']⟩, false⟩ source css compiled spared tokens read⟩

/-- Compacting takes a blank out of a string, and a rule that stands between the marks of a comment
in two strings. -/
theorem compile_minified_strings_change :
    let source : Text := "a \x7b b: \"x: y\" \"/*\" \x7d c \x7b d: \"*/\" \x7d".toList
    let css : Text := "a \x7b\n  b: \"x: y\" \"/*\";\n\x7d\nc \x7b\n  d: \"*/\";\n\x7d".toList
    let css' : Text := "a\x7bb:\"x:y\" \"\"\x7d".toList
    (compile ⟨[], []⟩ ⟨⟨['.']⟩, false⟩ source = .ok css ∧
      (scan css).map (List.flatMap Token.literals) =
        .ok ["\"x: y\"".toList, "\"/*\"".toList, "\"*/\"".toList] ∧
      (scan css).map (List.filterMap Token.brace?) =
        .ok [.opening 1, .closing 3, .opening 4, .closing 6]) ∧
    compile ⟨[], []⟩ ⟨⟨['.']⟩, true⟩ source = .ok css' ∧
      (scan css').map (List.flatMap Token.literals) = .ok ["\"x:y\"".toList, "\"\"".toList] ∧
      (scan css').map (List.filterMap Token.brace?) = .ok [.opening 1, .closing 1] := by
  refine ⟨⟨?_, ?_, ?_⟩, ?_, ?_, ?_⟩ <;> decide +kernel

end Stylesheet
