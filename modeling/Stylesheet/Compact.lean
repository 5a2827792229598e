import Stylesheet.Text.Basic

set_option autoImplicit false

namespace Stylesheet.Compact

/-- How many characters it takes to reach the end of the comment whose text starts here, `none`
when it does not end. -/
def commentEnd? : Text → Option Nat
  | '*' :: '/' :: _ => some 2
  | _ :: t => (commentEnd? t).map (· + 1)
  | [] => none

def commentLength : Text → Nat
  | '/' :: '*' :: t => ((commentEnd? t).map (· + 2)).getD 0
  | _ => 0

/-- How many blanks a text starts with. -/
def blanks (t : Text) : Nat := Text.countWhile Text.isBlank t

def isBrace (c : Char) : Bool := c = '{' || c = '}'

/-- The length of blanks at the start of a text together with the brace after them. -/
def beforeBraceLength (t : Text) : Nat :=
  let n := blanks t
  if n ≠ 0 && (t.drop n).head?.any isBrace then n + 1 else 0

/-- Punctuation after which blanks separate nothing. -/
def isDelimiter (c : Char) : Bool := c = ';' || c = ',' || c = ':' || isBrace c

/-- The length of a delimiter at the start of a text together with the blanks after it. -/
def afterDelimiterLength : Text → Nat
  | c :: t => if isDelimiter c && blanks t ≠ 0 then blanks t + 1 else 0
  | [] => 0

def isCombinator (c : Char) : Bool := c = '>' || c = '+' || c = '~'

/-- The length of a combinator with blanks on both sides at the start of a text. -/
def combinatorLength (t : Text) : Nat :=
  let before := blanks t
  match t.drop before with
  | c :: rest =>
    if before ≠ 0 && isCombinator c && blanks rest ≠ 0 then before + 1 + blanks rest else 0
  | [] => 0

/-- The length of an escaped line break at the start of a text, with the blanks after it. -/
def continuationLength : Text → Nat
  | '\\' :: '\n' :: t => if blanks t ≠ 0 then 2 + blanks t else 0
  | _ => 0

/-- The length of a semicolon that ends a block. -/
def lastSemicolonLength : Text → Nat
  | ';' :: '}' :: _ => 2
  | _ => 0

/-- Keeps only the characters of a match that are no blanks. -/
def keepMark (m : Text) : Text := m.filter (!Text.isBlank ·)

def dropComments (t : Text) : Text := Text.replace commentLength (fun _ => []) t

def dropBeforeBraces (t : Text) : Text := Text.replace beforeBraceLength keepMark t

/-- Leading blanks go as well. -/
def dropAfterDelimiters (t : Text) : Text :=
  Text.replace afterDelimiterLength keepMark (Text.trimStart t)

def dropAroundCombinators (t : Text) : Text := Text.replace combinatorLength keepMark t

def joinContinuations (t : Text) : Text := Text.replace continuationLength (fun _ => []) t

def dropLastSemicolons (t : Text) : Text := Text.replace lastSemicolonLength (fun _ => ['}']) t

end Stylesheet.Compact

namespace Stylesheet

/-- A stylesheet without comments and without the blanks and semicolons it does not need. -/
def compact (css : Text) : Text :=
  Compact.dropLastSemicolons (Compact.joinContinuations (Compact.dropAroundCombinators
    (Compact.dropAfterDelimiters (Compact.dropBeforeBraces (Compact.dropComments css)))))

end Stylesheet
