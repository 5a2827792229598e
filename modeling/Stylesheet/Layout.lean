import Stylesheet.Selector

set_option autoImplicit false

namespace Stylesheet.Layout

/-- A line break and the spaces of a depth. Every piece of output begins with the line break that
separates it from what comes before. -/
def indent (depth : Nat) : Text := '\n' :: List.replicate (2 * depth) ' '

/-- A selector with one branch on each line. -/
def selector (text : Text) (depth : Nat) : Text :=
  (',' :: indent depth).intercalate (Selector.branches (Text.collapse text))

def braces (header body : Text) (depth : Nat) : Text :=
  indent depth ++ header ++ [' ', '{'] ++ body ++ indent depth ++ ['}']

def block (text body : Text) (depth : Nat) : Text := braces (selector text depth) body depth

/-- The block of an at-rule, with an empty line after it. -/
def atBlock (header body : Text) (depth : Nat) : Text := braces header body depth ++ ['\n']

/-- An at-rule's name and its parameters, if it has any. -/
def header (name params : Text) : Text := if params = [] then name else name ++ ' ' :: params

def statement (name params : Text) (depth : Nat) : Text :=
  indent depth ++ header name params ++ [';']

/-- How long the padding at the start of a text is, together with the characters it belongs to:
spaces after `(`, spaces before `)`, or more than one space after a comma. -/
def paddingLength : Text → Nat
  | '(' :: ' ' :: t => 2 + Text.countWhile (· = ' ') t
  | ',' :: ' ' :: ' ' :: t => 3 + Text.countWhile (· = ' ') t
  | ' ' :: t =>
    let spaces := Text.countWhile (· = ' ') t
    if (t.drop spaces).head? = some ')' then spaces + 2 else 0
  | _ => 0

/-- Padding reduced to what stays of it. -/
def unpad : Text → Text
  | '(' :: _ => ['(']
  | ',' :: _ => [',', ' ']
  | _ => [')']

/-- A value without the padding inside parentheses and after commas. -/
def unpadded (value : Text) : Text := Text.replace paddingLength unpad value

def declaration (key value : Text) (depth : Nat) : Text :=
  indent depth ++ key ++ [':', ' '] ++ unpadded value ++ [';']

/-- A comment on lines of its own. Its text holds no star, so nothing in it ends the comment. -/
def comment (text : Text) (depth : Nat) : Text :=
  let words := Text.collapse (text.filter (· ≠ '*'))
  let pad := indent depth
  '\n' :: pad ++ ['/', '*', '*'] ++ pad ++ [' ', '*', ' '] ++ words ++ pad ++ [' ', '*', '/', '\n']

/-- Whether a line holds nothing but spaces and tabs, and at least one of them. -/
def isPaddingLine (line : Text) : Bool :=
  !line.isEmpty && line.all fun c => c = ' ' || c = '\t'

/-- Removes the lines of nothing but spaces and tabs. What follows the last line break is not a
line. -/
def dropPaddingLines (t : Text) : Text :=
  let all := Text.lines t
  ['\n'].intercalate (all.dropLast.filter (!isPaddingLine ·) ++ all.getLast?.toList)

/-- How long the gap between two closing braces at the start of a text is, braces included. -/
def closingGapLength : Text → Nat
  | '}' :: '\n' :: '\n' :: '}' :: _ => 4
  | _ => 0

/-- The last pass over compiled output: no lines of padding, no empty line between two closing
braces, no blanks at the ends. -/
def finish (t : Text) : Text :=
  Text.trim (Text.replace closingGapLength (fun _ => ['}', '\n', '}']) (dropPaddingLines t))

end Stylesheet.Layout
