set_option autoImplicit false

namespace Stylesheet

/-- Text is the list of its characters. -/
abbrev Text := List Char

namespace Text

/-- The characters with the Unicode property `White_Space`. -/
def isBlank (c : Char) : Bool :=
  let n := c.toNat
  (9 ≤ n && n ≤ 13) || n == 0x20 || n == 0x85 || n == 0xA0 || n == 0x1680 ||
    (0x2000 ≤ n && n ≤ 0x200A) || n == 0x2028 || n == 0x2029 || n == 0x202F || n == 0x205F ||
    n == 0x3000

def trimStart (t : Text) : Text := t.dropWhile isBlank

def trimEnd (t : Text) : Text := (t.reverse.dropWhile isBlank).reverse

def trim (t : Text) : Text := trimEnd (trimStart t)

/-- The maximal runs of characters that are not blank. -/
def words : Text → List Text
  | [] => []
  | [c] => if isBlank c then [] else [[c]]
  | c :: d :: t =>
    if isBlank c then words (d :: t)
    else if isBlank d then [c] :: words (d :: t)
    else (words (d :: t)).modifyHead (c :: ·)

/-- The words of a text with one space between neighbours. -/
def collapse (t : Text) : Text := [' '].intercalate (words t)

def lines (t : Text) : List Text := t.splitOn '\n'

/-- Every end of line, written `\r\n`, `\r` or `\n`, becomes `\n`. -/
def unifyLineEnds : Text → Text
  | [] => []
  | '\r' :: '\n' :: t => '\n' :: unifyLineEnds t
  | c :: t => (if c = '\r' then '\n' else c) :: unifyLineEnds t

/-- Puts a text in the place of every occurrence of a character. -/
def replaceChar (c : Char) (replacement : Text) (t : Text) : Text :=
  t.flatMap fun d => if d = c then replacement else [d]

/-- A text divided by a pattern: a match, or a character that is in none. -/
inductive Piece where
  | plain (c : Char)
  | found (m : Text)
  deriving DecidableEq, Repr

/-- The pieces of a text, when the first `skip` characters belong to a match already taken. -/
def piecesFrom (length : Text → Nat) : Nat → Text → List Piece
  | _, [] => []
  | skip + 1, _ :: t => piecesFrom length skip t
  | 0, c :: t =>
    match length (c :: t) with
    | 0 => .plain c :: piecesFrom length 0 t
    | more + 1 => .found (c :: t.take more) :: piecesFrom length more t

/-- Divides a text by a pattern that says how long the match at the start of a text is, `0` when
there is none. Matches are taken from left to right and do not overlap. -/
def pieces (length : Text → Nat) (t : Text) : List Piece := piecesFrom length 0 t

/-- The text of a piece, when a function says what stands for a match. -/
def Piece.render (f : Text → Text) : Piece → Text
  | .plain c => [c]
  | .found m => f m

/-- Puts something in the place of every match of a pattern and keeps all other characters. -/
def replace (length : Text → Nat) (f : Text → Text) (t : Text) : Text :=
  (pieces length t).flatMap (Piece.render f)

/-- How many characters at the start of a text satisfy a test. -/
def countWhile (p : Char → Bool) (t : Text) : Nat := (t.takeWhile p).length

end Text

end Stylesheet
