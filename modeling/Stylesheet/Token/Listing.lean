import Stylesheet.Token

set_option autoImplicit false

namespace Stylesheet.Token

def hexCode (c : Char) : Text :=
  let digits := Nat.toDigits 16 c.toNat
  List.replicate (4 - digits.length) '0' ++ digits

def jsonChar (c : Char) : Text :=
  match c with
  | '"' => ['\\', '"']
  | '\\' => ['\\', '\\']
  | '\x08' => ['\\', 'b']
  | '\x0c' => ['\\', 'f']
  | '\n' => ['\\', 'n']
  | '\r' => ['\\', 'r']
  | '\t' => ['\\', 't']
  | c => if c.toNat < 0x20 then '\\' :: 'u' :: hexCode c else [c]

def jsonString (t : Text) : Text := '"' :: t.flatMap jsonChar ++ ['"']

def jsonNumber (n : Nat) : Text := Nat.toDigits 10 n

def jsonFields : Token → List (String × Text)
  | rule selector line =>
    [("type", jsonString "rule".toList), ("selector", jsonString selector),
      ("line", jsonNumber line)]
  | close line => [("type", jsonString "end".toList), ("line", jsonNumber line)]
  | atBlock name params line =>
    [("type", jsonString "nested_at".toList), ("name", jsonString name),
      ("params", jsonString params), ("line", jsonNumber line)]
  | statement name params line =>
    [("type", jsonString "at".toList), ("name", jsonString name), ("params", jsonString params),
      ("line", jsonNumber line)]
  | property key value line =>
    [("type", jsonString "property".toList), ("key", jsonString key), ("val", jsonString value),
      ("line", jsonNumber line)]
  | comment text line =>
    [("type", jsonString "comment".toList), ("text", jsonString text), ("line", jsonNumber line)]

def jsonField (field : String × Text) : Text :=
  "\n    ".toList ++ jsonString field.1.toList ++ [':', ' '] ++ field.2

def jsonObject (token : Token) : Text :=
  "\n  \x7b".toList ++ [','].intercalate (token.jsonFields.map jsonField) ++ "\n  \x7d".toList

/-- A list of tokens as JSON text, indented by two spaces. -/
def listing : List Token → Text
  | [] => ['[', ']']
  | tokens => '[' :: [','].intercalate (tokens.map jsonObject) ++ ['\n', ']']

end Stylesheet.Token
