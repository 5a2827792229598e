import Stylesheet.Text.Basic

set_option autoImplicit false

namespace Stylesheet

/-- A token, with the line on which it ended. -/
inductive Token where
  /-- A selector and the brace that opens its block. -/
  | rule (selector : Text) (line : Nat)
  /-- An at-rule and the brace that opens its block. -/
  | atBlock (name params : Text) (line : Nat)
  /-- An at-rule without a block. -/
  | statement (name params : Text) (line : Nat)
  | property (key value : Text) (line : Nat)
  | comment (text : Text) (line : Nat)
  /-- The brace that closes a block. -/
  | close (line : Nat)
  deriving DecidableEq, Repr

namespace Token

def line : Token → Nat
  | rule _ n | atBlock _ _ n | statement _ _ n | property _ _ n | comment _ n | close n => n

/-- How an error message names a token. -/
def describe : Token → Text
  | rule selector _ => "rule `".toList ++ selector ++ ['`']
  | atBlock name params _ => "block `".toList ++ name ++ [' '] ++ params ++ ['`']
  | statement name params _ => "at-rule `".toList ++ name ++ [' '] ++ params ++ ['`']
  | property key value _ => "property `".toList ++ key ++ [':', ' '] ++ value ++ ['`']
  | comment _ _ => "comment".toList
  | close _ => "`\x7d`".toList

end Token

end Stylesheet
