set_option autoImplicit false

namespace Stylesheet

inductive Fault where
  | notFound
  | notDirectory
  | isDirectory
  | nameTooLong
  | tooManyLinks
  | invalidText
  | nullCharacter
  deriving DecidableEq, Repr

def Fault.message : Fault → String
  | notFound => "No such file or directory (os error 2)"
  | notDirectory => "Not a directory (os error 20)"
  | isDirectory => "Is a directory (os error 21)"
  | nameTooLong => "File name too long (os error 36)"
  | tooManyLinks => "Too many levels of symbolic links (os error 40)"
  | invalidText => "stream did not contain valid UTF-8"
  | nullCharacter => "file name contained an unexpected NUL byte"

end Stylesheet
