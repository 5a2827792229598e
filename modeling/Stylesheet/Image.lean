import Stylesheet.Base64
import Stylesheet.Volume

set_option autoImplicit false

namespace Stylesheet.Image

/-- The media type of an image, by the extension of its name. -/
def mediaType? (path : Path) : Option Text :=
  match path.extension? with
  | none => none
  | some extension =>
    let extension := extension.map Char.toLower
    if extension = "png".toList then some "image/png".toList
    else if extension = "gif".toList then some "image/gif".toList
    else if extension = "jpg".toList then some "image/jpeg".toList
    else if extension = "svg".toList then some "image/svg+xml".toList
    else none

/-- The length of a reference at the start of a text: `url` in upper or lower case, and
parentheses around at least one character. -/
def referenceLength : Text → Nat
  | u :: r :: l :: '(' :: t =>
    if u.toLower = 'u' && r.toLower = 'r' && l.toLower = 'l' then
      let inside := Text.countWhile (· ≠ ')') t
      if inside ≠ 0 && inside < t.length then inside + 5 else 0
    else 0
  | _ => 0

/-- A text without blanks around it and without any quotes. -/
def unquote (t : Text) : Text := (Text.trim t).filter fun c => c ≠ '"' && c ≠ '\''

/-- What stands between the parentheses of a reference. -/
def target (reference : Text) : Text := unquote (reference.drop 4).dropLast

def hasDoubleSlash : Text → Bool
  | '/' :: '/' :: _ => true
  | _ :: t => hasDoubleSlash t
  | [] => false

/-- Targets that are no files: addresses with a host, and data. -/
def isRemote (target : Text) : Bool := hasDoubleSlash target || "data:".toList.isPrefixOf target

def dataReference (mediaType : Text) (bytes : List UInt8) : Text :=
  "url(\"data:".toList ++ mediaType ++ ";base64,".toList ++ Base64.encode bytes ++ ['"', ')']

/-- The image that a reference names, with its media type. -/
def load? (volume : Volume) (directory : Path) (reference : Text) : Option (Text × List UInt8) :=
  let path : Path := ⟨target reference⟩
  if isRemote path.text then none
  else
    match mediaType? path, volume.read (directory.join path) with
    | some mediaType, .ok bytes => some (mediaType, bytes)
    | _, _ => none

/-- A reference with the image it names. Where no image can be read, it stays as it is. -/
def inlineReference (volume : Volume) (directory : Path) (reference : Text) : Text :=
  match load? volume directory reference with
  | some (mediaType, bytes) => dataReference mediaType bytes
  | none => reference

/-- A value with the images that it refers to, looked up in a directory. -/
def inlineAll (volume : Volume) (directory : Path) (value : Text) : Text :=
  Text.replace referenceLength (inlineReference volume directory) value

end Stylesheet.Image
