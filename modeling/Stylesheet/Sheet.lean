import Stylesheet.Image
import Stylesheet.Problem

set_option autoImplicit false

namespace Stylesheet

structure Sheet where
  /-- Its path without links, `.` and `..`. -/
  path : Path
  source : Text
  deriving DecidableEq, Repr

namespace Sheet

/-- The directory in which the imports and images of a stylesheet are looked up. -/
def directory (sheet : Sheet) : Path := sheet.path.directory

/-- Reads a stylesheet that is named from outside. -/
def read (volume : Volume) (path : Path) : Except Problem Sheet :=
  match volume.canonical path with
  | .error fault => .error (.unreadable path fault)
  | .ok canonical =>
    match volume.readText canonical with
    | .error fault => .error (.unreadable path fault)
    | .ok source => .ok ⟨canonical, source⟩

/-- Reads a stylesheet that another one imports. It may not be among those that are being imported
already. -/
def readImport (volume : Volume) (chain : List Path) (directory target : Path) (line : Nat) :
    Except Problem Sheet :=
  let path := directory.join target
  match volume.canonical path with
  | .error fault => .error (.unreadableImport path line fault)
  | .ok canonical =>
    if canonical ∈ chain then .error (.recursiveImport canonical line)
    else
      match volume.readText canonical with
      | .error fault => .error (.unreadableImport path line fault)
      | .ok source => .ok ⟨canonical, source⟩

end Sheet

inductive ImportSource where
  /-- An address, left for whoever reads the output. -/
  | address (url : Text)
  | file (path : Path)
  deriving DecidableEq, Repr

def ImportSource.ofText (params : Text) : ImportSource :=
  let params := Text.trim params
  if "url".toList.isPrefixOf params then .address params else .file ⟨Image.unquote params⟩

end Stylesheet
