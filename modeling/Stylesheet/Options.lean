import Stylesheet.Path

set_option autoImplicit false

namespace Stylesheet

structure Options where
  /-- The directory in which imports and images are looked up. -/
  directory : Path
  /-- Whether the output is compacted. -/
  minify : Bool
  deriving DecidableEq, Repr

def Options.default : Options := ⟨.ofString ".", false⟩

end Stylesheet
