import Stylesheet.Compile

set_option autoImplicit false

namespace Stylesheet

structure Style where
  css : Text
  /-- When the source was written. -/
  modified : Time
  deriving DecidableEq, Repr

namespace Style

/-- The size of the output in bytes. -/
def size (style : Style) : Nat := Text.byteLength style.css

def isEmpty (style : Style) : Bool := style.css.isEmpty

end Style

/-- Styles by the components of a path. -/
structure Cache where
  entries : List (List Path.Component × Style)
  deriving DecidableEq, Repr

namespace Cache

def empty : Cache := ⟨[]⟩

def get? (cache : Cache) (path : Path) : Option Style := cache.entries.lookup path.components

def erase (cache : Cache) (path : Path) : Cache :=
  ⟨cache.entries.filter (·.1 ≠ path.components)⟩

def insert (cache : Cache) (path : Path) (style : Style) : Cache :=
  ⟨(path.components, style) :: (cache.erase path).entries⟩

/-- Whether a path has an entry that was compiled from a source written at a time. -/
def isCurrent (cache : Cache) (path : Path) (since : Time) : Bool :=
  (cache.get? path).any (·.modified = since)

/-- The entry of a path, if it was compiled from a source written at a time. -/
def current? (cache : Cache) (path : Path) (since : Time) : Option Style :=
  (cache.get? path).filter (·.modified = since)

/-- Compiles a stylesheet whose source was written at a time, and keeps the result. -/
def refresh (cache : Cache) (volume : Volume) (options : Options) (path : Path) (modified : Time) :
    Except Problem Style × Cache :=
  match compileFile volume options path with
  | .error problem => (.error problem, cache)
  | .ok css => (.ok ⟨css, modified⟩, cache.insert path ⟨css, modified⟩)

/-- The style of a stylesheet, which is compiled only if there is no entry for the time at which
it was last written. When that fails, the cache stays as it is. -/
def load (cache : Cache) (volume : Volume) (options : Options) (path : Path) :
    Except Problem Style × Cache :=
  match volume.modified path with
  | .error fault => (.error (.unreadable path fault), cache)
  | .ok modified =>
    match cache.current? path modified with
    | some style => (.ok style, cache)
    | none => cache.refresh volume options path modified

end Cache

end Stylesheet
