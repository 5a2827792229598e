import Stylesheet.Text.Commas

set_option autoImplicit false

namespace Stylesheet.Selector

/-- The branches of a selector: its parts between top-level commas, trimmed. Empty parts do not
count. -/
def branches (selector : Text) : List Text :=
  ((Text.splitCommas selector).map Text.trim).filter (!·.isEmpty)

def ofBranches (branches : List Text) : Text := [',', ' '].intercalate branches

/-- A branch inside another one. Every `&` stands for the outer branch; without an `&` the inner
branch is a descendant of the outer one. -/
def combine (outer inner : Text) : Text :=
  if inner.contains '&' then Text.replaceChar '&' outer inner else outer ++ ' ' :: inner

/-- All combinations of an outer with an inner branch, by outer branch first. -/
def product (outer inner : List Text) : List Text :=
  outer.flatMap fun o => inner.map (combine o)

def nest (outer inner : Text) : Text :=
  match branches outer with
  | [] => ofBranches (branches inner)
  | outers => ofBranches (product outers (branches inner))

end Stylesheet.Selector
