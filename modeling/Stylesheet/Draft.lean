import Stylesheet.Layout

set_option autoImplicit false

namespace Stylesheet

/-- Where something is printed: inside the rule with a selector, or inside none, and at which
depth blocks stand there. -/
structure Place where
  selector : Option Text
  depth : Nat
  deriving DecidableEq, Repr

namespace Place

/-- The depth of what is not a block. -/
def lineDepth (place : Place) : Nat :=
  if place.selector.isSome then place.depth + 1 else place.depth

def insideRule (place : Place) (selector : Text) : Place :=
  let inner := Text.collapse selector
  match place.selector with
  | none => ⟨some inner, place.depth⟩
  | some outer => ⟨some (Selector.nest outer inner), place.depth⟩

def insideAtRule (place : Place) : Place := { place with depth := place.depth + 1 }

end Place

/-- The text of a block that is being written: what stands in the block itself, and the blocks that
are printed below it. A rule inside a rule is printed below the outer rule, at the same depth and
with the combined selector. An at-rule keeps its contents inside, and inside a rule it repeats the
selector around its declarations. -/
structure Draft where
  place : Place
  /-- What stands in the block itself. -/
  body : Text
  /-- The blocks that are printed below it. -/
  below : Text
  deriving DecidableEq, Repr

namespace Draft

def start (place : Place) : Draft := ⟨place, [], []⟩

/-- Adds a piece that is not a block. -/
def write (draft : Draft) (text : Text) : Draft := { draft with body := draft.body ++ text }

/-- Adds a finished block. Inside a rule it comes below. -/
def writeBlock (draft : Draft) (text : Text) : Draft :=
  if draft.place.selector.isSome then { draft with below := draft.below ++ text }
  else draft.write text

end Draft

inductive Heading where
  | rule
  | atRule (header : Text)
  deriving DecidableEq, Repr

def Draft.render (draft : Draft) : Heading → Text
  | .rule =>
    Layout.block (draft.place.selector.getD []) draft.body draft.place.depth ++ draft.below
  | .atRule header =>
    let content := match draft.place.selector with
      | none => draft.body
      | some selector =>
        if Text.trim draft.body = [] then draft.below
        else Layout.block selector draft.body draft.place.depth ++ draft.below
    Layout.atBlock header content (draft.place.depth - 1)

end Stylesheet
