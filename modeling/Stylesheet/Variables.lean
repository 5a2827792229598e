import Stylesheet.Problem
import Stylesheet.Reference

set_option autoImplicit false

namespace Stylesheet

/-- Variables and their values, latest first. A name includes its dollar sign. -/
structure Variables where
  bindings : List (Text × Text)
  deriving DecidableEq, Repr

namespace Variables

def empty : Variables := ⟨[]⟩

def set (vars : Variables) (name value : Text) : Variables := ⟨(name, value) :: vars.bindings⟩

def get? (vars : Variables) (name : Text) : Option Text := vars.bindings.lookup name

def resolve (vars : Variables) (line : Nat) (name : Text) : Except Problem Text :=
  match vars.get? name with
  | some value => .ok value
  | none => .error (.undeclaredVariable name line)

def substitute (vars : Variables) (line : Nat) (text : Text) : Except Problem Text :=
  Reference.resolve (vars.resolve line) text

end Variables

end Stylesheet
