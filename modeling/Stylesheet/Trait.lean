import Stylesheet.Call
import Stylesheet.Variables

set_option autoImplicit false

namespace Stylesheet

structure Declaration where
  key : Text
  value : Text
  deriving DecidableEq, Repr

structure Trait where
  name : Text
  /-- The names of the parameters, without a dollar sign. -/
  params : List Text
  body : List Declaration
  /-- The directory in which the images of the body are looked up. -/
  directory : Path
  deriving DecidableEq, Repr

namespace Trait

/-- Reads the parameters of a trait from its header. Dollar signs in front of a name do not count,
and empty names are dropped. -/
def paramsOf (call : Call) : List Text :=
  (call.argumentList.map fun param => param.dropWhile (· = '$')).filter (!·.isEmpty)

/-- The position of the parameter that a placeholder stands for. -/
def position? (definition : Trait) (placeholder : Text) : Option Nat :=
  let name := match placeholder with
    | '$' :: name => name
    | name => name
  definition.params.idxOf? name

/-- What a placeholder in the body means: its argument, else the variable of that name, else, for
a parameter that was given no argument, itself. -/
def resolve (definition : Trait) (arguments : List Text) (vars : Variables) (line : Nat)
    (placeholder : Text) : Except Problem Text :=
  let param := definition.position? placeholder
  match param.bind (arguments[·]?) with
  | some argument => .ok argument
  | none =>
    match vars.get? placeholder with
    | some value => .ok value
    | none =>
      if param.isSome then .ok placeholder else .error (.undeclaredVariable placeholder line)

def instantiate (definition : Trait) (arguments : List Text) (vars : Variables) (line : Nat) :
    Except Problem (List Declaration) :=
  definition.body.mapM fun declaration => do
    let value ← Reference.resolve (definition.resolve arguments vars line) declaration.value
    return { declaration with value }

end Trait

/-- Traits, latest first. -/
structure Traits where
  definitions : List Trait
  deriving DecidableEq, Repr

namespace Traits

def empty : Traits := ⟨[]⟩

def define (traits : Traits) (definition : Trait) : Traits := ⟨definition :: traits.definitions⟩

def get? (traits : Traits) (name : Text) : Option Trait :=
  traits.definitions.find? (·.name = name)

end Traits

end Stylesheet
