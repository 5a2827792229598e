import Stylesheet.Fault
import Stylesheet.Path
import Stylesheet.Token.Scan

set_option autoImplicit false

namespace Stylesheet

inductive Problem where
  | scan (error : ScanError)
  /-- A token that may not stand where it does. -/
  | unexpectedToken (token : Token)
  /-- The header of a trait does not start with a name. -/
  | unnamedTrait (header : Text) (line : Nat)
  | undeclaredVariable (name : Text) (line : Nat)
  | emptyVariable (name : Text) (line : Nat)
  | undeclaredMixin (name : Text) (line : Nat)
  | unreadableImport (path : Path) (line : Nat) (fault : Fault)
  | recursiveImport (path : Path) (line : Nat)
  | unclosedBlock (line : Nat)
  | unreadable (path : Path) (fault : Fault)
  deriving DecidableEq, Repr

namespace Problem

def line : Problem → Option Nat
  | scan error => some error.line
  | unexpectedToken token => some token.line
  | unnamedTrait _ line | undeclaredVariable _ line | emptyVariable _ line
  | undeclaredMixin _ line | unreadableImport _ line _ | recursiveImport _ line
  | unclosedBlock line => some line
  | unreadable _ _ => none

def message : Problem → String
  | scan error => error.message
  | unexpectedToken token =>
    s!"unexpected token {String.ofList token.describe} on line {token.line}"
  | unnamedTrait header line =>
    s!"unexpected token trait header `{String.ofList header}` on line {line}"
  | undeclaredVariable name line => s!"undeclared variable {String.ofList name} on line {line}"
  | emptyVariable name line =>
    s!"variable {String.ofList name} declared without a value on line {line}"
  | undeclaredMixin name line => s!"undeclared mixin {String.ofList name} on line {line}"
  | unreadableImport path line fault =>
    s!"failed to import '{path.render}' on line {line}: {fault.message}"
  | recursiveImport path line => s!"recursive import of '{path.render}' on line {line}"
  | unclosedBlock line => s!"block opened on line {line} is never closed"
  | unreadable path fault => s!"failed to read stylesheet '{path.render}': {fault.message}"

end Problem

end Stylesheet
