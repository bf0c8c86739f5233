/-
Faults, the ways in which running a program fails, and their messages. Every fault but a missing
entry point carries the line it is reported for.
-/
import SmallJava.Value

namespace SmallJava

/-! ## Causes -/

/-- What is wrong with an argument of a library method. -/
inductive ArgumentCause
  | notNumber (method : String) (found : Kind)
  | notText (method : String) (found : Kind)
  | notInteger (text : String)
  | notDecimal (method text : String)
  | reaction
deriving DecidableEq, Repr

/-- The cause in words. -/
def ArgumentCause.details : ArgumentCause → String
  | notNumber method found => s!"{method} expects a number, got {found.name}"
  | notText method found => s!"{method} expects a string, got {found.name}"
  | notInteger text => "\"" ++ text ++ "\" is not an integer"
  | notDecimal method text => method ++ " cannot parse \"" ++ text ++ "\""
  | reaction => "host failure"

/-- What is wrong with a stream. -/
inductive StreamCause
  | invalidEncoding | outputFull
deriving DecidableEq, Repr

/-- The cause in words. -/
def StreamCause.details : StreamCause → String
  | invalidEncoding => "stream did not contain valid UTF-8"
  | outputFull => "output limit reached"

/-! ## Faults -/

/-- Why a program stopped before its end. -/
inductive Fault
  | undefinedName (name : String) (line : Nat)
  | undefinedMember (owner name : String) (line : Nat)
  | notAccessible (kind : Kind) (name : String) (line : Nat)
  | notCallable (kind : Kind) (line : Nat)
  | notAssignable (target : String) (line : Nat)
  | argumentCount (method : String) (expected found line : Nat)
  | typeMismatch (op : Operator) (left right : Kind) (line : Nat)
  | importResolution (path segment : String) (line : Nat)
  | noEntryPoint
  | invalidArgument (cause : ArgumentCause) (line : Nat)
  | inputExhausted (line : Nat)
  | stream (cause : StreamCause) (line : Nat)
deriving DecidableEq, Repr

namespace Fault

/-- The line a fault is reported for. -/
def line? : Fault → Option Nat
  | undefinedName _ line => some line
  | undefinedMember _ _ line => some line
  | notAccessible _ _ line => some line
  | notCallable _ line => some line
  | notAssignable _ line => some line
  | argumentCount _ _ _ line => some line
  | typeMismatch _ _ _ line => some line
  | importResolution _ _ line => some line
  | noEntryPoint => none
  | invalidArgument _ line => some line
  | inputExhausted line => some line
  | stream _ line => some line

/-- The fault in words, without its line. -/
def details : Fault → String
  | undefinedName name _ => s!"Undefined name '{name}'."
  | undefinedMember owner name _ => s!"{owner} has no member '{name}'."
  | notAccessible kind name _ => s!"Cannot access member '{name}' on a {kind.name}."
  | notCallable kind _ => s!"Cannot invoke a value of kind {kind.name}."
  | notAssignable target _ => s!"Invalid assignment target '{target}'."
  | argumentCount method expected found _ =>
    s!"Method '{method}' expects {expected} argument(s), found {found}."
  | typeMismatch op left right _ =>
    s!"Type error: cannot apply '{op.sign}' to {left.name} and {right.name}."
  | importResolution path segment _ =>
    s!"Cannot import '{path}': '{segment}' does not name a package member."
  | noEntryPoint => "No class with a static 'main' method was found."
  | invalidArgument cause _ => s!"Invalid argument: {cause.details}."
  | inputExhausted _ => "No more input available."
  | stream cause _ => s!"I/O failure: {cause.details}."

/-- The fault as a message. -/
def message (f : Fault) : String :=
  match f.line? with
  | some line => s!"Error on line {line}: {f.details}"
  | none => s!"Error: {f.details}"

end Fault

end SmallJava
