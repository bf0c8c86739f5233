/-
The library every program starts with: the package `java` with its packages `lang` and `util`. The
members of `java.lang` are also bound in the global scope itself.
-/
import SmallJava.Store.Basic

namespace SmallJava.Library

/-! ## Methods and classes -/

/-- Makes a method of the library. -/
def method (closure : ScopeId) (name : String) (params : List String) (op : HostOp)
    (variadic : Bool) : StateM Store (String × Value) := do
  let id ← Store.newMethod ⟨name, params, variadic, closure, .host op⟩
  return (name, .method id)

/-- Makes a class of the library with static members. -/
def staticClass (name : String) (statics : List (String × Value)) :
    StateM Store (String × Value) := do
  let id ← Store.newClass ⟨name, .host, .ofList statics, .empty⟩
  return (name, .ofClass id)

/-- Makes the only instance of a class that is bound nowhere. -/
def stream (name className : String) (members : List (String × Value)) :
    StateM Store (String × Value) := do
  let id ← Store.newClass ⟨className, .host, .empty, .ofList members⟩
  return (name, .object (← Store.newInstance id))

/-! ## Packages -/

/-- The classes of `java.lang`. -/
def lang (closure : ScopeId) : StateM Store (List (String × Value)) := do
  let printLines ← method closure "println" [] .printLines true
  let print ← method closure "print" ["value"] .print false
  let out ← stream "out" "PrintStream" [printLines, print]
  let input ← stream "in" "InputStream" []
  let system ← staticClass "System" [out, input]
  let functions ← [.abs, .sqrt, .floor, .ceil, .round].mapM fun f : NumberFunction =>
    method closure f.name ["a"] (.function f) false
  let operations ← [.pow, .max, .min].mapM fun f : NumberOperation =>
    method closure f.name ["a", "b"] (.operation f) false
  let math ← staticClass "Math" (functions ++ operations)
  let parseInteger ← method closure "parseInt" ["s"] .parseInteger false
  let integer ← staticClass "Integer" [parseInteger]
  let parseDecimal ← method closure "parseDouble" ["s"] .parseDecimal false
  let double ← staticClass "Double" [parseDecimal]
  return [system, math, integer, double]

/-- The classes of `java.util`. -/
def util (closure : ScopeId) : StateM Store (List (String × Value)) := do
  let nextLine ← method closure "nextLine" [] .nextLine false
  let nextWord ← method closure "next" [] .nextWord false
  let nextInteger ← method closure "nextInt" [] .nextInteger false
  let nextDecimal ← method closure "nextDouble" [] .nextDecimal false
  let members := [nextLine, nextWord, nextInteger, nextDecimal]
  let scanner ← Store.newClass ⟨"Scanner", .host, .empty, .ofList members⟩
  return [("Scanner", .ofClass scanner)]

/-- Makes the whole library and gives what it binds in the global scope. -/
def build : StateM Store (List (String × Value)) := do
  let closure ← Store.newScope .empty none
  let lang ← lang closure
  let langPackage ← Store.newPackage "lang" (.ofList lang)
  let util ← util closure
  let utilPackage ← Store.newPackage "util" (.ofList util)
  let java ← Store.newPackage "java"
    (.ofList [("lang", .package langPackage), ("util", .package utilPackage)])
  return ("java", .package java) :: lang

/-- The store a program starts with. -/
def store : Store :=
  let (bindings, s) := build Store.initial
  bindings.foldl (fun s b => s.bind Store.globals b.1 b.2) s

end SmallJava.Library
