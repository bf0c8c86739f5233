/-
Lines of a program. A function on lines is applied to every line in a tree and leaves everything else
as it is; erasing the lines makes all of them zero. Main statement: programs that differ in nothing
but their lines are written alike (`source_eq_of_erased`).
-/
import SmallJava.Syntax.Printer
import Mathlib.Tactic.Common

namespace SmallJava

variable (f : Nat → Nat)

/-! ## Expressions -/

namespace Expr

mutual

/-- The expression with a function applied to its lines. -/
def mapLines : Expr → Expr
  | literal v l => literal v (f l)
  | name n l => name n (f l)
  | assign target value l => assign target.mapLines value.mapLines (f l)
  | binary op left right l => binary op left.mapLines right.mapLines (f l)
  | access parent member l => access parent.mapLines member (f l)
  | call callee arguments l => call callee.mapLines (mapLinesOfArguments arguments) (f l)

/-- The arguments with a function applied to their lines. -/
def mapLinesOfArguments : List Expr → List Expr
  | [] => []
  | e :: es => e.mapLines :: mapLinesOfArguments es

end

theorem nested_mapLines (e : Expr) (text : String) : nested (e.mapLines f) text = nested e text := by
  cases e <;> simp only [mapLines, nested]

theorem sourceOfArguments_cons (e : Expr) {es : List Expr} (h : es ≠ []) :
    sourceOfArguments (e :: es) = nested e e.source ++ ", " ++ sourceOfArguments es := by
  cases es with
  | nil => exact absurd rfl h
  | cons e' es => rw [sourceOfArguments]; exact fun h => by cases h

mutual

theorem source_mapLines : ∀ e : Expr, (e.mapLines f).source = e.source
  | literal .. => by rw [mapLines, source, source]
  | name .. => by rw [mapLines, source, source]
  | assign target value _ => by
    rw [mapLines, source, source, nested_mapLines, source_mapLines target, source_mapLines value]
  | binary _ left right _ => by
    rw [mapLines, source, source, nested_mapLines, nested_mapLines, source_mapLines left,
      source_mapLines right]
  | access parent _ _ => by
    rw [mapLines, source, source, nested_mapLines, source_mapLines parent]
  | call callee arguments _ => by
    rw [mapLines, source, source, nested_mapLines, source_mapLines callee,
      sourceOfArguments_mapLines arguments]

theorem sourceOfArguments_mapLines : ∀ es : List Expr,
    sourceOfArguments (mapLinesOfArguments f es) = sourceOfArguments es
  | [] => rfl
  | [e] => by
    rw [mapLinesOfArguments, mapLinesOfArguments, sourceOfArguments, sourceOfArguments,
      nested_mapLines, source_mapLines e]
  | e :: e' :: es => by
    rw [mapLinesOfArguments, sourceOfArguments_cons _ (by simp [mapLinesOfArguments]),
      sourceOfArguments_cons _ (by simp), nested_mapLines, source_mapLines e,
      sourceOfArguments_mapLines (e' :: es)]

end

end Expr

/-! ## Statements -/

/-- The signature with a function applied to its line. -/
def Signature.mapLines (s : Signature) : Signature := { s with line := f s.line }

theorem Signature.source_mapLines (s : Signature) : (s.mapLines f).source = s.source := rfl

mutual

/-- The statement with a function applied to its lines. -/
def Statement.mapLines : Statement → Statement
  | .importPath path l => .importPath path (f l)
  | .declareClass n methods l => .declareClass n (mapLinesOfMethods methods) (f l)
  | .expression value l => .expression (value.mapLines f) (f l)
  | .declareVariable type n value l => .declareVariable type n (value.map (·.mapLines f)) (f l)
  | .entry => .entry

/-- The method with a function applied to its lines. -/
def MethodDecl.mapLines : MethodDecl → MethodDecl
  | .mk signature body => .mk (signature.mapLines f) (mapLinesOfBody body)

/-- The methods of a class with a function applied to their lines. -/
def mapLinesOfMethods : List MethodDecl → List MethodDecl
  | [] => []
  | m :: ms => m.mapLines :: mapLinesOfMethods ms

/-- The statements of a body with a function applied to their lines. -/
def mapLinesOfBody : List Statement → List Statement
  | [] => []
  | s :: ss => s.mapLines :: mapLinesOfBody ss

end

theorem mapLinesOfBody_eq_map (ss : List Statement) :
    mapLinesOfBody f ss = ss.map (Statement.mapLines f) := by
  induction ss with
  | nil => rfl
  | cons s ss ih => rw [mapLinesOfBody, ih, List.map_cons]

mutual

theorem Statement.source_mapLines : ∀ s : Statement, (s.mapLines f).source = s.source
  | .importPath .. => by rw [Statement.mapLines, Statement.source, Statement.source]
  | .declareClass _ methods _ => by
    rw [Statement.mapLines, Statement.source, Statement.source, sourceOfMethods_mapLines methods]
  | .expression value _ => by
    rw [Statement.mapLines, Statement.source, Statement.source, value.source_mapLines]
  | .declareVariable _ _ none _ => by
    rw [Statement.mapLines, Option.map_none, Statement.source, Statement.source]
  | .declareVariable _ _ (some value) _ => by
    rw [Statement.mapLines, Option.map_some, Statement.source, Statement.source,
      value.source_mapLines]
  | .entry => rfl

theorem MethodDecl.source_mapLines : ∀ m : MethodDecl, (m.mapLines f).source = m.source
  | .mk signature body => by
    rw [MethodDecl.mapLines, MethodDecl.source, MethodDecl.source, signature.source_mapLines,
      sourceOfBody_mapLines body]

theorem sourceOfMethods_mapLines : ∀ ms : List MethodDecl,
    sourceOfMethods (mapLinesOfMethods f ms) = sourceOfMethods ms
  | [] => rfl
  | m :: ms => by
    rw [mapLinesOfMethods, sourceOfMethods, sourceOfMethods, m.source_mapLines,
      sourceOfMethods_mapLines ms]

theorem sourceOfBody_mapLines : ∀ ss : List Statement,
    sourceOfBody (mapLinesOfBody f ss) = sourceOfBody ss
  | [] => rfl
  | s :: ss => by
    rw [mapLinesOfBody, sourceOfBody, sourceOfBody, s.source_mapLines, sourceOfBody_mapLines ss]

end

/-! ## Programs -/

/-- The program with a function applied to its lines. -/
def Program.mapLines (p : Program) : Program := ⟨mapLinesOfBody f p.statements⟩

theorem Statement.isEntry_mapLines (s : Statement) : (s.mapLines f).isEntry = s.isEntry := by
  cases s <;> rfl

theorem filter_mapLinesOfBody (ss : List Statement) :
    (mapLinesOfBody f ss).filter (!·.isEntry) = mapLinesOfBody f (ss.filter (!·.isEntry)) := by
  rw [mapLinesOfBody_eq_map, mapLinesOfBody_eq_map, List.filter_map]
  congr 2
  -- the start of the program is one with or without its lines
  funext s
  rw [Function.comp_apply, s.isEntry_mapLines]

theorem Program.source_mapLines (p : Program) : (p.mapLines f).source = p.source := by
  rw [Program.source, Program.mapLines, filter_mapLinesOfBody, sourceOfBody_mapLines, Program.source]

/-- The expression without its lines. -/
def Expr.erased (e : Expr) : Expr := e.mapLines fun _ => 0

/-- The program without its lines. -/
def Program.erased (p : Program) : Program := p.mapLines fun _ => 0

/-- What a program is written as does not depend on its lines. -/
theorem Program.source_eq_of_erased {p q : Program} (h : p.erased = q.erased) :
    p.source = q.source := by
  rw [← p.source_mapLines fun _ => 0, ← q.source_mapLines fun _ => 0]
  exact congrArg Program.source h

end SmallJava
