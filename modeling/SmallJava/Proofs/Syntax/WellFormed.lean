/-
Well-formed programs: names are words that are no keywords, numbers are finite and not negative,
paths have a wildcard at most at their end, parameters of a method have different names, and the
start of the program stands at its end and nowhere else. Main statement: what lexical tokens are read
as is well formed (`root_wellFormed`).
-/
import SmallJava.Proofs.Grammar.Derivation
import SmallJava.Proofs.Token.Lexical

namespace SmallJava

/-! ## Expressions -/

/-- A constant that has a spelling. -/
def Literal.WellFormed : Literal → Prop
  | number x => x.Plain
  | _ => True

namespace Expr

mutual

/-- An expression with lexical names and constants. -/
def WellFormed : Expr → Prop
  | literal v _ => v.WellFormed
  | name n _ => IsName n
  | assign target value _ => target.WellFormed ∧ value.WellFormed
  | binary _ left right _ => left.WellFormed ∧ right.WellFormed
  | access parent member _ => parent.WellFormed ∧ IsName member
  | call callee arguments _ => callee.WellFormed ∧ WellFormedArguments arguments

/-- Well-formed arguments. -/
def WellFormedArguments : List Expr → Prop
  | [] => True
  | e :: es => e.WellFormed ∧ WellFormedArguments es

end

end Expr

/-! ## Statements -/

/-- A path of at least one step, with a wildcard at most at its end. -/
def WellFormedPath : List Segment → Prop
  | [] => False
  | [.name n] => IsName n
  | [.wildcard] => True
  | .name n :: path => IsName n ∧ WellFormedPath path
  | .wildcard :: _ => False

/-- A parameter with lexical names. -/
def Parameter.WellFormed (p : Parameter) : Prop := IsName p.type.name ∧ IsName p.name

/-- A signature with lexical names, those of the parameters all different. -/
structure Signature.WellFormed (s : Signature) : Prop where
  type : IsName s.returnType.name
  name : IsName s.name
  params : ∀ p ∈ s.params, p.WellFormed
  distinct : (s.params.map (·.name)).Nodup

mutual

/-- A statement that can stand in a body. -/
def Statement.WellFormed : Statement → Prop
  | .importPath path _ => WellFormedPath path
  | .declareClass n methods _ => IsName n ∧ WellFormedMethods methods
  | .expression value _ => value.WellFormed
  | .declareVariable type n value _ =>
    IsName type.name ∧ IsName n ∧ ∀ e, value = some e → e.WellFormed
  | .entry => False

/-- A well-formed method. -/
def MethodDecl.WellFormed : MethodDecl → Prop
  | .mk signature body => signature.WellFormed ∧ WellFormedBody body

/-- Well-formed methods. -/
def WellFormedMethods : List MethodDecl → Prop
  | [] => True
  | m :: ms => m.WellFormed ∧ WellFormedMethods ms

/-- Well-formed statements. -/
def WellFormedBody : List Statement → Prop
  | [] => True
  | s :: ss => s.WellFormed ∧ WellFormedBody ss

end

/-- A program of well-formed statements and its start. -/
def Program.WellFormed (p : Program) : Prop :=
  ∃ body, p.statements = body ++ [.entry] ∧ WellFormedBody body

/-! ## Trees of lexical tokens -/

namespace Derivation

/-- All tokens are lexical. -/
def Lexical (toks : List Located) : Prop := ∀ t ∈ toks, t.token.Lexical

theorem lexical_append {ts us : List Located} : Lexical (ts ++ us) ↔ Lexical ts ∧ Lexical us :=
  List.forall_mem_append

theorem lexical_cons {t : Located} {ts : List Located} :
    Lexical (t :: ts) ↔ t.token.Lexical ∧ Lexical ts := List.forall_mem_cons

mutual

theorem Expression.wellFormed {ts : List Located} {e : Expr} (hl : Lexical ts) :
    Expression ts e → e.WellFormed
  | .grouped h _ => h.wellFormed hl

theorem Groups.wellFormed {ts : List Located} {g : Grouping} (hl : Lexical ts) :
    Groups ts g → g.expr.WellFormed
  | .chain h => h.wellFormed hl
  | .operation hleft hright => by
    rename_i sign _ _ _
    obtain ⟨h1, h2⟩ := lexical_append.1 hl
    obtain ⟨-, h3⟩ := lexical_cons.1 h2
    cases sign <;> exact ⟨hleft.wellFormed h1, hright.wellFormed h3⟩

theorem Chain.wellFormed {ts : List Located} {e : Expr} (hl : Lexical ts) :
    Chain ts e → e.WellFormed
  | .primary h => h.wellFormed hl
  | .access h => by
    obtain ⟨h1, h2⟩ := lexical_append.1 hl
    exact ⟨h.wellFormed h1, (lexical_cons.1 (lexical_cons.1 h2).2).1⟩
  | .call h ha => by
    obtain ⟨h1, h2⟩ := lexical_append.1 hl
    exact ⟨h.wellFormed h1, ha.wellFormed (lexical_append.1 (lexical_cons.1 h2).2).1⟩

theorem Arguments.wellFormed {ts : List Located} {es : List Expr} (hl : Lexical ts) :
    Arguments ts es → Expr.WellFormedArguments es
  | .none => trivial
  | .some h => h.wellFormed hl

theorem ArgumentList.wellFormed {ts : List Located} {es : List Expr} (hl : Lexical ts) :
    ArgumentList ts es → Expr.WellFormedArguments es
  | .one h => ⟨h.wellFormed hl, trivial⟩
  | .more h hs => by
    obtain ⟨h1, h2⟩ := lexical_append.1 hl
    exact ⟨h.wellFormed h1, hs.wellFormed (lexical_cons.1 h2).2⟩

theorem Primary.wellFormed {ts : List Located} {e : Expr} (hl : Lexical ts) :
    Primary ts e → e.WellFormed
  | .name => (lexical_cons.1 hl).1
  | .number => (lexical_cons.1 hl).1
  | .text => trivial
  | .null => trivial
  | .construction => (lexical_cons.1 (lexical_cons.1 hl).2).1
  | .grouping h => h.wellFormed (lexical_append.1 (lexical_cons.1 hl).2).1

end

theorem TypeName.wellFormed {ts : List Located} {t : SmallJava.TypeName} (hl : Lexical ts) :
    TypeName ts t → IsName t.name
  | .intro _ => (lexical_cons.1 hl).1

theorem Path.wellFormed {ts : List Located} {path : List Segment} (hl : Lexical ts)
    (h : Path ts path) : WellFormedPath path := by
  induction h with
  | name => exact (lexical_cons.1 hl).1
  | wildcard => trivial
  | @step n l l' ts path h ih =>
    obtain ⟨h1, h2⟩ := lexical_cons.1 hl
    have hpath := ih (lexical_cons.1 h2).2
    cases path with
    | nil => exact absurd hpath id
    | cons s path => exact ⟨h1, hpath⟩

theorem Parameter.wellFormed {ts : List Located} {p : SmallJava.Parameter} (hl : Lexical ts) :
    Parameter ts p → p.WellFormed
  | .intro h => by
    obtain ⟨h1, h2⟩ := lexical_append.1 hl
    exact ⟨h.wellFormed h1, (lexical_cons.1 h2).1⟩

theorem separated_wellFormed {ts : List Located} {ps : List SmallJava.Parameter}
    (hl : Lexical ts) (h : Separated Parameter ts ps) : ∀ p ∈ ps, p.WellFormed := by
  induction h with
  | one h =>
    intro p hp
    rw [List.mem_singleton.1 hp]
    exact h.wellFormed hl
  | more h _ ih =>
    obtain ⟨h1, h2⟩ := lexical_append.1 hl
    intro p hp
    rcases List.mem_cons.1 hp with rfl | hp
    · exact h.wellFormed h1
    · exact ih (lexical_cons.1 h2).2 p hp

theorem parameters_wellFormed {ts : List Located} {ps : List SmallJava.Parameter}
    (hl : Lexical ts) : Listed Parameter ts ps → ∀ p ∈ ps, p.WellFormed
  | .none => fun _ h => absurd h List.not_mem_nil
  | .some h => separated_wellFormed hl h

theorem initializer_wellFormed {ts : List Located} {v : Option Expr} (hl : Lexical ts) :
    Initializer ts v → ∀ e, v = some e → e.WellFormed
  | .none => fun _ h => by cases h
  | .some h => fun _ he => by cases he; exact h.wellFormed (lexical_cons.1 hl).2

mutual

theorem Statement.wellFormed {ts : List Located} {s : SmallJava.Statement} (hl : Lexical ts) :
    Statement ts s → s.WellFormed
  | .importPath h => h.wellFormed (lexical_append.1 (lexical_cons.1 hl).2).1
  | .declareClass _ h => by
    obtain ⟨-, h1⟩ := lexical_cons.1 (lexical_append.1 hl).2
    obtain ⟨h2, h3⟩ := lexical_cons.1 h1
    exact ⟨h2, h.wellFormed (lexical_append.1 (lexical_cons.1 h3).2).1⟩
  | .declareVariable ht hv => by
    obtain ⟨h1, h2⟩ := lexical_append.1 hl
    obtain ⟨h3, h4⟩ := lexical_cons.1 h2
    exact ⟨ht.wellFormed h1, h3, initializer_wellFormed (lexical_append.1 h4).1 hv⟩
  | .expression h => h.wellFormed (lexical_append.1 hl).1

theorem Methods.wellFormed {ts : List Located} {ms : List MethodDecl} (hl : Lexical ts) :
    Methods ts ms → WellFormedMethods ms
  | .nil => trivial
  | .cons h hs => by
    obtain ⟨h1, h2⟩ := lexical_append.1 hl
    exact ⟨h.wellFormed h1, hs.wellFormed h2⟩

theorem Method.wellFormed {ts : List Located} {m : MethodDecl} (hl : Lexical ts) :
    Method ts m → m.WellFormed
  | .intro _ _ ht hp hd hb => by
    obtain ⟨h1, h2⟩ := lexical_append.1 (lexical_append.1 (lexical_append.1 hl).2).2
    obtain ⟨h3, h4⟩ := lexical_cons.1 h2
    obtain ⟨h5, h6⟩ := lexical_append.1 (lexical_cons.1 h4).2
    obtain ⟨h7, -⟩ := lexical_append.1 (lexical_cons.1 (lexical_cons.1 h6).2).2
    exact ⟨⟨ht.wellFormed h1, h3, parameters_wellFormed h5 hp, hd⟩, hb.wellFormed h7⟩

theorem Statements.wellFormed {ts : List Located} {ss : List SmallJava.Statement}
    (hl : Lexical ts) : Statements ts ss → WellFormedBody ss
  | .nil => trivial
  | .cons h hs => by
    obtain ⟨h1, h2⟩ := lexical_append.1 hl
    exact ⟨h.wellFormed h1, hs.wellFormed h2⟩

end

/-- The tree of lexical tokens is well formed. -/
theorem root_wellFormed {toks : List Located} {p : Program} (hl : Lexical toks) :
    Root toks p → p.WellFormed
  | .intro h => ⟨_, rfl, h.wellFormed hl⟩

end Derivation

end SmallJava
