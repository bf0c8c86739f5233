/-
Parts of a program: its names, constants, expressions, statements and methods at every depth, those
of classes inside methods included. Main statement: the parts of a program that was read from a text
are lawful (`lawful_of_ofSource`).
-/
import SmallJava.Proofs.Parser.RoundTrip

namespace SmallJava

/-! ## Parts -/

/-- A part of a program. -/
inductive Program.Part
  | name (n : String)
  | literal (v : Literal)
  | expression (e : Expr)
  | statement (s : Statement)
  | method (m : MethodDecl)

/-- Whether a part is the start of the program. -/
def Program.Part.isEntry : Program.Part → Bool
  | statement s => s.isEntry
  | _ => false

namespace Expr

mutual

/-- The parts of an expression, itself among them. -/
def parts : Expr → List Program.Part
  | literal v l => [.expression (literal v l), .literal v]
  | name n l => [.expression (name n l), .name n]
  | assign target value l => .expression (assign target value l) :: (target.parts ++ value.parts)
  | binary op left right l => .expression (binary op left right l) :: (left.parts ++ right.parts)
  | access parent member l =>
    .expression (access parent member l) :: (parent.parts ++ [.name member])
  | call callee arguments l =>
    .expression (call callee arguments l) :: (callee.parts ++ partsOfArguments arguments)

/-- The parts of the arguments of a call. -/
def partsOfArguments : List Expr → List Program.Part
  | [] => []
  | e :: es => e.parts ++ partsOfArguments es

end

end Expr

/-- The name in a step of a path, if there is one. -/
def Segment.parts : Segment → List Program.Part
  | name n => [.name n]
  | wildcard => []

/-- The names in a parameter. -/
def Parameter.parts (p : Parameter) : List Program.Part := [.name p.type.name, .name p.name]

/-- The names in a signature. -/
def Signature.parts (s : Signature) : List Program.Part :=
  .name s.returnType.name :: .name s.name :: s.params.flatMap (·.parts)

mutual

/-- The parts of a statement, itself among them. -/
def Statement.parts : Statement → List Program.Part
  | .importPath path l => .statement (.importPath path l) :: path.flatMap (·.parts)
  | .declareClass n methods l =>
    .statement (.declareClass n methods l) :: .name n :: partsOfMethods methods
  | .expression value l => .statement (.expression value l) :: value.parts
  | .declareVariable type n value l =>
    .statement (.declareVariable type n value l) :: .name type.name :: .name n ::
      (value.map (·.parts)).getD []
  | .entry => [.statement .entry]

/-- The parts of a method, itself among them. -/
def MethodDecl.parts : MethodDecl → List Program.Part
  | .mk signature body => .method (.mk signature body) :: (signature.parts ++ partsOfBody body)

/-- The parts of the methods of a class. -/
def partsOfMethods : List MethodDecl → List Program.Part
  | [] => []
  | m :: ms => m.parts ++ partsOfMethods ms

/-- The parts of the statements of a body. -/
def partsOfBody : List Statement → List Program.Part
  | [] => []
  | s :: ss => s.parts ++ partsOfBody ss

end

/-- The parts of a program. -/
def Program.parts (p : Program) : List Program.Part := partsOfBody p.statements

theorem partsOfBody_append (ss ss' : List Statement) :
    partsOfBody (ss ++ ss') = partsOfBody ss ++ partsOfBody ss' := by
  induction ss with
  | nil => rfl
  | cons s ss ih => rw [List.cons_append, partsOfBody, partsOfBody, ih, List.append_assoc]

/-! ## Lawful parts -/

/-- What the parts of a body satisfy. -/
def Program.Part.Lawful : Program.Part → Prop
  | name n => IsName n
  | literal v => v.WellFormed
  | statement (.importPath path _) => ∃ front last, path = front ++ [last] ∧ .wildcard ∉ front
  | statement .entry => False
  | method m => (m.signature.params.map (·.name)).Nodup
  | _ => True

theorem Program.Part.Lawful.not_isEntry {part : Program.Part} (h : part.Lawful) :
    part.isEntry = false := by
  cases part with
  | statement s =>
    cases s with
    | entry => exact h.elim
    | _ => rfl
  | _ => rfl

theorem exists_last_of_wellFormedPath : ∀ {path : List Segment}, WellFormedPath path →
    ∃ front last, path = front ++ [last] ∧ .wildcard ∉ front
  | [s], _ => ⟨[], s, rfl, List.not_mem_nil⟩
  | .name n :: s :: path, h => by
    obtain ⟨front, last, hpath, hfront⟩ := exists_last_of_wellFormedPath h.2
    refine ⟨.name n :: front, last, by rw [hpath, List.cons_append], ?_⟩
    simp [hfront]

theorem names_of_wellFormedPath : ∀ {path : List Segment}, WellFormedPath path →
    ∀ part ∈ path.flatMap (·.parts), part.Lawful
  | [.name n], h => by
    have hn : IsName n := h
    simpa [Segment.parts, Program.Part.Lawful] using hn
  | [.wildcard], _ => by simp [Segment.parts]
  | .name n :: s :: path, h => by
    rw [List.flatMap_cons, List.forall_mem_append]
    constructor
    · simpa [Segment.parts, Program.Part.Lawful] using h.1
    · exact names_of_wellFormedPath h.2

theorem Signature.WellFormed.lawful {s : Signature} (h : s.WellFormed) :
    ∀ part ∈ s.parts, part.Lawful := by
  simp only [Signature.parts, List.forall_mem_cons]
  refine ⟨h.type, h.name, fun part hpart => ?_⟩
  obtain ⟨p, hp, hpart⟩ := List.mem_flatMap.1 hpart
  obtain ⟨htype, hname⟩ := h.params p hp
  simp only [Parameter.parts, List.mem_cons, List.not_mem_nil, or_false] at hpart
  rcases hpart with rfl | rfl
  · exact htype
  · exact hname

mutual

theorem Expr.WellFormed.lawful : ∀ {e : Expr}, e.WellFormed → ∀ part ∈ e.parts, part.Lawful
  | .literal v l, h => by
    rw [Expr.parts, List.forall_mem_cons, List.forall_mem_singleton]
    exact ⟨trivial, h⟩
  | .name n l, h => by
    rw [Expr.parts, List.forall_mem_cons, List.forall_mem_singleton]
    exact ⟨trivial, h⟩
  | .assign target value l, h => by
    rw [Expr.parts, List.forall_mem_cons, List.forall_mem_append]
    exact ⟨trivial, Expr.WellFormed.lawful h.1, Expr.WellFormed.lawful h.2⟩
  | .binary op left right l, h => by
    rw [Expr.parts, List.forall_mem_cons, List.forall_mem_append]
    exact ⟨trivial, Expr.WellFormed.lawful h.1, Expr.WellFormed.lawful h.2⟩
  | .access parent member l, h => by
    rw [Expr.parts, List.forall_mem_cons, List.forall_mem_append, List.forall_mem_singleton]
    exact ⟨trivial, Expr.WellFormed.lawful h.1, h.2⟩
  | .call callee arguments l, h => by
    rw [Expr.parts, List.forall_mem_cons, List.forall_mem_append]
    exact ⟨trivial, Expr.WellFormed.lawful h.1, lawful_of_wellFormedArguments h.2⟩

theorem lawful_of_wellFormedArguments : ∀ {es : List Expr}, Expr.WellFormedArguments es →
    ∀ part ∈ Expr.partsOfArguments es, part.Lawful
  | [], _ => by simp [Expr.partsOfArguments]
  | e :: es, h => by
    rw [Expr.partsOfArguments, List.forall_mem_append]
    exact ⟨Expr.WellFormed.lawful h.1, lawful_of_wellFormedArguments h.2⟩

end

mutual

theorem Statement.WellFormed.lawful : ∀ {s : Statement}, s.WellFormed →
    ∀ part ∈ s.parts, part.Lawful
  | .importPath path l, h => by
    rw [Statement.parts, List.forall_mem_cons]
    exact ⟨exists_last_of_wellFormedPath h, names_of_wellFormedPath h⟩
  | .declareClass n methods l, h => by
    rw [Statement.parts, List.forall_mem_cons, List.forall_mem_cons]
    exact ⟨trivial, h.1, lawful_of_wellFormedMethods h.2⟩
  | .expression value l, h => by
    rw [Statement.parts, List.forall_mem_cons]
    exact ⟨trivial, Expr.WellFormed.lawful h⟩
  | .declareVariable type n none l, h => by
    simp only [Statement.parts, List.forall_mem_cons, Option.map_none, Option.getD_none]
    exact ⟨trivial, h.1, h.2.1, by simp⟩
  | .declareVariable type n (some e) l, h => by
    simp only [Statement.parts, List.forall_mem_cons, Option.map_some, Option.getD_some]
    exact ⟨trivial, h.1, h.2.1, Expr.WellFormed.lawful (h.2.2 e rfl)⟩

theorem MethodDecl.WellFormed.lawful : ∀ {m : MethodDecl}, m.WellFormed →
    ∀ part ∈ m.parts, part.Lawful
  | .mk signature body, h => by
    rw [MethodDecl.parts, List.forall_mem_cons, List.forall_mem_append]
    exact ⟨h.1.distinct, h.1.lawful, lawful_of_wellFormedBody h.2⟩

theorem lawful_of_wellFormedMethods : ∀ {ms : List MethodDecl}, WellFormedMethods ms →
    ∀ part ∈ partsOfMethods ms, part.Lawful
  | [], _ => by simp [partsOfMethods]
  | m :: ms, h => by
    rw [partsOfMethods, List.forall_mem_append]
    exact ⟨MethodDecl.WellFormed.lawful h.1, lawful_of_wellFormedMethods h.2⟩

theorem lawful_of_wellFormedBody : ∀ {ss : List Statement}, WellFormedBody ss →
    ∀ part ∈ partsOfBody ss, part.Lawful
  | [], _ => by simp [partsOfBody]
  | s :: ss, h => by
    rw [partsOfBody, List.forall_mem_append]
    exact ⟨Statement.WellFormed.lawful h.1, lawful_of_wellFormedBody h.2⟩

end

/-! ## Programs -/

/-- What the parts of a program that was read satisfy, at every depth. -/
structure Program.Lawful (p : Program) : Prop where
  /-- The parameters of a method have different names. -/
  distinct : ∀ m, .method m ∈ p.parts → (m.signature.params.map (·.name)).Nodup
  /-- A path is not empty, and only its last step may be a wildcard. -/
  path : ∀ path l, .statement (.importPath path l) ∈ p.parts →
    ∃ front last, path = front ++ [last] ∧ .wildcard ∉ front
  /-- A constant is a text, null or a finite number without a minus sign. -/
  constant : ∀ v, .literal v ∈ p.parts →
    (∃ s, v = .text s) ∨ v = .null ∨ ∃ units h, v = .number (.finite false units h)
  /-- A name is a word that is no keyword. -/
  name : ∀ n, .name n ∈ p.parts → IsName n
  /-- The start of the program stands nowhere but at its end. -/
  entry : p.parts.countP Program.Part.isEntry = 1 ∧ p.statements.getLast? = some .entry

theorem Literal.WellFormed.cases {v : Literal} (h : v.WellFormed) :
    (∃ s, v = .text s) ∨ v = .null ∨ ∃ units h, v = .number (.finite false units h) := by
  cases v with
  | text s => exact .inl ⟨s, rfl⟩
  | null => exact .inr (.inl rfl)
  | number x =>
    obtain ⟨units, hu, rfl⟩ := h
    exact .inr (.inr ⟨units, hu, rfl⟩)

/-- The parts of a well-formed program are those of a body and its start. -/
theorem Program.WellFormed.parts {p : Program} (h : p.WellFormed) :
    ∃ body : List Program.Part, p.parts = body ++ [.statement .entry] ∧
      ∀ part ∈ body, part.Lawful := by
  obtain ⟨body, hbody, hwf⟩ := h
  refine ⟨partsOfBody body, ?_, lawful_of_wellFormedBody hwf⟩
  rw [Program.parts, hbody, partsOfBody_append]
  rfl

/-- The parts of a program that was read from a text are lawful. -/
theorem lawful_of_ofSource {source : String} {p : Program} (h : Program.ofSource source = .ok p) :
    p.Lawful := by
  have hwf := Program.wellFormed_of_ofSource h
  obtain ⟨body, hparts, hlawful⟩ := hwf.parts
  -- a part that is not the start is one of the body
  have hbody : ∀ part ∈ p.parts, part ≠ .statement .entry → part.Lawful := by
    intro part hpart hne
    rw [hparts, List.mem_append, List.mem_singleton] at hpart
    exact hlawful part (hpart.resolve_right hne)
  constructor
  case distinct =>
    intro m hm
    exact hbody _ hm (by simp)
  case path =>
    intro path l hpath
    exact hbody _ hpath (by simp)
  case constant =>
    intro v hv
    have hv' : v.WellFormed := hbody _ hv (by simp)
    exact hv'.cases
  case name =>
    intro n hn
    exact hbody _ hn (by simp)
  case entry =>
    constructor
    · have hcount : body.countP Program.Part.isEntry = 0 := by
        rw [List.countP_eq_zero]
        intro part hpart
        simp [(hlawful part hpart).not_isEntry]
      rw [hparts, List.countP_append, hcount]
      rfl
    · obtain ⟨statements, hstatements, -⟩ := hwf
      rw [hstatements, List.getLast?_concat]

theorem lawful_of_ofSource_nested :
    ∃ p, Program.ofSource
        "import a.*; class A { void f(int x, A y) { class B { void g(B b) { b.x = 2.5; } } } }" =
          .ok p ∧
      (p.parts.countP fun part => part matches .method _) = 2 ∧ p.Lawful := by
  have h : (Program.ofSource
      "import a.*; class A { void f(int x, A y) { class B { void g(B b) { b.x = 2.5; } } } }"
        ).toOption.map (fun p => p.parts.countP fun part => part matches .method _) = some 2 := by
    decide +kernel
  cases hp : Program.ofSource
    "import a.*; class A { void f(int x, A y) { class B { void g(B b) { b.x = 2.5; } } } }" with
  | error e => rw [hp] at h; cases h
  | ok p =>
    rw [hp] at h
    exact ⟨p, rfl, Option.some.inj h, lawful_of_ofSource hp⟩

end SmallJava
