/-
Lines in what a run makes. Only faults and the methods of a program carry lines, and nothing that is
asked of a store depends on them: not what names mean, nor members, texts or the entry point. Main
statements: every question has the same answer when a function is applied to all lines.
-/
import SmallJava.Eval.Statement
import SmallJava.Proofs.Syntax.Lines

namespace SmallJava

variable (f : Nat → Nat)

/-! ## Faults and outcomes -/

/-- The fault with a function applied to its line. -/
def Fault.mapLine : Fault → Fault
  | undefinedName name line => undefinedName name (f line)
  | undefinedMember owner name line => undefinedMember owner name (f line)
  | notAccessible kind name line => notAccessible kind name (f line)
  | notCallable kind line => notCallable kind (f line)
  | notAssignable target line => notAssignable target (f line)
  | argumentCount method expected found line => argumentCount method expected found (f line)
  | typeMismatch op left right line => typeMismatch op left right (f line)
  | importResolution path segment line => importResolution path segment (f line)
  | noEntryPoint => noEntryPoint
  | invalidArgument cause line => invalidArgument cause (f line)
  | inputExhausted line => inputExhausted (f line)
  | stream cause line => stream cause (f line)

/-- The outcome with functions applied to its result and to the line of its fault. -/
def Outcome.mapLine {α β : Type} (g : α → β) : Outcome α → Outcome β
  | done a => done (g a)
  | fault e => fault (e.mapLine f)
  | tooDeep => tooDeep
  | stuck => stuck

/-! ## Stores -/

/-- The method with a function applied to its lines. -/
def Method.mapLines (m : Method) : Method :=
  { m with
    body := match m.body with
      | .declared line statements => .declared (f line) (mapLinesOfBody f statements)
      | .host op => .host op }

/-- The store with a function applied to the lines of its methods. -/
def Store.mapLines (s : Store) : Store := { s with methods := s.methods.map (Method.mapLines f) }

/-- The world with a function applied to the lines of its methods. -/
def World.mapLines (w : World) : World := { w with store := w.store.mapLines f }

theorem Method.isDeclared_mapLines (m : Method) : (m.mapLines f).isDeclared = m.isDeclared := by
  unfold isDeclared mapLines
  cases m.body <;> rfl

theorem Method.mapLines_of_not_isDeclared {m : Method} (h : m.isDeclared = false) :
    m.mapLines f = m := by
  obtain ⟨name, params, variadic, closure, body⟩ := m
  cases body with
  | declared line statements => cases h
  | host op => rfl

/-- A method of the program is on its line. -/
theorem Method.line_mapLines {m : Method} (h : m.isDeclared = true) :
    (m.mapLines f).line = f m.line := by
  obtain ⟨name, params, variadic, closure, body⟩ := m
  cases body with
  | declared line statements => rfl
  | host op => cases h

namespace Store

variable (s : Store)

@[simp] theorem packages_mapLines : (s.mapLines f).packages = s.packages := rfl

@[simp] theorem classes_mapLines : (s.mapLines f).classes = s.classes := rfl

@[simp] theorem instances_mapLines : (s.mapLines f).instances = s.instances := rfl

@[simp] theorem parent?_mapLines (scope : ScopeId) :
    (s.mapLines f).parent? scope = s.parent? scope := rfl

@[simp] theorem local?_mapLines (scope : ScopeId) (name : String) :
    (s.mapLines f).local? scope name = s.local? scope name := rfl

@[simp] theorem localNames_mapLines (scope : ScopeId) :
    (s.mapLines f).localNames scope = s.localNames scope := rfl

theorem methods_mapLines (id : MethodId) :
    (s.mapLines f).methods[id.index]? = s.methods[id.index]?.map (Method.mapLines f) :=
  Array.getElem?_map

/-! ## Names -/

@[simp] theorem chainUpTo_mapLines (bound : Nat) (scope : ScopeId) :
    (s.mapLines f).chainUpTo bound scope = s.chainUpTo bound scope := by
  induction bound generalizing scope with
  | zero => rfl
  | succ bound ih =>
    rw [chainUpTo, chainUpTo, parent?_mapLines]
    cases s.parent? scope with
    | none => rfl
    | some p => exact congrArg (scope :: ·) (ih p)

@[simp] theorem get?_mapLines (scope : ScopeId) (name : String) :
    (s.mapLines f).get? scope name = s.get? scope name := by
  simp only [get?, chain, chainUpTo_mapLines, local?_mapLines]

@[simp] theorem allNames_mapLines (scope : ScopeId) :
    (s.mapLines f).allNames scope = s.allNames scope := by
  have : (s.mapLines f).localNames = s.localNames := rfl
  simp only [allNames, chain, chainUpTo_mapLines, this]

theorem visible_mapLines (scope : ScopeId) :
    (s.mapLines f).visible scope = s.visible scope := by
  simp only [visible, allNames_mapLines, get?_mapLines]

theorem follow_mapLines (path : List Segment) (scope : ScopeId) :
    (s.mapLines f).follow scope path = s.follow scope path := by
  induction path generalizing scope with
  | nil => rfl
  | cons segment rest ih =>
    cases segment with
    | wildcard => exact congrArg Except.ok (visible_mapLines f s scope)
    | name n =>
      have (v : Value) : (s.mapLines f).membersOf? v = s.membersOf? v := rfl
      simp only [follow, get?_mapLines, ih, this]

/-! ## Values -/

theorem methodName_mapLines (id : MethodId) :
    (s.mapLines f).methodName id = s.methodName id := by
  unfold methodName
  rw [methods_mapLines, Option.map_map]
  rfl

theorem text_mapLines (v : Value) : (s.mapLines f).text v = s.text v := by
  cases v with
  | method id => exact congrArg ("method " ++ ·) (methodName_mapLines f s id)
  | _ => rfl

theorem foundMember_mapLines (owner : Value) (name : String) (line : Nat) (v : Option Value) :
    (s.mapLines f).foundMember owner name (f line) v =
      (s.foundMember owner name line v).mapLine f id := by
  cases v with
  | none => simp only [foundMember, text_mapLines, Outcome.mapLine, Fault.mapLine]
  | some v => rfl

theorem member_mapLines (owner : Value) (name : String) (line : Nat) :
    (s.mapLines f).member owner name (f line) = (s.member owner name line).mapLine f id := by
  cases owner with
  | package id =>
    simp only [member, packages_mapLines]
    cases s.packages[id.index]? with
    | none => rfl
    | some p => simp only [get?_mapLines, foundMember_mapLines]
  | ofClass id =>
    simp only [member, classes_mapLines]
    cases s.classes[id.index]? with
    | none => rfl
    | some c => simp only [foundMember_mapLines]
  | object id =>
    simp only [member, instances_mapLines, classes_mapLines]
    cases s.instances[id.index]? with
    | none => rfl
    | some i =>
      dsimp only
      cases s.classes[i.index]? with
      | none => rfl
      | some c => simp only [foundMember_mapLines]
  | _ => rfl

theorem apply?_mapLines (op : Operator) (left right : Value) :
    Operator.apply? op (s.mapLines f) left right = Operator.apply? op s left right := by
  cases left <;> cases right <;> simp only [text_mapLines, Operator.apply?]

/-! ## Entry points -/

theorem entryMethod?_mapLines (id : ClassId) :
    (s.mapLines f).entryMethod? id = s.entryMethod? id := by
  simp only [entryMethod?, classes_mapLines, methods_mapLines, Option.map_map, Function.comp_def,
    Method.isDeclared_mapLines]

theorem entryPoint?_mapLines (scope : ScopeId) :
    (s.mapLines f).entryPoint? scope = s.entryPoint? scope := by
  have : (s.mapLines f).entryOf? = s.entryOf? := by
    funext v
    cases v with
    | ofClass id => exact entryMethod?_mapLines f s id
    | _ => rfl
  simp only [entryPoint?, localNames_mapLines, get?_mapLines, this]

variable {s}

/-- What starts a program is a method of the program. -/
theorem isDeclared_of_entryPoint? {scope : ScopeId} {id : MethodId}
    (h : s.entryPoint? scope = some id) :
    ∃ m, s.methods[id.index]? = some m ∧ m.isDeclared = true := by
  obtain ⟨c, hc⟩ := exists_entryMethod? h
  obtain ⟨-, m, -, -, hm, hd⟩ := entryMethod?_eq_some.1 hc
  exact ⟨m, hm, hd⟩

/-! ## Making and binding -/

variable (s)

theorem bindAll_mapLines (scope : ScopeId) (bindings : List (String × Value)) :
    (s.mapLines f).bindAll scope bindings = (s.bindAll scope bindings).mapLines f := by
  induction bindings generalizing s with
  | nil => rfl
  | cons b bindings ih => exact ih (s.bind scope b.1 b.2)

theorem newDeclared_mapLines (scope : ScopeId) (m : MethodDecl) :
    (s.mapLines f).newDeclared scope (m.mapLines f) =
      ((s.newDeclared scope m).1, (s.newDeclared scope m).2.mapLines f) := by
  cases m
  simp [newDeclared, newMethod, mapLines, MethodDecl.mapLines, Method.mapLines, Signature.mapLines,
    MethodDecl.signature, MethodDecl.body]

theorem newMembers_mapLines (scope : ScopeId) (ms : List MethodDecl) (statics members : Table Value) :
    newMembers scope (mapLinesOfMethods f ms) statics members (s.mapLines f) =
      ((newMembers scope ms statics members s).1,
        (newMembers scope ms statics members s).2.mapLines f) := by
  induction ms generalizing statics members s with
  | nil => rfl
  | cons m ms ih =>
    have hs : (m.mapLines f).signature.isStatic = m.signature.isStatic := by cases m; rfl
    have hn : (m.mapLines f).signature.name = m.signature.name := by cases m; rfl
    simp only [mapLinesOfMethods, newMembers, newDeclared_mapLines, hs, hn, ih]
    split <;> rfl

theorem newUserClass_mapLines (scope : ScopeId) (name : String) (ms : List MethodDecl) :
    (s.mapLines f).newUserClass scope name (mapLinesOfMethods f ms) =
      ((s.newUserClass scope name ms).1, (s.newUserClass scope name ms).2.mapLines f) := by
  unfold newUserClass
  rw [newMembers_mapLines]
  rfl

end Store

end SmallJava
