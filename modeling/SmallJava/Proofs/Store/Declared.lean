/-
What declaring a class does to a store: which methods it makes, where they are, and what the class
holds. Main statements: `Like.declare`, alike stores stay alike when the same class is declared in
both, and `Like.declare_swapped`, also when two classes of different names are declared in opposite
orders.
-/
import SmallJava.Proofs.Store.Alike

namespace SmallJava

/-! ## Methods and tables -/

/-- The method that a declaration in a scope makes. -/
def MethodDecl.method (scope : ScopeId) (m : MethodDecl) : Method :=
  { name := m.signature.name
    params := m.signature.params.map (·.name)
    variadic := false
    closure := scope
    body := .declared m.signature.line m.body }

/-- The tables that methods go into which are stored one after another, the first one at the given
place. -/
def memberTables (first : Nat) : List MethodDecl → Table Value → Table Value →
    Table Value × Table Value
  | [], statics, members => (statics, members)
  | m :: ms, statics, members =>
    let name := m.signature.name
    if m.signature.isStatic then
      memberTables (first + 1) ms (statics.insert name (.method ⟨first⟩)) members
    else memberTables (first + 1) ms statics (members.insert name (.method ⟨first⟩))

/-- The class of the program with the given methods. -/
def classOf (name : String) (first : Nat) (ms : List MethodDecl) : Class :=
  ⟨name, .user, (memberTables first ms .empty .empty).1, (memberTables first ms .empty .empty).2⟩

variable {π : Pairing} {ms ns : List MethodDecl}

/-- Methods of reordered classes differ at most in the order of the classes that they declare. -/
theorem ReorderedIn.getElem? (h : ReorderedIn ms ns) (scope : ScopeId) {k : Nat} {m : MethodDecl}
    (hm : ms[k]? = some m) : ∃ n, ns[k]? = some n ∧ (m.method scope).Like (n.method scope) := by
  induction ms generalizing ns k with
  | nil => cases hm
  | cons first ms ih =>
    cases h with
    | cons signature hbody hrest =>
      cases k with
      | zero =>
        cases hm
        exact ⟨_, rfl, rfl, rfl, rfl, rfl, .declared _ hbody⟩
      | succ k => exact ih hrest hm

/-- Methods at places that stand for each other make alike tables. -/
theorem like_memberTables {first second : Nat} {statics statics' members members' : Table Value}
    (hr : ReorderedIn ms ns)
    (hp : ∀ k < ms.length, π.methods ⟨first + k⟩ ⟨second + k⟩)
    (hs : statics.Like π statics') (hm : members.Like π members') :
    (memberTables first ms statics members).1.Like π (memberTables second ns statics' members').1 ∧
      (memberTables first ms statics members).2.Like π
        (memberTables second ns statics' members').2 := by
  induction ms generalizing ns first second statics statics' members members' with
  | nil =>
    cases hr
    exact ⟨hs, hm⟩
  | cons m ms ih =>
    cases hr with
    | cons signature hbody hrest =>
      have hfirst : Value.Like π (.method ⟨first⟩) (.method ⟨second⟩) :=
        .method (hp 0 (Nat.zero_lt_succ _))
      have hothers : ∀ k < ms.length, π.methods ⟨first + 1 + k⟩ ⟨second + 1 + k⟩ := by
        intro k hk
        have := hp (k + 1) (Nat.succ_lt_succ hk)
        rwa [Nat.add_comm k 1, ← Nat.add_assoc, ← Nat.add_assoc] at this
      simp only [memberTables, MethodDecl.signature]
      by_cases hstatic : signature.isStatic = true
      · simp only [hstatic, if_true]
        exact ih hrest hothers (hs.insert hfirst _) hm
      · simp only [hstatic]
        exact ih hrest hothers hs (hm.insert hfirst _)

theorem like_classOf (name : String) {first second : Nat} (hr : ReorderedIn ms ns)
    (hp : ∀ k < ms.length, π.methods ⟨first + k⟩ ⟨second + k⟩) :
    (classOf name first ms).Like π (classOf name second ns) :=
  have h := like_memberTables hr hp Table.like_empty Table.like_empty
  ⟨rfl, rfl, h.1, h.2⟩

/-- The pairing with one more pair of classes, and pairs of the methods from two places on. -/
def Pairing.twin (π : Pairing) (c d : ClassId) (first second count : Nat) : Pairing where
  classes x y := π.classes x y ∨ x = c ∧ y = d
  methods m n := π.methods m n ∨ ∃ k < count, m = ⟨first + k⟩ ∧ n = ⟨second + k⟩

theorem Pairing.extends_twin (π : Pairing) (c d : ClassId) (first second count : Nat) :
    π.Extends (π.twin c d first second count) :=
  ⟨Or.inl, Or.inl⟩

namespace Store

variable {s t u : Store} {scope : ScopeId} {name other : String}
  {ms' ns' : List MethodDecl}

theorem newMembers_eq (scope : ScopeId) (ms : List MethodDecl) (statics members : Table Value)
    (s : Store) : newMembers scope ms statics members s =
      (memberTables s.methods.size ms statics members,
        { s with methods := s.methods ++ (ms.map (·.method scope)).toArray }) := by
  induction ms generalizing statics members s with
  | nil => simp [newMembers, memberTables]
  | cons m ms ih =>
    have hmethods : s.methods.push (m.method scope) ++ (ms.map (·.method scope)).toArray =
        s.methods ++ ((m :: ms).map (·.method scope)).toArray := by
      rw [← Array.toList_inj]
      simp
    have hnew : s.newDeclared scope m =
        (⟨s.methods.size⟩, { s with methods := s.methods.push (m.method scope) }) := rfl
    simp only [newMembers, memberTables, hnew]
    split
    · rw [ih, ← hmethods, Array.size_push]
    · rw [ih, ← hmethods, Array.size_push]

theorem newUserClass_eq (scope : ScopeId) (name : String) (ms : List MethodDecl) (s : Store) :
    s.newUserClass scope name ms = (⟨s.classes.size⟩,
      { s with
        methods := s.methods ++ (ms.map (·.method scope)).toArray
        classes := s.classes.push (classOf name s.methods.size ms) }) := by
  simp only [newUserClass, newMembers_eq]
  rfl

/-! ## Growing -/

/-- The second store has more classes and methods than the first, and nothing else is different. -/
structure Grows (s t : Store) : Prop where
  scopes : t.scopes = s.scopes
  packages : t.packages = s.packages
  instances : t.instances = s.instances
  classes : ∀ {i : Nat} {c : Class}, s.classes[i]? = some c → t.classes[i]? = some c
  methods : ∀ {i : Nat} {m : Method}, s.methods[i]? = some m → t.methods[i]? = some m

theorem Grows.trans (h₁ : s.Grows t) (h₂ : t.Grows u) : s.Grows u where
  scopes := h₂.scopes.trans h₁.scopes
  packages := h₂.packages.trans h₁.packages
  instances := h₂.instances.trans h₁.instances
  classes h := h₂.classes (h₁.classes h)
  methods h := h₂.methods (h₁.methods h)

theorem grows_newUserClass (scope : ScopeId) (name : String) (ms : List MethodDecl) (s : Store) :
    s.Grows (s.newUserClass scope name ms).2 := by
  rw [newUserClass_eq]
  refine ⟨rfl, rfl, rfl, fun {i c} h => ?_, fun {i m} h => ?_⟩
  · have hi := (Array.getElem?_eq_some_iff.1 h).1
    rw [Array.getElem?_push, if_neg (Nat.ne_of_lt hi)]
    exact h
  · have hi := (Array.getElem?_eq_some_iff.1 h).1
    rw [Array.getElem?_append, if_pos hi]
    exact h

/-- Classes and methods that stand for nothing make no difference. -/
theorem Like.grow {s' t' : Store} (h : s.Like π t) (hs : s.Grows s') (ht : t.Grows t') :
    s'.Like π t' where
  size := by rw [hs.scopes, ht.scopes, h.size]
  parents i := by simpa only [parent?, hs.scopes, ht.scopes] using h.parents i
  locals i name := by simpa only [local?, hs.scopes, ht.scopes] using h.locals i name
  packages := by rw [hs.packages, ht.packages, h.packages]
  count := by rw [hs.instances, ht.instances, h.count]
  instances i := by rw [hs.instances, ht.instances]; exact h.instances i
  classes hc := by
    obtain ⟨x, y, hx, hy, hxy⟩ := h.classes hc
    exact ⟨x, y, hs.classes hx, ht.classes hy, hxy⟩
  methods hm := by
    obtain ⟨x, y, hx, hy, hxy⟩ := h.methods hm
    exact ⟨x, y, hs.methods hx, ht.methods hy, hxy⟩

/-! ## Twins -/

/-- The store holds a declared class, and its methods from the given place on. -/
structure Declared (s : Store) (scope : ScopeId) (name : String) (ms : List MethodDecl)
    (c : ClassId) (first : Nat) : Prop where
  class_ : s.classes[c.index]? = some (classOf name first ms)
  methods : ∀ {k : Nat} {m : MethodDecl}, ms[k]? = some m →
    s.methods[first + k]? = some (m.method scope)

theorem Declared.mono {c : ClassId} {first : Nat} (h : s.Declared scope name ms c first)
    (hg : s.Grows t) : t.Declared scope name ms c first :=
  ⟨hg.classes h.class_, fun hm => hg.methods (h.methods hm)⟩

theorem declared_newUserClass (scope : ScopeId) (name : String) (ms : List MethodDecl) (s : Store) :
    (s.newUserClass scope name ms).2.Declared scope name ms (s.newUserClass scope name ms).1
      s.methods.size := by
  rw [newUserClass_eq]
  refine ⟨by simp, fun {k m} hm => ?_⟩
  simp [Array.getElem?_append, hm]

/-- A class declared twice with methods in different orders of classes, once in each store, may stand
for itself. -/
theorem Like.twin (h : s.Like π t) {c d : ClassId} {first second : Nat} (hr : ReorderedIn ms ns)
    (hs : s.Declared scope name ms c first) (ht : t.Declared scope name ns d second) :
    s.Like (π.twin c d first second ms.length) t where
  size := h.size
  parents := h.parents
  locals i n := rel_mono (h.locals i n) fun _ _ hv => hv.mono (π.extends_twin c d first second _)
  packages := h.packages
  count := h.count
  instances i := rel_mono (h.instances i) fun _ _ => Or.inl
  classes {x y} hxy := by
    rcases hxy with hxy | ⟨rfl, rfl⟩
    · obtain ⟨p, q, hp, hq, hpq⟩ := h.classes hxy
      exact ⟨p, q, hp, hq, hpq.mono (π.extends_twin c d first second _)⟩
    · refine ⟨_, _, hs.class_, ht.class_, like_classOf name hr fun k hk => ?_⟩
      exact Or.inr ⟨k, hk, rfl, rfl⟩
  methods {m n} hmn := by
    rcases hmn with hmn | ⟨k, hk, rfl, rfl⟩
    · exact h.methods hmn
    · have hm := List.getElem?_eq_getElem hk
      obtain ⟨n, hn, hlike⟩ := hr.getElem? scope hm
      exact ⟨_, _, hs.methods hm, ht.methods hn, hlike⟩

/-! ## Declaring -/

/-- Makes a class in a scope and binds its name there. -/
def declare (scope : ScopeId) (name : String) (ms : List MethodDecl) (s : Store) : Store :=
  (s.newUserClass scope name ms).2.bind scope name (.ofClass (s.newUserClass scope name ms).1)

/-- Classes are made in the same way whatever names are bound. -/
theorem newUserClass_bind (scope i : ScopeId) (name other : String) (v : Value)
    (ms : List MethodDecl) (s : Store) : (s.bind i other v).newUserClass scope name ms =
      ((s.newUserClass scope name ms).1, (s.newUserClass scope name ms).2.bind i other v) := by
  simp only [newUserClass_eq]
  rfl

theorem Like.declare (h : s.Like π t) (scope : ScopeId) (name : String) (hr : ReorderedIn ms ns) :
    ∃ ρ, π.Extends ρ ∧ (s.declare scope name ms).Like ρ (t.declare scope name ns) := by
  have hgrown := h.grow (s.grows_newUserClass scope name ms) (t.grows_newUserClass scope name ns)
  have hs := s.declared_newUserClass scope name ms
  have ht := t.declared_newUserClass scope name ns
  refine ⟨_, π.extends_twin _ _ _ _ _, (hgrown.twin hr hs ht).bind (.ofClass ?_) scope name⟩
  exact Or.inr ⟨rfl, rfl⟩

/-- Two classes declared in opposite orders: each stands for itself. -/
theorem Like.declare_swapped (h : s.Like π t) (scope : ScopeId) (hne : name ≠ other)
    (hr : ReorderedIn ms ms') (hr' : ReorderedIn ns ns') : ∃ ρ, π.Extends ρ ∧
      ((s.declare scope name ms).declare scope other ns).Like ρ
        ((t.declare scope other ns').declare scope name ms') := by
  have hs₁ := s.grows_newUserClass scope name ms
  have hs₂ := (s.newUserClass scope name ms).2.grows_newUserClass scope other ns
  have ht₁ := t.grows_newUserClass scope other ns'
  have ht₂ := (t.newUserClass scope other ns').2.grows_newUserClass scope name ms'
  have hgrown := h.grow (hs₁.trans hs₂) (ht₁.trans ht₂)
  have hfirst := hgrown.twin hr ((s.declared_newUserClass scope name ms).mono hs₂)
    ((t.newUserClass scope other ns').2.declared_newUserClass scope name ms')
  have hsecond := hfirst.twin hr'
    ((s.newUserClass scope name ms).2.declared_newUserClass scope other ns)
    ((t.declared_newUserClass scope other ns').mono ht₂)
  have hlike := hsecond.bind_swapped hne (.ofClass (Or.inl (Or.inr ⟨rfl, rfl⟩)))
    (.ofClass (Or.inr ⟨rfl, rfl⟩)) scope
  rw [Store.declare, Store.declare, Store.declare, Store.declare, newUserClass_bind,
    newUserClass_bind]
  exact ⟨_, (Pairing.extends_twin _ _ _ _ _ _).trans (Pairing.extends_twin _ _ _ _ _ _), hlike⟩

end Store

/-- A declaration makes the class and binds its name. -/
theorem Statement.run_declareClass (call : Caller) (scope : ScopeId) (name : String)
    (ms : List MethodDecl) (line : Nat) :
    (declareClass name ms line).run call scope =
      Action.make fun s => ((), s.declare scope name ms) := rfl

end SmallJava
