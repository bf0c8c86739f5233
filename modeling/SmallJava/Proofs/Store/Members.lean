/-
The members of declared classes. A class gives the last of its static methods with a name, an
instance the last of the others, and under one name, if no method has it, the class it was made
from. Main statement: `Declared.dividesMembers`, for every store that holds the class.
-/
import SmallJava.Proofs.Store.Declared

namespace SmallJava

/-! ## The last method of a name -/

/-- The method has the name, and is static or is not. -/
def MethodDecl.Named (isStatic : Bool) (n : String) (m : MethodDecl) : Prop :=
  m.signature.isStatic = isStatic ∧ m.signature.name = n

instance (isStatic : Bool) (n : String) (m : MethodDecl) : Decidable (m.Named isStatic n) :=
  inferInstanceAs (Decidable (_ ∧ _))

/-- The method stands at the place, and none like it with the same name stands after it. -/
structure LastNamed (isStatic : Bool) (n : String) (ms : List MethodDecl) (k : Nat)
    (m : MethodDecl) : Prop where
  place : ms[k]? = some m
  named : m.Named isStatic n
  last : ∀ j later, k < j → ms[j]? = some later → ¬ later.Named isStatic n

variable {isStatic : Bool} {n name : String} {ms : List MethodDecl} {k first : Nat}
  {m decl : MethodDecl}

/-- What is last among later methods is last among all. -/
theorem LastNamed.cons (h : LastNamed isStatic n ms k m) (decl : MethodDecl) :
    LastNamed isStatic n (decl :: ms) (k + 1) m where
  place := h.place
  named := h.named
  last j later hj hlater := by
    obtain ⟨j, rfl⟩ : ∃ i, j = i + 1 := ⟨j - 1, by omega⟩
    exact h.last j later (by omega) hlater

/-- A method is the last if no later one has the name. -/
theorem lastNamed_head (h : m.Named isStatic n) (hms : ∀ later ∈ ms, ¬ later.Named isStatic n) :
    LastNamed isStatic n (m :: ms) 0 m where
  place := rfl
  named := h
  last j later hj hlater := by
    obtain ⟨j, rfl⟩ : ∃ i, j = i + 1 := ⟨j - 1, by omega⟩
    exact hms later (List.mem_of_getElem? hlater)

/-- There is one last method of a name. -/
theorem LastNamed.unique {j : Nat} (h : LastNamed isStatic n ms k m)
    (h' : LastNamed isStatic n ms j decl) : k = j ∧ m = decl := by
  obtain hlt | rfl | hlt := Nat.lt_trichotomy k j
  · exact absurd h'.named (h.last j decl hlt h'.place)
  · exact ⟨rfl, Option.some.inj (h.place.symm.trans h'.place)⟩
  · exact absurd h.named (h'.last k m hlt h.place)

/-! ## Tables -/

/-- The table that static methods go into, or the one for the others. -/
def memberTable (isStatic : Bool) (tables : Table Value × Table Value) : Table Value :=
  if isStatic then tables.1 else tables.2

/-- The first method goes into its table under its name. -/
theorem exists_memberTables_cons (first : Nat) (m : MethodDecl) (ms : List MethodDecl)
    (statics members : Table Value) : ∃ statics' members',
      memberTables first (m :: ms) statics members = memberTables (first + 1) ms statics' members' ∧
      ∀ isStatic n, (memberTable isStatic (statics', members')).get? n =
        if m.Named isStatic n then some (.method ⟨first⟩)
        else (memberTable isStatic (statics, members)).get? n := by
  simp only [memberTables]
  cases hm : m.signature.isStatic with
  | true =>
    refine ⟨_, _, rfl, fun isStatic n => ?_⟩
    cases isStatic <;> simp [memberTable, MethodDecl.Named, hm, Table.get?_insert]
  | false =>
    refine ⟨_, _, rfl, fun isStatic n => ?_⟩
    cases isStatic <;> simp [memberTable, MethodDecl.Named, hm, Table.get?_insert]

/-- A table holds the last method of a name, or what it held before if there is none. -/
theorem get?_memberTables (isStatic : Bool) (n : String) (ms : List MethodDecl) (first : Nat)
    (statics members : Table Value) :
    (∃ k m, LastNamed isStatic n ms k m ∧
      (memberTable isStatic (memberTables first ms statics members)).get? n =
        some (.method ⟨first + k⟩)) ∨
    (∀ m ∈ ms, ¬ m.Named isStatic n) ∧
      (memberTable isStatic (memberTables first ms statics members)).get? n =
        (memberTable isStatic (statics, members)).get? n := by
  induction ms generalizing first statics members with
  | nil => exact Or.inr ⟨(fun _ h => by cases h), rfl⟩
  | cons m ms ih =>
    obtain ⟨statics', members', hcons, hget⟩ :=
      exists_memberTables_cons first m ms statics members
    rw [hcons]
    rcases ih (first + 1) statics' members' with ⟨k, last, hlast, hk⟩ | ⟨hnone, hold⟩
    · refine Or.inl ⟨k + 1, last, hlast.cons m, ?_⟩
      rw [hk, Nat.add_assoc, Nat.add_comm 1 k]
    · rw [hold, hget]
      by_cases hm : m.Named isStatic n
      · exact Or.inl ⟨0, m, lastNamed_head hm hnone, if_pos hm⟩
      · exact Or.inr ⟨List.forall_mem_cons.2 ⟨hm, hnone⟩, if_neg hm⟩

/-- A class of the program holds the last method of a name, or nothing under that name. -/
theorem get?_classOf (isStatic : Bool) (n name : String) (first : Nat) (ms : List MethodDecl) :
    (∃ k m, LastNamed isStatic n ms k m ∧
      (memberTable isStatic ((classOf name first ms).statics, (classOf name first ms).members)).get? n =
        some (.method ⟨first + k⟩)) ∨
    (∀ m ∈ ms, ¬ m.Named isStatic n) ∧
      (memberTable isStatic ((classOf name first ms).statics, (classOf name first ms).members)).get? n =
        none := by
  have h := get?_memberTables isStatic n ms first .empty .empty
  have hempty : (memberTable isStatic ((.empty : Table Value), .empty)).get? n = none := by
    cases isStatic <;> rfl
  rwa [hempty] at h

namespace Store

variable {s t u : Store} {scope : ScopeId} {c : ClassId}

/-! ## What remains -/

/-- The classes, instances and methods of the first store are those the second starts with. -/
structure Remains (s t : Store) : Prop where
  classes : s.classes.toList <+: t.classes.toList
  instances : s.instances.toList <+: t.instances.toList
  methods : s.methods.toList <+: t.methods.toList

theorem Remains.refl (s : Store) : s.Remains s :=
  ⟨List.prefix_rfl, List.prefix_rfl, List.prefix_rfl⟩

theorem Remains.trans (h₁ : s.Remains t) (h₂ : t.Remains u) : s.Remains u :=
  ⟨h₁.classes.trans h₂.classes, h₁.instances.trans h₂.instances, h₁.methods.trans h₂.methods⟩

theorem Keeps.remains {writable : Option ScopeId} {names : List String}
    (h : s.Keeps writable names t) : s.Remains t :=
  ⟨h.classes, h.instances, h.methods⟩

theorem Declared.remains (h : s.Declared scope name ms c first) (hr : s.Remains t) :
    t.Declared scope name ms c first :=
  ⟨getElem?_of_isPrefix hr.classes h.class_, fun hm => getElem?_of_isPrefix hr.methods (h.methods hm)⟩

/-! ## Reading members -/

/-- How reading divides the methods of a declared class between it and its instances. -/
structure DividesMembers (s : Store) (scope : ScopeId) (name : String) (ms : List MethodDecl)
    (c : ClassId) (first : Nat) : Prop where
  /-- Every declaration has made a method of its own, which closes over the scope. -/
  methods : ∀ k m, ms[k]? = some m → s.methods[first + k]? = some (m.method scope)
  /-- The class gives the last static method of a name. -/
  static : ∀ n line, (∃ m ∈ ms, m.Named true n) → ∃ k m, LastNamed true n ms k m ∧
    s.member (.ofClass c) n line = .done (.method ⟨first + k⟩)
  /-- Where no static method has the name, the class has no such member. -/
  noStatic : ∀ n line, (∀ m ∈ ms, ¬ m.Named true n) →
    s.member (.ofClass c) n line = .fault (.undefinedMember ("class " ++ name) n line)
  /-- An instance gives the last method of a name that is not static. -/
  ofInstance : ∀ (o : InstanceId), s.instances[o.index]? = some c → ∀ n line,
    (∃ m ∈ ms, m.Named false n) → ∃ k m, LastNamed false n ms k m ∧
      s.member (.object o) n line = .done (.method ⟨first + k⟩)
  /-- Where no such method has the reserved name, an instance gives its class under it. -/
  itsClass : ∀ (o : InstanceId), s.instances[o.index]? = some c → ∀ line,
    (∀ m ∈ ms, ¬ m.Named false "__class__") →
      s.member (.object o) "__class__" line = .done (.ofClass c)
  /-- Under any other name an instance has no member. -/
  noMember : ∀ (o : InstanceId), s.instances[o.index]? = some c → ∀ n line,
    (∀ m ∈ ms, ¬ m.Named false n) → n ≠ "__class__" →
      s.member (.object o) n line = .fault (.undefinedMember (name ++ " instance") n line)

theorem Declared.member_class (h : s.Declared scope name ms c first) (n : String) (line : Nat) :
    s.member (.ofClass c) n line = s.foundMember (.ofClass c) n line
      ((memberTable true ((classOf name first ms).statics, (classOf name first ms).members)).get? n) := by
  simp only [member, h.class_]
  rfl

theorem Declared.member_object (h : s.Declared scope name ms c first) {o : InstanceId}
    (ho : s.instances[o.index]? = some c) (n : String) (line : Nat) :
    s.member (.object o) n line =
      s.foundMember (.object o) n line (instanceMember? c (classOf name first ms) n) := by
  simp only [member, ho, h.class_]

theorem Declared.text_class (h : s.Declared scope name ms c first) :
    s.text (.ofClass c) = "class " ++ name := by
  simp [text, className, h.class_, classOf]

theorem Declared.text_object (h : s.Declared scope name ms c first) {o : InstanceId}
    (ho : s.instances[o.index]? = some c) : s.text (.object o) = name ++ " instance" := by
  simp [text, instanceClassName, className, ho, h.class_, classOf]

/-- What an instance has under a name: the last method of that name, or its class, or nothing. -/
theorem instanceMember?_classOf (c : ClassId) (n name : String) (first : Nat)
    (ms : List MethodDecl) :
    (∃ k m, LastNamed false n ms k m ∧
      instanceMember? c (classOf name first ms) n = some (.method ⟨first + k⟩)) ∨
    (∀ m ∈ ms, ¬ m.Named false n) ∧
      instanceMember? c (classOf name first ms) n =
        if n = "__class__" then some (.ofClass c) else none := by
  have horigin : (classOf name first ms).origin = .user := rfl
  rcases get?_classOf false n name first ms with ⟨k, m, hlast, hget⟩ | ⟨hnone, hget⟩
  · have hget : (classOf name first ms).members.get? n = some (.method ⟨first + k⟩) := hget
    exact Or.inl ⟨k, m, hlast, by rw [instanceMember?, hget]⟩
  · have hget : (classOf name first ms).members.get? n = none := hget
    refine Or.inr ⟨hnone, ?_⟩
    simp [instanceMember?, hget, horigin, Store.classMember]

/-- In every store that holds a declared class, reading divides its methods. -/
theorem Declared.dividesMembers (h : s.Declared scope name ms c first) :
    s.DividesMembers scope name ms c first where
  methods _ _ hm := h.methods hm
  static n line hn := by
    rw [h.member_class]
    rcases get?_classOf true n name first ms with ⟨k, m, hlast, hget⟩ | ⟨hnone, -⟩
    · exact ⟨k, m, hlast, by rw [hget]; rfl⟩
    · obtain ⟨m, hm, hnamed⟩ := hn
      exact absurd hnamed (hnone m hm)
  noStatic n line hn := by
    rw [h.member_class, ← h.text_class]
    rcases get?_classOf true n name first ms with ⟨k, m, hlast, -⟩ | ⟨-, hget⟩
    · exact absurd hlast.named (hn m (List.mem_of_getElem? hlast.place))
    · rw [hget]
      rfl
  ofInstance o ho n line hn := by
    rw [h.member_object ho]
    rcases instanceMember?_classOf c n name first ms with ⟨k, m, hlast, hget⟩ | ⟨hnone, -⟩
    · exact ⟨k, m, hlast, by rw [hget]; rfl⟩
    · obtain ⟨m, hm, hnamed⟩ := hn
      exact absurd hnamed (hnone m hm)
  itsClass o ho line hn := by
    rw [h.member_object ho]
    rcases instanceMember?_classOf c "__class__" name first ms with ⟨k, m, hlast, -⟩ | ⟨-, hget⟩
    · exact absurd hlast.named (hn m (List.mem_of_getElem? hlast.place))
    · rw [hget, if_pos rfl]
      rfl
  noMember o ho n line hn hne := by
    rw [h.member_object ho, ← h.text_object ho]
    rcases instanceMember?_classOf c n name first ms with ⟨k, m, hlast, -⟩ | ⟨-, hget⟩
    · exact absurd hlast.named (hn m (List.mem_of_getElem? hlast.place))
    · rw [hget, if_neg hne]
      rfl

end Store

end SmallJava
