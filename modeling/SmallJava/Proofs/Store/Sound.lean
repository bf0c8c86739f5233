/-
Sound stores. Scopes are ordered by when they were made and every way outward ends, while values may
refer to anything there is; a store that extends another has all that the other has. Main
statements: `Sound.of_extends`, what is new decides whether a store that extends a sound one is
sound, and `Nested.outward`, the chain of a scope is its whole way outward.
-/
import SmallJava.Proofs.Eval.Isolation

namespace SmallJava.Store

/-! ## What a store has -/

/-- What the value refers to is in the store. -/
def Has (s : Store) : Value → Prop
  | .package id => id.index < s.packages.size
  | .ofClass id => id.index < s.classes.size
  | .object id => id.index < s.instances.size
  | .method id => id.index < s.methods.size
  | .text _ | .number _ | .null => True

/-- What all values in the table refer to is in the store. -/
def HasAll (s : Store) (t : Table Value) : Prop := ∀ e ∈ t.entries, s.Has e.2

/-- The way outward from the scope ends in the global scope. -/
inductive Inner (s : Store) : ScopeId → Prop
  | globals : s.Inner globals
  | inside {i p : ScopeId} : s.parent? i = some p → s.Inner p → s.Inner i

/-- Every scope was made after the one around it. -/
def Nested (s : Store) : Prop := ∀ i p, s.parent? i = some p → p.index < i.index

/-- The scopes from a scope outward, up to one that is in no other. -/
inductive Outward (s : Store) : ScopeId → List ScopeId → Prop
  | last {i : ScopeId} : s.parent? i = none → s.Outward i [i]
  | inside {i p : ScopeId} {path : List ScopeId} : s.parent? i = some p → s.Outward p path →
      s.Outward i (i :: path)

/-- Scopes are in scopes that were made before them and lead to the global one, methods of the
program are declared in scopes that lead to the global one, and everything refers only to what is in
the store. -/
structure Sound (s : Store) : Prop where
  globals : globals.index < s.scopes.size ∧ s.parent? globals = none
  older : ∀ i p, s.parent? i = some p → p.index < i.index
  inner : ∀ i p, s.parent? i = some p → s.Inner p
  bindings : ∀ sc ∈ s.scopes, s.HasAll sc.bindings
  packages : ∀ p ∈ s.packages, p.members.index < s.scopes.size
  statics : ∀ c ∈ s.classes, s.HasAll c.statics
  members : ∀ c ∈ s.classes, s.HasAll c.members
  instances : ∀ c ∈ s.instances, c.index < s.classes.size
  closures : ∀ m ∈ s.methods, m.closure.index < s.scopes.size
  declared : ∀ m ∈ s.methods, m.isDeclared = true → s.Inner m.closure

/-- The store has all that another has: the same scopes in the same scopes, and what is bound there
still is. -/
structure Extends (s t : Store) : Prop where
  size : s.scopes.size ≤ t.scopes.size
  parents : ∀ i : ScopeId, i.index < s.scopes.size → t.parent? i = s.parent? i
  bound : ∀ (i : ScopeId) (name : String), (s.local? i name).isSome → (t.local? i name).isSome
  packages : s.packages.toList <+: t.packages.toList
  classes : s.classes.toList <+: t.classes.toList
  instances : s.instances.toList <+: t.instances.toList
  methods : s.methods.toList <+: t.methods.toList

variable {s t u : Store} {i p scope : ScopeId} {name : String} {v : Value}

/-! ## Extending -/

theorem Extends.refl (s : Store) : s.Extends s :=
  ⟨Nat.le_refl _, fun _ _ => rfl, fun _ _ h => h, List.prefix_rfl, List.prefix_rfl,
    List.prefix_rfl, List.prefix_rfl⟩

theorem Extends.trans (h₁ : s.Extends t) (h₂ : t.Extends u) : s.Extends u where
  size := Nat.le_trans h₁.size h₂.size
  parents i hi := by rw [h₂.parents i (by have := h₁.size; omega), h₁.parents i hi]
  bound i name h := h₂.bound i name (h₁.bound i name h)
  packages := h₁.packages.trans h₂.packages
  classes := h₁.classes.trans h₂.classes
  instances := h₁.instances.trans h₂.instances
  methods := h₁.methods.trans h₂.methods

theorem size_le_of_isPrefix {α : Type} {a b : Array α} (h : a.toList <+: b.toList) :
    a.size ≤ b.size := by
  simpa using h.length_le

theorem Has.mono (h : s.Has v) (he : s.Extends t) : t.Has v := by
  cases v with
  | package id => exact Nat.lt_of_lt_of_le h (size_le_of_isPrefix he.packages)
  | ofClass id => exact Nat.lt_of_lt_of_le h (size_le_of_isPrefix he.classes)
  | object id => exact Nat.lt_of_lt_of_le h (size_le_of_isPrefix he.instances)
  | method id => exact Nat.lt_of_lt_of_le h (size_le_of_isPrefix he.methods)
  | _ => trivial

theorem lt_of_parent? (h : s.parent? i = some p) : i.index < s.scopes.size := by
  obtain ⟨sc, hsc, -⟩ := Option.bind_eq_some_iff.1 h
  exact (Array.getElem?_eq_some_iff.1 hsc).1

theorem Inner.mono (h : s.Inner i) (he : s.Extends t) : t.Inner i := by
  induction h with
  | globals => exact .globals
  | inside hp _ ih => exact .inside ((he.parents _ (lt_of_parent? hp)).trans hp) ih

/-- What changes nothing but adds to the store extends it. -/
theorem Keeps.extends (h : s.Keeps none [] t) (hs : globals.index < s.scopes.size) :
    s.Extends t where
  size := h.size
  parents := h.parents
  bound i name hi := by
    by_cases hg : i = globals
    · subst hg
      rwa [h.imports hs (by simp) name (by simp)]
    · have hlt : i.index < s.scopes.size := by
        obtain ⟨v, hv⟩ := Option.isSome_iff_exists.1 hi
        obtain ⟨sc, hsc, -⟩ := Option.bind_eq_some_iff.1 hv
        exact (Array.getElem?_eq_some_iff.1 hsc).1
      rwa [local?, h.scopes i hlt (by simp) hg]
  packages := h.packages
  classes := h.classes
  instances := h.instances
  methods := h.methods

/-! ## Tables -/

theorem HasAll.mono {table : Table Value} (h : s.HasAll table) (he : s.Extends t) :
    t.HasAll table := fun e hmem => (h e hmem).mono he

theorem hasAll_empty (s : Store) : s.HasAll .empty := fun _ h => by cases h

theorem HasAll.insert {table : Table Value} (h : s.HasAll table) (hv : s.Has v) (name : String) :
    s.HasAll (table.insert name v) := by
  intro e hmem
  rcases mem_insertEntry hmem with rfl | hmem
  · exact hv
  · exact h e hmem

theorem hasAll_ofList {entries : List (String × Value)} (h : ∀ e ∈ entries, s.Has e.2) :
    s.HasAll (.ofList entries) := by
  have hfold : ∀ (entries : List (String × Value)) (table : Table Value),
      (∀ e ∈ entries, s.Has e.2) → s.HasAll table →
        s.HasAll (entries.foldl (fun t e => t.insert e.1 e.2) table) := by
    intro entries
    induction entries with
    | nil => exact fun _ _ htable => htable
    | cons e entries ih =>
      intro table hentries htable
      exact ih _ (fun d hd => hentries d (List.mem_cons_of_mem e hd))
        (htable.insert (hentries e List.mem_cons_self) e.1)
  exact hfold entries .empty h (hasAll_empty s)

theorem HasAll.get? {table : Table Value} (h : s.HasAll table) (hv : table.get? name = some v) :
    s.Has v := by
  have hmem : ∀ entries : List (String × Value), lookupEntry name entries = some v →
      (name, v) ∈ entries := by
    intro entries
    induction entries with
    | nil => exact fun h => by cases h
    | cons e entries ih =>
      intro h
      rw [lookupEntry] at h
      split at h
      · rename_i hname
        cases h
        subst hname
        exact List.mem_cons_self
      · exact List.mem_cons_of_mem e (ih h)
  exact h (name, v) (hmem table.entries hv)

/-! ## What is new -/

/-- A store that extends a sound one is sound if what is new in it is. -/
theorem Sound.of_extends (h : s.Sound) (he : s.Extends t)
    (scopes : ∀ i p, s.scopes.size ≤ i.index → t.parent? i = some p →
      p.index < i.index ∧ t.Inner p)
    (bindings : ∀ sc ∈ t.scopes, t.HasAll sc.bindings)
    (packages : ∀ p ∈ t.packages, p ∈ s.packages)
    (classes : ∀ c ∈ t.classes, c ∈ s.classes ∨ t.HasAll c.statics ∧ t.HasAll c.members)
    (instances : ∀ c ∈ t.instances, c ∈ s.instances ∨ c.index < t.classes.size)
    (methods : ∀ m ∈ t.methods, m ∈ s.methods ∨ t.Inner m.closure ∧ m.closure.index < t.scopes.size) :
    t.Sound := by
  have hold {i p : ScopeId} (hp : t.parent? i = some p) :
      s.scopes.size ≤ i.index ∨ s.parent? i = some p := by
    by_cases hi : i.index < s.scopes.size
    · exact Or.inr ((he.parents i hi).symm.trans hp)
    · exact Or.inl (Nat.le_of_not_lt hi)
  refine ⟨⟨?_, ?_⟩, fun i p hp => ?_, fun i p hp => ?_, bindings, fun p hp => ?_, fun c hc => ?_,
    fun c hc => ?_, fun c hc => ?_, fun m hm => ?_, fun m hm hd => ?_⟩
  · exact Nat.lt_of_lt_of_le h.globals.1 he.size
  · rw [he.parents _ h.globals.1, h.globals.2]
  · rcases hold hp with hi | hp'
    · exact (scopes i p hi hp).1
    · exact h.older i p hp'
  · rcases hold hp with hi | hp'
    · exact (scopes i p hi hp).2
    · exact (h.inner i p hp').mono he
  · exact Nat.lt_of_lt_of_le (h.packages p (packages p hp)) he.size
  · rcases classes c hc with hc | hc
    · exact (h.statics c hc).mono he
    · exact hc.1
  · rcases classes c hc with hc | hc
    · exact (h.members c hc).mono he
    · exact hc.2
  · rcases instances c hc with hc | hc
    · exact Nat.lt_of_lt_of_le (h.instances c hc) (size_le_of_isPrefix he.classes)
    · exact hc
  · rcases methods m hm with hm | hm
    · exact Nat.lt_of_lt_of_le (h.closures m hm) he.size
    · exact hm.2
  · rcases methods m hm with hm | hm
    · exact (h.declared m hm hd).mono he
    · exact hm.1

/-- A store with the same scopes that extends a sound one. -/
theorem Sound.of_scopes (h : s.Sound) (he : s.Extends t) (scopes : t.scopes = s.scopes)
    (packages : ∀ p ∈ t.packages, p ∈ s.packages)
    (classes : ∀ c ∈ t.classes, c ∈ s.classes ∨ t.HasAll c.statics ∧ t.HasAll c.members)
    (instances : ∀ c ∈ t.instances, c ∈ s.instances ∨ c.index < t.classes.size)
    (methods : ∀ m ∈ t.methods, m ∈ s.methods ∨ t.Inner m.closure ∧ m.closure.index < t.scopes.size) :
    t.Sound := by
  refine h.of_extends he (fun i p hi hp => ?_) (fun sc hsc => ?_) packages classes instances methods
  · rw [← scopes] at hi
    exact absurd (lt_of_parent? hp) (Nat.not_lt_of_le hi)
  · rw [scopes] at hsc
    exact (h.bindings sc hsc).mono he

/-! ## Making and binding -/

theorem extends_bind (scope : ScopeId) (name : String) (v : Value) (s : Store) :
    s.Extends (s.bind scope name v) where
  size := (keeps_bind scope name v s).size
  parents := (keeps_bind scope name v s).parents
  bound i other hi := by
    simp only [local?, bind, Array.getElem?_modify] at hi ⊢
    split
    · cases hsc : s.scopes[i.index]? with
      | none => rw [hsc] at hi; cases hi
      | some sc =>
        rw [hsc] at hi
        simp only [Option.map_some, Option.bind_some, Table.get?_insert] at hi ⊢
        split
        · rfl
        · exact hi
    · exact hi
  packages := List.prefix_rfl
  classes := List.prefix_rfl
  instances := List.prefix_rfl
  methods := List.prefix_rfl

/-- Binding a name to something in the store. -/
theorem Sound.bind (h : s.Sound) (hv : s.Has v) (scope : ScopeId) (name : String) :
    (s.bind scope name v).Sound := by
  have he := extends_bind scope name v s
  refine h.of_extends he (fun i p hi hp => ?_) (fun sc hsc => ?_) (fun _ => id) (fun _ => Or.inl)
    (fun _ => Or.inl) fun _ => Or.inl
  · rw [parent?_bind] at hp
    exact absurd (lt_of_parent? hp) (Nat.not_lt_of_le hi)
  · obtain ⟨i, hi⟩ := Array.mem_iff_getElem?.1 hsc
    simp only [Store.bind, Array.getElem?_modify] at hi
    split at hi
    · obtain ⟨old, hold, rfl⟩ := Option.map_eq_some_iff.1 hi
      exact ((h.bindings old (Array.mem_of_getElem? hold)).mono he).insert (hv.mono he) name
    · exact (h.bindings sc (Array.mem_of_getElem? hi)).mono he

theorem parent?_newScope {bindings : Table Value} {parent : Option ScopeId}
    (hi : s.scopes.size ≤ i.index) (hp : (s.newScope bindings parent).2.parent? i = some p) :
    i.index = s.scopes.size ∧ parent = some p := by
  obtain ⟨sc, hsc, hparent⟩ := Option.bind_eq_some_iff.1 hp
  have hlt := (Array.getElem?_eq_some_iff.1 hsc).1
  simp only [newScope, Array.size_push] at hlt
  have hindex : i.index = s.scopes.size := by omega
  simp only [newScope, Array.getElem?_push, hindex, if_true] at hsc
  cases hsc
  exact ⟨hindex, hparent⟩

/-- Making a scope inside one that is there, or inside none. -/
theorem Nested.newScope (h : s.Nested) {parent : Option ScopeId}
    (hp : ∀ p ∈ parent, p.index < s.scopes.size) (bindings : Table Value) :
    (s.newScope bindings parent).2.Nested := by
  intro i p hi
  by_cases hold : i.index < s.scopes.size
  · exact h i p (((keeps_newScope bindings parent s).parents i hold).symm.trans hi)
  · obtain ⟨hindex, hparent⟩ := parent?_newScope (Nat.le_of_not_lt hold) hi
    rw [hindex]
    exact hp p hparent

theorem Sound.lt_of_inner (h : s.Sound) (hin : s.Inner i) : i.index < s.scopes.size := by
  cases hin with
  | globals => exact h.globals.1
  | inside hp _ => exact lt_of_parent? hp

/-- Making the frame of a call. -/
theorem Sound.newScope (h : s.Sound) {bindings : Table Value} (hb : s.HasAll bindings)
    (hin : s.Inner p) : (s.newScope bindings (some p)).2.Sound := by
  have hp := h.lt_of_inner hin
  have he := (keeps_newScope bindings (some p) s).extends h.globals.1
  refine h.of_extends he (fun i q hi hq => ?_) (fun sc hsc => ?_) (fun _ => id) (fun _ => Or.inl)
    (fun _ => Or.inl) fun _ => Or.inl
  · obtain ⟨hindex, hparent⟩ := parent?_newScope hi hq
    cases hparent
    exact ⟨by omega, hin.mono he⟩
  · rcases Array.mem_push.1 hsc with hsc | rfl
    · exact (h.bindings sc hsc).mono he
    · exact hb.mono he

theorem inner_newScope (bindings : Table Value) (he : s.Extends (s.newScope bindings (some p)).2)
    (hin : s.Inner p) : (s.newScope bindings (some p)).2.Inner (s.newScope bindings (some p)).1 := by
  refine .inside ?_ (hin.mono he)
  simp [parent?, newScope]

/-- Making a method of the program in a scope. -/
theorem Sound.newDeclared (h : s.Sound) (m : MethodDecl) (hin : s.Inner scope) :
    (s.newDeclared scope m).2.Sound := by
  have he : s.Extends (s.newDeclared scope m).2 := (keeps_newMethod _ s).extends h.globals.1
  refine h.of_scopes he rfl (fun _ => id) (fun _ => Or.inl) (fun _ => Or.inl) fun method hm => ?_
  rcases Array.mem_push.1 hm with hm | rfl
  · exact Or.inl hm
  · exact Or.inr ⟨hin.mono he, h.lt_of_inner hin⟩

/-- Making a class of members in the store. -/
theorem Sound.newClass (h : s.Sound) {c : Class} (hs : s.HasAll c.statics)
    (hm : s.HasAll c.members) : (s.newClass c).2.Sound ∧ s.Extends (s.newClass c).2 := by
  have he : s.Extends (s.newClass c).2 := { Extends.refl s with classes := by simp [Store.newClass] }
  refine ⟨h.of_scopes he rfl (fun _ => id) (fun d hd => ?_) (fun _ => Or.inl) fun _ => Or.inl, he⟩
  rcases Array.mem_push.1 hd with hd | rfl
  · exact Or.inl hd
  · exact Or.inr ⟨hs.mono he, hm.mono he⟩

/-- Making an instance of a class in the store. -/
theorem Sound.newInstance (h : s.Sound) {c : ClassId} (hc : c.index < s.classes.size) :
    (s.newInstance c).2.Sound := by
  have he := (keeps_newInstance c s).extends h.globals.1
  refine h.of_scopes he rfl (fun _ => id) (fun _ => Or.inl) (fun d hd => ?_) fun _ => Or.inl
  rcases Array.mem_push.1 hd with hd | rfl
  · exact Or.inl hd
  · exact Or.inr hc

/-! ## The way outward -/

theorem Nested.outward_chainUpTo (h : s.Nested) :
    ∀ (bound : Nat) (i : ScopeId), i.index ≤ bound → s.Outward i (s.chainUpTo bound i)
  | 0, i, hi => by
    cases hp : s.parent? i with
    | none => exact .last hp
    | some p => have := h i p hp; omega
  | bound + 1, i, hi => by
    rw [chainUpTo]
    cases hp : s.parent? i with
    | none => exact .last hp
    | some p => exact .inside hp (h.outward_chainUpTo bound p (by have := h i p hp; omega))

/-- The chain of a scope is its whole way outward. -/
theorem Nested.outward (h : s.Nested) (i : ScopeId) : s.Outward i (s.chain i) :=
  h.outward_chainUpTo i.index i (Nat.le_refl _)

theorem Outward.unique {path : List ScopeId} (h : s.Outward i path) :
    ∀ {other : List ScopeId}, s.Outward i other → path = other := by
  induction h with
  | last hp =>
    intro other h
    cases h with
    | last _ => rfl
    | inside hp' _ => rw [hp] at hp'; cases hp'
  | inside hp _ ih =>
    intro other h
    cases h with
    | last hp' => rw [hp] at hp'; cases hp'
    | inside hp' h =>
      rw [hp] at hp'
      cases hp'
      rw [ih h]

theorem Nested.chain_of_parent? (h : s.Nested) (hp : s.parent? i = some p) :
    s.chain i = i :: s.chain p :=
  (h.outward i).unique (.inside hp (h.outward p))

theorem Nested.chain_of_none (h : s.Nested) (hp : s.parent? i = none) : s.chain i = [i] :=
  (h.outward i).unique (.last hp)

/-- A name means what the scope itself binds it to, or else what it means in the scope around. -/
theorem Nested.get?_eq (h : s.Nested) (i : ScopeId) (name : String) :
    s.get? i name = (s.local? i name).or ((s.parent? i).bind (s.get? · name)) := by
  rw [Store.get?]
  cases hp : s.parent? i with
  | none =>
    rw [h.chain_of_none hp]
    cases hl : s.local? i name <;> simp [hl]
  | some p =>
    rw [h.chain_of_parent? hp]
    cases hl : s.local? i name <;> simp [hl, Store.get?]

theorem Sound.nested (h : s.Sound) : s.Nested := h.older

/-- The way outward from an inner scope ends in the global scope. -/
theorem Sound.getLast?_chain (h : s.Sound) (hin : s.Inner i) :
    (s.chain i).getLast? = some Store.globals := by
  induction hin with
  | globals => rw [h.nested.chain_of_none h.globals.2]; rfl
  | inside hp _ ih => rw [h.nested.chain_of_parent? hp, List.getLast?_cons, ih]; rfl

/-! ## What is looked up -/

theorem Sound.local? (h : s.Sound) (hv : s.local? i name = some v) : s.Has v := by
  obtain ⟨sc, hsc, hget⟩ := Option.bind_eq_some_iff.1 hv
  exact (h.bindings sc (Array.mem_of_getElem? hsc)).get? hget

theorem Sound.get? (h : s.Sound) (hv : s.get? i name = some v) : s.Has v := by
  obtain ⟨j, -, hj⟩ := List.exists_of_findSome?_eq_some hv
  exact h.local? hj

/-- A member that is found is in the store. -/
theorem Sound.member (h : s.Sound) {owner : Value} {line : Nat}
    (hv : s.member owner name line = .done v) : s.Has v := by
  have hfound {o : Option Value} (ho : s.foundMember owner name line o = .done v) :
      o = some v := by
    cases o <;> cases ho
    rfl
  cases owner with
  | package id =>
    simp only [Store.member] at hv
    cases hp : s.packages[id.index]? with
    | none => rw [hp] at hv; cases hv
    | some package => rw [hp] at hv; exact h.get? (hfound hv)
  | ofClass id =>
    simp only [Store.member] at hv
    cases hc : s.classes[id.index]? with
    | none => rw [hc] at hv; cases hv
    | some c =>
      rw [hc] at hv
      exact (h.statics c (Array.mem_of_getElem? hc)).get? (hfound hv)
  | object id =>
    simp only [Store.member] at hv
    cases hi : s.instances[id.index]? with
    | none => rw [hi] at hv; cases hv
    | some c =>
      rw [hi] at hv
      dsimp only at hv
      cases hc : s.classes[c.index]? with
      | none => rw [hc] at hv; cases hv
      | some d =>
        rw [hc] at hv
        have hv := hfound hv
        unfold instanceMember? at hv
        split at hv
        · rename_i hget
          cases hv
          exact (h.members d (Array.mem_of_getElem? hc)).get? hget
        · split at hv <;> cases hv
          exact h.instances c (Array.mem_of_getElem? hi)
  | _ => cases hv

theorem Sound.visible (h : s.Sound) {b : String × Value} (hb : b ∈ s.visible i) : s.Has b.2 := by
  obtain ⟨name, -, hname⟩ := List.mem_filterMap.1 hb
  obtain ⟨v, hv, rfl⟩ := Option.map_eq_some_iff.1 hname
  exact h.get? hv

/-- What a path leads to is in the store. -/
theorem Sound.follow (h : s.Sound) : ∀ {path : List Segment} {i : ScopeId}
    {bindings : List (String × Value)}, s.follow i path = .ok bindings → ∀ b ∈ bindings, s.Has b.2
  | [], _, _, hf, b, hb => by cases hf; cases hb
  | .wildcard :: _, _, _, hf, b, hb => by
    cases hf
    exact h.visible hb
  | .name n :: rest, i, bindings, hf, b, hb => by
    rw [Store.follow] at hf
    cases hv : s.get? i n with
    | none => rw [hv] at hf; cases hf
    | some v =>
      rw [hv] at hf
      dsimp only at hf
      split at hf
      · cases hf
        rw [List.mem_singleton.1 hb]
        exact h.get? hv
      · cases hm : s.membersOf? v with
        | none => rw [hm] at hf; cases hf
        | some members => rw [hm] at hf; exact h.follow hf b hb

theorem Sound.entryPoint? (h : s.Sound) {id : MethodId} (hid : s.entryPoint? i = some id) :
    s.Has (.method id) := by
  obtain ⟨c, hc⟩ := exists_entryMethod? hid
  obtain ⟨cls, -, hcls, hget, -⟩ := entryMethod?_eq_some.1 hc
  exact (h.statics cls (Array.mem_of_getElem? hcls)).get? hget

theorem has_apply? {op : Operator} {left right : Value} (h : op.apply? s left right = some v) :
    s.Has v := by
  unfold Operator.apply? at h
  split at h
  · cases h; trivial
  · split at h <;> cases h; trivial
  · split at h <;> cases h; trivial
  · cases h

end SmallJava.Store

namespace SmallJava

/-! ## The library -/

instance Store.decidableHas (s : Store) : ∀ v : Value, Decidable (s.Has v)
  | .package id => inferInstanceAs (Decidable (id.index < s.packages.size))
  | .ofClass id => inferInstanceAs (Decidable (id.index < s.classes.size))
  | .object id => inferInstanceAs (Decidable (id.index < s.instances.size))
  | .method id => inferInstanceAs (Decidable (id.index < s.methods.size))
  | .text _ | .number _ | .null => isTrue trivial

/-- A store where no scope is in another one and no method is of the program. -/
theorem Store.Sound.of_parentless {s : Store} (hg : Store.globals.index < s.scopes.size)
    (scopes : ∀ sc ∈ s.scopes, sc.parent = none ∧ ∀ e ∈ sc.bindings.entries, s.Has e.2)
    (packages : ∀ p ∈ s.packages, p.members.index < s.scopes.size)
    (classes : ∀ c ∈ s.classes, (∀ e ∈ c.statics.entries, s.Has e.2) ∧
      ∀ e ∈ c.members.entries, s.Has e.2)
    (instances : ∀ c ∈ s.instances, c.index < s.classes.size)
    (methods : ∀ m ∈ s.methods, m.closure.index < s.scopes.size ∧ m.isDeclared = false) :
    s.Sound := by
  have hparent (i : ScopeId) : s.parent? i = none := by
    rw [Store.parent?]
    cases hsc : s.scopes[i.index]? with
    | none => rfl
    | some sc => exact (scopes sc (Array.mem_of_getElem? hsc)).1
  refine ⟨⟨hg, hparent _⟩, fun i p hp => ?_, fun i p hp => ?_, fun sc hsc => (scopes sc hsc).2,
    packages, fun c hc => (classes c hc).1, fun c hc => (classes c hc).2, instances,
    fun m hm => (methods m hm).1, fun m hm hd => ?_⟩
  · rw [hparent i] at hp
    cases hp
  · rw [hparent i] at hp
    cases hp
  · rw [(methods m hm).2] at hd
    cases hd

theorem Library.sound_store : Library.store.Sound :=
  .of_parentless (by decide +kernel) (by decide +kernel) (by decide +kernel) (by decide +kernel)
    (by decide +kernel) (by decide +kernel)

end SmallJava
