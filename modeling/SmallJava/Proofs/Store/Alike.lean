/-
Stores that are alike but for where their classes and methods are. A pairing says which class and
which method of one store stand for which of the other; all else is at the same place in both. Main
statements: all questions to alike stores have alike answers, and alike stores stay alike when the
same is done to both.
-/
import SmallJava.Proofs.Store.Sound
import SmallJava.Proofs.Syntax.Swap
import Mathlib.Data.List.Sort

namespace SmallJava

/-! ## Pairings -/

/-- Which classes and methods of one store stand for which of another. -/
structure Pairing where
  classes : ClassId → ClassId → Prop
  methods : MethodId → MethodId → Prop

/-- All that one pairing pairs another pairs as well. -/
structure Pairing.Extends (π ρ : Pairing) : Prop where
  classes : ∀ {c d : ClassId}, π.classes c d → ρ.classes c d
  methods : ∀ {m n : MethodId}, π.methods m n → ρ.methods m n

theorem Pairing.Extends.refl (π : Pairing) : π.Extends π := ⟨id, id⟩

theorem Pairing.Extends.trans {π ρ σ : Pairing} (h₁ : π.Extends ρ) (h₂ : ρ.Extends σ) :
    π.Extends σ :=
  ⟨fun h => h₂.classes (h₁.classes h), fun h => h₂.methods (h₁.methods h)⟩

/-- A value of one store stands for a value of the other. -/
inductive Value.Like (π : Pairing) : Value → Value → Prop
  | text (t : String) : Like π (.text t) (.text t)
  | number (x : Double) : Like π (.number x) (.number x)
  | null : Like π .null .null
  | package (id : PackageId) : Like π (.package id) (.package id)
  | object (id : InstanceId) : Like π (.object id) (.object id)
  | ofClass {c d : ClassId} : π.classes c d → Like π (.ofClass c) (.ofClass d)
  | method {m n : MethodId} : π.methods m n → Like π (.method m) (.method n)

/-- The tables hold alike values under the same names. -/
def Table.Like (π : Pairing) (t u : Table Value) : Prop :=
  ∀ name, Option.Rel (Value.Like π) (t.get? name) (u.get? name)

/-- A name is bound to alike values. -/
def Binding.Like (π : Pairing) (b c : String × Value) : Prop := b.1 = c.1 ∧ b.2.Like π c.2

/-- The classes have the same name and origin and alike members. -/
structure Class.Like (π : Pairing) (c d : Class) : Prop where
  name : c.name = d.name
  origin : c.origin = d.origin
  statics : c.statics.Like π d.statics
  members : c.members.Like π d.members

/-- The bodies perform the same operation, or run statements that differ in the order of classes. -/
inductive MethodBody.Like : MethodBody → MethodBody → Prop
  | declared (line : Nat) {ss ts : List Statement} : Reordered ss ts →
      Like (.declared line ss) (.declared line ts)
  | host (op : HostOp) : Like (.host op) (.host op)

/-- The methods differ at most in the order of the classes that they declare. -/
structure Method.Like (m n : Method) : Prop where
  name : m.name = n.name
  params : m.params = n.params
  variadic : m.variadic = n.variadic
  closure : m.closure = n.closure
  body : m.body.Like n.body

/-- The stores have the same scopes, packages and instances at the same places, with alike values in
them, and what is paired is in the stores and alike. -/
structure Store.Like (π : Pairing) (s t : Store) : Prop where
  size : s.scopes.size = t.scopes.size
  parents : ∀ i, s.parent? i = t.parent? i
  locals : ∀ i name, Option.Rel (Value.Like π) (s.local? i name) (t.local? i name)
  packages : s.packages = t.packages
  count : s.instances.size = t.instances.size
  instances : ∀ i : Nat, Option.Rel π.classes s.instances[i]? t.instances[i]?
  classes : ∀ {c d : ClassId}, π.classes c d → ∃ x y, s.classes[c.index]? = some x ∧
    t.classes[d.index]? = some y ∧ x.Like π y
  methods : ∀ {m n : MethodId}, π.methods m n → ∃ x y, s.methods[m.index]? = some x ∧
    t.methods[n.index]? = some y ∧ x.Like y

theorem Method.Like.isDeclared {m n : Method} (h : m.Like n) : m.isDeclared = n.isDeclared := by
  obtain ⟨_, _, _, _, body⟩ := m
  obtain ⟨_, _, _, _, other⟩ := n
  cases h.body <;> rfl

theorem Method.Like.line {m n : Method} (h : m.Like n) : m.line = n.line := by
  obtain ⟨_, _, _, _, body⟩ := m
  obtain ⟨_, _, _, _, other⟩ := n
  cases h.body <;> rfl

variable {π ρ : Pairing}

/-! ## More pairs -/

theorem rel_mono {α β : Type} {P Q : α → β → Prop} {a : Option α} {b : Option β}
    (h : Option.Rel P a b) (hPQ : ∀ x y, P x y → Q x y) : Option.Rel Q a b := by
  cases h with
  | some h => exact .some (hPQ _ _ h)
  | none => exact .none

theorem none_or_some_of_rel {α β : Type} {P : α → β → Prop} {a : Option α} {b : Option β}
    (h : Option.Rel P a b) :
    a = none ∧ b = none ∨ ∃ x y, a = some x ∧ b = some y ∧ P x y := by
  cases h with
  | none => exact Or.inl ⟨rfl, rfl⟩
  | some h => exact Or.inr ⟨_, _, rfl, rfl, h⟩

theorem Value.Like.mono {v u : Value} (h : v.Like π u) (he : π.Extends ρ) : v.Like ρ u := by
  cases h with
  | text t => exact .text t
  | number x => exact .number x
  | null => exact .null
  | package id => exact .package id
  | object id => exact .object id
  | ofClass h => exact .ofClass (he.classes h)
  | method h => exact .method (he.methods h)

theorem Value.Like.monoAll {vs us : List Value} (h : List.Forall₂ (Value.Like π) vs us)
    (he : π.Extends ρ) : List.Forall₂ (Value.Like ρ) vs us :=
  h.imp fun _ _ h => h.mono he

theorem Table.Like.mono {t u : Table Value} (h : t.Like π u) (he : π.Extends ρ) : t.Like ρ u :=
  fun name => rel_mono (h name) fun _ _ h => h.mono he

theorem Class.Like.mono {c d : Class} (h : c.Like π d) (he : π.Extends ρ) : c.Like ρ d :=
  ⟨h.name, h.origin, h.statics.mono he, h.members.mono he⟩

/-! ## Values -/

theorem Value.Like.kind {v u : Value} (h : v.Like π u) : v.kind = u.kind := by
  cases h <;> rfl

theorem Literal.like_value (v : Literal) : v.value.Like π v.value := by
  cases v with
  | text s => exact .text s
  | number x => exact .number x
  | null => exact .null

theorem Table.like_empty : (Table.empty : Table Value).Like π .empty := fun _ => .none

theorem Table.Like.insert {t u : Table Value} (h : t.Like π u) {v w : Value} (hv : v.Like π w)
    (name : String) : (t.insert name v).Like π (u.insert name w) := by
  intro other
  rw [get?_insert, get?_insert]
  split
  · exact .some hv
  · exact h other

theorem Table.like_ofList {bs cs : List (String × Value)}
    (h : List.Forall₂ (Binding.Like π) bs cs) : (ofList bs).Like π (ofList cs) := by
  have hfold : ∀ {t u : Table Value}, t.Like π u →
      (bs.foldl (fun t e => t.insert e.1 e.2) t).Like π
        (cs.foldl (fun t e => t.insert e.1 e.2) u) := by
    induction h with
    | nil => exact id
    | cons hb _ ih =>
      intro t u htu
      rw [List.foldl_cons, List.foldl_cons, hb.1]
      exact ih (htu.insert hb.2 _)
  exact hfold like_empty

/-- Names of parameters bound to alike arguments. -/
theorem Binding.like_zip {vs us : List Value} (h : List.Forall₂ (Value.Like π) vs us)
    (names : List String) : List.Forall₂ (Binding.Like π) (names.zip vs) (names.zip us) := by
  induction h generalizing names with
  | nil => rw [List.zip_nil_right]; exact .nil
  | cons hv _ ih =>
    cases names with
    | nil => exact .nil
    | cons name names => exact .cons ⟨rfl, hv⟩ (ih names)

/-! ## Names -/

namespace Store

variable {s t : Store} {i : ScopeId}

theorem mem_localNames {name : String} : name ∈ s.localNames i ↔ (s.local? i name).isSome := by
  rw [localNames, local?]
  cases s.scopes[i.index]? with
  | none => simp
  | some sc => exact Table.mem_names

theorem ascending_localNames (s : Store) (i : ScopeId) : (s.localNames i).Pairwise (· < ·) := by
  rw [localNames]
  cases s.scopes[i.index]? with
  | none => exact .nil
  | some sc => exact sc.bindings.ascending_names

theorem isSome_of_rel {α β : Type} {P : α → β → Prop} {a : Option α} {b : Option β}
    (h : Option.Rel P a b) : a.isSome = b.isSome := by
  cases h <;> rfl

namespace Like

theorem localNames (h : s.Like π t) (i : ScopeId) : s.localNames i = t.localNames i := by
  refine (s.ascending_localNames i).eq_of_mem_iff (t.ascending_localNames i) fun name => ?_
  rw [mem_localNames, mem_localNames, isSome_of_rel (h.locals i name)]

theorem chainUpTo (h : s.Like π t) (bound : Nat) (i : ScopeId) :
    s.chainUpTo bound i = t.chainUpTo bound i := by
  induction bound generalizing i with
  | zero => rfl
  | succ bound ih =>
    rw [Store.chainUpTo, Store.chainUpTo, h.parents i]
    cases t.parent? i with
    | none => rfl
    | some p => exact congrArg (i :: ·) (ih p)

theorem chain (h : s.Like π t) (i : ScopeId) : s.chain i = t.chain i := h.chainUpTo i.index i

theorem allNames (h : s.Like π t) (i : ScopeId) : s.allNames i = t.allNames i := by
  rw [Store.allNames, Store.allNames, h.chain i, funext h.localNames]

end Like

/-! ## What is looked up -/

theorem rel_findSome? {α β γ : Type} {P : β → γ → Prop} {f : α → Option β} {g : α → Option γ}
    (h : ∀ a, Option.Rel P (f a) (g a)) (as : List α) :
    Option.Rel P (as.findSome? f) (as.findSome? g) := by
  induction as with
  | nil => exact .none
  | cons a as ih =>
    rw [List.findSome?_cons, List.findSome?_cons]
    obtain ⟨hf, hg⟩ | ⟨b, c, hf, hg, hbc⟩ := none_or_some_of_rel (h a)
    · rw [hf, hg]
      exact ih
    · rw [hf, hg]
      exact .some hbc

namespace Like

theorem get? (h : s.Like π t) (i : ScopeId) (name : String) :
    Option.Rel (Value.Like π) (s.get? i name) (t.get? i name) := by
  rw [Store.get?, Store.get?, h.chain i]
  exact rel_findSome? (fun j => h.locals j name) _

theorem className (h : s.Like π t) {c d : ClassId} (hc : π.classes c d) :
    s.className c = t.className d := by
  obtain ⟨x, y, hx, hy, hxy⟩ := h.classes hc
  simp [Store.className, hx, hy, hxy.name]

theorem methodName (h : s.Like π t) {m n : MethodId} (hm : π.methods m n) :
    s.methodName m = t.methodName n := by
  obtain ⟨x, y, hx, hy, hxy⟩ := h.methods hm
  simp [Store.methodName, hx, hy, hxy.name]

theorem instanceClassName (h : s.Like π t) (id : InstanceId) :
    s.instanceClassName id = t.instanceClassName id := by
  rw [Store.instanceClassName, Store.instanceClassName]
  obtain ⟨hs, ht⟩ | ⟨c, d, hs, ht, hc⟩ := none_or_some_of_rel (h.instances id.index)
  · rw [hs, ht]
    rfl
  · rw [hs, ht]
    exact h.className hc

/-- Alike values are printed alike. -/
theorem text (h : s.Like π t) {v u : Value} (hv : v.Like π u) : s.text v = t.text u := by
  cases hv with
  | text => rfl
  | number => rfl
  | null => rfl
  | package id => simp [Store.text, Store.packageName, h.packages]
  | object id => simp [Store.text, h.instanceClassName id]
  | ofClass hc => simp [Store.text, h.className hc]
  | method hm => simp [Store.text, h.methodName hm]

/-- Paths lead to alike values. -/
theorem visible (h : s.Like π t) (i : ScopeId) :
    List.Forall₂ (Binding.Like π) (s.visible i) (t.visible i) := by
  rw [Store.visible, Store.visible, h.allNames i]
  induction t.allNames i with
  | nil => exact .nil
  | cons name names ih =>
    rw [List.filterMap_cons, List.filterMap_cons]
    obtain ⟨hs, ht⟩ | ⟨v, u, hs, ht, hv⟩ := none_or_some_of_rel (h.get? i name)
    · rw [hs, ht]
      exact ih
    · rw [hs, ht]
      exact .cons ⟨rfl, hv⟩ ih

theorem membersOf? (h : s.Like π t) {v u : Value} (hv : v.Like π u) :
    s.membersOf? v = t.membersOf? u := by
  cases hv with
  | package id => simp [Store.membersOf?, h.packages]
  | _ => rfl

end Like

/-- What following a path comes to in two stores. -/
inductive FollowsLike (π : Pairing) :
    Except String (List (String × Value)) → Except String (List (String × Value)) → Prop
  | ok {bs cs : List (String × Value)} : List.Forall₂ (Binding.Like π) bs cs →
      FollowsLike π (.ok bs) (.ok cs)
  | error (segment : String) : FollowsLike π (.error segment) (.error segment)

theorem Like.follow (h : s.Like π t) : ∀ (path : List Segment) (i : ScopeId),
    FollowsLike π (s.follow i path) (t.follow i path)
  | [], _ => .ok .nil
  | .wildcard :: _, i => .ok (h.visible i)
  | .name n :: rest, i => by
    rw [Store.follow, Store.follow]
    obtain ⟨hs, ht⟩ | ⟨v, u, hs, ht, hv⟩ := none_or_some_of_rel (h.get? i n)
    · rw [hs, ht]
      exact .error n
    · rw [hs, ht]
      dsimp only
      split
      · exact .ok (.cons ⟨rfl, hv⟩ .nil)
      · rw [h.membersOf? hv]
        cases t.membersOf? u with
        | none => exact .error n
        | some members => exact h.follow rest members

end Store

/-- What two runs come to: the same fault, or results that have a relation. -/
inductive Outcome.Like {α β : Type} (R : α → β → Prop) : Outcome α → Outcome β → Prop
  | done {a : α} {b : β} : R a b → Like R (.done a) (.done b)
  | fault (e : Fault) : Like R (.fault e) (.fault e)
  | tooDeep : Like R .tooDeep .tooDeep
  | stuck : Like R .stuck .stuck

namespace Store

variable {s t : Store}

theorem rel_instanceMember? {c d : ClassId} {x y : Class} (hc : π.classes c d) (h : x.Like π y)
    (name : String) :
    Option.Rel (Value.Like π) (instanceMember? c x name) (instanceMember? d y name) := by
  rw [instanceMember?, instanceMember?, h.origin]
  obtain ⟨hx, hy⟩ | ⟨v, u, hx, hy, hv⟩ := none_or_some_of_rel (h.members name)
  · rw [hx, hy]
    dsimp only
    split
    · exact .some (.ofClass hc)
    · exact .none
  · rw [hx, hy]
    exact .some hv

theorem Like.foundMember (h : s.Like π t) {owner owner' : Value} (ho : owner.Like π owner')
    {v u : Option Value} (hv : Option.Rel (Value.Like π) v u) (name : String) (line : Nat) :
    Outcome.Like (Value.Like π) (s.foundMember owner name line v)
      (t.foundMember owner' name line u) := by
  cases hv with
  | some hv => exact .done hv
  | none =>
    rw [Store.foundMember, Store.foundMember, h.text ho]
    exact .fault _

theorem Like.member (h : s.Like π t) {owner owner' : Value} (ho : owner.Like π owner')
    (name : String) (line : Nat) :
    Outcome.Like (Value.Like π) (s.member owner name line) (t.member owner' name line) := by
  cases ho with
  | package id =>
    simp only [Store.member, h.packages]
    cases t.packages[id.index]? with
    | none => exact .stuck
    | some p => exact h.foundMember (.package id) (h.get? p.members name) name line
  | ofClass hc =>
    obtain ⟨x, y, hx, hy, hxy⟩ := h.classes hc
    simp only [Store.member, hx, hy]
    exact h.foundMember (.ofClass hc) (hxy.statics name) name line
  | object id =>
    simp only [Store.member]
    obtain ⟨hs, ht⟩ | ⟨c, d, hs, ht, hc⟩ := none_or_some_of_rel (h.instances id.index)
    · rw [hs, ht]
      exact .stuck
    · obtain ⟨x, y, hx, hy, hxy⟩ := h.classes hc
      simp only [hs, ht, hx, hy]
      exact h.foundMember (.object id) (rel_instanceMember? hc hxy name) name line
  | text t => exact .fault _
  | number x => exact .fault _
  | null => exact .fault _
  | method hm => exact .fault _

/-- An operation on values that stand for each other comes to values that do, or to none in both
stores. -/
theorem Like.rel_apply (h : s.Like π t) (op : Operator) {l l' r r' : Value} (hl : l.Like π l')
    (hr : r.Like π r') {v u : Option Value} (hv : op.apply? s l r = v)
    (hu : op.apply? t l' r' = u) : Option.Rel (Value.Like π) v u := by
  subst hv hu
  have hjoin : Option.Rel (Value.Like π)
      (if op = .sum then some (.text (s.text l ++ s.text r)) else none)
      (if op = .sum then some (.text (t.text l' ++ t.text r')) else none) := by
    rw [h.text hl, h.text hr]
    split
    · exact .some (.text _)
    · exact .none
  cases hl with
  | text x => exact hjoin
  | number x =>
    cases hr with
    | text y => exact hjoin
    | number y => exact .some (.number _)
    | _ => exact .none
  | _ =>
    cases hr with
    | text y => exact hjoin
    | _ => exact .none

/-- Classes that stand for each other are started by methods that do. -/
theorem Like.entryOf? (h : s.Like π t) {v u : Value} (hv : v.Like π u) :
    Option.Rel π.methods (s.entryOf? v) (t.entryOf? u) := by
  cases hv with
  | ofClass hc =>
    obtain ⟨x, y, hx, hy, hxy⟩ := h.classes hc
    simp only [Store.entryOf?, entryMethod?, hx, hy, Option.bind_some]
    obtain ⟨hs, ht⟩ | ⟨v, u, hs, ht, hv⟩ := none_or_some_of_rel (hxy.statics entryMember)
    · rw [hs, ht]
      exact .none
    · rw [hs, ht]
      cases hv with
      | method hm =>
        obtain ⟨m, n, hm', hn', hmn⟩ := h.methods hm
        simp only [hm', hn', Option.map_some, Option.getD_some, hmn.isDeclared]
        split
        · exact .some hm
        · exact .none
      | _ => exact .none
  | _ => exact .none

theorem Like.entryPoint? (h : s.Like π t) (i : ScopeId) :
    Option.Rel π.methods (s.entryPoint? i) (t.entryPoint? i) := by
  rw [Store.entryPoint?, Store.entryPoint?, h.localNames i]
  refine rel_findSome? (fun name => ?_) _
  obtain ⟨hs, ht⟩ | ⟨v, u, hs, ht, hv⟩ := none_or_some_of_rel (h.get? i name)
  · rw [hs, ht]
    exact .none
  · rw [hs, ht]
    exact h.entryOf? hv

/-! ## Making and binding -/

theorem local?_bind (scope : ScopeId) (name : String) (v : Value) (s : Store) (i : ScopeId)
    (other : String) : (s.bind scope name v).local? i other =
      if scope = i ∧ name = other ∧ i.index < s.scopes.size then some v else s.local? i other := by
  have hindex : scope.index = i.index ↔ scope = i := by
    cases scope
    cases i
    simp
  simp only [local?, bind, Array.getElem?_modify, hindex]
  by_cases hi : scope = i
  · cases hsc : s.scopes[i.index]? with
    | none =>
      have hsize := Array.getElem?_eq_none_iff.1 hsc
      simp [Nat.not_lt_of_le hsize]
    | some sc =>
      have hsize := (Array.getElem?_eq_some_iff.1 hsc).1
      simp [hi, hsize, Table.get?_insert]
  · simp [hi]

theorem Like.bind (h : s.Like π t) {v u : Value} (hv : v.Like π u) (scope : ScopeId)
    (name : String) : (s.bind scope name v).Like π (t.bind scope name u) where
  size := by simpa [Store.bind] using h.size
  parents i := by rw [parent?_bind, parent?_bind, h.parents i]
  locals i other := by
    rw [local?_bind, local?_bind, h.size]
    split
    · exact .some hv
    · exact h.locals i other
  packages := h.packages
  count := h.count
  instances := h.instances
  classes := h.classes
  methods := h.methods

/-- Names that differ can be bound in any order. -/
theorem Like.bind_swapped (h : s.Like π t) {name other : String} (hne : name ≠ other)
    {v v' u u' : Value} (hv : v.Like π v') (hu : u.Like π u') (scope : ScopeId) :
    ((s.bind scope name v).bind scope other u).Like π
      ((t.bind scope other u').bind scope name v') where
  size := by simpa [Store.bind] using h.size
  parents i := by rw [parent?_bind, parent?_bind, parent?_bind, parent?_bind, h.parents i]
  locals i n := by
    have hsize (scope : ScopeId) (name : String) (v : Value) (s : Store) :
        (s.bind scope name v).scopes.size = s.scopes.size := by simp [Store.bind]
    simp only [local?_bind, hsize, h.size]
    by_cases hn : name = n
    · subst hn
      simp only [Ne.symm hne, false_and, and_false, if_false]
      split
      · exact .some hv
      · exact h.locals i name
    · simp only [hn, false_and, and_false, if_false]
      split
      · exact .some hu
      · exact h.locals i n
  packages := h.packages
  count := h.count
  instances := h.instances
  classes := h.classes
  methods := h.methods

theorem Like.bindAll (h : s.Like π t) (scope : ScopeId) {bs cs : List (String × Value)}
    (hb : List.Forall₂ (Binding.Like π) bs cs) :
    (s.bindAll scope bs).Like π (t.bindAll scope cs) := by
  induction hb generalizing s t with
  | nil => exact h
  | cons hb _ ih =>
    rw [Store.bindAll, Store.bindAll, List.foldl_cons, List.foldl_cons, hb.1]
    exact ih (h.bind hb.2 scope _)

theorem Like.newScope (h : s.Like π t) {bindings bindings' : Table Value}
    (hb : bindings.Like π bindings') (parent : Option ScopeId) :
    (s.newScope bindings parent).1 = (t.newScope bindings' parent).1 ∧
      (s.newScope bindings parent).2.Like π (t.newScope bindings' parent).2 := by
  refine ⟨congrArg ScopeId.mk h.size, ?_, fun i => ?_, fun i name => ?_, h.packages, h.count,
    h.instances, h.classes, h.methods⟩
  · simpa [Store.newScope] using h.size
  · have := h.parents i
    simp only [Store.newScope, parent?, Array.getElem?_push, h.size] at this ⊢
    split
    · rfl
    · exact this
  · have := h.locals i name
    simp only [Store.newScope, local?, Array.getElem?_push, h.size] at this ⊢
    split
    · exact hb name
    · exact this

theorem Like.newInstance (h : s.Like π t) {c d : ClassId} (hc : π.classes c d) :
    (s.newInstance c).1 = (t.newInstance d).1 ∧
      (s.newInstance c).2.Like π (t.newInstance d).2 := by
  refine ⟨congrArg InstanceId.mk h.count, h.size, h.parents, h.locals, h.packages, ?_, fun i => ?_,
    h.classes, h.methods⟩
  · simpa [Store.newInstance] using h.count
  · have := h.instances i
    simp only [Store.newInstance, Array.getElem?_push, h.count]
    split
    · exact .some hc
    · exact this

end Store

end SmallJava
