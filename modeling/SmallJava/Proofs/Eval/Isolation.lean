/-
What evaluation leaves alone. An evaluation in a scope changes no other scope that was there before
but the global one, and that one only at names it imports; a call changes not even the scope it is
made in. Main statement: `evaluation_isolated`, for every store, every depth of calls and every
outcome.
-/
import SmallJava.Host.Library
import SmallJava.Proofs.Eval.History

namespace SmallJava

/-! ## What stays the same -/

/-- What of a store `s` is still there in `t`: every scope but the global one and the writable one,
the parent of every scope, the bindings of the global scope under all but the given names unless it
is writable, and all packages, classes, instances and methods. -/
structure Store.Keeps (writable : Option ScopeId) (names : List String) (s t : Store) : Prop where
  size : s.scopes.size ≤ t.scopes.size
  scopes : ∀ i : ScopeId, i.index < s.scopes.size → writable ≠ some i → i ≠ globals →
    t.scopes[i.index]? = s.scopes[i.index]?
  parents : ∀ i : ScopeId, i.index < s.scopes.size → t.parent? i = s.parent? i
  imports : 0 < s.scopes.size → writable ≠ some globals → ∀ name ∉ names,
    t.local? globals name = s.local? globals name
  packages : s.packages.toList <+: t.packages.toList
  classes : s.classes.toList <+: t.classes.toList
  instances : s.instances.toList <+: t.instances.toList
  methods : s.methods.toList <+: t.methods.toList

namespace Store

variable {writable inner : Option ScopeId} {names more : List String} {s t u : Store}

theorem Keeps.refl (writable : Option ScopeId) (names : List String) (s : Store) :
    s.Keeps writable names s :=
  ⟨Nat.le_refl _, fun _ _ _ _ => rfl, fun _ _ => rfl, fun _ _ _ _ => rfl, List.prefix_rfl,
    List.prefix_rfl, List.prefix_rfl, List.prefix_rfl⟩

/-- One change after another. What the second may write that was there before the first, the first
may write as well. -/
theorem Keeps.trans (h₁ : s.Keeps writable names t) (h₂ : t.Keeps inner more u)
    (h : ∀ i : ScopeId, i.index < s.scopes.size → inner = some i → writable = some i) :
    s.Keeps writable (names ++ more) u where
  size := Nat.le_trans h₁.size h₂.size
  scopes i hi hw hg := by
    rw [h₂.scopes i (by have := h₁.size; omega) (fun h' => hw (h i hi h')) hg, h₁.scopes i hi hw hg]
  parents i hi := by rw [h₂.parents i (by have := h₁.size; omega), h₁.parents i hi]
  imports hs hw name hn := by
    obtain ⟨hn₁, hn₂⟩ := not_or.1 (fun h' => hn (List.mem_append.2 h'))
    rw [h₂.imports (by have := h₁.size; omega) (fun h' => hw (h globals hs h')) name hn₂,
      h₁.imports hs hw name hn₁]
  packages := h₁.packages.trans h₂.packages
  classes := h₁.classes.trans h₂.classes
  instances := h₁.instances.trans h₂.instances
  methods := h₁.methods.trans h₂.methods

/-- What writes only where nothing was before writes nowhere. -/
theorem Keeps.trans_fresh (h₁ : s.Keeps writable names t) {scope : ScopeId}
    (h₂ : t.Keeps (some scope) more u) (h : s.scopes.size ≤ scope.index) :
    s.Keeps writable (names ++ more) u :=
  h₁.trans h₂ fun i hi h' => by cases h'; omega

/-- What may write nothing may as well write somewhere. -/
theorem Keeps.mono (h : s.Keeps none names t) : s.Keeps writable names t := by
  simpa using (Keeps.refl writable [] s).trans h fun _ _ h' => by cases h'

/-- What is at a place of an array is there in a longer one. -/
theorem getElem?_of_isPrefix {α : Type} {a b : Array α} (h : a.toList <+: b.toList) {i : Nat} {x : α}
    (hx : a[i]? = some x) : b[i]? = some x := by
  rw [← Array.getElem?_toList] at hx ⊢
  obtain ⟨more, hmore⟩ := h
  rw [← hmore, List.getElem?_append_left (List.getElem?_eq_some_iff.1 hx).1, hx]

/-! ## Making and binding -/

theorem parent?_bind (scope : ScopeId) (name : String) (value : Value) (s : Store) (i : ScopeId) :
    (s.bind scope name value).parent? i = s.parent? i := by
  simp only [parent?, bind, Array.getElem?_modify]
  split <;> cases s.scopes[i.index]? <;> rfl

theorem scopes_bind_of_ne {scope i : ScopeId} (h : scope ≠ i) (name : String) (value : Value)
    (s : Store) : (s.bind scope name value).scopes[i.index]? = s.scopes[i.index]? := by
  have : scope.index ≠ i.index := fun h' => h (by cases scope; cases i; simp_all)
  simp [bind, Array.getElem?_modify, this]

theorem local?_bind_of_ne (scope i : ScopeId) {name other : String} (h : name ≠ other)
    (value : Value) (s : Store) : (s.bind scope name value).local? i other = s.local? i other := by
  simp only [local?, bind, Array.getElem?_modify]
  split
  · cases s.scopes[i.index]? with
    | none => rfl
    | some sc => simp [Table.get?_insert, h]
  · rfl

/-- Binding a name writes only the scope it is bound in. -/
theorem keeps_bind (scope : ScopeId) (name : String) (value : Value) (s : Store) :
    s.Keeps (some scope) [] (s.bind scope name value) where
  size := by simp [bind]
  scopes i _ hw _ := scopes_bind_of_ne (fun h => hw (by rw [h])) name value s
  parents i _ := parent?_bind scope name value s i
  imports _ hw other _ := by
    simp only [local?]
    rw [scopes_bind_of_ne (fun h => hw (by rw [h])) name value s]
  packages := List.prefix_rfl
  classes := List.prefix_rfl
  instances := List.prefix_rfl
  methods := List.prefix_rfl

/-- Binding a name in the global scope changes it under that name only. -/
theorem keeps_bind_globals (name : String) (value : Value) (s : Store) :
    s.Keeps none [name] (s.bind globals name value) where
  size := by simp [bind]
  scopes i _ _ hg := scopes_bind_of_ne (Ne.symm hg) name value s
  parents i _ := parent?_bind globals name value s i
  imports _ _ other hn := local?_bind_of_ne globals globals
    (fun h => hn (by rw [h]; exact List.mem_singleton_self other)) value s
  packages := List.prefix_rfl
  classes := List.prefix_rfl
  instances := List.prefix_rfl
  methods := List.prefix_rfl

theorem keeps_bindAll_globals (bindings : List (String × Value)) (s : Store) :
    s.Keeps none (bindings.map Prod.fst) (s.bindAll globals bindings) := by
  induction bindings generalizing s with
  | nil => exact Keeps.refl none [] s
  | cons b bindings ih =>
    exact (keeps_bind_globals b.1 b.2 s).trans (ih (s.bind globals b.1 b.2)) fun _ _ h => h

/-- A new scope is none of those that were there. -/
theorem keeps_newScope (bindings : Table Value) (parent : Option ScopeId) (s : Store) :
    s.Keeps none [] (s.newScope bindings parent).2 where
  size := by simp [newScope]
  scopes i hi _ _ := by simp only [newScope, Array.getElem?_push, Nat.ne_of_lt hi, if_false]
  parents i hi := by
    simp only [parent?, newScope, Array.getElem?_push, Nat.ne_of_lt hi, if_false]
  imports hs _ name _ := by
    have : globals.index ≠ s.scopes.size := Nat.ne_of_lt hs
    simp only [local?, newScope, Array.getElem?_push, this, if_false]
  packages := List.prefix_rfl
  classes := List.prefix_rfl
  instances := List.prefix_rfl
  methods := List.prefix_rfl

theorem keeps_newMethod (m : Method) (s : Store) : s.Keeps none [] (s.newMethod m).2 :=
  { Keeps.refl none [] s with methods := by simp [newMethod] }

theorem keeps_newMembers (scope : ScopeId) (ms : List MethodDecl) (statics members : Table Value)
    (s : Store) : s.Keeps none [] (newMembers scope ms statics members s).2 := by
  induction ms generalizing statics members s with
  | nil => exact Keeps.refl none [] s
  | cons m ms ih =>
    have first : s.Keeps none [] (s.newDeclared scope m).2 := keeps_newMethod _ s
    -- which table it goes into does not concern the store
    simp only [newMembers]
    split
    · exact first.trans (ih _ _ _) fun _ _ h => h
    · exact first.trans (ih _ _ _) fun _ _ h => h

theorem keeps_newUserClass (scope : ScopeId) (name : String) (ms : List MethodDecl) (s : Store) :
    s.Keeps none [] (s.newUserClass scope name ms).2 :=
  have h := keeps_newMembers scope ms .empty .empty s
  { h with classes := by simpa [newUserClass, newClass] using h.classes.trans (List.prefix_append _ _) }

theorem keeps_newInstance (c : ClassId) (s : Store) : s.Keeps none [] (s.newInstance c).2 :=
  { Keeps.refl none [] s with instances := by simp [newInstance] }

end Store

/-! ## Actions that keep the store -/

/-- The action leaves the whole store as it is. -/
def Action.Quiet {α : Type} (x : Action α) : Prop := ∀ w, (x w).2.store = w.store

namespace Action

variable {α β : Type}

theorem quiet_pure (a : α) : (pure a : Action α).Quiet := fun _ => rfl

theorem quiet_fail (f : Fault) : (fail f : Action α).Quiet := fun _ => rfl

theorem quiet_ask (question : Store → α) : (ask question).Quiet := fun _ => rfl

theorem quiet_demand (question : Store → Outcome α) : (demand question).Quiet := fun _ => rfl

theorem quiet_required (a : Option α) : (required a).Quiet := by
  cases a <;> exact fun _ => rfl

theorem quiet_print (text : String) (line : Nat) : (print text line).Quiet := by
  intro w
  unfold print
  split <;> rfl

theorem quiet_take (f : Console → Console.Taken × Console) (line : Nat) : (take f line).Quiet := by
  intro w
  unfold take
  split <;> rfl

theorem Quiet.bind {x : Action α} {f : α → Action β} (hx : x.Quiet) (hf : ∀ a, (f a).Quiet) :
    (x >>= f).Quiet := by
  intro w
  rcases bind_snd x f w with h | ⟨a, h⟩
  · rw [h, hx w]
  · rw [h, hf a, hx w]

theorem quiet_number (v : Value) (method : String) (line : Nat) : (number v method line).Quiet := by
  unfold number
  split <;> exact fun _ => rfl

theorem quiet_chars (v : Value) (method : String) (line : Nat) : (chars v method line).Quiet := by
  unfold chars
  split <;> exact fun _ => rfl

theorem quiet_integer (cs : List Char) (line : Nat) : (integer cs line).Quiet := by
  unfold integer
  split <;> exact fun _ => rfl

theorem quiet_decimal (cs : List Char) (method : String) (line : Nat) :
    (decimal cs method line).Quiet := by
  unfold decimal
  split <;> exact fun _ => rfl

theorem quiet_printLines (line : Nat) (vs : List Value) : (printLines line vs).Quiet := by
  induction vs with
  | nil => exact quiet_pure ()
  | cons v vs ih => exact (quiet_ask _).bind fun _ => (quiet_print _ line).bind fun _ => ih

end Action

theorem Reaction.quiet_answer (r : Reaction) (arguments : List Value) (line : Nat) :
    (r.answer arguments line).Quiet := by
  cases r <;> exact fun _ => rfl

/-- The operations of the library touch nothing but the console. -/
theorem HostOp.quiet_perform (op : HostOp) (arguments : List Value) (line : Nat) :
    (op.perform arguments line).Quiet := by
  unfold HostOp.perform
  split
  · exact (Action.quiet_print _ line).bind fun _ => Action.quiet_pure _
  · exact (Action.quiet_printLines line _).bind fun _ => Action.quiet_pure _
  · exact (Action.quiet_ask _).bind fun _ => (Action.quiet_print _ line).bind fun _ =>
      Action.quiet_pure _
  · exact (Action.quiet_number _ _ line).bind fun _ => Action.quiet_pure _
  · exact (Action.quiet_number _ _ line).bind fun _ => (Action.quiet_number _ _ line).bind fun _ =>
      Action.quiet_pure _
  · exact (Action.quiet_chars _ _ line).bind fun _ => Action.quiet_integer _ line
  · exact (Action.quiet_chars _ _ line).bind fun _ => Action.quiet_decimal _ _ line
  · exact (Action.quiet_take _ line).bind fun _ => Action.quiet_pure _
  · exact (Action.quiet_take _ line).bind fun _ => Action.quiet_pure _
  · exact (Action.quiet_take _ line).bind fun _ => Action.quiet_integer _ line
  · exact (Action.quiet_take _ line).bind fun _ => Action.quiet_decimal _ _ line
  · exact Reaction.quiet_answer _ _ line
  · exact fun _ => rfl

/-! ## Actions that write one scope -/

/-- From every world, the action keeps what is outside the writable scope but for what it imports. -/
def Watched.Keeps {α : Type} (writable : Option ScopeId) (x : Watched α) : Prop :=
  ∀ w : World, w.store.Keeps writable (x.imports w) (x.action w).2.store

namespace Watched

variable {α β : Type} {writable : Option ScopeId} {x : Watched α}

/-- What keeps all global bindings keeps those that it does not import. -/
theorem keeps_of_action (h : ∀ w : World, w.store.Keeps writable [] (x.action w).2.store) :
    x.Keeps writable := fun w =>
  (h w).trans (Store.Keeps.refl writable (x.imports w) _) fun _ _ h => h

theorem keeps_of_quiet (h : x.action.Quiet) : x.Keeps writable :=
  keeps_of_action fun w => (h w).symm ▸ Store.Keeps.refl writable [] w.store

theorem keeps_pure (a : α) : (pure a : Watched α).Keeps writable :=
  keeps_of_quiet (Action.quiet_pure a)

theorem keeps_fail (e : Fault) : (silent (.fail e) : Watched α).Keeps writable :=
  keeps_of_quiet (Action.quiet_fail e)

theorem keeps_bindName (scope : ScopeId) (name : String) (v : Value) :
    (silent (.bindName scope name v)).Keeps (some scope) :=
  keeps_of_action fun w => w.store.keeps_bind scope name v

theorem Keeps.mono (h : x.Keeps none) : x.Keeps writable := fun w => (h w).mono

theorem Keeps.holding (h : x.Keeps writable) (vs : List Value) :
    (holding vs x).Keeps writable := fun w => by
  rw [imports_holding]
  exact h w

theorem Keeps.bind {f : α → Watched β} (hx : x.Keeps writable)
    (hf : ∀ a, (f a).Keeps writable) : (x >>= f).Keeps writable := by
  intro w
  have first := hx w
  rw [imports_bind, action_bind, Action.bind_apply]
  generalize x.action w = r at first ⊢
  obtain ⟨outcome, v⟩ := r
  -- the second action is reached from a result only
  cases outcome with
  | done a => exact first.trans (hf a v) fun _ _ h => h
  | fault e => simpa using first
  | tooDeep => simpa using first
  | stuck => simpa using first

/-- Fetching a method leaves everything to what is done with it. -/
theorem Keeps.fetch {f : Method → Watched β} (hf : ∀ m, (f m).Keeps writable) (id : MethodId) :
    (silent (.ask (·.methods[id.index]?)) >>= fun m => silent (.required m) >>= f).Keeps writable :=
  Keeps.bind (keeps_of_quiet (Action.quiet_ask _)) fun m =>
    Keeps.bind (keeps_of_quiet (Action.quiet_required m)) hf

/-- What runs in a scope it has just made, and writes there only, writes nothing that was there. -/
theorem keeps_newScope_bind {f : ScopeId → Watched β} (bindings : Table Value)
    (parent : Option ScopeId) (hf : ∀ scope, (f scope).Keeps (some scope)) :
    (silent (.make (Store.newScope bindings parent)) >>= f).Keeps none := fun w => by
  rw [imports_bind]
  exact (w.store.keeps_newScope bindings parent).trans_fresh (hf _ _) (Nat.le_refl _)

theorem keeps_importPath (path : List Segment) (line : Nat) : (importPath path line).Keeps none := by
  intro w
  rw [imports_importPath, action_importPath, Action.importPath]
  cases w.store.follow Store.globals path with
  | ok bindings => exact w.store.keeps_bindAll_globals bindings
  | error segment => exact Store.Keeps.refl none [] w.store

theorem keeps_newUserClass (scope : ScopeId) (name : String) (methods : List MethodDecl) :
    (newUserClass scope name methods).Keeps writable :=
  keeps_of_action fun w => by
    rw [action_newUserClass]
    exact (w.store.keeps_newUserClass scope name methods).mono

end Watched

/-! ## The evaluator -/

/-- Calls write nothing that is there when they start. -/
def WatchedCaller.Keeps (call : WatchedCaller) : Prop :=
  ∀ v arguments line, (call v arguments line).Keeps none

/-- What runs statements writes only the scope it runs them in. -/
def WatchedRunner.Keeps (run : WatchedRunner) : Prop :=
  ∀ scope ss, (run scope ss).Keeps (some scope)

open Watched

variable {call : WatchedCaller}

mutual

theorem Expr.keeps_watched (hc : call.Keeps) (scope : ScopeId) :
    ∀ e : Expr, (e.watched call scope).Keeps (some scope)
  | .literal v _ => keeps_of_quiet (Action.quiet_pure _)
  | .name n line => keeps_of_quiet (Action.quiet_demand _)
  | .assign target value line => by
    cases target with
    | name n _ =>
      exact (Expr.keeps_watched hc scope value).bind fun v =>
        ((keeps_bindName scope n v).holding [v]).bind fun _ => keeps_pure v
    | _ => exact keeps_fail _
  | .binary op left right line =>
    (Expr.keeps_watched hc scope left).bind fun l =>
      ((Expr.keeps_watched hc scope right).holding [l]).bind fun _ =>
        keeps_of_quiet (Action.quiet_demand _)
  | .access parent member line =>
    (Expr.keeps_watched hc scope parent).bind fun _ => keeps_of_quiet (Action.quiet_demand _)
  | .call callee arguments line =>
    (Expr.keeps_watched hc scope callee).bind fun f =>
      ((Expr.keeps_watchedAll hc scope arguments).holding [f]).bind fun vs =>
        (hc f vs line).mono.holding (f :: vs)

theorem Expr.keeps_watchedAll (hc : call.Keeps) (scope : ScopeId) :
    ∀ es : List Expr, (Expr.watchedAll call scope es).Keeps (some scope)
  | [] => keeps_pure _
  | e :: es =>
    (Expr.keeps_watched hc scope e).bind fun v =>
      ((Expr.keeps_watchedAll hc scope es).holding [v]).bind fun _ => keeps_pure _

end

theorem Watched.keeps_enter (hc : call.Keeps) (scope : ScopeId) :
    (Watched.enter call scope).Keeps none := by
  refine Keeps.bind (keeps_of_quiet (Action.quiet_ask _)) fun id => ?_
  cases id with
  | none => exact keeps_fail _
  | some id =>
    refine Keeps.fetch (fun m => ?_) id
    exact ((hc (.method id) [entryArgument] m.line).holding _).bind fun _ => keeps_pure ()

theorem Statement.keeps_watched (hc : call.Keeps) (scope : ScopeId) (s : Statement) :
    (s.watched call scope).Keeps (some scope) := by
  cases s with
  | importPath path line => exact (keeps_importPath path line).mono
  | declareClass name methods line =>
    exact (keeps_newUserClass scope name methods).bind fun c =>
      (keeps_bindName scope name (.ofClass c)).holding [.ofClass c]
  | expression value line =>
    exact (Expr.keeps_watched hc scope value).bind fun _ => keeps_pure ()
  | declareVariable type name value line =>
    cases value with
    | none => exact keeps_bindName scope name .null
    | some value =>
      exact (Expr.keeps_watched hc scope value).bind fun v =>
        (keeps_bindName scope name v).holding [v]
  | entry => exact (keeps_enter hc scope).mono

theorem Statement.keeps_watchedAll (hc : call.Keeps) : (Statement.watchedAll call).Keeps := by
  intro scope ss
  induction ss with
  | nil => exact keeps_pure ()
  | cons s ss ih => exact (Statement.keeps_watched hc scope s).bind fun _ => ih

/-- A call keeps everything if what runs statements writes only the scope it runs them in. -/
theorem Value.keeps_watched {run : WatchedRunner} (hr : run.Keeps) : (Value.watched run).Keeps := by
  intro v arguments line
  cases v with
  | method id =>
    refine Keeps.fetch (fun m => ?_) id
    unfold Method.watched
    split
    · exact keeps_fail _
    · cases m.body with
      | host op => exact keeps_of_quiet (op.quiet_perform arguments line)
      | declared _ statements =>
        exact keeps_newScope_bind _ _ fun scope =>
          (hr scope statements).bind fun _ => keeps_pure Value.null
  | ofClass id =>
    exact Keeps.bind (keeps_of_action fun w => w.store.keeps_newInstance id) fun object =>
      keeps_pure (Value.object object)
  | _ => exact keeps_fail _

theorem keeps_watchedWithin (depth : Nat) : (watchedWithin depth).Keeps := by
  induction depth with
  | zero => exact Value.keeps_watched fun _ _ => keeps_of_quiet fun _ => rfl
  | succ depth ih => exact Value.keeps_watched (Statement.keeps_watchedAll ih)

/-- Whatever it comes to, an expression or a statement writes no scope that was there before but its
own and, under the names it imports, the global one; a call writes not even the scope it stands in. -/
theorem evaluation_isolated (depth : Nat) (scope : ScopeId) (w : World) :
    (∀ e : Expr, w.store.Keeps (some scope) (e.imported depth scope w)
      (e.eval (callWithin depth) scope w).2.store) ∧
    (∀ s : Statement, w.store.Keeps (some scope) (s.imported depth scope w)
      (s.run (callWithin depth) scope w).2.store) ∧
    ∀ v arguments line, w.store.Keeps none (importedWithin depth v arguments line w)
      (callWithin depth v arguments line w).2.store := by
  have hc := keeps_watchedWithin depth
  rw [← caller_watchedWithin]
  refine ⟨fun e => ?_, fun s => ?_, fun v arguments line => hc v arguments line w⟩
  · rw [← Expr.action_watched]
    exact Expr.keeps_watched hc scope e w
  · rw [← Statement.action_watched]
    exact Statement.keeps_watched hc scope s w

/-- An import binds globally wherever it stands, so its names are those that may change. -/
example : (Statement.importPath [.name "java", .name "util", .wildcard] 1).imported 0 ⟨1⟩
    ⟨Library.store, .start .empty none⟩ = ["Scanner"] := by decide +kernel

end SmallJava
