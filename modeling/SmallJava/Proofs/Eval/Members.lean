/-
What declared classes give at any later time. Neither runs nor sessions take a class, an instance or a
method out of a store, so a class and its instances give the same members for ever, whatever their
names are bound to by then. Main statement: `declareClass_divides`.
-/
import SmallJava.Proofs.Eval.Closed
import SmallJava.Proofs.Store.Members
import SmallJava.Session

namespace SmallJava

/-! ## Making -/

namespace Store

variable {α : Type}

theorem remains_newClass (c : Class) (s : Store) : s.Remains (s.newClass c).2 :=
  { Remains.refl s with classes := by simp [newClass] }

theorem remains_newPackage (name : String) (members : Table Value) (s : Store) :
    s.Remains (s.newPackage name members).2 :=
  ⟨List.prefix_rfl, List.prefix_rfl, List.prefix_rfl⟩

/-- What has been made remains whatever evaluation makes. -/
theorem MadeInCalls.remains {f : Store → α × Store} (hf : MadeInCalls f) (s : Store) :
    s.Remains (f s).2 := by
  obtain ⟨scopes, instances, hinstances, h⟩ := hf.exists_eq s
  rw [h]
  exact { Remains.refl s with instances := hinstances }

end Store

/-! ## Given values -/

mutual

/-- What has been made remains when a given value is made. -/
theorem Given.remains_make : ∀ (g : Given) (s : Store), s.Remains (g.make s).2
  | .null, s => .refl s
  | .text _, s => .refl s
  | .number _, s => .refl s
  | .package name members, s =>
    (Given.remains_makeAll members s).trans (Store.remains_newPackage name _ _)
  | .hostClass _ statics members, s =>
    ((Given.remains_makeAll statics s).trans (Given.remains_makeAll members _)).trans
      (Store.remains_newClass _ _)
  | .object _ members, s =>
    ((Given.remains_makeAll members s).trans (Store.remains_newClass _ _)).trans
      (Store.keeps_newInstance _ _).remains
  | .method .., s => (Store.keeps_newMethod _ s).remains

theorem Given.remains_makeAll : ∀ (gs : List (String × Given)) (s : Store),
    s.Remains (Given.makeAll gs s).2
  | [], s => .refl s
  | (_, given) :: rest, s => (Given.remains_make given s).trans (Given.remains_makeAll rest _)

end

theorem Given.remains_mapM (gs : List Given) (s : Store) :
    s.Remains (gs.mapM Given.make s).2 := by
  induction gs generalizing s with
  | nil => exact .refl s
  | cons g gs ih =>
    rw [List.mapM_cons]
    exact (g.remains_make s).trans (ih _)

/-! ## Actions -/

/-- The action takes no class, instance or method out. -/
def Action.Adds {α : Type} (x : Action α) : Prop := ∀ w : World, w.store.Remains (x w).2.store

namespace Action

variable {α β : Type}

theorem Quiet.adds {x : Action α} (h : x.Quiet) : x.Adds := fun w => (h w).symm ▸ .refl _

theorem Adds.bind {x : Action α} {f : α → Action β} (hx : x.Adds) (hf : ∀ a, (f a).Adds) :
    (x >>= f).Adds := by
  intro w
  rcases bind_snd x f w with h | ⟨a, h⟩
  · rw [h]
    exact hx w
  · rw [h]
    exact (hx w).trans (hf a _)

theorem closedInRuns_adds : ClosedInRuns Adds where
  bind := Adds.bind
  demand question := (quiet_demand question).adds
  make hf w := hf.remains w.store
  print text line := (quiet_print text line).adds
  nextLine line := (quiet_take Console.nextLine line).adds
  nextWord line := (quiet_take Console.nextWord line).adds
  newUserClass scope name methods w := (w.store.keeps_newUserClass scope name methods).remains

theorem adds_callWithin (depth : Nat) (v : Value) (arguments : List Value) (line : Nat) :
    (callWithin depth v arguments line).Adds :=
  closedInRuns_adds.callWithin depth v arguments line

theorem adds_eval (depth : Nat) (scope : ScopeId) (e : Expr) :
    (e.eval (callWithin depth) scope).Adds :=
  closedInRuns_adds.eval (adds_callWithin depth) scope e

end Action

/-! ## Sessions -/

namespace Session

variable {α β : Type} (s : Session)

open Action

theorem remains_perform {x : Action α} (h : x.Adds) :
    s.world.store.Remains (s.perform x).2.world.store := h s.world

theorem remains_withSource {p : Parser α} {source : String} {f : α → Action β}
    (h : ∀ a, (f a).Adds) :
    s.world.store.Remains (s.withSource p source f).2.world.store := by
  unfold withSource
  cases p.ofSource source with
  | error e => exact .refl _
  | ok a => exact s.remains_perform (h a)

theorem remains_withValue {depth : Nat} {source : String} {f : Value → Action α}
    (h : ∀ v, (f v).Adds) :
    s.world.store.Remains (s.withValue depth source f).2.world.store :=
  s.remains_withSource fun e => (adds_eval depth s.current e).bind h

/-- Whatever step a session takes, what has been made remains. -/
theorem remains_step (depth : Nat) (step : Step) :
    s.world.store.Remains (s.step depth step).2.world.store := by
  have h := closedInRuns_adds
  have hcall := adds_callWithin depth
  cases step with
  | eval source => exact s.remains_withValue fun v => h.pure _
  | exec source =>
    exact s.remains_withSource fun p => (h.runAll hcall _ _).bind fun _ => h.pure _
  | run source => exact s.remains_withSource fun p => (h.program depth p).bind fun _ => h.pure _
  | enter => exact s.remains_perform ((h.enter hcall _).bind fun _ => h.pure _)
  | push => exact (s.world.store.keeps_newScope .empty (some s.current)).remains
  | pop => exact .refl _
  | bind name value =>
    refine s.remains_perform (Adds.bind (fun w => value.remains_make w.store) fun v => ?_)
    exact (h.bindName s.current name v).bind fun _ => h.pure _
  | get name => exact s.remains_perform ((h.ask _).bind fun _ => h.pure _)
  | lookup name line => exact s.remains_perform ((h.lookup _ name line).bind fun _ => h.pure _)
  | isLocal name => exact s.remains_perform ((h.ask _).bind fun _ => h.pure _)
  | names => exact s.remains_perform ((h.ask _).bind fun _ => h.pure _)
  | allNames => exact s.remains_perform ((h.ask _).bind fun _ => h.pure _)
  | inspectScope => exact s.remains_perform ((h.ask _).bind fun _ => h.pure _)
  | inspect source => exact s.remains_withValue fun v => (h.ask _).bind fun _ => h.pure _
  | equal left right =>
    have hleft : s.world.store.Remains (s.withValue depth left pure).2.world.store :=
      s.remains_withValue fun v => h.pure v
    simp only [Session.step]
    generalize s.withValue depth left pure = r at hleft
    obtain ⟨value | e, t⟩ := r
    · exact hleft
    · exact hleft.trans (t.remains_withValue fun v => h.pure _)
  | hasEntry source => exact s.remains_withValue fun v => (h.ask _).bind fun _ => h.pure _
  | member source name line =>
    exact s.remains_withValue fun v => (h.demand _).bind fun _ => h.pure _
  | invoke source arguments line =>
    refine s.remains_withValue fun v => Adds.bind (fun w => ?_) fun vs => ?_
    · exact Given.remains_mapM arguments w.store
    · exact (hcall v vs line).bind fun _ => h.pure _

end Session

/-! ## Instances -/

/-- A call of a class makes an instance of it, whatever the arguments. -/
theorem callWithin_class (depth : Nat) (c : ClassId) (arguments : List Value) (line : Nat)
    (w : World) : callWithin depth (.ofClass c) arguments line w =
      (.done (.object ⟨w.store.instances.size⟩), { w with store := (w.store.newInstance c).2 }) := by
  cases depth <;> rfl

theorem Store.instances_newInstance (c : ClassId) (s : Store) :
    (s.newInstance c).2.instances[s.instances.size]? = some c := by
  simp [Store.newInstance]

/-! ## Declarations -/

theorem Store.declared_declare (scope : ScopeId) (name : String) (ms : List MethodDecl)
    (s : Store) : (s.declare scope name ms).Declared scope name ms
      (s.newUserClass scope name ms).1 s.methods.size :=
  (s.declared_newUserClass scope name ms).remains (keeps_bind ..).remains

theorem Store.local?_declare {s : Store} {scope : ScopeId} (h : scope.index < s.scopes.size)
    (name : String) (ms : List MethodDecl) : (s.declare scope name ms).local? scope name =
      some (.ofClass (s.newUserClass scope name ms).1) :=
  have hsize := Nat.lt_of_lt_of_le h (s.keeps_newUserClass scope name ms).size
  (local?_bind scope name _ _ scope name).trans (if_pos ⟨rfl, rfl, hsize⟩)

/-- A declaration binds a class that from then on gives the last of its static methods with a name,
while all its instances, whenever they are made and read, give the last of the others, or the class
itself under the reserved name. What has been made remains in all evaluations and in all steps of
sessions, so any store that comes after is meant. -/
theorem declareClass_divides (call : Caller) {scope : ScopeId} (name : String)
    (methods : List MethodDecl) (line : Nat) {w : World}
    (hscope : scope.index < w.store.scopes.size) :
    (∃ c first t,
      (Statement.declareClass name methods line).run call scope w =
        (.done (), { w with store := t }) ∧
      t.local? scope name = some (.ofClass c) ∧
      ∀ u, t.Remains u → u.DividesMembers scope name methods c first ∧
        ∀ depth arguments line console, ∃ o v,
          callWithin depth (.ofClass c) arguments line ⟨u, console⟩ =
            (.done (.object o), ⟨v, console⟩) ∧
          ∀ later, v.Remains later → later.instances[o.index]? = some c ∧
            later.DividesMembers scope name methods c first) ∧
    (∀ depth (w : World),
      (∀ scope (e : Expr), w.store.Remains (e.eval (callWithin depth) scope w).2.store) ∧
      (∀ scope (s : Statement), w.store.Remains (s.run (callWithin depth) scope w).2.store) ∧
      ∀ v arguments line, w.store.Remains (callWithin depth v arguments line w).2.store) ∧
    ∀ depth (s : Session) step, s.world.store.Remains (s.step depth step).2.world.store := by
  refine ⟨⟨(w.store.newUserClass scope name methods).1, w.store.methods.size,
    w.store.declare scope name methods,
    congrFun (Statement.run_declareClass call scope name methods line) w,
    Store.local?_declare hscope name methods, fun u hu => ?_⟩, fun depth w => ⟨?_, ?_, ?_⟩,
    fun depth s step => s.remains_step depth step⟩
  · have hdeclared := (w.store.declared_declare scope name methods).remains hu
    refine ⟨hdeclared.dividesMembers, fun depth arguments line console => ?_⟩
    refine ⟨_, _, callWithin_class depth _ arguments line ⟨u, console⟩, fun later hlater => ?_⟩
    have hmade := (u.keeps_newInstance (w.store.newUserClass scope name methods).1).remains
    refine ⟨?_, (hdeclared.remains (hmade.trans hlater)).dividesMembers⟩
    exact Store.getElem?_of_isPrefix hlater.instances (Store.instances_newInstance _ u)
  · exact fun scope e => Action.adds_eval depth scope e w
  · exact fun scope s => Action.closedInRuns_adds.run (Action.adds_callWithin depth) scope s w
  · exact fun v arguments line => Action.adds_callWithin depth v arguments line w

/-- Of two static methods of a name the class gives the second. -/
theorem declareClass_divides_three :
    Store.globals.index < Store.initial.scopes.size ∧
      let f (isStatic : Bool) : MethodDecl := ⟨⟨.package, isStatic, ⟨"void", 0⟩, "f", [], 1⟩, []⟩
      ∃ c first t,
        (Statement.declareClass "A" [f true, f false, f true] 1).run (callWithin 0) Store.globals
          ⟨Store.initial, .start .empty none⟩ = (.done (), ⟨t, .start .empty none⟩) ∧
        t.member (.ofClass c) "f" 1 = .done (.method ⟨first + 2⟩) := by
  have hscope : Store.globals.index < Store.initial.scopes.size := by decide
  refine ⟨hscope, ?_⟩
  intro f
  obtain ⟨c, first, t, hrun, -, hlater⟩ := (declareClass_divides (callWithin 0) "A"
    [f true, f false, f true] 1 (w := ⟨Store.initial, .start .empty none⟩) hscope).1
  refine ⟨c, first, t, hrun, ?_⟩
  obtain ⟨k, m, hlast, hread⟩ := (hlater t (.refl t)).1.static "f" 1 ⟨f true, by simp, rfl, rfl⟩
  have hk : k < 3 := (List.getElem?_eq_some_iff.1 hlast.place).1
  have hafter : ¬ k < 2 := fun h => hlast.last 2 (f true) h rfl ⟨rfl, rfl⟩
  rw [hread, show k = 2 by omega]

end SmallJava
