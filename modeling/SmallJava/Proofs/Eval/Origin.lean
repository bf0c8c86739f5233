/-
Where the methods in a store come from. Evaluation makes methods of declarations only, and calls run
bodies of methods that were made before, so in a run every method of the program is one that the
program declares, at whatever depth. Main statement: `Program.from_history`.
-/
import SmallJava.Proofs.Eval.Soundness
import SmallJava.Proofs.Store.Declared
import SmallJava.Proofs.Syntax.Parts

namespace SmallJava

variable {parts : List Program.Part}

theorem MethodDecl.mem_parts (m : MethodDecl) : .method m ∈ m.parts := by
  cases m
  exact List.mem_cons_self

theorem MethodDecl.body_subset (m : MethodDecl) : partsOfBody m.body ⊆ m.parts := by
  cases m
  exact fun part h => List.mem_cons_of_mem _ (List.mem_append_right _ h)

theorem parts_subset_of_mem {ms : List MethodDecl} {m : MethodDecl} (h : m ∈ ms) :
    m.parts ⊆ partsOfMethods ms := by
  induction ms with
  | nil => cases h
  | cons first ms ih =>
    rw [partsOfMethods]
    rcases List.mem_cons.1 h with rfl | h
    · exact List.subset_append_left _ _
    · exact List.Subset.trans (ih h) (List.subset_append_right _ _)

/-! ## Stores -/

/-- Every method of the program in the store was declared: its declaration is among the parts, with
all its own parts. -/
def Store.From (parts : List Program.Part) (s : Store) : Prop :=
  ∀ m ∈ s.methods, m.isDeclared = true →
    ∃ decl : MethodDecl, decl.parts ⊆ parts ∧ m = decl.method m.closure

/-- The library has no methods of a program. -/
theorem Library.from_store (parts : List Program.Part) : Library.store.From parts := by
  have h : ∀ m ∈ Library.store.methods, m.isDeclared = false := by decide +kernel
  intro m hm hd
  rw [h m hm] at hd
  cases hd

namespace Store

variable {s t : Store}

theorem From.of_methods (h : s.From parts) (hm : t.methods = s.methods) : t.From parts := by
  rw [From, hm]
  exact h

/-- What holds of all methods later on holds of those there were before. -/
theorem From.of_extends (h : t.From parts) (he : s.Extends t) : s.From parts :=
  fun m hm => h m (Array.mem_toList_iff.1 (he.methods.subset (Array.mem_toList_iff.2 hm)))

theorem From.newUserClass (h : s.From parts) (scope : ScopeId) (name : String)
    {ms : List MethodDecl} (hms : partsOfMethods ms ⊆ parts) :
    (s.newUserClass scope name ms).2.From parts := by
  rw [newUserClass_eq]
  intro m hm hd
  rcases Array.mem_append.1 hm with hm | hm
  · exact h m hm hd
  · obtain ⟨decl, hdecl, rfl⟩ := List.mem_map.1 (List.mem_toArray.1 hm)
    exact ⟨decl, List.Subset.trans (parts_subset_of_mem hdecl) hms, rfl⟩

theorem MadeInCalls.methods {α : Type} {f : Store → α × Store} (hf : MadeInCalls f) (s : Store) :
    (f s).2.methods = s.methods := by
  obtain ⟨scopes, instances, -, h⟩ := hf.exists_eq s
  rw [h]

end Store

/-! ## Actions -/

/-- The action leaves a store with methods of the parts if it starts in one. -/
def Action.KeepsFrom (parts : List Program.Part) {α : Type} (x : Action α) : Prop :=
  ∀ w : World, w.store.From parts → (x w).2.store.From parts

namespace Action

variable {α β : Type}

theorem Quiet.keepsFrom {x : Action α} (h : x.Quiet) : x.KeepsFrom parts := fun w hw =>
  (h w).symm ▸ hw

theorem KeepsFrom.bind {x : Action α} {f : α → Action β} (hx : x.KeepsFrom parts)
    (hf : ∀ a, (f a).KeepsFrom parts) : (x >>= f).KeepsFrom parts := by
  intro w hw
  rcases bind_snd x f w with h | ⟨a, h⟩
  · rw [h]
    exact hx w hw
  · rw [h]
    exact hf a _ (hx w hw)

theorem closedInCalls_keepsFrom (parts : List Program.Part) : ClosedInCalls (KeepsFrom parts) where
  bind := KeepsFrom.bind
  demand question := (quiet_demand question).keepsFrom
  make hf w hw := hw.of_methods (hf.methods w.store)
  print text line := (quiet_print text line).keepsFrom
  nextLine line := (quiet_take Console.nextLine line).keepsFrom
  nextWord line := (quiet_take Console.nextWord line).keepsFrom

end Action

/-! ## The evaluator -/

open Action

theorem Statement.keepsFrom_run {call : Caller}
    (hc : ∀ v arguments line, (call v arguments line).KeepsFrom parts) (scope : ScopeId)
    (s : Statement) (hs : s.parts ⊆ parts) : (s.run call scope).KeepsFrom parts := by
  have h := closedInCalls_keepsFrom parts
  cases s with
  | importPath path line => exact h.importPath path line
  | declareClass name methods line =>
    have hmethods : partsOfMethods methods ⊆ parts := fun part hpart =>
      hs (List.mem_cons_of_mem _ (List.mem_cons_of_mem _ hpart))
    rw [run_declareClass]
    exact fun w hw => (hw.newUserClass scope name hmethods).of_methods rfl
  | expression value line => exact h.bind (h.eval hc scope value) fun _ => h.pure ()
  | declareVariable type name value line =>
    cases value with
    | none => exact h.bindName scope name .null
    | some value => exact h.bind (h.eval hc scope value) fun v => h.bindName scope name v
  | entry => exact h.enter hc scope

theorem Statement.keepsFrom_runAll {call : Caller}
    (hc : ∀ v arguments line, (call v arguments line).KeepsFrom parts) (scope : ScopeId)
    (ss : List Statement) (hss : partsOfBody ss ⊆ parts) :
    (Statement.runAll call scope ss).KeepsFrom parts := by
  induction ss with
  | nil => exact (closedInCalls_keepsFrom parts).pure ()
  | cons s ss ih =>
    rw [partsOfBody, List.append_subset] at hss
    exact (Statement.keepsFrom_run hc scope s hss.1).bind fun _ => ih hss.2

/-- A call of a method that is in the store. -/
theorem Value.call_method {run : Runner} {id : MethodId} {w : World} {m : Method}
    (hm : w.store.methods[id.index]? = some m) (arguments : List Value) (line : Nat) :
    Value.call run (.method id) arguments line w = m.call run arguments line w := by
  simp only [Value.call, bind_apply, ask, hm, required, pure_apply]

/-- A call runs the body of a method that is in the store, so of one of the parts. -/
theorem Value.keepsFrom_call {run : Runner}
    (hr : ∀ scope ss, partsOfBody ss ⊆ parts → (run scope ss).KeepsFrom parts) (v : Value)
    (arguments : List Value) (line : Nat) : (v.call run arguments line).KeepsFrom parts := by
  have h := closedInCalls_keepsFrom parts
  cases v with
  | method id =>
    intro w hw
    cases hm : w.store.methods[id.index]? with
    | none => simpa only [Value.call, bind_apply, ask, hm, required, stuck] using hw
    | some m =>
      rw [Value.call_method hm]
      unfold Method.call
      split
      · exact hw
      · cases hbody : m.body with
        | host op => exact h.perform op arguments line w hw
        | declared first statements =>
          obtain ⟨decl, hparts, hdecl⟩ :=
            hw m (Array.mem_of_getElem? hm) (by rw [Method.isDeclared, hbody])
          have hstatements : statements = decl.body := by
            rw [hdecl] at hbody
            cases hbody
            rfl
          have hsubset : partsOfBody statements ⊆ parts := by
            rw [hstatements]
            exact List.Subset.trans decl.body_subset hparts
          exact (h.bind (h.make (.newScope _ m.closure)) fun scope =>
            h.bind (hr scope statements hsubset) fun _ => h.pure _) w hw
  | ofClass id => exact h.bind (h.make (.newInstance id)) fun _ => h.pure _
  | _ => exact h.fail _

theorem keepsFrom_callWithin (depth : Nat) (v : Value) (arguments : List Value) (line : Nat) :
    (callWithin depth v arguments line).KeepsFrom parts := by
  induction depth generalizing v arguments line with
  | zero => exact v.keepsFrom_call (fun _ _ _ => (closedInCalls_keepsFrom parts).tooDeep) _ _
  | succ depth ih => exact v.keepsFrom_call (Statement.keepsFrom_runAll ih) _ _

/-! ## Runs -/

theorem Program.from_run (depth : Nat) (p : Program) {w : World} (hw : w.store.From p.parts) :
    (p.run depth w).2.store.From p.parts :=
  Statement.keepsFrom_runAll (keepsFrom_callWithin depth) Store.globals p.statements
    (List.Subset.refl _) w hw

/-- At every moment of a run all methods of the program are its own. -/
theorem Program.from_history (depth : Nat) (p : Program) (console : Console) :
    ∀ moment ∈ p.history depth console, moment.store.From p.parts := by
  intro moment hm
  have hextends := (p.history_extends depth console moment hm).2
  have hfrom := Library.from_store p.parts
  -- what the library holds does not matter, and must not be computed
  generalize Library.store = s at hextends hfrom
  exact (p.from_run depth (w := ⟨s, console⟩) hfrom).of_extends hextends

end SmallJava
