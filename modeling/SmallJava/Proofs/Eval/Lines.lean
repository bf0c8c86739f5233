/-
Runs and lines. A run of a program with a function applied to its lines does what the run of the
program does, and the function is applied to the line of its fault and to the methods it makes. This
holds as long as no method of the store answers with the line it is called on, as those of the
library do not and no method of a program can. Main statement: `Program.run_mapLines`.
-/
import SmallJava.Eval.Call
import SmallJava.Proofs.Store.Lines

namespace SmallJava

/-! ## Methods that do not tell lines -/

/-- The method does not answer with the line it is called on. -/
def Method.Lineless (m : Method) : Prop := m.body ≠ .host (.react .callLine)

instance (m : Method) : Decidable m.Lineless :=
  match h : m.body with
  | .declared .. => isTrue (by rw [Method.Lineless, h]; exact fun he => by cases he)
  | .host op =>
    if ho : op = .react .callLine then isFalse fun hm => hm (by rw [h, ho])
    else isTrue (by rw [Method.Lineless, h]; exact fun he => ho (by cases he; rfl))

/-- No method of the store answers with the line it is called on. -/
def Store.Lineless (s : Store) : Prop := ∀ m ∈ s.methods, m.Lineless

theorem Store.Lineless.newMethod {s : Store} (hs : s.Lineless) {m : Method} (hm : m.Lineless) :
    (s.newMethod m).2.Lineless := by
  intro m' h
  rcases Array.mem_push.1 h with h | rfl
  · exact hs m' h
  · exact hm

theorem Store.Lineless.newMembers {s : Store} (hs : s.Lineless) (scope : ScopeId)
    (ms : List MethodDecl) (statics members : Table Value) :
    (Store.newMembers scope ms statics members s).2.Lineless := by
  induction ms generalizing statics members s with
  | nil => exact hs
  | cons m ms ih =>
    have first : (s.newDeclared scope m).2.Lineless := hs.newMethod fun h => by cases h
    simp only [Store.newMembers]
    split
    · exact ih first _ _
    · exact ih first _ _

theorem Store.Lineless.newUserClass {s : Store} (hs : s.Lineless) (scope : ScopeId) (name : String)
    (ms : List MethodDecl) : (s.newUserClass scope name ms).2.Lineless :=
  hs.newMembers scope ms .empty .empty

theorem Store.Lineless.bindAll {s : Store} (hs : s.Lineless) (scope : ScopeId)
    (bindings : List (String × Value)) : (s.bindAll scope bindings).Lineless := by
  induction bindings generalizing s with
  | nil => exact hs
  | cons b bindings ih => exact ih (s := s.bind scope b.1 b.2) hs

/-! ## Actions and lines -/

/-- The second action does in a world with a function applied to its lines what the first does in the
world itself; `g` relates what they come to. -/
def Action.Commutes {α β : Type} (f : Nat → Nat) (g : α → β) (x : Action α) (y : Action β) : Prop :=
  ∀ w : World, w.store.Lineless → (x w).2.store.Lineless ∧
    y (w.mapLines f) = ((x w).1.mapLine f g, (x w).2.mapLines f)

namespace Action

variable {α β γ δ : Type} {f : Nat → Nat}

theorem commutes_pure (g : α → β) (a : α) : Commutes f g (pure a) (pure (g a)) :=
  fun _ hw => ⟨hw, rfl⟩

theorem commutes_fail (g : α → β) (e : Fault) : Commutes f g (fail e) (fail (e.mapLine f)) :=
  fun _ hw => ⟨hw, rfl⟩

theorem commutes_stuck (g : α → β) : Commutes f g stuck stuck := fun _ hw => ⟨hw, rfl⟩

theorem commutes_tooDeep (g : α → β) : Commutes f g tooDeep tooDeep := fun _ hw => ⟨hw, rfl⟩

theorem Commutes.bind {g : α → β} {k : γ → δ} {x : Action α} {y : Action β} {p : α → Action γ}
    {q : β → Action δ} (h : Commutes f g x y) (hp : ∀ a, Commutes f k (p a) (q (g a))) :
    Commutes f k (x >>= p) (y >>= q) := by
  intro w hw
  obtain ⟨first, hy⟩ := h w hw
  rw [bind_apply, bind_apply, hy]
  generalize x w = r at first
  obtain ⟨outcome, v⟩ := r
  cases outcome with
  | done a => exact hp a v first
  | fault e => exact ⟨first, rfl⟩
  | tooDeep => exact ⟨first, rfl⟩
  | stuck => exact ⟨first, rfl⟩

theorem commutes_ask {g : α → β} {question : Store → α} {question' : Store → β}
    (h : ∀ s : Store, question' (s.mapLines f) = g (question s)) :
    Commutes f g (ask question) (ask question') := fun w hw =>
  ⟨hw, Prod.ext (congrArg Outcome.done (h w.store)) rfl⟩

theorem commutes_demand {question question' : Store → Outcome α}
    (h : ∀ s : Store, question' (s.mapLines f) = (question s).mapLine f id) :
    Commutes f id (demand question) (demand question') := fun w hw =>
  ⟨hw, Prod.ext (h w.store) rfl⟩

theorem commutes_make {make' : Store → α × Store} {make'' : Store → α × Store}
    (hl : ∀ s : Store, s.Lineless → (make' s).2.Lineless)
    (h : ∀ s : Store, make'' (s.mapLines f) = ((make' s).1, (make' s).2.mapLines f)) :
    Commutes f id (make make') (make make'') := fun w hw =>
  ⟨hl w.store hw, by simp only [make, World.mapLines, h]; rfl⟩

theorem commutes_bindName (scope : ScopeId) (name : String) (v : Value) :
    Commutes f id (bindName scope name v) (bindName scope name v) :=
  commutes_make (fun _ hs => hs) fun _ => rfl

/-! ## The console -/

theorem commutes_print (text : String) (line : Nat) :
    Commutes f id (print text line) (print text (f line)) := by
  intro w hw
  simp only [print, World.mapLines]
  split <;> exact ⟨hw, rfl⟩

theorem commutes_take (read : Console → Console.Taken × Console) (line : Nat) :
    Commutes f id (take read line) (take read (f line)) := by
  intro w hw
  simp only [take, World.mapLines]
  split <;> exact ⟨hw, rfl⟩

/-! ## The library -/

theorem commutes_number (v : Value) (method : String) (line : Nat) :
    Commutes f id (number v method line) (number v method (f line)) := by
  unfold number
  split
  · exact commutes_pure id _
  · exact commutes_fail id _

theorem commutes_chars (v : Value) (method : String) (line : Nat) :
    Commutes f id (chars v method line) (chars v method (f line)) := by
  unfold chars
  split
  · exact commutes_pure id _
  · exact commutes_fail id _

theorem commutes_integer (cs : List Char) (line : Nat) :
    Commutes f id (integer cs line) (integer cs (f line)) := by
  unfold integer
  split
  · exact commutes_pure id _
  · exact commutes_fail id _

theorem commutes_decimal (cs : List Char) (method : String) (line : Nat) :
    Commutes f id (decimal cs method line) (decimal cs method (f line)) := by
  unfold decimal
  split
  · exact commutes_pure id _
  · exact commutes_fail id _

theorem commutes_text (v : Value) : Commutes f id (ask (·.text v)) (ask (·.text v)) :=
  commutes_ask fun s => s.text_mapLines f v

theorem commutes_printLines (line : Nat) (vs : List Value) :
    Commutes f id (printLines line vs) (printLines (f line) vs) := by
  induction vs with
  | nil => exact commutes_pure id ()
  | cons v vs ih =>
    exact (commutes_text v).bind fun text => (commutes_print (text ++ "\n") line).bind fun _ => ih

end Action

theorem Reaction.commutes_answer {f : Nat → Nat} {r : Reaction} (h : r ≠ .callLine)
    (arguments : List Value) (line : Nat) :
    Action.Commutes f id (r.answer arguments line) (r.answer arguments (f line)) := by
  cases r with
  | firstArgument => exact Action.commutes_pure id _
  | argumentCount => exact Action.commutes_pure id _
  | callLine => exact absurd rfl h
  | failure => exact Action.commutes_fail id _

theorem HostOp.commutes_perform {f : Nat → Nat} {op : HostOp} (h : op ≠ .react .callLine)
    (arguments : List Value) (line : Nat) :
    Action.Commutes f id (op.perform arguments line) (op.perform arguments (f line)) := by
  unfold HostOp.perform
  split
  · exact (Action.commutes_print _ line).bind fun _ => Action.commutes_pure id _
  · exact (Action.commutes_printLines line _).bind fun _ => Action.commutes_pure id _
  · exact (Action.commutes_text _).bind fun _ => (Action.commutes_print _ line).bind fun _ =>
      Action.commutes_pure id _
  · exact (Action.commutes_number _ _ line).bind fun _ => Action.commutes_pure id _
  · exact (Action.commutes_number _ _ line).bind fun _ =>
      (Action.commutes_number _ _ line).bind fun _ => Action.commutes_pure id _
  · exact (Action.commutes_chars _ _ line).bind fun _ => Action.commutes_integer _ line
  · exact (Action.commutes_chars _ _ line).bind fun _ => Action.commutes_decimal _ _ line
  · exact (Action.commutes_take _ line).bind fun _ => Action.commutes_pure id _
  · exact (Action.commutes_take _ line).bind fun _ => Action.commutes_pure id _
  · exact (Action.commutes_take _ line).bind fun _ => Action.commutes_integer _ line
  · exact (Action.commutes_take _ line).bind fun _ => Action.commutes_decimal _ _ line
  · exact Reaction.commutes_answer (fun hr => h (by rw [hr])) _ line
  · exact Action.commutes_stuck id

/-! ## The evaluator -/

/-- A call on the line of another does what the other does. -/
def Caller.Commutes (f : Nat → Nat) (call : Caller) : Prop :=
  ∀ v arguments line,
    Action.Commutes f id (call v arguments line) (call v arguments (f line))

variable {f : Nat → Nat} {call : Caller}

theorem Action.commutes_lookup (scope : ScopeId) (name : String) (line : Nat) :
    Commutes f id (lookup scope name line) (lookup scope name (f line)) := by
  refine commutes_demand fun s => ?_
  rw [s.get?_mapLines]
  cases s.get? scope name <;> rfl

theorem Action.commutes_member (owner : Value) (name : String) (line : Nat) :
    Commutes f id (member owner name line) (member owner name (f line)) :=
  commutes_demand fun s => s.member_mapLines f owner name line

theorem Action.commutes_operate (op : Operator) (left right : Value) (line : Nat) :
    Commutes f id (operate op left right line) (operate op left right (f line)) := by
  refine commutes_demand fun s => ?_
  rw [s.apply?_mapLines]
  cases Operator.apply? op s left right <;> rfl

theorem Action.commutes_importPath (path : List Segment) (line : Nat) :
    Commutes f id (importPath path line) (importPath path (f line)) := by
  intro w hw
  simp only [importPath, World.mapLines, Store.follow_mapLines]
  cases w.store.follow Store.globals path with
  | ok bindings =>
    refine ⟨hw.bindAll Store.globals bindings, ?_⟩
    dsimp only
    rw [Store.bindAll_mapLines]
    rfl
  | error segment => exact ⟨hw, rfl⟩

mutual

theorem Expr.commutes_eval (hc : call.Commutes f) (scope : ScopeId) :
    ∀ e : Expr, Action.Commutes f id (e.eval call scope) ((e.mapLines f).eval call scope)
  | .literal v line => Action.commutes_pure id v.value
  | .name n line => Action.commutes_lookup scope n line
  | .assign target value line => by
    cases target with
    | name n _ =>
      exact (Expr.commutes_eval hc scope value).bind fun v =>
        (Action.commutes_bindName scope n v).bind fun _ => Action.commutes_pure id v
    | _ =>
      -- the text of the target in the fault does not depend on its lines
      simp only [Expr.mapLines, Expr.eval]
      rw [← Expr.source_mapLines f]
      exact Action.commutes_fail id _
  | .binary op left right line =>
    (Expr.commutes_eval hc scope left).bind fun l => (Expr.commutes_eval hc scope right).bind fun r =>
      Action.commutes_operate op l r line
  | .access parent member line =>
    (Expr.commutes_eval hc scope parent).bind fun owner =>
      Action.commutes_member owner member line
  | .call callee arguments line =>
    (Expr.commutes_eval hc scope callee).bind fun v =>
      (Expr.commutes_evalAll hc scope arguments).bind fun vs => hc v vs line

theorem Expr.commutes_evalAll (hc : call.Commutes f) (scope : ScopeId) :
    ∀ es : List Expr, Action.Commutes f id (Expr.evalAll call scope es)
      (Expr.evalAll call scope (Expr.mapLinesOfArguments f es))
  | [] => Action.commutes_pure id []
  | e :: es =>
    (Expr.commutes_eval hc scope e).bind fun v => (Expr.commutes_evalAll hc scope es).bind fun vs =>
      Action.commutes_pure id (v :: vs)

end

/-! ## Entry points -/

theorem Action.fetch_of_none {α : Type} {id : MethodId} {w : World}
    (h : w.store.methods[id.index]? = none) (k : Method → Action α) :
    (ask (·.methods[id.index]?) >>= fun m => required m >>= k) w = (.stuck, w) := by
  simp [bind_apply, ask, h, required, stuck]

theorem Action.fetch_of_some {α : Type} {id : MethodId} {w : World} {m : Method}
    (h : w.store.methods[id.index]? = some m) (k : Method → Action α) :
    (ask (·.methods[id.index]?) >>= fun m => required m >>= k) w = k m w := by
  simp [bind_apply, ask, h, required]

theorem Action.enter_of_none {scope : ScopeId} {w : World} (h : w.store.entryPoint? scope = none) :
    enter call scope w = (.fault .noEntryPoint, w) := by
  unfold enter
  simp [bind_apply, ask, h, fail]

theorem Action.enter_of_some {scope : ScopeId} {w : World} {start : MethodId} {m : Method}
    (h : w.store.entryPoint? scope = some start) (hm : w.store.methods[start.index]? = some m) :
    enter call scope w =
      (call (.method start) [entryArgument] m.line >>= fun _ => pure () : Action Unit) w := by
  unfold enter
  rw [bind_apply]
  simp only [ask, h]
  exact fetch_of_some hm fun m => call (.method start) [entryArgument] m.line >>= fun _ => pure ()

/-- The entry point is called on the line of its method, which is one of the program. -/
theorem Action.commutes_enter (hc : call.Commutes f) (scope : ScopeId) :
    Commutes f id (enter call scope) (enter call scope) := by
  intro w hw
  have hpoint := w.store.entryPoint?_mapLines f scope
  cases h : w.store.entryPoint? scope with
  | none =>
    rw [enter_of_none h, enter_of_none (w := w.mapLines f) (hpoint.trans h)]
    exact ⟨hw, rfl⟩
  | some start =>
    -- a method of the library would keep its line, which is zero
    obtain ⟨m, hm, hd⟩ := Store.isDeclared_of_entryPoint? h
    have hm' : (w.mapLines f).store.methods[start.index]? = some (m.mapLines f) := by
      rw [World.mapLines, Store.methods_mapLines, hm, Option.map_some]
    rw [enter_of_some h hm, enter_of_some (hpoint.trans h) hm', m.line_mapLines f hd]
    exact (hc (.method start) [entryArgument] m.line).bind (fun _ => commutes_pure id ()) w hw

theorem Statement.commutes_run (hc : call.Commutes f) (scope : ScopeId) (s : Statement) :
    Action.Commutes f id (s.run call scope) ((s.mapLines f).run call scope) := by
  cases s with
  | importPath path line => exact Action.commutes_importPath path line
  | declareClass name methods line =>
    refine Action.Commutes.bind (g := id) ?_ fun c => Action.commutes_bindName scope name (.ofClass c)
    exact Action.commutes_make (fun s hs => hs.newUserClass scope name methods) fun s =>
      s.newUserClass_mapLines f scope name methods
  | expression value line =>
    exact (Expr.commutes_eval hc scope value).bind fun _ => Action.commutes_pure id ()
  | declareVariable type name value line =>
    cases value with
    | none => exact Action.commutes_bindName scope name .null
    | some value =>
      exact (Expr.commutes_eval hc scope value).bind fun v => Action.commutes_bindName scope name v
  | entry => exact Action.commutes_enter hc scope

theorem Statement.commutes_runAll (hc : call.Commutes f) (scope : ScopeId) (ss : List Statement) :
    Action.Commutes f id (Statement.runAll call scope ss)
      (Statement.runAll call scope (mapLinesOfBody f ss)) := by
  induction ss with
  | nil => exact Action.commutes_pure id ()
  | cons s ss ih => exact (Statement.commutes_run hc scope s).bind fun _ => ih

/-! ## Calls -/

/-- What runs statements does the same with their lines changed. -/
def Runner.Commutes (f : Nat → Nat) (run : Runner) : Prop :=
  ∀ scope ss, Action.Commutes f id (run scope ss) (run scope (mapLinesOfBody f ss))

theorem Method.commutes_call {run : Runner} (hr : run.Commutes f) {m : Method} (hm : m.Lineless)
    (arguments : List Value) (line : Nat) :
    Action.Commutes f id (m.call run arguments line)
      ((m.mapLines f).call run arguments (f line)) := by
  unfold Method.call
  show Action.Commutes f id _ (if !m.variadic && arguments.length != m.params.length then _ else _)
  split
  · exact Action.commutes_fail id (.argumentCount m.name m.params.length arguments.length line)
  · obtain ⟨name, params, variadic, closure, body⟩ := m
    cases body with
    | host op => exact op.commutes_perform (fun h => hm (by rw [h])) arguments line
    | declared _ statements =>
      refine Action.Commutes.bind (g := id) (Action.commutes_make (fun _ hs => hs) fun _ => rfl)
        fun scope => ?_
      exact (hr scope statements).bind fun _ => Action.commutes_pure id Value.null

theorem Value.commutes_call {run : Runner} (hr : run.Commutes f) : (Value.call run).Commutes f := by
  intro v arguments line
  cases v with
  | method id =>
    intro w hw
    have hm' : (w.mapLines f).store.methods[id.index]? = _ := w.store.methods_mapLines f id
    cases h : w.store.methods[id.index]? with
    | none =>
      rw [h] at hm'
      simp only [Value.call, Action.fetch_of_none h, Action.fetch_of_none hm']
      exact ⟨hw, rfl⟩
    | some m =>
      rw [h] at hm'
      simp only [Value.call, Action.fetch_of_some h, Action.fetch_of_some hm']
      -- the method is one of the store, so it does not tell the line
      exact Method.commutes_call hr (hw m (Array.mem_of_getElem? h)) arguments line w hw
  | ofClass c =>
    exact Action.Commutes.bind (g := id) (Action.commutes_make (fun _ hs => hs) fun _ => rfl)
      fun object => Action.commutes_pure id (Value.object object)
  | _ => exact Action.commutes_fail id _

theorem commutes_callWithin (f : Nat → Nat) (depth : Nat) : (callWithin depth).Commutes f := by
  induction depth with
  | zero => exact Value.commutes_call fun _ _ => Action.commutes_tooDeep id
  | succ depth ih => exact Value.commutes_call fun scope ss => Statement.commutes_runAll ih scope ss

end SmallJava
