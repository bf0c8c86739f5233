/-
No run gets stuck. Every method of the library has a parameter for each argument that its operation
reads, or takes any number of arguments and its operation asks how many there are; calls check the
number, and all that is referred to is in the store. Main statement: `runSource_never_stuck`, for
every source text, input and limit of the output, with the cuts that reading makes in texts.
-/
import SmallJava.Proofs.Eval.Soundness
import SmallJava.Proofs.Text.Cut

namespace SmallJava

/-! ## Actions that cannot get stuck -/

/-- Whatever the world is, the action does not get stuck. -/
def Action.Unstuck {α : Type} (x : Action α) : Prop := ∀ w, (x w).1 ≠ .stuck

namespace Action

variable {α β : Type}

theorem unstuck_pure (a : α) : (pure a : Action α).Unstuck := fun _ h => by cases h

theorem unstuck_fail (e : Fault) : (fail e : Action α).Unstuck := fun _ h => by cases h

theorem unstuck_ask (question : Store → α) : (ask question).Unstuck := fun _ h => by cases h

theorem unstuck_print (text : String) (line : Nat) : (print text line).Unstuck := by
  intro w h
  unfold print at h
  split at h <;> cases h

theorem unstuck_take (f : Console → Console.Taken × Console) (line : Nat) :
    (take f line).Unstuck := by
  intro w h
  unfold take at h
  split at h <;> cases h

theorem Unstuck.bind {x : Action α} {f : α → Action β} (hx : x.Unstuck)
    (hf : ∀ a, (f a).Unstuck) : (x >>= f).Unstuck := by
  intro w
  have h := hx w
  rw [bind_apply]
  generalize x w = r at h
  obtain ⟨outcome, v⟩ := r
  cases outcome with
  | done a => exact hf a v
  | fault e => exact fun h => by cases h
  | tooDeep => exact fun h => by cases h
  | stuck => exact absurd rfl h

theorem unstuck_number (v : Value) (method : String) (line : Nat) :
    (number v method line).Unstuck := by
  cases v with
  | number x => exact unstuck_pure x
  | _ => exact unstuck_fail _

theorem unstuck_chars (v : Value) (method : String) (line : Nat) :
    (chars v method line).Unstuck := by
  cases v with
  | text t => exact unstuck_pure t.toList
  | _ => exact unstuck_fail _

theorem unstuck_integer (cs : List Char) (line : Nat) : (integer cs line).Unstuck := by
  unfold integer
  split
  · exact unstuck_pure _
  · exact unstuck_fail _

theorem unstuck_decimal (cs : List Char) (method : String) (line : Nat) :
    (decimal cs method line).Unstuck := by
  unfold decimal
  split
  · exact unstuck_pure _
  · exact unstuck_fail _

theorem unstuck_printLines (line : Nat) (vs : List Value) : (printLines line vs).Unstuck := by
  induction vs with
  | nil => exact unstuck_pure ()
  | cons v vs ih => exact (unstuck_ask _).bind fun _ => (unstuck_print _ line).bind fun _ => ih

end Action

theorem Reaction.unstuck_answer (r : Reaction) (arguments : List Value) (line : Nat) :
    (r.answer arguments line).Unstuck := by
  cases r with
  | failure => exact Action.unstuck_fail _
  | _ => exact Action.unstuck_pure _

/-! ## What operations read -/

/-- How many arguments the operation reads without asking how many there are, so that it gets stuck
with fewer (`HostOp.perform_of_missing`). -/
def HostOp.arity : HostOp → Nat
  | print | function _ | parseInteger | parseDecimal => 1
  | operation _ => 2
  | printLines | nextLine | nextWord | nextInteger | nextDecimal | react _ => 0

/-- With an argument for each one it reads an operation does not get stuck. -/
theorem HostOp.unstuck_perform {op : HostOp} {arguments : List Value}
    (h : op.arity ≤ arguments.length) (line : Nat) : (op.perform arguments line).Unstuck := by
  open Action in
  cases op with
  | printLines =>
    cases arguments with
    | nil => exact (unstuck_print _ line).bind fun _ => unstuck_pure _
    | cons v vs => exact (unstuck_printLines line _).bind fun _ => unstuck_pure _
  | print =>
    obtain ⟨v, vs, rfl⟩ := List.exists_cons_of_length_pos h
    exact (unstuck_ask _).bind fun _ => (unstuck_print _ line).bind fun _ => unstuck_pure _
  | function f =>
    obtain ⟨v, vs, rfl⟩ := List.exists_cons_of_length_pos h
    exact (unstuck_number v _ line).bind fun _ => unstuck_pure _
  | operation f =>
    obtain ⟨v, vs, rfl⟩ := List.exists_cons_of_length_pos (Nat.lt_of_lt_of_le Nat.two_pos h)
    obtain ⟨u, us, rfl⟩ := List.exists_cons_of_length_pos (Nat.le_of_succ_le_succ h)
    exact (unstuck_number v _ line).bind fun _ => (unstuck_number u _ line).bind fun _ =>
      unstuck_pure _
  | parseInteger =>
    obtain ⟨v, vs, rfl⟩ := List.exists_cons_of_length_pos h
    exact (unstuck_chars v _ line).bind fun cs => unstuck_integer cs line
  | parseDecimal =>
    obtain ⟨v, vs, rfl⟩ := List.exists_cons_of_length_pos h
    exact (unstuck_chars v _ line).bind fun cs => unstuck_decimal cs _ line
  | nextLine => exact (unstuck_take _ line).bind fun _ => unstuck_pure _
  | nextWord => exact (unstuck_take _ line).bind fun _ => unstuck_pure _
  | nextInteger => exact (unstuck_take _ line).bind fun cs => unstuck_integer cs line
  | nextDecimal => exact (unstuck_take _ line).bind fun cs => unstuck_decimal cs _ line
  | react r => exact r.unstuck_answer arguments line

/-- With fewer arguments than it reads an operation gets stuck at once. -/
theorem HostOp.perform_of_missing {op : HostOp} {arguments : List Value}
    (h : arguments.length < op.arity) (line : Nat) : op.perform arguments line = .stuck := by
  cases op with
  | print | function _ | parseInteger | parseDecimal =>
    cases arguments with
    | nil => rfl
    | cons v vs => exact absurd h (by simp [arity])
  | operation f =>
    match arguments with
    | [] => rfl
    | [_] => rfl
    | _ :: _ :: _ => exact absurd h (by simp [arity])
  | _ => cases h

/-! ## Methods of the library -/

/-- A call that passes the check of its arguments has all that the method's operation reads. -/
def Method.isSupplied (m : Method) : Bool :=
  match m.body with
  | .declared .. => true
  | .host op => op.arity ≤ if m.variadic then 0 else m.params.length

/-- All methods in the store get what their operations read. -/
def Store.Supplied (s : Store) : Prop := ∀ m ∈ s.methods, m.isSupplied = true

theorem Library.supplied_store : Library.store.Supplied := by
  unfold Store.Supplied
  decide +kernel

namespace Store

variable {s : Store}

/-- A method of the program reads its arguments by their names. -/
theorem Supplied.newDeclared (h : s.Supplied) (scope : ScopeId) (m : MethodDecl) :
    (s.newDeclared scope m).2.Supplied := by
  intro method hm
  rcases Array.mem_push.1 hm with hm | rfl
  · exact h method hm
  · rfl

theorem Supplied.newMembers (h : s.Supplied) (scope : ScopeId) (ms : List MethodDecl)
    (statics members : Table Value) :
    (Store.newMembers scope ms statics members s).2.Supplied := by
  induction ms generalizing statics members s with
  | nil => exact h
  | cons m ms ih =>
    simp only [Store.newMembers]
    split
    · exact ih (h.newDeclared scope m) _ _
    · exact ih (h.newDeclared scope m) _ _

theorem Supplied.bindAll (h : s.Supplied) (scope : ScopeId) (bindings : List (String × Value)) :
    (s.bindAll scope bindings).Supplied := by
  induction bindings generalizing s with
  | nil => exact h
  | cons b bindings ih => exact ih (s := s.bind scope b.1 b.2) h

/-- What holds of all methods later on holds of those there were before. -/
theorem Supplied.of_extends {t : Store} (h : t.Supplied) (he : s.Extends t) : s.Supplied :=
  fun m hm => h m (Array.mem_toList_iff.1 (he.methods.subset (Array.mem_toList_iff.2 hm)))

end Store

/-! ## Sure actions -/

/-- In the world the action does not get stuck, and all methods in the store it leaves get what
their operations read. -/
structure Watched.Sure {α : Type} (x : Watched α) (w : World) : Prop where
  unstuck : (x.action w).1 ≠ .stuck
  supplied : (x.action w).2.store.Supplied

namespace Watched

variable {α β : Type} {x : Watched α} {Q : α → Store → Prop} {w : World}

/-- An action that leaves the store alone. -/
theorem sure_quiet {x : Watched α} (h : x.action.Quiet) (hw : w.store.Supplied)
    (hx : (x.action w).1 ≠ .stuck) : x.Sure w where
  unstuck := hx
  supplied := by rw [h w]; exact hw

theorem sure_pure (a : α) (hw : w.store.Supplied) : (pure a : Watched α).Sure w :=
  sure_quiet (Action.quiet_pure a) hw (Action.unstuck_pure a w)

theorem sure_fail (e : Fault) (hw : w.store.Supplied) : (silent (.fail e) : Watched α).Sure w :=
  sure_quiet (Action.quiet_fail e) hw (Action.unstuck_fail e w)

theorem sure_bindName (hw : w.store.Supplied) (scope : ScopeId) (name : String) (v : Value) :
    (silent (.bindName scope name v)).Sure w :=
  ⟨(fun h => by cases h), hw⟩

theorem Sure.holding (h : x.Sure w) (vs : List Value) : (holding vs x).Sure w :=
  ⟨h.unstuck, h.supplied⟩

/-- What does the same as a sure action is sure. -/
theorem Sure.of_eq {y : Watched α} {v : World} (hx : x.Sure w) (h : y.action v = x.action w) :
    y.Sure v :=
  ⟨h ▸ hx.unstuck, h ▸ hx.supplied⟩

/-- One action after another: what the first comes to is good, and the second is sure of it. -/
theorem Sure.bind {f : α → Watched β} (hx : x.Sure w) (hg : x.Good Q w)
    (hf : ∀ a v, v.store.Sound → v.store.Supplied → w.store.Extends v.store → Q a v.store →
      (f a).Sure v) : (x >>= f).Sure w := by
  obtain ⟨a, v, hr⟩ | hstops := done_or_stops x w
  · have hfirst : (f a).Sure v := by
      have hsupplied := hx.supplied
      have hsound := hg.sound
      have hgrows := hg.grows
      rw [hr] at hsupplied hsound hgrows
      have hresult := hg.result a (by rw [hr])
      rw [hr] at hresult
      exact hf a v hsound hsupplied hgrows hresult
    exact hfirst.of_eq (bind_of_done hr f).2
  · obtain ⟨-, hstore, -⟩ := bind_of_stops hstops f
    refine ⟨fun h => ?_, by rw [hstore]; exact hx.supplied⟩
    rw [action_bind, Action.bind_apply] at h
    have hunstuck := hx.unstuck
    generalize x.action w = r at h hunstuck hstops
    obtain ⟨outcome, v⟩ := r
    cases outcome with
    | done a => exact hstops a rfl
    | stuck => exact hunstuck rfl
    | _ => cases h

end Watched

/-! ## The evaluator -/

/-- Calls of what is in the store, with arguments that are, are sure. -/
def WatchedCaller.Sure (call : WatchedCaller) : Prop :=
  ∀ v arguments line w, w.store.Sound → w.store.Supplied → w.store.Has v →
    (∀ a ∈ arguments, w.store.Has a) → (call v arguments line).Sure w

/-- Running statements in a scope that leads to the global one is sure. -/
def WatchedRunner.Sure (run : WatchedRunner) : Prop :=
  ∀ scope ss w, w.store.Sound → w.store.Supplied → w.store.Inner scope → (run scope ss).Sure w

open Watched

variable {call : WatchedCaller} {scope : ScopeId} {w : World}

theorem Action.lookup_ne_stuck (scope : ScopeId) (name : String) (line : Nat) (w : World) :
    (lookup scope name line w).1 ≠ .stuck := by
  simp only [lookup, demand]
  split <;> exact fun h => by cases h

theorem Action.operate_ne_stuck (op : Operator) (left right : Value) (line : Nat) (w : World) :
    (operate op left right line w).1 ≠ .stuck := by
  simp only [operate, demand]
  split <;> exact fun h => by cases h

/-- Whose members are asked for is in the store, and so is its class. -/
theorem Store.member_ne_stuck {s : Store} (h : s.Sound) {owner : Value} (ho : s.Has owner)
    (name : String) (line : Nat) : s.member owner name line ≠ .stuck := by
  have hfound (o : Option Value) : s.foundMember owner name line o ≠ .stuck := by
    cases o <;> exact fun h => by cases h
  cases owner with
  | package id =>
    have hp : s.packages[id.index]? = some s.packages[id.index] := Array.getElem?_eq_getElem ho
    simp only [member, hp]
    exact hfound _
  | ofClass id =>
    have hc : s.classes[id.index]? = some s.classes[id.index] := Array.getElem?_eq_getElem ho
    simp only [member, hc]
    exact hfound _
  | object id =>
    have hi : s.instances[id.index]? = some s.instances[id.index] := Array.getElem?_eq_getElem ho
    have hc := Array.getElem?_eq_getElem (h.instances _ (Array.getElem_mem ho))
    simp only [member, hi, hc]
    exact hfound _
  | _ => exact fun h => by cases h

mutual

theorem Expr.sure_watched (hc : call.Good) (hs : call.Sure) :
    ∀ (e : Expr) (w : World), w.store.Sound → w.store.Supplied → w.store.Inner scope →
      (e.watched call scope).Sure w
  | .literal v _, w, _, hp, _ => sure_quiet (Action.quiet_pure _) hp (Action.unstuck_pure _ w)
  | .name n line, w, _, hp, _ =>
    sure_quiet (Action.quiet_demand _) hp (Action.lookup_ne_stuck scope n line w)
  | .assign target value line, w, hw, hp, hin => by
    cases target with
    | name n _ =>
      refine (Expr.sure_watched hc hs value w hw hp hin).bind
        (Expr.good_watched hc value w hw hin) fun v u hu hpu _ hv => ?_
      exact ((sure_bindName hpu scope n v).holding [v]).bind
        ((good_bindName hu hv scope n).holding (by simpa using hv)) fun _ _ _ hpt _ _ =>
          sure_pure v hpt
    | _ => exact sure_fail _ hp
  | .binary op left right line, w, hw, hp, hin => by
    refine (Expr.sure_watched hc hs left w hw hp hin).bind
      (Expr.good_watched hc left w hw hin) fun l u hu hpu hwu hl => ?_
    refine ((Expr.sure_watched hc hs right u hu hpu (hin.mono hwu)).holding [l]).bind
      ((Expr.good_watched hc right u hu (hin.mono hwu)).holding (by simpa using hl))
      fun r t _ hpt _ _ => ?_
    exact (sure_quiet (Action.quiet_demand _) hpt
      (Action.operate_ne_stuck op l r line t)).holding [l, r]
  | .access parent member line, w, hw, hp, hin => by
    refine (Expr.sure_watched hc hs parent w hw hp hin).bind
      (Expr.good_watched hc parent w hw hin) fun owner u hu hpu _ howner => ?_
    exact (sure_quiet (Action.quiet_demand _) hpu
      (Store.member_ne_stuck hu howner member line)).holding [owner]
  | .call callee arguments line, w, hw, hp, hin => by
    refine (Expr.sure_watched hc hs callee w hw hp hin).bind
      (Expr.good_watched hc callee w hw hin) fun f u hu hpu hwu hf => ?_
    refine ((Expr.sure_watchedAll hc hs arguments u hu hpu (hin.mono hwu)).holding [f]).bind
      ((Expr.good_watchedAll hc arguments u hu (hin.mono hwu)).holding (by simpa using hf))
      fun vs t ht hpt hut hvs => ?_
    exact (hs f vs line t ht hpt (hf.mono hut) hvs).holding (f :: vs)

theorem Expr.sure_watchedAll (hc : call.Good) (hs : call.Sure) :
    ∀ (es : List Expr) (w : World), w.store.Sound → w.store.Supplied → w.store.Inner scope →
      (Expr.watchedAll call scope es).Sure w
  | [], _, _, hp, _ => sure_pure [] hp
  | e :: es, w, hw, hp, hin => by
    refine (Expr.sure_watched hc hs e w hw hp hin).bind
      (Expr.good_watched hc e w hw hin) fun v u hu hpu hwu hv => ?_
    exact ((Expr.sure_watchedAll hc hs es u hu hpu (hin.mono hwu)).holding [v]).bind
      ((Expr.good_watchedAll hc es u hu (hin.mono hwu)).holding (by simpa using hv))
      fun vs _ _ hpt _ _ => sure_pure (v :: vs) hpt

end

/-- A method that is in the store is there when it is fetched. -/
theorem Watched.Sure.fetch {β : Type} {id : MethodId} {f : Method → Watched β} {m : Method}
    (hm : w.store.methods[id.index]? = some m) (hf : (f m).Sure w) :
    (silent (.ask (·.methods[id.index]?)) >>= fun m => silent (.required m) >>= f).Sure w := by
  refine hf.of_eq ?_
  rw [(bind_of_done (a := w.store.methods[id.index]?) (v := w) rfl _).2, hm]
  exact (bind_of_done (a := m) (v := w) rfl f).2

theorem Watched.sure_enter (hc : call.Good) (hs : call.Sure) (scope : ScopeId) (w : World)
    (hw : w.store.Sound) (hp : w.store.Supplied) : (Watched.enter call scope).Sure w := by
  have hlook {found : Option MethodId} (h : w.store.entryPoint? scope = found) :
      (silent (.ask (·.entryPoint? scope))).action w = (.done found, w) :=
    congrArg (fun a => (Outcome.done a, w)) h
  cases h : w.store.entryPoint? scope with
  | none => exact (sure_fail .noEntryPoint hp).of_eq (bind_of_done (hlook h) _).2
  | some id =>
    refine Sure.of_eq ?_ (bind_of_done (hlook h) _).2
    have hid := hw.entryPoint? h
    have harguments : ∀ a ∈ [entryArgument], w.store.Has a := by
      intro a ha
      rw [List.mem_singleton.1 ha]
      trivial
    refine Sure.fetch (Array.getElem?_eq_getElem hid) ?_
    exact ((hs _ _ _ w hw hp hid harguments).holding _).bind
      ((hc _ _ _ w hw hid harguments).holding (List.forall_mem_cons.2 ⟨hid, harguments⟩))
      fun _ _ _ hpt _ _ => sure_pure () hpt

theorem Statement.sure_watched (hc : call.Good) (hs : call.Sure) (s : Statement) (w : World)
    (hw : w.store.Sound) (hp : w.store.Supplied) (hin : w.store.Inner scope) :
    (s.watched call scope).Sure w := by
  cases s with
  | importPath path line =>
    refine ⟨?_, ?_⟩
    · show ((Watched.importPath path line).action w).1 ≠ .stuck
      rw [action_importPath, Action.importPath]
      split <;> exact fun h => by cases h
    · show ((Watched.importPath path line).action w).2.store.Supplied
      rw [action_importPath, Action.importPath]
      split
      · exact hp.bindAll Store.globals _
      · exact hp
  | declareClass name methods line =>
    have hclass : (newUserClass scope name methods).Sure w := by
      refine ⟨?_, ?_⟩
      · rw [action_newUserClass]
        exact fun h => by cases h
      · rw [action_newUserClass]
        exact hp.newMembers scope methods .empty .empty
    exact hclass.bind (good_newUserClass name methods hw hin) fun c v _ hpv _ _ =>
      (sure_bindName hpv scope name (.ofClass c)).holding [.ofClass c]
  | expression value line =>
    exact (Expr.sure_watched hc hs value w hw hp hin).bind
      (Expr.good_watched hc value w hw hin) fun _ _ _ hpv _ _ => sure_pure () hpv
  | declareVariable type name value line =>
    cases value with
    | none => exact sure_bindName hp scope name .null
    | some value =>
      exact (Expr.sure_watched hc hs value w hw hp hin).bind
        (Expr.good_watched hc value w hw hin) fun v _ _ hpv _ _ =>
          (sure_bindName hpv scope name v).holding [v]
  | entry => exact sure_enter hc hs scope w hw hp

theorem Statement.sure_watchedAll (hc : call.Good) (hs : call.Sure) :
    (Statement.watchedAll call).Sure := by
  intro scope ss
  induction ss with
  | nil => exact fun w _ hp _ => sure_pure () hp
  | cons s ss ih =>
    exact fun w hw hp hin => (Statement.sure_watched hc hs s w hw hp hin).bind
      (Statement.good_watched hc s w hw hin) fun _ v hv hpv he _ => ih v hv hpv (hin.mono he)

/-! ## Calls -/

/-- A call with the wrong number of arguments comes to a fault, and one with the right number has
what the operation reads. -/
theorem Method.call_or_supplied {m : Method} {op : HostOp} (h : m.isSupplied = true)
    (hop : m.body = .host op) (arguments : List Value) :
    (∀ run line, m.call run arguments line =
      .fail (.argumentCount m.name m.params.length arguments.length line)) ∨
    op.arity ≤ arguments.length ∧ ∀ run line, m.call run arguments line =
      op.perform arguments line := by
  simp only [isSupplied, hop, decide_eq_true_eq] at h
  simp only [Method.call, hop]
  split
  · exact Or.inl fun _ _ => rfl
  · rename_i hcount
    refine Or.inr ⟨?_, fun _ _ => rfl⟩
    cases hv : m.variadic with
    | true =>
      rw [hv, if_pos rfl] at h
      exact Nat.le_trans h (Nat.zero_le _)
    | false =>
      rw [hv] at h hcount
      simpa using (show arguments.length = m.params.length by simpa using hcount) ▸ h

theorem Method.sure_watched {run : WatchedRunner} (hr : run.Good) (hs : run.Sure) (m : Method)
    (arguments : List Value) (line : Nat) (w : World) (hw : w.store.Sound)
    (hp : w.store.Supplied) (hm : m ∈ w.store.methods) (ha : ∀ a ∈ arguments, w.store.Has a) :
    (m.watched run arguments line).Sure w := by
  cases hbody : m.body with
  | host op =>
    obtain h | ⟨hcount, h⟩ := m.call_or_supplied (hp m hm) hbody arguments
    · have hsure : (silent (.fail (.argumentCount m.name m.params.length arguments.length line))
          : Watched Value).Sure w := sure_fail _ hp
      refine hsure.of_eq ?_
      rw [Method.action_watched, h]
      rfl
    · have hsure : (value (op.perform arguments line)).Sure w :=
        sure_quiet (op.quiet_perform arguments line) hp (HostOp.unstuck_perform hcount line w)
      refine hsure.of_eq ?_
      rw [Method.action_watched, h]
      rfl
  | declared first statements =>
    unfold Method.watched
    split
    · exact sure_fail _ hp
    · simp only [hbody]
      have hin : w.store.Inner m.closure := hw.declared m hm (by rw [Method.isDeclared, hbody])
      have hb : w.store.HasAll (.ofList (m.params.zip arguments)) :=
        Store.hasAll_ofList fun e he => ha e.2 (List.of_mem_zip he).2
      have hsound := hw.newScope hb hin
      have he := (w.store.keeps_newScope (.ofList (m.params.zip arguments))
        (some m.closure)).extends hw.globals.1
      refine Sure.bind (Q := fun scope s => s.Inner scope) ⟨(fun h => by cases h), hp⟩
        (good_step hsound he (fun _ _ _ h => by cases h) fun scope h => ?_)
        fun scope v hv hpv _ hscope => (hs scope statements v hv hpv hscope).bind
          (hr scope statements v hv hscope) fun _ _ _ hpt _ _ => sure_pure Value.null hpt
      cases h
      exact Store.inner_newScope _ he hin

theorem Value.sure_watched {run : WatchedRunner} (hr : run.Good) (hs : run.Sure) :
    (Value.watched run).Sure := by
  intro v arguments line w hw hp hv ha
  cases v with
  | method id =>
    exact Sure.fetch (Array.getElem?_eq_getElem hv)
      (Method.sure_watched hr hs _ arguments line w hw hp (Array.getElem_mem hv) ha)
  | ofClass id => exact ⟨(fun h => by cases h), hp⟩
  | _ => exact sure_fail _ hp

/-- Calls are sure, however deep they may be nested. -/
theorem sure_watchedWithin (depth : Nat) : (watchedWithin depth).Sure := by
  induction depth with
  | zero =>
    refine Value.sure_watched (fun scope ss w hw _ => ?_) fun scope ss w hw hp _ => ?_
    · exact good_quiet (fun _ => rfl) hw (fun _ _ _ h => by cases h) fun _ _ => trivial
    · exact ⟨(fun h => by cases h), hp⟩
  | succ depth ih =>
    exact Value.sure_watched (Statement.good_watchedAll (good_watchedWithin depth))
      (Statement.sure_watchedAll (good_watchedWithin depth) ih)

/-! ## Runs -/

theorem Program.sure_watched (depth : Nat) (p : Program) (w : World) (hw : w.store.Sound)
    (hp : w.store.Supplied) : (p.watched depth).Sure w :=
  Statement.sure_watchedAll (good_watchedWithin depth) (sure_watchedWithin depth) Store.globals
    p.statements w hw hp .globals

/-- At every moment of a run all methods get what their operations read. -/
theorem Program.supplied_history (depth : Nat) (p : Program) (console : Console) :
    ∀ moment ∈ p.history depth console, moment.store.Supplied := by
  intro moment hm
  have hextends := (p.history_extends depth console moment hm).2
  have hw := Library.sound_store
  have hp := Library.supplied_store
  rw [← p.action_watched] at hextends
  -- what the library holds does not matter, and must not be computed
  generalize Library.store = s at hextends hw hp
  exact (p.sure_watched depth ⟨s, console⟩ hw hp).supplied.of_extends hextends

theorem Program.run_ne_stuck (depth : Nat) (p : Program) (console : Console) :
    (p.run depth ⟨Library.store, console⟩).1 ≠ .stuck := by
  have hw := Library.sound_store
  have hp := Library.supplied_store
  rw [← Program.action_watched]
  generalize Library.store = s at hw hp ⊢
  exact (p.sure_watched depth ⟨s, console⟩ hw hp).unstuck

/-- A source text that is no program fails to be read. -/
theorem Program.ofSource_ne_stuck (source : String) : Program.ofSource source ≠ .error .stuck := by
  rw [Program.ofSource, Parser.ofSource]
  split
  · exact fun h => by cases h
  · split <;> exact fun h => by cases h

theorem runSource_ne_stuck (depth : Nat) (source : String) (console : Console) :
    (runSource depth source console).1 ≠ .error .stuck := by
  rw [runSource]
  cases hp : Program.ofSource source with
  | error e =>
    intro h
    cases h
    exact Program.ofSource_ne_stuck source hp
  | ok p =>
    have hunstuck := p.run_ne_stuck depth console
    dsimp only
    generalize p.run depth ⟨Library.store, console⟩ = r at hunstuck ⊢
    obtain ⟨outcome, w⟩ := r
    cases outcome with
    | stuck => exact absurd rfl hunstuck
    | _ => exact fun h => by cases h

end SmallJava
