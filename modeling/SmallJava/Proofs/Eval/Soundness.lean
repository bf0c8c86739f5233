/-
Every moment of a run is sound. At no point of any run does anything refer to what is not there, all
ways outward end, frames and the methods of the program lead to the global scope, and each moment
extends those before it, so that a name once bound stays bound. Main statement:
`history_wellFormed`, for every program, input and depth of calls.
-/
import SmallJava.Proofs.Eval.History
import SmallJava.Proofs.Store.Sound

namespace SmallJava

/-! ## Sound moments -/

/-- The store is sound, and what is held refers to what is in it. -/
structure Moment.Sound (m : Moment) : Prop where
  store : m.store.Sound
  held : ∀ v ∈ m.held, m.store.Has v

/-- In the world, the action goes through sound moments only, each of which extends those before it,
and what it comes to has a property in the store there is then. -/
structure Watched.Good {α : Type} (x : Watched α) (Q : α → Store → Prop) (w : World) : Prop where
  moments : ∀ m ∈ x.moments w, m.Sound ∧ w.store.Extends m.store ∧
    m.store.Extends (x.action w).2.store
  ordered : (x.moments w).Pairwise fun m n => m.store.Extends n.store
  last : (((x.moments w).map (·.store)).getLast?).getD w.store = (x.action w).2.store
  sound : (x.action w).2.store.Sound
  grows : w.store.Extends (x.action w).2.store
  result : ∀ a, (x.action w).1 = .done a → Q a (x.action w).2.store

namespace Watched

variable {α β : Type} {x : Watched α} {Q R : α → Store → Prop} {S : β → Store → Prop} {w : World}

/-- A step to a sound store that extends the one before. -/
theorem good_step {x : Action α} {held : α → List Value} {imported : Option String} (hs : (x w).2.store.Sound)
    (he : w.store.Extends (x w).2.store)
    (hheld : ∀ a, (x w).1 = .done a → ∀ v ∈ held a, (x w).2.store.Has v)
    (hresult : ∀ a, (x w).1 = .done a → Q a (x w).2.store) : (step x held imported).Good Q w where
  moments m hm := by
    obtain rfl := List.mem_singleton.1 hm
    refine ⟨⟨hs, fun v hv => ?_⟩, he, .refl _⟩
    dsimp only at hv ⊢
    split at hv
    · rename_i a ha
      exact hheld a ha v hv
    · cases hv
  ordered := List.pairwise_singleton _ _
  last := rfl
  sound := hs
  grows := he
  result := hresult

/-- A step that leaves the store alone. -/
theorem good_quiet {x : Action α} {held : α → List Value} (h : x.Quiet) (hw : w.store.Sound)
    (hheld : ∀ a, (x w).1 = .done a → ∀ v ∈ held a, w.store.Has v)
    (hresult : ∀ a, (x w).1 = .done a → Q a w.store) : (step x held).Good Q w := by
  refine good_step ?_ ?_ ?_ ?_
  · rw [h w]; exact hw
  · rw [h w]; exact .refl _
  · rw [h w]; exact hheld
  · rw [h w]; exact hresult

theorem good_pure {a : α} (hw : w.store.Sound) (hQ : Q a w.store) :
    (pure a : Watched α).Good Q w where
  moments m hm := by cases hm
  ordered := .nil
  last := rfl
  sound := hw
  grows := .refl _
  result b hb := by cases hb; exact hQ

theorem good_fail (e : Fault) (hw : w.store.Sound) : (silent (.fail e) : Watched α).Good Q w :=
  good_quiet (Action.quiet_fail e) hw (fun _ h => by cases h) fun _ h => by cases h

/-- Values that are in the store before may be held. -/
theorem Good.holding (h : x.Good Q w) {vs : List Value} (hvs : ∀ v ∈ vs, w.store.Has v) :
    (holding vs x).Good Q w where
  moments m hm := by
    obtain ⟨n, hn, rfl⟩ := List.mem_map.1 hm
    obtain ⟨hsound, hbefore, hafter⟩ := h.moments n hn
    refine ⟨⟨hsound.store, fun v hv => ?_⟩, hbefore, hafter⟩
    rcases List.mem_append.1 hv with hv | hv
    · exact (hvs v hv).mono hbefore
    · exact hsound.held v hv
  ordered := List.pairwise_map.2 h.ordered
  last := by
    show ((((x.moments w).map _).map _).getLast?).getD w.store = _
    rw [List.map_map]
    exact h.last
  sound := h.sound
  grows := h.grows
  result := h.result

theorem last_append {before after : List Moment} {s t u : Store}
    (hb : ((before.map (·.store)).getLast?).getD s = t)
    (ha : ((after.map (·.store)).getLast?).getD t = u) :
    (((before ++ after).map (·.store)).getLast?).getD s = u := by
  rw [List.map_append, List.getLast?_append]
  cases h : (after.map (·.store)).getLast? with
  | none =>
    rw [h] at ha
    rw [Option.none_or, hb]
    exact ha
  | some v =>
    rw [h] at ha
    exact ha

/-- An action comes to a result, or nothing is done after it. -/
theorem done_or_stops (x : Watched α) (w : World) :
    (∃ a v, x.action w = (.done a, v)) ∨ ∀ a, (x.action w).1 ≠ .done a := by
  obtain ⟨outcome, v⟩ := x.action w
  cases outcome with
  | done a => exact Or.inl ⟨a, v, rfl⟩
  | _ => exact Or.inr fun a h => by cases h

theorem bind_of_done {a : α} {v : World} (h : x.action w = (.done a, v)) (f : α → Watched β) :
    (x >>= f).moments w = x.moments w ++ (f a).moments v ∧
      (x >>= f).action w = (f a).action v := by
  refine ⟨?_, ?_⟩
  · show (Watched.bind x f).moments w = _
    simp only [Watched.bind, h]
  · rw [action_bind, Action.bind_apply, h]

theorem bind_of_stops (h : ∀ a, (x.action w).1 ≠ .done a) (f : α → Watched β) :
    (x >>= f).moments w = x.moments w ∧ ((x >>= f).action w).2 = (x.action w).2 ∧
      ∀ b, ((x >>= f).action w).1 ≠ .done b := by
  have hm : (x >>= f).moments w = (Watched.bind x f).moments w := rfl
  rw [hm, action_bind, Action.bind_apply, Watched.bind]
  dsimp only
  generalize x.action w = r at h ⊢
  obtain ⟨outcome, v⟩ := r
  cases outcome with
  | done a => exact absurd rfl (h a)
  | _ => exact ⟨List.append_nil _, rfl, fun b h => by cases h⟩

/-- What goes no further than a good action is good. -/
theorem Good.stopped {y : Watched β} (hx : x.Good Q w) (hm : y.moments w = x.moments w)
    (hs : (y.action w).2 = (x.action w).2) (hn : ∀ b, (y.action w).1 ≠ .done b) : y.Good S w where
  moments := by rw [hm, hs]; exact hx.moments
  ordered := by rw [hm]; exact hx.ordered
  last := by rw [hm, hs]; exact hx.last
  sound := by rw [hs]; exact hx.sound
  grows := by rw [hs]; exact hx.grows
  result b hb := absurd hb (hn b)

/-- One good action after another. -/
theorem Good.andThen {y z : Watched β} {v : World} (hx : x.Good Q w) (hv : (x.action w).2 = v)
    (hz : z.Good S v) (hm : y.moments w = x.moments w ++ z.moments v)
    (ha : y.action w = z.action v) : y.Good S w := by
  subst hv
  refine ⟨fun m h => ?_, ?_, ?_, ?_, ?_, ?_⟩
  · rw [ha]
    rcases List.mem_append.1 (hm ▸ h) with h | h
    · obtain ⟨h₁, h₂, h₃⟩ := hx.moments m h
      exact ⟨h₁, h₂, h₃.trans hz.grows⟩
    · obtain ⟨h₁, h₂, h₃⟩ := hz.moments m h
      exact ⟨h₁, hx.grows.trans h₂, h₃⟩
  · rw [hm, List.pairwise_append]
    exact ⟨hx.ordered, hz.ordered, fun m h n h' =>
      (hx.moments m h).2.2.trans (hz.moments n h').2.1⟩
  · rw [hm, ha]
    exact last_append hx.last hz.last
  · rw [ha]; exact hz.sound
  · rw [ha]; exact hx.grows.trans hz.grows
  · rw [ha]; exact hz.result

/-- One action after another. -/
theorem Good.bind {f : α → Watched β} (hx : x.Good Q w)
    (hf : ∀ a v, x.action w = (.done a, v) → v.store.Sound → w.store.Extends v.store →
      Q a v.store → (f a).Good S v) : (x >>= f).Good S w := by
  obtain ⟨a, v, hr⟩ | hr := done_or_stops x w
  · have hsound := hx.sound
    have hgrows := hx.grows
    have hQ := hx.result a (by rw [hr])
    rw [hr] at hsound hgrows hQ
    obtain ⟨hm, ha⟩ := bind_of_done hr f
    exact hx.andThen (by rw [hr]) (hf a v hr hsound hgrows hQ) hm ha
  · obtain ⟨hm, hs, hn⟩ := bind_of_stops hr f
    exact hx.stopped hm hs hn

/-- Binding a name to something in the store, while that and other things are held. -/
theorem good_bindName (hw : w.store.Sound) {v : Value} (hv : w.store.Has v) (scope : ScopeId)
    (name : String) {imported : Option String} :
    (step (.bindName scope name v) (fun _ => []) imported).Good (fun _ _ => True) w :=
  good_step (hw.bind hv scope name) (w.store.extends_bind scope name v)
    (fun _ _ _ h => by cases h) fun _ _ => trivial

end Watched

/-! ## Operations of the library -/

/-- Whatever the world is, the values the action comes to have the property. -/
def Action.Yields (P : Value → Prop) (x : Action Value) : Prop :=
  ∀ w v, (x w).1 = .done v → P v

namespace Action

variable {α : Type} {P : Value → Prop}

theorem yields_pure {v : Value} (h : P v) : (pure v : Action Value).Yields P := by
  intro w u hu
  cases hu
  exact h

theorem yields_fail (e : Fault) : (fail e : Action Value).Yields P := by
  intro w v hv
  cases hv

theorem Yields.bind {f : α → Action Value} (x : Action α) (hf : ∀ a, (f a).Yields P) :
    (x >>= f).Yields P := by
  intro w v hv
  rw [bind_apply] at hv
  generalize x w = r at hv
  obtain ⟨outcome, u⟩ := r
  cases outcome with
  | done a => exact hf a u v hv
  | fault e => cases hv
  | tooDeep => cases hv
  | stuck => cases hv

theorem yields_integer (h : ∀ x, P (.number x)) (cs : List Char) (line : Nat) :
    (integer cs line).Yields P := by
  unfold integer
  split
  · exact yields_pure (h _)
  · exact yields_fail _

theorem yields_decimal (h : ∀ x, P (.number x)) (cs : List Char) (method : String) (line : Nat) :
    (decimal cs method line).Yields P := by
  unfold decimal
  split
  · exact yields_pure (h _)
  · exact yields_fail _

end Action

theorem Reaction.yields_answer {s : Store} {arguments : List Value}
    (h : ∀ a ∈ arguments, s.Has a) (r : Reaction) (line : Nat) :
    (r.answer arguments line).Yields s.Has := by
  cases r with
  | firstArgument =>
    refine Action.yields_pure ?_
    cases arguments with
    | nil => trivial
    | cons a arguments => exact h a List.mem_cons_self
  | argumentCount => exact Action.yields_pure trivial
  | callLine => exact Action.yields_pure trivial
  | failure => exact Action.yields_fail _

/-- What an operation comes to is in every store that its arguments are in. -/
theorem HostOp.yields_perform {s : Store} {arguments : List Value} (h : ∀ a ∈ arguments, s.Has a)
    (op : HostOp) (line : Nat) : (op.perform arguments line).Yields s.Has := by
  have hnumber (x : Double) : s.Has (.number x) := trivial
  unfold HostOp.perform
  split
  · exact .bind _ fun _ => Action.yields_pure trivial
  · exact .bind _ fun _ => Action.yields_pure trivial
  · exact .bind _ fun _ => .bind _ fun _ => Action.yields_pure trivial
  · exact .bind _ fun _ => Action.yields_pure trivial
  · exact .bind _ fun _ => .bind _ fun _ => Action.yields_pure trivial
  · exact .bind _ fun _ => Action.yields_integer hnumber _ line
  · exact .bind _ fun _ => Action.yields_decimal hnumber _ _ line
  · exact .bind _ fun _ => Action.yields_pure trivial
  · exact .bind _ fun _ => Action.yields_pure trivial
  · exact .bind _ fun _ => Action.yields_integer hnumber _ line
  · exact .bind _ fun _ => Action.yields_decimal hnumber _ _ line
  · exact Reaction.yields_answer h _ line
  · intro w v hv
    cases hv

/-! ## Imports and class declarations -/

namespace Watched

variable {w : World}

theorem good_bindAll (bindings : List (String × Value)) (w : World) (hw : w.store.Sound)
    (hb : ∀ b ∈ bindings, w.store.Has b.2) : (bindAll bindings).Good (fun _ _ => True) w := by
  induction bindings generalizing w with
  | nil => exact good_pure hw trivial
  | cons b bindings ih =>
    obtain ⟨hfirst, hrest⟩ := List.forall_mem_cons.1 hb
    have hheld : ∀ v ∈ b.2 :: bindings.map Prod.snd, w.store.Has v := by
      intro v hv
      rcases List.mem_cons.1 hv with rfl | hv
      · exact hfirst
      · obtain ⟨c, hc, rfl⟩ := List.mem_map.1 hv
        exact hrest c hc
    exact ((good_bindName hw hfirst _ _).holding hheld).bind fun _ v _ hv he _ =>
      ih v hv fun c hc => (hrest c hc).mono he

theorem good_importPath (path : List Segment) (line : Nat) (hw : w.store.Sound) :
    (importPath path line).Good (fun _ _ => True) w := by
  have hfollow (bindings : List (String × Value))
      (h : (follow path line w).1 = .done bindings) : ∀ b ∈ bindings, w.store.Has b.2 := by
    simp only [follow, Action.demand] at h
    cases hf : w.store.follow Store.globals path with
    | error segment => rw [hf] at h; cases h
    | ok found =>
      rw [hf] at h
      cases h
      exact hw.follow hf
  refine Good.bind (Q := fun (bindings : List (String × Value)) s => ∀ b ∈ bindings, s.Has b.2)
    (good_quiet (Action.quiet_demand _) hw (fun bindings h v hv => ?_) hfollow)
    fun bindings v _ hv _ hb => good_bindAll bindings v hv hb
  obtain ⟨b, hb, rfl⟩ := List.mem_map.1 hv
  exact hfollow bindings h b hb

theorem has_values {s : Store} {t : Table Value} (h : s.HasAll t) : ∀ v ∈ t.values, s.Has v := by
  intro v hv
  obtain ⟨e, he, rfl⟩ := List.mem_map.1 hv
  exact h e he

theorem has_tables {s : Store} {statics members : Table Value} (hs : s.HasAll statics)
    (hm : s.HasAll members) : ∀ v ∈ statics.values ++ members.values, s.Has v := by
  intro v hv
  rcases List.mem_append.1 hv with hv | hv
  · exact has_values hs v hv
  · exact has_values hm v hv

theorem good_newMembers {scope : ScopeId} (ms : List MethodDecl) (statics members : Table Value)
    (w : World) (hw : w.store.Sound) (hin : w.store.Inner scope) (hs : w.store.HasAll statics)
    (hm : w.store.HasAll members) : (newMembers scope ms statics members).Good
      (fun tables s => s.HasAll tables.1 ∧ s.HasAll tables.2) w := by
  induction ms generalizing statics members w with
  | nil => exact good_pure hw ⟨hs, hm⟩
  | cons m ms ih =>
    have he : w.store.Extends (w.store.newDeclared scope m).2 :=
      (Store.keeps_newMethod _ _).extends hw.globals.1
    have hid : (w.store.newDeclared scope m).2.Has (.method (w.store.newDeclared scope m).1) := by
      simp [Store.Has, Store.newDeclared, Store.newMethod]
    have hstep : (step (.make (Store.newDeclared scope m)) fun id => [.method id]).Good
        (fun id s => s.Has (.method id)) w := by
      refine good_step (hw.newDeclared m hin) he (fun id h v hv => ?_) fun id h => ?_
      · cases h
        rw [List.mem_singleton.1 hv]
        exact hid
      · cases h
        exact hid
    refine (hstep.holding (has_tables hs hm)).bind fun id v _ hv hv' hmethod => ?_
    by_cases hstatic : m.signature.isStatic = true
    · rw [if_pos hstatic]
      exact ih _ _ v hv (hin.mono hv') ((hs.mono hv').insert hmethod _) (hm.mono hv')
    · rw [if_neg hstatic]
      exact ih _ _ v hv (hin.mono hv') (hs.mono hv') ((hm.mono hv').insert hmethod _)

theorem good_newUserClass {scope : ScopeId} (name : String) (methods : List MethodDecl)
    (hw : w.store.Sound) (hin : w.store.Inner scope) :
    (newUserClass scope name methods).Good (fun c s => s.Has (.ofClass c)) w := by
  refine (good_newMembers methods .empty .empty w hw hin (Store.hasAll_empty _)
    (Store.hasAll_empty _)).bind fun tables v _ hv _ htables => ?_
  obtain ⟨hsound, he⟩ := hv.newClass (c := ⟨name, .user, tables.1, tables.2⟩) htables.1 htables.2
  refine Good.holding (good_step hsound he (fun c h u hu => ?_) fun c h => ?_)
    (has_tables htables.1 htables.2)
  · cases h
    rw [List.mem_singleton.1 hu]
    simp [Store.Has, Store.newClass, Action.make]
  · cases h
    simp [Store.Has, Store.newClass, Action.make]

end Watched

/-! ## The evaluator -/

/-- Calls of what is in the store, with arguments that are, are good. -/
def WatchedCaller.Good (call : WatchedCaller) : Prop :=
  ∀ v arguments line w, w.store.Sound → w.store.Has v → (∀ a ∈ arguments, w.store.Has a) →
    (call v arguments line).Good (fun r s => s.Has r) w

/-- Running statements in a scope that leads to the global one is good. -/
def WatchedRunner.Good (run : WatchedRunner) : Prop :=
  ∀ scope ss w, w.store.Sound → w.store.Inner scope → (run scope ss).Good (fun _ _ => True) w

open Watched

variable {call : WatchedCaller} {scope : ScopeId} {w : World}

theorem has_literal (s : Store) (v : Literal) : s.Has v.value := by
  cases v <;> trivial

theorem Watched.good_literal (hw : w.store.Sound) (v : Literal) :
    (value (pure v.value)).Good (fun r s => s.Has r) w := by
  refine good_quiet (Action.quiet_pure _) hw (fun u hu x hx => ?_) fun u hu => ?_
  · cases hu
    rw [List.mem_singleton.1 hx]
    exact has_literal _ v
  · cases hu
    exact has_literal _ v

theorem Watched.good_lookup (hw : w.store.Sound) (scope : ScopeId) (n : String) (line : Nat) :
    (value (.lookup scope n line)).Good (fun r s => s.Has r) w := by
  have h (v : Value) (hv : (Action.lookup scope n line w).1 = .done v) : w.store.Has v := by
    simp only [Action.lookup, Action.demand] at hv
    cases hg : w.store.get? scope n with
    | none => rw [hg] at hv; cases hv
    | some u => rw [hg] at hv; cases hv; exact hw.get? hg
  exact good_quiet (Action.quiet_demand _) hw
    (fun v hv u hu => List.mem_singleton.1 hu ▸ h v hv) h

theorem Watched.good_operate (hw : w.store.Sound) (op : Operator) (left right : Value)
    (line : Nat) : (value (.operate op left right line)).Good (fun r s => s.Has r) w := by
  have h (v : Value) (hv : (Action.operate op left right line w).1 = .done v) : w.store.Has v := by
    simp only [Action.operate, Action.demand] at hv
    cases ho : op.apply? w.store left right with
    | none => rw [ho] at hv; cases hv
    | some u => rw [ho] at hv; cases hv; exact Store.has_apply? ho
  exact good_quiet (Action.quiet_demand _) hw
    (fun v hv u hu => List.mem_singleton.1 hu ▸ h v hv) h

theorem Watched.good_member (hw : w.store.Sound) (owner : Value) (name : String) (line : Nat) :
    (value (.member owner name line)).Good (fun r s => s.Has r) w :=
  good_quiet (Action.quiet_demand _) hw
    (fun _ hv _ hu => List.mem_singleton.1 hu ▸ hw.member hv) fun _ hv => hw.member hv

mutual

theorem Expr.good_watched (hc : call.Good) :
    ∀ (e : Expr) (w : World), w.store.Sound → w.store.Inner scope →
      (e.watched call scope).Good (fun v s => s.Has v) w
  | .literal v _, w, hw, _ => good_literal hw v
  | .name n line, w, hw, _ => good_lookup hw scope n line
  | .assign target value line, w, hw, hin => by
    cases target with
    | name n _ =>
      refine (Expr.good_watched hc value w hw hin).bind fun v u _ hu _ hv => ?_
      refine ((good_bindName hu hv scope n).holding (by simpa using hv)).bind
        fun _ t _ ht he _ => good_pure ht (hv.mono he)
    | _ => exact good_fail _ hw
  | .binary op left right line, w, hw, hin => by
    refine (Expr.good_watched hc left w hw hin).bind fun l u _ hu hwu hl => ?_
    refine ((Expr.good_watched hc right u hu (hin.mono hwu)).holding (by simpa using hl)).bind
      fun r t _ ht hut hr => ?_
    exact (good_operate ht op l r line).holding (by simpa using ⟨hl.mono hut, hr⟩)
  | .access parent member line, w, hw, hin => by
    refine (Expr.good_watched hc parent w hw hin).bind fun owner u _ hu _ howner => ?_
    exact (good_member hu owner member line).holding (by simpa using howner)
  | .call callee arguments line, w, hw, hin => by
    refine (Expr.good_watched hc callee w hw hin).bind fun f u _ hu hwu hf => ?_
    refine ((Expr.good_watchedAll hc arguments u hu (hin.mono hwu)).holding
      (by simpa using hf)).bind fun vs t _ ht hut hvs => ?_
    exact (hc f vs line t ht (hf.mono hut) hvs).holding (by simpa using ⟨hf.mono hut, hvs⟩)

theorem Expr.good_watchedAll (hc : call.Good) :
    ∀ (es : List Expr) (w : World), w.store.Sound → w.store.Inner scope →
      (Expr.watchedAll call scope es).Good (fun vs s => ∀ v ∈ vs, s.Has v) w
  | [], w, hw, _ => good_pure hw (by simp)
  | e :: es, w, hw, hin => by
    refine (Expr.good_watched hc e w hw hin).bind fun v u _ hu hwu hv => ?_
    refine ((Expr.good_watchedAll hc es u hu (hin.mono hwu)).holding (by simpa using hv)).bind
      fun vs t _ ht hut hvs => good_pure ht ?_
    simpa using ⟨hv.mono hut, hvs⟩

end

theorem Watched.good_enter (hc : call.Good) (scope : ScopeId) (w : World) (hw : w.store.Sound) :
    (Watched.enter call scope).Good (fun _ _ => True) w := by
  refine Good.bind (Q := fun (id : Option MethodId) s => ∀ m ∈ id, s.Has (.method m))
    (good_quiet (Action.quiet_ask _) hw (fun id h v hv => ?_) fun id h m hm => ?_)
    fun id u _ hu _ hid => ?_
  · cases h
    obtain ⟨m, hm, rfl⟩ := Option.map_eq_some_iff.1 (Option.mem_toList.1 hv)
    exact hw.entryPoint? hm
  · cases h
    exact hw.entryPoint? hm
  · cases id with
    | none => exact good_fail _ hu
    | some id =>
      have hid : u.store.Has (.method id) := hid id rfl
      refine Good.bind (Q := fun _ _ => True)
        (good_quiet (Action.quiet_ask _) hu (fun _ _ _ h => by cases h) fun _ _ => trivial)
        fun m t _ ht hut _ => ?_
      refine Good.bind (Q := fun _ _ => True)
        (good_quiet (Action.quiet_required m) ht (fun _ _ _ h => by cases h) fun _ _ => trivial)
        fun m r _ hr htr _ => ?_
      have hid := (hid.mono hut).mono htr
      have harguments : ∀ a ∈ [entryArgument], r.store.Has a := by
        intro a ha
        rw [List.mem_singleton.1 ha]
        trivial
      refine ((hc (.method id) [entryArgument] m.line r hr hid harguments).holding ?_).bind
        fun _ _ _ hv _ _ => good_pure hv trivial
      exact List.forall_mem_cons.2 ⟨hid, harguments⟩

theorem Statement.good_watched (hc : call.Good) (s : Statement) (w : World) (hw : w.store.Sound)
    (hin : w.store.Inner scope) : (s.watched call scope).Good (fun _ _ => True) w := by
  cases s with
  | importPath path line => exact good_importPath path line hw
  | declareClass name methods line =>
    refine (good_newUserClass name methods hw hin).bind fun c v _ hv _ hclass => ?_
    exact (good_bindName hv hclass scope name).holding (by simpa using hclass)
  | expression value line =>
    exact (Expr.good_watched hc value w hw hin).bind fun _ _ _ hv _ _ => good_pure hv trivial
  | declareVariable type name value line =>
    cases value with
    | none => exact good_bindName hw (v := .null) trivial scope name
    | some value =>
      refine (Expr.good_watched hc value w hw hin).bind fun v u _ hu _ hv => ?_
      exact (good_bindName hu hv scope name).holding (by simpa using hv)
  | entry => exact good_enter hc scope w hw

theorem Statement.good_watchedAll (hc : call.Good) : (Statement.watchedAll call).Good := by
  intro scope ss
  induction ss with
  | nil => exact fun w hw _ => good_pure hw trivial
  | cons s ss ih =>
    exact fun w hw hin => (Statement.good_watched hc s w hw hin).bind fun _ v _ hv he _ =>
      ih v hv (hin.mono he)

/-! ## Calls -/

/-- A method of the program runs in a scope of its own that leads to the global one. -/
theorem Method.good_watched {run : WatchedRunner} (hr : run.Good) (m : Method)
    (arguments : List Value) (line : Nat) (w : World) (hw : w.store.Sound)
    (hm : m ∈ w.store.methods) (ha : ∀ a ∈ arguments, w.store.Has a) :
    (m.watched run arguments line).Good (fun r s => s.Has r) w := by
  unfold Method.watched
  split
  · exact good_fail _ hw
  · cases hbody : m.body with
    | host op =>
      have h := op.yields_perform ha line w
      exact good_quiet (op.quiet_perform arguments line) hw
        (fun v hv u hu => List.mem_singleton.1 hu ▸ h v hv) h
    | declared first statements =>
      have hin : w.store.Inner m.closure := hw.declared m hm (by rw [Method.isDeclared, hbody])
      have hb : w.store.HasAll (.ofList (m.params.zip arguments)) :=
        Store.hasAll_ofList fun e he => ha e.2 (List.of_mem_zip he).2
      have hsound := hw.newScope hb hin
      have he := (w.store.keeps_newScope (.ofList (m.params.zip arguments))
        (some m.closure)).extends hw.globals.1
      refine Good.bind (Q := fun scope s => s.Inner scope)
        (good_step hsound he (fun _ _ _ h => by cases h) fun scope h => ?_)
        fun scope v _ hv _ hscope => (hr scope statements v hv hscope).bind fun _ u _ hu _ _ =>
          good_pure hu trivial
      cases h
      exact Store.inner_newScope _ he hin

theorem Value.good_watched {run : WatchedRunner} (hr : run.Good) : (Value.watched run).Good := by
  intro v arguments line w hw hv ha
  cases v with
  | method id =>
    refine Good.bind (Q := fun (m : Option Method) s => ∀ m' ∈ m, m' ∈ s.methods)
      (good_quiet (Action.quiet_ask _) hw (fun _ _ _ h => by cases h) fun m h m' hm => ?_)
      fun m u _ hu hwu hm => ?_
    · cases h
      exact Array.mem_of_getElem? hm
    · refine Good.bind (Q := fun m' s => m' ∈ s.methods)
        (good_quiet (Action.quiet_required m) hu (fun _ _ _ h => by cases h) fun m' h => ?_)
        fun m' t _ ht hut hm' => ?_
      · cases m with
        | none => cases h
        | some m'' => cases h; exact hm _ rfl
      · exact Method.good_watched hr m' arguments line t ht hm' fun a h =>
          ((ha a h).mono hwu).mono hut
  | ofClass id =>
    have hnew : (w.store.newInstance id).2.Has (.object (w.store.newInstance id).1) := by
      simp [Store.Has, Store.newInstance]
    refine Good.bind (Q := fun object s => s.Has (.object object))
      (good_step (hw.newInstance hv) ((w.store.keeps_newInstance id).extends hw.globals.1)
        (fun object h u hu => ?_) fun object h => ?_)
      fun object u _ hu _ hobject => good_pure hu hobject
    · cases h
      rw [List.mem_singleton.1 hu]
      exact hnew
    · cases h
      exact hnew
  | _ => exact good_fail _ hw

/-- Calls are good, however deep they may be nested. -/
theorem good_watchedWithin (depth : Nat) : (watchedWithin depth).Good := by
  induction depth with
  | zero =>
    refine Value.good_watched fun scope ss w hw _ => ?_
    exact good_quiet (fun _ => rfl) hw (fun _ _ _ h => by cases h) fun _ _ => trivial
  | succ depth ih => exact Value.good_watched (Statement.good_watchedAll ih)

/-! ## Runs -/

/-- A store in good order: all that makes it sound, and what follows for looking names up. The chain
of a scope is its whole way outward, a name means what it means in the nearest scope that binds it,
and frames and the methods of the program lead to the global scope. -/
structure Store.WellFormed (s : Store) : Prop extends s.Sound where
  outward : ∀ i, s.Outward i (s.chain i)
  lookup : ∀ i name, s.get? i name = (s.local? i name).or ((s.parent? i).bind (s.get? · name))
  frames : ∀ i p, s.parent? i = some p → (s.chain i).getLast? = some Store.globals
  closure : ∀ m ∈ s.methods, m.isDeclared = true →
    (s.chain m.closure).getLast? = some Store.globals

theorem Store.Sound.wellFormed {s : Store} (h : s.Sound) : s.WellFormed where
  toSound := h
  outward := h.nested.outward
  lookup := h.nested.get?_eq
  frames _ _ hp := h.getLast?_chain (.inside hp (h.inner _ _ hp))
  closure m hm hd := h.getLast?_chain (h.declared m hm hd)

/-- All moments of a good action, the one it starts in included. -/
theorem Watched.Good.wellFormed {α : Type} {x : Watched α} {Q : α → Store → Prop}
    (h : x.Good Q w) (hw : w.store.Sound) :
    (∀ m ∈ ⟨w.store, [], none⟩ :: x.moments w, m.store.WellFormed ∧ ∀ v ∈ m.held, m.store.Has v) ∧
    (⟨w.store, [], none⟩ :: x.moments w).Pairwise (fun m n => m.store.Extends n.store) ∧
    ∃ m, (⟨w.store, [], none⟩ :: x.moments w).getLast? = some m ∧
      m.store = (x.action w).2.store := by
  refine ⟨fun m hm => ?_, List.pairwise_cons.2 ⟨fun m hm => (h.moments m hm).2.1, h.ordered⟩,
    _, List.getLast?_cons, ?_⟩
  · rcases List.mem_cons.1 hm with rfl | hm
    · exact ⟨hw.wellFormed, fun v hv => by cases hv⟩
    · exact ⟨(h.moments m hm).1.store.wellFormed, (h.moments m hm).1.held⟩
  · rw [← h.last, List.getLast?_map]
    cases (x.moments w).getLast? <;> rfl

theorem Program.good_watched (depth : Nat) (p : Program) (w : World) (hw : w.store.Sound) :
    (p.watched depth).Good (fun _ _ => True) w :=
  Statement.good_watchedAll (good_watchedWithin depth) Store.globals p.statements w hw .globals

/-- At every moment of a run the store is sound, and the store at the end extends it. -/
theorem Program.history_extends (depth : Nat) (p : Program) (console : Console) :
    ∀ moment ∈ p.history depth console, moment.store.Sound ∧
      moment.store.Extends (p.run depth ⟨Library.store, console⟩).2.store := by
  have hs := Library.sound_store
  rw [← Program.action_watched, Program.history]
  -- what the library holds does not matter, and must not be computed
  generalize Library.store = s at hs ⊢
  have hgood := p.good_watched depth ⟨s, console⟩ hs
  intro moment hm
  rcases List.mem_cons.1 hm with rfl | hm
  · exact ⟨hs, hgood.grows⟩
  · exact ⟨(hgood.moments _ hm).1.store, (hgood.moments _ hm).2.2⟩

/-- At every moment of a run the store is in good order and has all that is held outside of it; each
moment extends those before it, and the last is that of the run's end. -/
theorem history_wellFormed (depth : Nat) (p : Program) (console : Console) :
    (∀ m ∈ p.history depth console, m.store.WellFormed ∧ ∀ v ∈ m.held, m.store.Has v) ∧
    (p.history depth console).Pairwise (fun m n => m.store.Extends n.store) ∧
    ∃ m, (p.history depth console).getLast? = some m ∧
      m.store = (p.run depth ⟨Library.store, console⟩).2.store := by
  have hs := Library.sound_store
  rw [← Program.action_watched, Program.history]
  -- what the library holds does not matter, and must not be computed
  generalize Library.store = s at hs ⊢
  exact (p.good_watched depth ⟨s, console⟩ hs).wellFormed hs

end SmallJava
