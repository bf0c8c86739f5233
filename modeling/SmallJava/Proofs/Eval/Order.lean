/-
Runs do not depend on the order of class declarations. Two runs on alike stores do alike things, and
the stores stay alike under a pairing that grows. Main statements: `Action.Sim.bind` and
`Statement.sim_runAll`, and from them `Program.run_swapsClasses`, for every program, console and
depth of calls.
-/
import SmallJava.Proofs.Eval.Lines
import SmallJava.Proofs.Eval.Closed
import SmallJava.Proofs.Store.Declared

namespace SmallJava

/-! ## Alike runs -/

/-- The stores are alike, and the consoles are the same. -/
structure World.Like (π : Pairing) (w v : World) : Prop where
  store : w.store.Like π v.store
  console : w.console = v.console

/-- From alike worlds, under the given pairing or one with more pairs, the actions come to the same
fault or to related results, and to worlds that are alike under a pairing with still more pairs. -/
def Action.Sim {α β : Type} (π : Pairing) (R : Pairing → α → β → Prop) (x : Action α)
    (y : Action β) : Prop :=
  ∀ ρ, π.Extends ρ → ∀ w v, World.Like ρ w v → ∃ σ, ρ.Extends σ ∧
    World.Like σ (x w).2 (y v).2 ∧ Outcome.Like (R σ) (x w).1 (y v).1

namespace Action

variable {π : Pairing} {α β γ δ : Type} {R : Pairing → α → β → Prop} {S : Pairing → γ → δ → Prop}

/-! ## Simple actions -/

theorem sim_pure {a : α} {b : β} (h : ∀ ρ, π.Extends ρ → R ρ a b) :
    Sim π R (pure a) (pure b) := fun ρ hρ _ _ hw =>
  ⟨ρ, .refl ρ, hw, .done (h ρ hρ)⟩

theorem sim_fail (e : Fault) : Sim π R (fail e) (fail e) := fun ρ _ _ _ hw =>
  ⟨ρ, .refl ρ, hw, .fault e⟩

theorem sim_tooDeep : Sim π R tooDeep tooDeep := fun ρ _ _ _ hw => ⟨ρ, .refl ρ, hw, .tooDeep⟩

theorem sim_stuck : Sim π R stuck stuck := fun ρ _ _ _ hw => ⟨ρ, .refl ρ, hw, .stuck⟩

/-- What simulates under a pairing does so under one with more pairs. -/
theorem Sim.mono {ρ : Pairing} {x : Action α} {y : Action β} (h : Sim π R x y)
    (he : π.Extends ρ) : Sim ρ R x y := fun σ hσ => h σ (he.trans hσ)

/-- One action after another. -/
theorem Sim.bind {x : Action α} {y : Action β} {f : α → Action γ} {g : β → Action δ}
    (h : Sim π R x y) (hf : ∀ ρ a b, π.Extends ρ → R ρ a b → Sim ρ S (f a) (g b)) :
    Sim π S (x >>= f) (y >>= g) := by
  intro ρ hρ w v hw
  obtain ⟨σ, hσ, hworlds, houtcomes⟩ := h ρ hρ w v hw
  rw [bind_apply, bind_apply]
  generalize x w = r at hworlds houtcomes
  generalize y v = r' at hworlds houtcomes
  obtain ⟨outcome, w'⟩ := r
  obtain ⟨outcome', v'⟩ := r'
  cases houtcomes with
  | done hab =>
    obtain ⟨τ, hτ, hlike⟩ := hf σ _ _ (hρ.trans hσ) hab σ (.refl σ) w' v' hworlds
    exact ⟨τ, hσ.trans hτ, hlike⟩
  | fault e => exact ⟨σ, hσ, hworlds, .fault e⟩
  | tooDeep => exact ⟨σ, hσ, hworlds, .tooDeep⟩
  | stuck => exact ⟨σ, hσ, hworlds, .stuck⟩

/-- One action after another that comes to the same in both runs. -/
theorem Sim.bind_same {x y : Action α} {f : α → Action γ} {g : α → Action δ}
    (h : Sim π (fun _ a b => a = b) x y) (hf : ∀ ρ a, π.Extends ρ → Sim ρ S (f a) (g a)) :
    Sim π S (x >>= f) (y >>= g) :=
  h.bind fun ρ a _ hρ hab => hab ▸ hf ρ a hρ

/-- A question that alike stores answer alike. -/
theorem sim_demand {f : Store → Outcome α} {g : Store → Outcome β}
    (h : ∀ ρ s t, π.Extends ρ → s.Like ρ t → Outcome.Like (R ρ) (f s) (g t)) :
    Sim π R (demand f) (demand g) := fun ρ hρ w v hw =>
  ⟨ρ, .refl ρ, hw, h ρ w.store v.store hρ hw.store⟩

theorem sim_ask {f : Store → α} {g : Store → β}
    (h : ∀ ρ s t, π.Extends ρ → s.Like ρ t → R ρ (f s) (g t)) : Sim π R (ask f) (ask g) :=
  fun ρ hρ w v hw => ⟨ρ, .refl ρ, hw, .done (h ρ w.store v.store hρ hw.store)⟩

/-- What is made in alike stores is related, and they stay alike under a pairing with more pairs. -/
theorem sim_make_of_grows {f : Store → α × Store} {g : Store → β × Store}
    (h : ∀ ρ s t, π.Extends ρ → s.Like ρ t → ∃ σ, ρ.Extends σ ∧ (f s).2.Like σ (g t).2 ∧
      R σ (f s).1 (g t).1) : Sim π R (make f) (make g) := by
  intro ρ hρ w v hw
  obtain ⟨σ, hσ, hstore, hresult⟩ := h ρ w.store v.store hρ hw.store
  exact ⟨σ, hσ, ⟨hstore, hw.console⟩, .done hresult⟩

theorem sim_make {f : Store → α × Store} {g : Store → β × Store}
    (h : ∀ ρ s t, π.Extends ρ → s.Like ρ t → (f s).2.Like ρ (g t).2 ∧ R ρ (f s).1 (g t).1) :
    Sim π R (make f) (make g) :=
  sim_make_of_grows fun ρ s t hρ hs => ⟨ρ, .refl ρ, h ρ s t hρ hs⟩

/-- Binding a name to alike values. -/
theorem sim_bindName {v u : Value} (h : v.Like π u) (scope : ScopeId) (name : String) :
    Sim π (fun _ _ _ => True) (bindName scope name v) (bindName scope name u) :=
  sim_make fun _ _ _ hρ hs => ⟨hs.bind (h.mono hρ) scope name, trivial⟩

theorem sim_print (text : String) (line : Nat) :
    Sim π (fun _ _ _ => True) (print text line) (print text line) := by
  intro ρ _ w v hw
  unfold print
  rw [hw.console]
  obtain ⟨fits, console⟩ := v.console.print text
  cases fits with
  | true => exact ⟨ρ, .refl ρ, ⟨hw.store, rfl⟩, .done trivial⟩
  | false => exact ⟨ρ, .refl ρ, ⟨hw.store, rfl⟩, .fault _⟩

theorem sim_take (f : Console → Console.Taken × Console) (line : Nat) :
    Sim π (fun _ cs ds => cs = ds) (take f line) (take f line) := by
  intro ρ _ w v hw
  unfold take
  rw [hw.console]
  obtain ⟨taken, console⟩ := f v.console
  cases taken with
  | chars cs => exact ⟨ρ, .refl ρ, ⟨hw.store, rfl⟩, .done rfl⟩
  | invalid => exact ⟨ρ, .refl ρ, ⟨hw.store, rfl⟩, .fault _⟩
  | ended => exact ⟨ρ, .refl ρ, ⟨hw.store, rfl⟩, .fault _⟩

/-- Methods that stand for each other are there when they are fetched, and alike. -/
theorem sim_fetch {m n : MethodId} (h : π.methods m n) {f g : Method → Action α}
    {R : Pairing → α → α → Prop} (hf : ∀ x y, x.Like y → Sim π R (f x) (g y)) :
    Sim π R (ask (·.methods[m.index]?) >>= fun x => required x >>= f)
      (ask (·.methods[n.index]?) >>= fun y => required y >>= g) := by
  intro ρ hρ w v hw
  obtain ⟨x, y, hx, hy, hxy⟩ := hw.store.methods (hρ.methods h)
  rw [fetch_of_some hx, fetch_of_some hy]
  exact hf x y hxy ρ hρ w v hw

/-! ## Operations -/

theorem sim_lookup (scope : ScopeId) (name : String) (line : Nat) :
    Sim π Value.Like (lookup scope name line) (lookup scope name line) := by
  refine sim_demand fun ρ s t _ hs => ?_
  obtain ⟨hs, ht⟩ | ⟨v, u, hs, ht, hv⟩ := none_or_some_of_rel (hs.get? scope name)
  · rw [hs, ht]
    exact .fault _
  · rw [hs, ht]
    exact .done hv

theorem sim_member {owner owner' : Value} (h : owner.Like π owner') (name : String) (line : Nat) :
    Sim π Value.Like (member owner name line) (member owner' name line) :=
  sim_demand fun _ _ _ hρ hs => hs.member (h.mono hρ) name line

theorem sim_operate (op : Operator) {l l' r r' : Value} (hl : l.Like π l') (hr : r.Like π r')
    (line : Nat) : Sim π Value.Like (operate op l r line) (operate op l' r' line) := by
  refine sim_demand fun ρ s t hρ hs => ?_
  obtain ⟨hs, ht⟩ | ⟨v, u, hs, ht, hv⟩ :=
    none_or_some_of_rel (hs.rel_apply op (hl.mono hρ) (hr.mono hρ) rfl rfl)
  · rw [hs, ht, hl.kind, hr.kind]
    exact .fault _
  · rw [hs, ht]
    exact .done hv

theorem sim_importPath (path : List Segment) (line : Nat) :
    Sim π (fun _ _ _ => True) (importPath path line) (importPath path line) := by
  rw [importPath_eq]
  refine Sim.bind (R := fun ρ => List.Forall₂ (Binding.Like ρ)) (sim_demand fun ρ s t _ hs => ?_)
    fun ρ bs cs _ hb => sim_make fun σ s t hσ hs => ⟨hs.bindAll _ ?_, trivial⟩
  · have h := hs.follow path Store.globals
    generalize s.follow Store.globals path = r at h ⊢
    generalize t.follow Store.globals path = r' at h ⊢
    cases h with
    | ok hb => exact .done hb
    | error segment => exact .fault _
  · exact hb.imp fun _ _ h => ⟨h.1, h.2.mono hσ⟩

theorem sim_number {v u : Value} (h : v.Like π u) (method : String) (line : Nat) :
    Sim π (fun _ x y => x = y) (number v method line) (number u method line) := by
  cases h with
  | number x => exact sim_pure fun _ _ => rfl
  | _ => exact sim_fail _

theorem sim_chars {v u : Value} (h : v.Like π u) (method : String) (line : Nat) :
    Sim π (fun _ cs ds => cs = ds) (chars v method line) (chars u method line) := by
  cases h with
  | text t => exact sim_pure fun _ _ => rfl
  | _ => exact sim_fail _

theorem sim_integer (cs : List Char) (line : Nat) :
    Sim π Value.Like (integer cs line) (integer cs line) := by
  unfold integer
  split
  · exact sim_pure fun _ _ => .number _
  · exact sim_fail _

theorem sim_decimal (cs : List Char) (method : String) (line : Nat) :
    Sim π Value.Like (decimal cs method line) (decimal cs method line) := by
  unfold decimal
  split
  · exact sim_pure fun _ _ => .number _
  · exact sim_fail _

/-- Alike values have the same text. -/
theorem sim_text {v u : Value} (h : v.Like π u) :
    Sim π (fun _ x y => x = y) (ask (·.text v)) (ask (·.text u)) :=
  sim_ask fun _ _ _ hρ hs => hs.text (h.mono hρ)

theorem sim_printLines (line : Nat) {vs us : List Value}
    (h : List.Forall₂ (Value.Like π) vs us) :
    Sim π (fun _ _ _ => True) (printLines line vs) (printLines line us) := by
  induction h with
  | nil => exact sim_pure fun _ _ => trivial
  | cons hv _ ih =>
    exact (sim_text hv).bind_same fun ρ text hρ =>
      (sim_print _ line).bind fun σ _ _ hσ _ => ih.mono (hρ.trans hσ)

end Action

variable {π : Pairing}

theorem Reaction.sim_answer (r : Reaction) {vs us : List Value}
    (h : List.Forall₂ (Value.Like π) vs us) (line : Nat) :
    Action.Sim π Value.Like (r.answer vs line) (r.answer us line) := by
  cases r with
  | firstArgument =>
    cases h with
    | nil => exact Action.sim_pure fun _ _ => .null
    | cons hv _ => exact Action.sim_pure fun _ hρ => hv.mono hρ
  | argumentCount =>
    rw [answer, answer, h.length_eq]
    exact Action.sim_pure fun _ _ => .number _
  | callLine => exact Action.sim_pure fun _ _ => .number _
  | failure => exact Action.sim_fail _

/-- Operations do alike things with alike arguments. -/
theorem HostOp.sim_perform (op : HostOp) {vs us : List Value}
    (h : List.Forall₂ (Value.Like π) vs us) (line : Nat) :
    Action.Sim π Value.Like (op.perform vs line) (op.perform us line) := by
  open Action in
  have hnull {ρ : Pairing} : Sim ρ Value.Like (pure .null) (pure .null) :=
    sim_pure fun _ _ => .null
  have hnumber {ρ : Pairing} (x : Double) :
      Sim ρ Value.Like (pure (.number x)) (pure (.number x)) := sim_pure fun _ _ => .number x
  cases op with
  | printLines =>
    cases h with
    | nil => exact (sim_print _ line).bind fun _ _ _ _ _ => hnull
    | cons hv hvs => exact (sim_printLines line (.cons hv hvs)).bind fun _ _ _ _ _ => hnull
  | print =>
    cases h with
    | nil => exact sim_stuck
    | cons hv _ =>
      exact (sim_text hv).bind_same fun ρ text _ =>
        (sim_print text line).bind fun _ _ _ _ _ => hnull
  | function f =>
    cases h with
    | nil => exact sim_stuck
    | cons hv _ => exact (sim_number hv _ line).bind_same fun _ x _ => hnumber _
  | operation f =>
    cases h with
    | nil => exact sim_stuck
    | cons hv hvs =>
      cases hvs with
      | nil => exact sim_stuck
      | cons hu _ =>
        exact (sim_number hv _ line).bind_same fun ρ x hρ =>
          (sim_number (hu.mono hρ) _ line).bind_same fun _ y _ => hnumber _
  | parseInteger =>
    cases h with
    | nil => exact sim_stuck
    | cons hv _ => exact (sim_chars hv _ line).bind_same fun _ cs _ => sim_integer cs line
  | parseDecimal =>
    cases h with
    | nil => exact sim_stuck
    | cons hv _ => exact (sim_chars hv _ line).bind_same fun _ cs _ => sim_decimal cs _ line
  | nextLine | nextWord =>
    exact (sim_take _ line).bind_same fun _ cs _ => sim_pure fun _ _ => .text _
  | nextInteger => exact (sim_take _ line).bind_same fun _ cs _ => sim_integer cs line
  | nextDecimal => exact (sim_take _ line).bind_same fun _ cs _ => sim_decimal cs _ line
  | react r => exact r.sim_answer h line

/-! ## Expressions -/

/-- Calls of alike values with alike arguments do alike things. -/
def Caller.Sim (call : Caller) : Prop :=
  ∀ {π : Pairing} {f f' : Value} {vs us : List Value} (line : Nat), f.Like π f' →
    List.Forall₂ (Value.Like π) vs us → Action.Sim π Value.Like (call f vs line) (call f' us line)

variable {call : Caller}

mutual

theorem Expr.sim_eval (hc : call.Sim) (scope : ScopeId) : ∀ (e : Expr) (π : Pairing),
    Action.Sim π Value.Like (e.eval call scope) (e.eval call scope)
  | .literal v _, _ => Action.sim_pure fun _ _ => v.like_value
  | .name n line, _ => Action.sim_lookup scope n line
  | .assign target value line, π => by
    cases target with
    | name n _ =>
      refine (Expr.sim_eval hc scope value π).bind fun ρ v u _ hv => ?_
      exact (Action.sim_bindName hv scope n).bind fun σ _ _ hσ _ =>
        Action.sim_pure fun _ hτ => (hv.mono hσ).mono hτ
    | _ => exact Action.sim_fail _
  | .binary op left right line, π => by
    refine (Expr.sim_eval hc scope left π).bind fun ρ l l' _ hl => ?_
    refine (Expr.sim_eval hc scope right ρ).bind fun σ r r' hσ hr => ?_
    exact Action.sim_operate op (hl.mono hσ) hr line
  | .access parent member line, π => by
    refine (Expr.sim_eval hc scope parent π).bind fun ρ owner owner' _ howner => ?_
    exact Action.sim_member howner member line
  | .call callee arguments line, π => by
    refine (Expr.sim_eval hc scope callee π).bind fun ρ f f' _ hf => ?_
    refine (Expr.sim_evalAll hc scope arguments ρ).bind fun σ vs us hσ hvs => ?_
    exact hc line (hf.mono hσ) hvs

theorem Expr.sim_evalAll (hc : call.Sim) (scope : ScopeId) : ∀ (es : List Expr) (π : Pairing),
    Action.Sim π (fun ρ => List.Forall₂ (Value.Like ρ)) (Expr.evalAll call scope es)
      (Expr.evalAll call scope es)
  | [], _ => Action.sim_pure fun _ _ => .nil
  | e :: es, π => by
    refine (Expr.sim_eval hc scope e π).bind fun ρ v u _ hv => ?_
    refine (Expr.sim_evalAll hc scope es ρ).bind fun σ vs us hσ hvs => ?_
    exact Action.sim_pure fun τ hτ => .cons (hv.mono (hσ.trans hτ)) (Value.Like.monoAll hvs hτ)

end

/-! ## Statements -/

/-- The same entry point is found, and called on the same line. -/
theorem Action.sim_enter (hc : call.Sim) (scope : ScopeId) :
    Sim π (fun _ _ _ => True) (enter call scope) (enter call scope) := by
  refine Sim.bind (R := fun ρ => Option.Rel ρ.methods)
    (sim_ask fun ρ s t _ hs => hs.entryPoint? scope) fun ρ m n _ hmn => ?_
  cases hmn with
  | none => exact sim_fail _
  | some hm =>
    refine sim_fetch hm fun x y hxy => ?_
    rw [hxy.line]
    exact (hc y.line (.method hm) (.cons (.text _) .nil)).bind fun _ _ _ _ _ =>
      sim_pure fun _ _ => trivial

/-- A class declaration is one step. -/
theorem Statement.sim_declareClass {ms ns : List MethodDecl} (h : ReorderedIn ms ns)
    (scope : ScopeId) (name : String) (line : Nat) :
    Action.Sim π (fun _ _ _ => True) ((declareClass name ms line).run call scope)
      ((declareClass name ns line).run call scope) := by
  rw [run_declareClass, run_declareClass]
  refine Action.sim_make_of_grows fun ρ s t _ hs => ?_
  obtain ⟨σ, hσ, hlike⟩ := hs.declare scope name h
  exact ⟨σ, hσ, hlike, trivial⟩

theorem Statement.sim_run (hc : call.Sim) (scope : ScopeId) (s : Statement) (π : Pairing) :
    Action.Sim π (fun _ _ _ => True) (s.run call scope) (s.run call scope) := by
  cases s with
  | importPath path line => exact Action.sim_importPath path line
  | declareClass name ms line => exact sim_declareClass (.refl ms) scope name line
  | expression value line =>
    exact (Expr.sim_eval hc scope value π).bind fun _ _ _ _ _ => Action.sim_pure fun _ _ => trivial
  | declareVariable type name value line =>
    cases value with
    | none => exact Action.sim_bindName .null scope name
    | some value =>
      exact (Expr.sim_eval hc scope value π).bind fun _ _ _ _ hv =>
        Action.sim_bindName hv scope name
  | entry => exact Action.sim_enter hc scope

/-- Two class declarations one after the other, and the other way round. -/
theorem Statement.sim_swapped {name other : String} (hne : name ≠ other) (scope : ScopeId)
    (line otherLine : Nat) {ms ns ms' ns' : List MethodDecl} (hr : ReorderedIn ms ms')
    (hr' : ReorderedIn ns ns') {x y : Action Unit}
    (h : ∀ ρ, π.Extends ρ → Action.Sim ρ (fun _ _ _ => True) x y) :
    Action.Sim π (fun _ _ _ => True)
      ((declareClass name ms line).run call scope >>= fun _ =>
        (declareClass other ns otherLine).run call scope >>= fun _ => x)
      ((declareClass other ns' otherLine).run call scope >>= fun _ =>
        (declareClass name ms' line).run call scope >>= fun _ => y) := by
  have hboth : Action.Sim π (fun _ _ _ => True)
      (Action.make fun s => ((), (s.declare scope name ms).declare scope other ns))
      (Action.make fun s => ((), (s.declare scope other ns').declare scope name ms')) := by
    refine Action.sim_make_of_grows fun ρ s t _ hs => ?_
    obtain ⟨σ, hσ, hlike⟩ := hs.declare_swapped scope hne hr hr'
    exact ⟨σ, hσ, hlike, trivial⟩
  exact hboth.bind fun ρ _ _ hρ _ => h ρ hρ

/-- Reordered statements do alike things. -/
theorem Statement.sim_runAll (hc : call.Sim) (scope : ScopeId) : ∀ {ss ts : List Statement},
    Reordered ss ts → ∀ π : Pairing, Action.Sim π (fun _ _ _ => True)
      (Statement.runAll call scope ss) (Statement.runAll call scope ts)
  | _, _, .nil, _ => Action.sim_pure fun _ _ => trivial
  | _, _, .same s h, π => (Statement.sim_run hc scope s π).bind fun ρ _ _ _ _ =>
    Statement.sim_runAll hc scope h ρ
  | _, _, .inside name line hr h, _ =>
    (Statement.sim_declareClass hr scope name line).bind fun ρ _ _ _ _ =>
      Statement.sim_runAll hc scope h ρ
  | _, _, .swap hne line otherLine hr hr' h, _ =>
    Statement.sim_swapped hne scope line otherLine hr hr' fun ρ _ =>
      Statement.sim_runAll hc scope h ρ

/-! ## Calls -/

/-- Running reordered statements does alike things. -/
def Runner.Sim (run : Runner) : Prop :=
  ∀ {ss ts : List Statement} (π : Pairing) (scope : ScopeId), Reordered ss ts →
    Action.Sim π (fun _ _ _ => True) (run scope ss) (run scope ts)

theorem Method.sim_call {run : Runner} (hr : run.Sim) {m n : Method} (hm : m.Like n)
    {vs us : List Value} (h : List.Forall₂ (Value.Like π) vs us) (line : Nat) :
    Action.Sim π Value.Like (m.call run vs line) (n.call run us line) := by
  obtain ⟨name, params, variadic, closure, body⟩ := m
  obtain ⟨_, _, _, _, other⟩ := n
  obtain ⟨rfl, rfl, rfl, rfl, hbody⟩ := hm
  unfold Method.call
  rw [h.length_eq]
  split
  · exact Action.sim_fail _
  · cases hbody with
    | host op => exact op.sim_perform h line
    | declared _ hss =>
      refine Action.Sim.bind_same (Action.sim_make fun ρ s t hρ hs => ?_) fun ρ i _ =>
        (hr ρ i hss).bind fun _ _ _ _ _ => Action.sim_pure fun _ _ => .null
      have hbindings := Table.like_ofList (Binding.like_zip (Value.Like.monoAll h hρ) params)
      have hscope := hs.newScope hbindings (some closure)
      exact ⟨hscope.2, hscope.1⟩

theorem Value.sim_call {run : Runner} (hr : run.Sim) : (Value.call run).Sim := by
  intro π f f' vs us line hf h
  cases hf with
  | method hm => exact Action.sim_fetch hm fun x y hxy => Method.sim_call hr hxy h line
  | ofClass hc =>
    refine Action.Sim.bind_same (Action.sim_make fun ρ s t hρ hs => ?_) fun _ i _ =>
      Action.sim_pure fun _ _ => .object i
    have hinstance := hs.newInstance (hρ.classes hc)
    exact ⟨hinstance.2, hinstance.1⟩
  | _ => exact Action.sim_fail _

/-- Calls do alike things, however deep they may be nested. -/
theorem sim_callWithin (depth : Nat) : (callWithin depth).Sim := by
  induction depth with
  | zero => exact Value.sim_call fun _ _ _ => Action.sim_tooDeep
  | succ depth ih => exact Value.sim_call fun π scope h => Statement.sim_runAll ih scope h π

/-! ## Runs -/

/-- The pairing in which all that is in a store stands for itself. -/
def Pairing.same (s : Store) : Pairing where
  classes c d := c = d ∧ c.index < s.classes.size
  methods m n := m = n ∧ m.index < s.methods.size

/-- A sound store is like itself. -/
theorem Store.Sound.like_self {s : Store} (h : s.Sound) : s.Like (.same s) s := by
  have hvalue {v : Value} (hv : s.Has v) : v.Like (.same s) v := by
    cases v with
    | text t => exact .text t
    | number x => exact .number x
    | null => exact .null
    | package id => exact .package id
    | ofClass c => exact .ofClass ⟨rfl, hv⟩
    | object id => exact .object id
    | method m => exact .method ⟨rfl, hv⟩
  have hrel {o : Option Value} (ho : ∀ v, o = some v → s.Has v) :
      Option.Rel (Value.Like (.same s)) o o := by
    cases o with
    | none => exact .none
    | some v => exact .some (hvalue (ho v rfl))
  refine ⟨rfl, fun _ => rfl, fun i name => hrel fun v hv => h.local? hv, rfl, rfl, fun i => ?_,
    fun {c d} hc => ?_, fun {m n} hm => ?_⟩
  · cases hi : s.instances[i]? with
    | none => exact .none
    | some c => exact .some ⟨rfl, h.instances c (Array.mem_of_getElem? hi)⟩
  · obtain ⟨rfl, hc⟩ := hc
    have hmem := Array.getElem_mem hc
    refine ⟨_, _, Array.getElem?_eq_getElem hc, Array.getElem?_eq_getElem hc, rfl, rfl,
      fun name => hrel fun v hv => (h.statics _ hmem).get? hv,
      fun name => hrel fun v hv => (h.members _ hmem).get? hv⟩
  · obtain ⟨rfl, hm⟩ := hm
    refine ⟨_, _, Array.getElem?_eq_getElem hm, Array.getElem?_eq_getElem hm, rfl, rfl, rfl, rfl, ?_⟩
    cases s.methods[m.index].body with
    | declared line ss => exact .declared line (.refl ss)
    | host op => exact .host op

/-- Programs that differ in the order of class declarations do alike things in every sound store. -/
theorem Program.sim_run {p q : Program} (h : Reordered p.statements q.statements) (depth : Nat)
    {s : Store} (hs : s.Sound) (console : Console) :
    (p.run depth ⟨s, console⟩).1 = (q.run depth ⟨s, console⟩).1 ∧
      (p.run depth ⟨s, console⟩).2.console = (q.run depth ⟨s, console⟩).2.console := by
  obtain ⟨σ, -, hworlds, houtcomes⟩ := Statement.sim_runAll (sim_callWithin depth) Store.globals h
    (.same s) (.same s) (.refl _) ⟨s, console⟩ ⟨s, console⟩ ⟨hs.like_self, rfl⟩
  refine ⟨?_, hworlds.console⟩
  rw [Program.run, Program.run]
  generalize (Statement.runAll _ _ p.statements _).1 = outcome at houtcomes
  generalize (Statement.runAll _ _ q.statements _).1 = outcome' at houtcomes
  cases houtcomes <;> rfl

/-- If two class declarations with different names stand next to each other in a program or in the
body of a method at any depth, swapping them changes neither what a run comes to nor its console:
not the fault and its line, not what is printed, not what is left to read. -/
theorem Program.run_swapsClasses {p q : Program} (h : SwapsClasses p.statements q.statements)
    (depth : Nat) (console : Console) :
    (q.run depth ⟨Library.store, console⟩).1 = (p.run depth ⟨Library.store, console⟩).1 ∧
      (q.run depth ⟨Library.store, console⟩).2.console =
        (p.run depth ⟨Library.store, console⟩).2.console := by
  have hs := Library.sound_store
  -- what the library holds does not matter, and must not be computed
  generalize Library.store = s at hs ⊢
  obtain ⟨houtcome, hconsole⟩ := Program.sim_run h.reordered depth hs console
  exact ⟨houtcome.symm, hconsole.symm⟩

/-- Two classes in the body of `main`, before a statement that stops the run. -/
theorem Program.run_swapsClasses_in_main :
    let signature : Signature :=
      ⟨.everyone, true, ⟨"void", 0⟩, "main", [⟨⟨"String", 0⟩, "a"⟩], 1⟩
    let first : Statement := .declareClass "A" [] 2
    let second : Statement := .declareClass "B" [] 3
    let stop : Statement := .expression (.access (.name "A" 4) "x" 4) 4
    let p : Program := ⟨[.declareClass "M" [.mk signature [first, second, stop]] 1, .entry]⟩
    let q : Program := ⟨[.declareClass "M" [.mk signature [second, first, stop]] 1, .entry]⟩
    SwapsClasses p.statements q.statements ∧
      (q.run 1 ⟨Library.store, .start .empty none⟩).1 =
        (p.run 1 ⟨Library.store, .start .empty none⟩).1 ∧
      (q.run 1 ⟨Library.store, .start .empty none⟩).2.console =
        (p.run 1 ⟨Library.store, .start .empty none⟩).2.console := by
  intro signature first second stop p q
  have h : SwapsClasses p.statements q.statements :=
    .inside _ _ _ (.here _ _ (.here (by decide) _ _ _ _ _))
  exact ⟨h, Program.run_swapsClasses h 1 (.start .empty none)⟩

end SmallJava
