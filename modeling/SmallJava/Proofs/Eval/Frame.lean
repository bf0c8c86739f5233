/-
The frames of calls. A call of a method of the program binds each parameter to its argument in a new
scope inside the one the method was declared in, or comes to a fault and changes nothing. That no
argument is lost is a matter of the parser: it reads no method with two parameters of one name. Main
statement: `call_binds_arguments`.
-/
import SmallJava.Proofs.Eval.Origin

namespace SmallJava

/-! ## Tables of arguments -/

namespace Table

variable {α : Type} {entries : List (String × α)} {n : String}

theorem get?_foldl_of_not_mem (h : n ∉ entries.map Prod.fst) (t : Table α) :
    (entries.foldl (fun t e => t.insert e.1 e.2) t).get? n = t.get? n := by
  induction entries generalizing t with
  | nil => rfl
  | cons e entries ih =>
    rw [List.map_cons, List.mem_cons, not_or] at h
    rw [List.foldl_cons, ih h.2, get?_insert, if_neg (Ne.symm h.1)]

theorem get?_foldl_of_mem (hn : (entries.map Prod.fst).Nodup) {v : α} (h : (n, v) ∈ entries)
    (t : Table α) : (entries.foldl (fun t e => t.insert e.1 e.2) t).get? n = some v := by
  induction entries generalizing t with
  | nil => cases h
  | cons e entries ih =>
    rw [List.map_cons, List.nodup_cons] at hn
    rw [List.foldl_cons]
    rcases List.mem_cons.1 h with rfl | h
    · rw [get?_foldl_of_not_mem hn.1, get?_insert, if_pos rfl]
    · exact ih hn.2 h _

theorem get?_ofList_of_not_mem (h : n ∉ entries.map Prod.fst) : (ofList entries).get? n = none :=
  get?_foldl_of_not_mem h empty

theorem get?_ofList_of_mem (hn : (entries.map Prod.fst).Nodup) {v : α} (h : (n, v) ∈ entries) :
    (ofList entries).get? n = some v :=
  get?_foldl_of_mem hn h empty

end Table

/-! ## New scopes -/

namespace Store

variable {s t : Store} {i p : ScopeId} {bindings : Table Value}

theorem local?_newScope (bindings : Table Value) (parent : Option ScopeId) (s : Store)
    (n : String) : (s.newScope bindings parent).2.local? (s.newScope bindings parent).1 n =
      bindings.get? n := by
  simp [local?, newScope]

theorem parent?_new (bindings : Table Value) (parent : Option ScopeId) (s : Store) :
    (s.newScope bindings parent).2.parent? (s.newScope bindings parent).1 = parent := by
  simp [parent?, newScope]

/-- The way outward is the same where the scopes of before are in the same scopes. -/
theorem Sound.outward_of_parents (h : s.Sound)
    (hp : ∀ i : ScopeId, i.index < s.scopes.size → t.parent? i = s.parent? i)
    {path : List ScopeId} (ho : s.Outward i path) (hi : i.index < s.scopes.size) :
    t.Outward i path := by
  induction ho with
  | last hnone => exact .last ((hp _ hi).trans hnone)
  | @inside i p path hparent _ ih =>
    have := h.older i p hparent
    exact .inside ((hp i hi).trans hparent) (ih (by omega))

/-- The chain of a new scope is the scope itself and the chain of the one it was made in. -/
theorem Sound.chain_newScope (h : s.Sound) (hp : p.index < s.scopes.size)
    (bindings : Table Value) : (s.newScope bindings (some p)).2.chain ⟨s.scopes.size⟩ =
      ⟨s.scopes.size⟩ :: s.chain p := by
  have hkeeps := keeps_newScope bindings (some p) s
  have hnew : (s.newScope bindings (some p)).2.parent? ⟨s.scopes.size⟩ = some p :=
    parent?_new bindings (some p) s
  have hnested : (s.newScope bindings (some p)).2.Nested :=
    h.nested.newScope (fun q hq => by cases hq; exact hp) bindings
  have hchain := hnested.outward ⟨s.scopes.size⟩
  have hpath := h.outward_of_parents hkeeps.parents (h.nested.outward p) hp
  exact hchain.unique (.inside hnew hpath)

/-! ## Frames -/

/-- A call of a method of the program starts its body in the frame, a new scope that binds the
parameters to the arguments. -/
structure Enters (s : Store) (m : Method) (arguments : List Value) (frame : ScopeId) (t : Store) :
    Prop where
  fresh : s.scopes.size ≤ frame.index
  inside : t.parent? frame = some m.closure
  bound : ∀ (i : Nat) param v, m.params[i]? = some param → arguments[i]? = some v →
    t.local? frame param = some v
  unbound : ∀ n ∉ m.params, t.local? frame n = none
  chain : t.chain frame = frame :: s.chain m.closure
  /-- A scope of before, such as the caller's, is around the frame only if it is around the
  declaration. -/
  captured : ∀ i : ScopeId, i.index < s.scopes.size →
    (i ∈ t.chain frame ↔ i ∈ s.chain m.closure)
  scopes : ∀ i : Nat, i < s.scopes.size → t.scopes[i]? = s.scopes[i]?
  size : t.scopes.size = s.scopes.size + 1
  rest : t.packages = s.packages ∧ t.classes = s.classes ∧ t.instances = s.instances ∧
    t.methods = s.methods

/-- The store in which the body of a method starts. -/
def entered (s : Store) (m : Method) (arguments : List Value) : Store :=
  (s.newScope (.ofList (m.params.zip arguments)) (some m.closure)).2

theorem Sound.enters (h : s.Sound) {m : Method} (hclosure : m.closure.index < s.scopes.size)
    (hparams : m.params.Nodup) {arguments : List Value}
    (hcount : arguments.length = m.params.length) :
    s.Enters m arguments ⟨s.scopes.size⟩ (s.entered m arguments) := by
  have hnames : (m.params.zip arguments).map Prod.fst = m.params :=
    List.map_fst_zip (Nat.le_of_eq hcount.symm)
  have hlocal (n : String) : (s.entered m arguments).local? ⟨s.scopes.size⟩ n =
      (Table.ofList (m.params.zip arguments)).get? n := local?_newScope _ _ s n
  have hchain := h.chain_newScope hclosure (.ofList (m.params.zip arguments))
  constructor
  case fresh => exact Nat.le_refl _
  case inside => exact parent?_new _ _ s
  case bound =>
    intro i param v hparam hv
    rw [hlocal]
    refine Table.get?_ofList_of_mem (by rwa [hnames]) ?_
    exact List.mem_of_getElem? (List.getElem?_zip_eq_some.2 ⟨hparam, hv⟩)
  case unbound =>
    intro n hn
    rw [hlocal]
    exact Table.get?_ofList_of_not_mem (by rwa [hnames])
  case chain => exact hchain
  case captured =>
    intro i hi
    rw [entered, hchain, List.mem_cons]
    refine or_iff_right fun heq => ?_
    rw [heq] at hi
    exact Nat.lt_irrefl _ hi
  case scopes =>
    intro i hi
    simp [entered, Store.newScope, Array.getElem?_push, Nat.ne_of_lt hi]
  case size => simp [entered, Store.newScope]
  case rest => exact ⟨rfl, rfl, rfl, rfl⟩

end Store

/-! ## Calls -/

variable {run : Runner} {w : World}

/-- With an argument for each parameter the body runs in a frame of its own. -/
theorem Method.call_of_length_eq {m : Method} {decl : MethodDecl} (hm : m = decl.method m.closure)
    {arguments : List Value} (h : arguments.length = m.params.length) (line : Nat) :
    m.call run arguments line w = (run ⟨w.store.scopes.size⟩ decl.body >>= fun _ => pure .null)
      ⟨w.store.entered m arguments, w.console⟩ := by
  have hbody : m.body = .declared decl.signature.line decl.body := by rw [hm]; rfl
  rw [Method.call, if_neg (by simp [h]), hbody]
  rfl

theorem Method.call_of_length_ne {m : Method} {decl : MethodDecl} (hm : m = decl.method m.closure)
    {arguments : List Value} (h : arguments.length ≠ m.params.length) (line : Nat) :
    m.call run arguments line w =
      (.fault (.argumentCount m.name m.params.length arguments.length line), w) := by
  have hvariadic : m.variadic = false := by rw [hm]; rfl
  rw [Method.call, if_pos (by simp [hvariadic, h])]
  rfl

theorem callWithin_succ {depth : Nat} {id : MethodId} {m : Method}
    (hm : w.store.methods[id.index]? = some m) (arguments : List Value) (line : Nat) :
    callWithin (depth + 1) (.method id) arguments line w =
      m.call (Statement.runAll (callWithin depth)) arguments line w :=
  Value.call_method hm arguments line

/-- However deep calls may be nested, there is something that runs the statements of methods. -/
theorem exists_callWithin (depth : Nat) : ∃ run : Runner, callWithin depth = Value.call run := by
  cases depth with
  | zero => exact ⟨_, rfl⟩
  | succ depth => exact ⟨_, rfl⟩

/-- Whatever method of the program there is at a moment of a run: in every store in good order that
holds it, a call with as many arguments as it has parameters runs its body in a frame that binds them,
and any other call comes to a fault and changes nothing. -/
theorem call_binds_arguments {source : String} {p : Program} (hp : Program.ofSource source = .ok p)
    {depth : Nat} {console : Console} {moment : Moment} (hmoment : moment ∈ p.history depth console)
    {id : MethodId} {m : Method} (hm : moment.store.methods[id.index]? = some m)
    (hd : m.isDeclared = true) :
    ∃ decl : MethodDecl, .method decl ∈ p.parts ∧ m = decl.method m.closure ∧ m.params.Nodup ∧
      moment.store.Sound ∧
      ∀ w : World, w.store.Sound → w.store.methods[id.index]? = some m → ∀ arguments line,
        (arguments.length = m.params.length → ∃ frame t, w.store.Enters m arguments frame t ∧
          ∀ depth, callWithin (depth + 1) (.method id) arguments line w =
            (Statement.runAll (callWithin depth) frame decl.body >>= fun _ => pure .null)
              ⟨t, w.console⟩) ∧
        (arguments.length ≠ m.params.length → ∀ depth,
          callWithin depth (.method id) arguments line w =
            (.fault (.argumentCount m.name m.params.length arguments.length line), w)) := by
  obtain ⟨decl, hparts, hdecl⟩ :=
    p.from_history depth console moment hmoment m (Array.mem_of_getElem? hm) hd
  have hmem : .method decl ∈ p.parts := hparts decl.mem_parts
  have hnodup : m.params.Nodup := by
    obtain ⟨body, hbody, hlawful⟩ := (Program.wellFormed_of_ofSource hp).parts
    rw [hbody, List.mem_append, List.mem_singleton] at hmem
    rw [hdecl]
    exact hlawful _ (hmem.resolve_right (by simp))
  refine ⟨decl, hmem, hdecl, hnodup, (p.history_extends depth console moment hmoment).1, ?_⟩
  intro w hw hmw arguments line
  have hclosure := hw.closures m (Array.mem_of_getElem? hmw)
  refine ⟨fun hcount => ?_, fun hcount depth => ?_⟩
  · refine ⟨_, _, hw.enters hclosure hnodup hcount, fun depth => ?_⟩
    rw [callWithin_succ hmw]
    exact Method.call_of_length_eq hdecl hcount line
  · obtain ⟨run, hrun⟩ := exists_callWithin depth
    rw [hrun, Value.call_method hmw]
    exact Method.call_of_length_ne hdecl hcount line

/-- A call of a method with two parameters, at the moment it was made; the library has sixteen methods
before it. -/
theorem call_binds_arguments_two :
    ∃ p moment m, Program.ofSource "class A { void f(int x, A y) { } }" = .ok p ∧
      moment ∈ p.history 0 (.start .empty none) ∧
      moment.store.methods[16]? = some m ∧ m.isDeclared = true ∧
      m.params = ["x", "y"] ∧ ∃ frame t, moment.store.Enters m [.null, .text "a"] frame t ∧
        t.local? frame "y" = some (.text "a") := by
  have h : (Program.ofSource "class A { void f(int x, A y) { } }").toOption.map (fun p =>
      (p.history 0 (.start .empty none)).any fun moment =>
        (moment.store.methods[16]?).any fun m =>
          m.isDeclared && m.params == ["x", "y"]) = some true := by
    decide +kernel
  cases hp : Program.ofSource "class A { void f(int x, A y) { } }" with
  | error e => rw [hp] at h; cases h
  | ok p =>
    rw [hp] at h
    obtain ⟨moment, hmoment, hany⟩ := List.any_eq_true.1 (Option.some.inj h)
    obtain ⟨m, hm, hdeclared⟩ := (Option.any_eq_true _ _).1 hany
    have hm : moment.store.methods[(⟨16⟩ : MethodId).index]? = some m := hm
    obtain ⟨hd, hparams⟩ := Bool.and_eq_true_iff.1 hdeclared
    have hparams : m.params = ["x", "y"] := eq_of_beq hparams
    refine ⟨p, moment, m, rfl, hmoment, hm, hd, hparams, ?_⟩
    obtain ⟨decl, -, -, -, hs, hcall⟩ := call_binds_arguments hp hmoment hm hd
    obtain ⟨frame, t, henters, -⟩ := (hcall ⟨moment.store, .start .empty none⟩ hs hm
      [.null, .text "a"] 1).1 (by rw [hparams]; rfl)
    exact ⟨frame, t, henters, henters.bound 1 "y" _ (by rw [hparams]; rfl) rfl⟩

end SmallJava
