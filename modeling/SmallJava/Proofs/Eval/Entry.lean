/-
How programs are started. The statement that starts a program makes one call: that of the method
which the class under the first name holds, of the names the scope itself binds to classes with a
static method of the program that starts programs. Main statement: `run_entry`.
-/
import SmallJava.Proofs.Store.Members
import SmallJava.Proofs.Text.ByteOrder

namespace SmallJava

namespace Store

variable {s t : Store} {scope : ScopeId} {n n' : String} {id id' : MethodId} {m m' : Method}

/-! ## Names that start programs -/

/-- The scope itself binds the name to a class that holds the method, one of the program, as its
static member `main`. -/
def Starts (s : Store) (scope : ScopeId) (n : String) (id : MethodId) (m : Method) : Prop :=
  ∃ c cls, s.local? scope n = some (.ofClass c) ∧ s.classes[c.index]? = some cls ∧
    cls.statics.get? "main" = some (.method id) ∧ s.methods[id.index]? = some m ∧
    m.isDeclared = true

/-- Of the names that start programs it is the first in the order of their bytes. -/
structure StartsFirst (s : Store) (scope : ScopeId) (n : String) (id : MethodId) (m : Method) :
    Prop where
  starts : s.Starts scope n id m
  first : ∀ n' id' m', s.Starts scope n' id' m' → n' ≠ n →
    n.toUTF8.toList < n'.toUTF8.toList

/-- A name starts programs by one method. -/
theorem Starts.unique (h : s.Starts scope n id m) (h' : s.Starts scope n id' m') :
    id = id' ∧ m = m' := by
  obtain ⟨c, cls, hlocal, hclass, hmain, hm, -⟩ := h
  obtain ⟨c', cls', hlocal', hclass', hmain', hm', -⟩ := h'
  cases hlocal.symm.trans hlocal'
  cases hclass.symm.trans hclass'
  cases hmain.symm.trans hmain'
  exact ⟨rfl, Option.some.inj (hm.symm.trans hm')⟩

/-- There is one first name. -/
theorem StartsFirst.unique (h : s.StartsFirst scope n id m) (h' : s.StartsFirst scope n' id' m') :
    n = n' := by
  refine Decidable.byContradiction fun hne => ?_
  exact List.lt_asymm (h.first n' id' m' h'.starts (Ne.symm hne)) (h'.first n id m h.starts hne)

/-! ## Looking for them -/

/-- A name that a scope itself binds means in it what it is bound to. -/
theorem get?_of_local? {v : Value} (h : s.local? scope n = some v) : s.get? scope n = some v := by
  unfold get? chain
  cases scope.index with
  | zero => simp [chainUpTo, h]
  | succ bound =>
    rw [chainUpTo]
    cases s.parent? scope <;> simp [h]

/-- What is looked for under a name that the scope itself binds. -/
theorem starts_iff : (∃ m, s.Starts scope n id m) ↔
    n ∈ s.localNames scope ∧ (s.get? scope n).bind s.entryOf? = some id := by
  constructor
  · rintro ⟨m, c, cls, hlocal, hmain⟩
    refine ⟨mem_localNames.2 (by rw [hlocal]; rfl), ?_⟩
    rw [get?_of_local? hlocal]
    exact entryMethod?_eq_some.2 ⟨cls, m, hmain⟩
  · rintro ⟨hn, hentry⟩
    obtain ⟨v, hv⟩ := Option.isSome_iff_exists.1 (mem_localNames.1 hn)
    rw [get?_of_local? hv] at hentry
    cases v with
    | ofClass c =>
      obtain ⟨cls, m, hmain⟩ := entryMethod?_eq_some.1 hentry
      exact ⟨m, c, cls, hv, hmain⟩
    | _ => cases hentry

/-- The names are gone through in order, so the first that is found is the first of all. -/
theorem exists_startsFirst (h : s.entryPoint? scope = some id) :
    ∃ n m, s.StartsFirst scope n id m := by
  obtain ⟨before, n, after, hnames, hn, hbefore⟩ := List.findSome?_eq_some_iff.1 h
  have hmem : n ∈ s.localNames scope := by rw [hnames]; simp
  obtain ⟨m, hm⟩ := starts_iff.2 ⟨hmem, hn⟩
  refine ⟨n, m, hm, fun n' id' m' hstarts hne => Text.toUTF8_lt_toUTF8.2 ?_⟩
  obtain ⟨hmem', hn'⟩ := starts_iff.1 ⟨m', hstarts⟩
  have hnot : n' ∉ before := fun hmem => by
    rw [hbefore n' hmem] at hn'
    cases hn'
  have hafter : n' ∈ after := by
    rw [hnames] at hmem'
    simpa [hnot, hne] using hmem'
  have hascending := s.ascending_localNames scope
  rw [hnames] at hascending
  exact (List.pairwise_cons.1 (List.pairwise_append.1 hascending).2.1).1 n' hafter

/-- Whatever name starts programs, there is one that is found. -/
theorem Starts.exists_entryPoint? (h : s.Starts scope n id m) :
    ∃ id, s.entryPoint? scope = some id := by
  cases hentry : s.entryPoint? scope with
  | some id => exact ⟨id, rfl⟩
  | none =>
    obtain ⟨hmem, hn⟩ := starts_iff.1 ⟨m, h⟩
    have hnone := List.findSome?_eq_none_iff.1 hentry n hmem
    rw [hnone] at hn
    cases hn

theorem StartsFirst.entryPoint?_eq (h : s.StartsFirst scope n id m) :
    s.entryPoint? scope = some id := by
  obtain ⟨id', hentry⟩ := h.starts.exists_entryPoint?
  obtain ⟨n', m', hfirst⟩ := exists_startsFirst hentry
  cases h.unique hfirst
  rw [hentry, (h.starts.unique hfirst.starts).1]

theorem entryPoint?_eq_none (h : ∀ n id m, ¬ s.Starts scope n id m) :
    s.entryPoint? scope = none := by
  cases hentry : s.entryPoint? scope with
  | none => rfl
  | some id =>
    obtain ⟨n, m, hfirst⟩ := exists_startsFirst hentry
    exact absurd hfirst.starts (h n id m)

/-! ## In any order -/

/-- Which names start programs is a matter of what is bound, not of how. -/
theorem starts_congr (hlocal : ∀ n, t.local? scope n = s.local? scope n)
    (hclasses : t.classes = s.classes) (hmethods : t.methods = s.methods) :
    t.Starts scope n id m ↔ s.Starts scope n id m := by
  simp only [Starts, hlocal, hclasses, hmethods]

theorem startsFirst_congr (h : ∀ n id m, t.Starts scope n id m ↔ s.Starts scope n id m) :
    t.StartsFirst scope n id m ↔ s.StartsFirst scope n id m :=
  ⟨fun hf => ⟨(h _ _ _).1 hf.starts, fun n' id' m' h' => hf.first n' id' m' ((h _ _ _).2 h')⟩,
    fun hf => ⟨(h _ _ _).2 hf.starts, fun n' id' m' h' => hf.first n' id' m' ((h _ _ _).1 h')⟩⟩

/-- Of bindings of one name the last counts. -/
theorem local?_bindAll_lookup (scope : ScopeId) (bindings : List (String × Value)) (s : Store)
    (n : String) : (s.bindAll scope bindings).local? scope n =
      if scope.index < s.scopes.size then (bindings.reverse.lookup n).or (s.local? scope n)
      else s.local? scope n := by
  induction bindings generalizing s with
  | nil => simp [bindAll]
  | cons b bindings ih =>
    have hsize : (s.bind scope b.1 b.2).scopes.size = s.scopes.size := by simp [bind]
    have hone : [b].lookup n = if b.1 = n then some b.2 else none := by
      obtain ⟨name, v⟩ := b
      rw [List.lookup_cons, List.lookup_nil]
      by_cases hn : name = n
      · simp [hn]
      · simp [hn, beq_eq_false_iff_ne.2 (Ne.symm hn)]
    refine (ih (s.bind scope b.1 b.2)).trans ?_
    rw [hsize, local?_bind, List.reverse_cons, List.lookup_append, hone]
    by_cases hs : scope.index < s.scopes.size
    · by_cases hn : b.1 = n <;> simp [hs, hn]
    · simp [hs]

/-- Bindings made in any order, with the same last one of each name, start programs alike. -/
theorem starts_bindAll {bindings bindings' : List (String × Value)}
    (h : ∀ n, bindings.reverse.lookup n = bindings'.reverse.lookup n) :
    (s.bindAll scope bindings).Starts scope n id m ↔
      (s.bindAll scope bindings').Starts scope n id m := by
  have hlocal (n : String) :
      (s.bindAll scope bindings).local? scope n = (s.bindAll scope bindings').local? scope n := by
    rw [local?_bindAll_lookup, local?_bindAll_lookup, h n]
  obtain ⟨scopes, hs⟩ := exists_bindAll scope bindings s
  obtain ⟨scopes', hs'⟩ := exists_bindAll scope bindings' s
  rw [hs, hs'] at hlocal ⊢
  exact starts_congr hlocal rfl rfl

/-! ## Declared classes -/

/-- A name that is bound to a declared class starts programs by the last of its static methods named
`main`, and by no other. -/
theorem Declared.starts_iff {d : ScopeId} {name : String} {ms : List MethodDecl} {c : ClassId}
    {first : Nat} (h : s.Declared d name ms c first) (hn : s.local? scope n = some (.ofClass c)) :
    s.Starts scope n id m ↔ ∃ k decl, LastNamed true "main" ms k decl ∧ id = ⟨first + k⟩ ∧
      m = decl.method d := by
  have hclass (k : Nat) (decl : MethodDecl) (hlast : LastNamed true "main" ms k decl)
      (hget : (classOf name first ms).statics.get? "main" = some (.method ⟨first + k⟩)) :
      s.Starts scope n ⟨first + k⟩ (decl.method d) :=
    ⟨c, _, hn, h.class_, hget, h.methods hlast.place, rfl⟩
  rcases get?_classOf true "main" name first ms with ⟨k, decl, hlast, hget⟩ | ⟨hnone, hget⟩
  · constructor
    · intro hstarts
      obtain ⟨rfl, rfl⟩ := hstarts.unique (hclass k decl hlast hget)
      exact ⟨k, decl, hlast, rfl, rfl⟩
    · rintro ⟨k', decl', hlast', rfl, rfl⟩
      obtain ⟨rfl, rfl⟩ := hlast.unique hlast'
      exact hclass k decl hlast hget
  · constructor
    · rintro ⟨c', cls, hlocal, hcls, hmain, -⟩
      cases hn.symm.trans hlocal
      cases h.class_.symm.trans hcls
      cases hget.symm.trans hmain
    · rintro ⟨k, decl, hlast, -⟩
      exact absurd hlast.named (hnone decl (List.mem_of_getElem? hlast.place))

end Store

/-! ## Starting -/

/-- The one call that starts a program. -/
theorem Statement.run_entry_of_entryPoint? (call : Caller) {scope : ScopeId} {w : World}
    {id : MethodId} {m : Method} (h : w.store.entryPoint? scope = some id)
    (hm : w.store.methods[id.index]? = some m) :
    Statement.entry.run call scope w =
      (call (.method id) [.text "hello world"] m.line >>= fun _ => pure ()) w := by
  simp only [Statement.run, Action.enter, Action.bind_apply, Action.ask, h, hm, Action.required]
  rfl

theorem Statement.run_entry_of_none (call : Caller) {scope : ScopeId} {w : World}
    (h : w.store.entryPoint? scope = none) :
    Statement.entry.run call scope w = (.fault .noEntryPoint, w) := by
  simp only [Statement.run, Action.enter, Action.bind_apply, Action.ask, h]
  rfl

/-- Running the statement that starts a program calls the method of the first name that starts
programs, with one argument, and does nothing else; there is a first name if there is any, and if
there is none the statement fails. Which name is the first depends on what the scope itself binds,
in whatever order, and for declared classes on their last static method named `main`. -/
theorem run_entry (call : Caller) (scope : ScopeId) (w : World) :
    (∀ n id m, w.store.StartsFirst scope n id m → Statement.entry.run call scope w =
      (call (.method id) [.text "hello world"] m.line >>= fun _ => pure ()) w) ∧
    ((∃ n id m, w.store.Starts scope n id m) → ∃ n id m, w.store.StartsFirst scope n id m) ∧
    ((¬ ∃ n id m, w.store.Starts scope n id m) →
      Statement.entry.run call scope w = (.fault .noEntryPoint, w)) ∧
    (∀ bindings bindings' : List (String × Value),
      (∀ n, bindings.reverse.lookup n = bindings'.reverse.lookup n) → ∀ n id m,
        (w.store.bindAll scope bindings).StartsFirst scope n id m ↔
          (w.store.bindAll scope bindings').StartsFirst scope n id m) ∧
    ∀ d name ms c first, w.store.Declared d name ms c first → ∀ n,
      w.store.local? scope n = some (.ofClass c) → ∀ id m, w.store.Starts scope n id m ↔
        ∃ k decl, LastNamed true "main" ms k decl ∧ id = ⟨first + k⟩ ∧ m = decl.method d := by
  refine ⟨fun n id m h => ?_, fun ⟨n, id, m, h⟩ => ?_, fun h => ?_, fun bs bs' h n id m => ?_,
    fun d name ms c first h n hn id m => h.starts_iff hn⟩
  · have ⟨_, _, _, _, _, hm, _⟩ := h.starts
    exact Statement.run_entry_of_entryPoint? call h.entryPoint?_eq hm
  · obtain ⟨id', hentry⟩ := h.exists_entryPoint?
    obtain ⟨n', m', hfirst⟩ := Store.exists_startsFirst hentry
    exact ⟨n', id', m', hfirst⟩
  · refine Statement.run_entry_of_none call (Store.entryPoint?_eq_none fun n id m hstarts => ?_)
    exact h ⟨n, id, m, hstarts⟩
  · exact Store.startsFirst_congr fun n id m => Store.starts_bindAll h

/-- Of three classes the second is started: the first has no static method to start it. -/
theorem run_entry_second :
    let main (isStatic : Bool) : MethodDecl := ⟨⟨.package, isStatic, ⟨"void", 0⟩, "main", [], 1⟩, []⟩
    let s := ((Store.initial.declare Store.globals "C" [main true]).declare Store.globals "B"
      [main true]).declare Store.globals "A" [main false]
    let m := (main true).method Store.globals
    s.StartsFirst Store.globals "B" ⟨1⟩ m ∧ ∀ call console,
      Statement.entry.run call Store.globals ⟨s, console⟩ =
        (call (.method ⟨1⟩) [.text "hello world"] m.line >>= fun _ => pure ()) ⟨s, console⟩ := by
  intro main s m
  have hfirst : s.StartsFirst Store.globals "B" ⟨1⟩ m := by
    refine ⟨⟨⟨1⟩, _, rfl, rfl, rfl, rfl, rfl⟩, fun n id m hstarts hne => ?_⟩
    obtain ⟨c, cls, hlocal, hcls, hmain, -⟩ := hstarts
    have hmem : n ∈ s.localNames Store.globals := Store.mem_localNames.2 (by rw [hlocal]; rfl)
    have hnames : s.localNames Store.globals = ["A", "B", "C"] := by rfl
    rw [hnames] at hmem
    simp only [List.mem_cons, List.not_mem_nil, or_false] at hmem
    obtain rfl | rfl | rfl := hmem
    · cases hlocal
      cases hcls
      cases hmain
    · exact absurd rfl hne
    · exact Text.toUTF8_lt_toUTF8.2 (by decide)
  exact ⟨hfirst, fun call console => (run_entry call Store.globals ⟨s, console⟩).1 _ _ _ hfirst⟩

end SmallJava
