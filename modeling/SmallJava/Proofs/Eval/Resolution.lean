/-
What an import resolves to. A path is resolved step by step, its first name among the global bindings
and every further one among the members of the package reached; what it leads to is bound in the
global scope, and nothing else changes. Main statements: `importPath_resolves`,
`Parser.importPath_form` and `Program.members_ne_globals`, the paths it is about are those that are
read, and no run has a package whose members are the global bindings.
-/
import SmallJava.Proofs.Eval.Soundness
import SmallJava.Proofs.Parser.Soundness
import SmallJava.Proofs.Store.Rooted

namespace SmallJava

/-! ## Paths -/

/-- A path is a row of names and a last segment, which alone can be a wildcard. -/
theorem Derivation.Path.form {ts : List Located} {path : List Segment} (h : Derivation.Path ts path) :
    ∃ (names : List String) (last : Segment), path = names.map Segment.name ++ [last] := by
  induction h with
  | @name n _ => exact ⟨[], .name n, rfl⟩
  | wildcard => exact ⟨[], .wildcard, rfl⟩
  | @step n _ _ _ _ _ ih =>
    obtain ⟨names, last, rfl⟩ := ih
    exact ⟨n :: names, last, rfl⟩

/-- Every import that is read has such a path. -/
theorem Parser.importPath_form {toks rest : List Located} {s : Statement}
    (h : importPath toks = .ok s rest) :
    ∃ (names : List String) (last : Segment) (line : Nat),
      s = .importPath (names.map Segment.name ++ [last]) line := by
  obtain ⟨line, mid, -, hpath⟩ := bind_eq_ok h
  obtain ⟨path, mid', hp, hend⟩ := bind_eq_ok hpath
  obtain ⟨used, -, hderived⟩ := segments_sound _ mid path mid' hp
  obtain ⟨names, last, rfl⟩ := hderived.form
  obtain ⟨_, _, -, hs⟩ := bind_eq_ok hend
  cases hs
  exact ⟨names, last, line, rfl⟩

namespace Store

variable {s t : Store} {i : ScopeId} {path : List Segment}

/-! ## Resolution -/

/-- The package with the given members is what the value stands for. -/
def IsPackage (s : Store) (v : Value) (members : ScopeId) : Prop :=
  ∃ id p, v = .package id ∧ s.packages[id.index]? = some p ∧ p.members = members

/-- A path of segments, resolved among what a scope binds: to the names it imports with their values,
or to the name of the first segment that is not bound or, not being the last one, is no package. -/
inductive Resolves (s : Store) :
    ScopeId → List Segment → Except String (String → Option Value) → Prop
  | name {i : ScopeId} {n : String} {v : Value} : s.local? i n = some v →
      Resolves s i [.name n] (.ok fun m => if m = n then some v else none)
  | wildcard {i : ScopeId} : Resolves s i [.wildcard] (.ok (s.local? i))
  | step {i members : ScopeId} {n : String} {v : Value} {rest : List Segment}
      {result : Except String (String → Option Value)} : s.local? i n = some v →
      s.IsPackage v members → rest ≠ [] → Resolves s members rest result →
      Resolves s i (.name n :: rest) result
  | unbound {i : ScopeId} {n : String} {rest : List Segment} : s.local? i n = none →
      Resolves s i (.name n :: rest) (.error n)
  | noPackage {i : ScopeId} {n : String} {v : Value} {rest : List Segment} :
      s.local? i n = some v → (∀ members, ¬ s.IsPackage v members) → rest ≠ [] →
      Resolves s i (.name n :: rest) (.error n)

theorem IsPackage.unique {v : Value} {members members' : ScopeId} (h : s.IsPackage v members)
    (h' : s.IsPackage v members') : members = members' := by
  obtain ⟨id, p, rfl, hp, rfl⟩ := h
  obtain ⟨id', p', hid, hp', rfl⟩ := h'
  cases hid
  rw [hp] at hp'
  cases hp'
  rfl

/-- A path resolves to one thing at most. -/
theorem Resolves.unique {result result' : Except String (String → Option Value)}
    (h : s.Resolves i path result) (h' : s.Resolves i path result') : result = result' := by
  induction h with
  | name hv =>
    cases h' with
    | name hv' =>
      cases hv.symm.trans hv'
      rfl
    | step _ _ hrest _ => exact absurd rfl hrest
    | unbound hv' => cases hv.symm.trans hv'
    | noPackage _ _ hrest => exact absurd rfl hrest
  | wildcard =>
    cases h'
    rfl
  | step hv hp hrest _ ih =>
    cases h' with
    | name _ => exact absurd rfl hrest
    | step hv' hp' _ hresolves =>
      cases hv.symm.trans hv'
      obtain rfl := hp.unique hp'
      exact ih hresolves
    | unbound hv' => cases hv.symm.trans hv'
    | noPackage hv' hp' _ =>
      cases hv.symm.trans hv'
      exact absurd hp (hp' _)
  | unbound hv =>
    cases h' with
    | name hv' => cases hv.symm.trans hv'
    | step hv' _ _ _ => cases hv.symm.trans hv'
    | unbound _ => rfl
    | noPackage hv' _ _ => cases hv.symm.trans hv'
  | noPackage hv hp hrest =>
    cases h' with
    | name _ => exact absurd rfl hrest
    | step hv' hp' _ _ =>
      cases hv.symm.trans hv'
      exact absurd hp' (hp _)
    | unbound hv' => cases hv.symm.trans hv'
    | noPackage _ _ _ => rfl

theorem membersOf?_eq_some {v : Value} {members : ScopeId} :
    s.membersOf? v = some members ↔ s.IsPackage v members := by
  constructor
  · intro h
    cases v with
    | package id =>
      obtain ⟨p, hp, hmembers⟩ := Option.map_eq_some_iff.1 h
      exact ⟨id, p, rfl, hp, hmembers⟩
    | _ => cases h
  · rintro ⟨id, p, rfl, hp, rfl⟩
    simp [membersOf?, hp]

theorem IsPackage.parentless {v : Value} {members : ScopeId} (h : s.Rooted)
    (hp : s.IsPackage v members) : s.parent? members = none := by
  obtain ⟨id, p, -, hp, rfl⟩ := hp
  exact (h.members p (Array.mem_of_getElem? hp)).2

/-! ## Following a path -/

/-- The list has the names and values of the function, and no others. -/
def Lists (bindings : List (String × Value)) (imported : String → Option Value) : Prop :=
  ∀ name v, (name, v) ∈ bindings ↔ imported name = some v

/-- What following a path comes to is what it resolves to. -/
def Follows (s : Store) (i : ScopeId) (path : List Segment) :
    Except String (List (String × Value)) → Prop
  | .ok bindings => ∃ imported, s.Resolves i path (.ok imported) ∧ Lists bindings imported
  | .error segment => s.Resolves i path (.error segment)

theorem follow_last (h : s.parent? i = none) (last : Segment) :
    s.Follows i [last] (s.follow i [last]) := by
  cases last with
  | wildcard => exact ⟨s.local? i, .wildcard, fun name v => mem_visible_of_parentless h⟩
  | name n =>
    unfold follow
    rw [get?_of_parentless h]
    cases hv : s.local? i n with
    | none => exact .unbound hv
    | some v =>
      refine ⟨fun m => if m = n then some v else none, .name hv, fun name u => ?_⟩
      rw [List.mem_singleton, Prod.mk.injEq]
      by_cases hname : name = n
      · simp [hname, eq_comm]
      · simp [hname]

/-- From the global scope and from the members of a package, a path is followed as it resolves. -/
theorem Rooted.follow (h : s.Rooted) (last : Segment) (names : List String) :
    ∀ i, s.parent? i = none → s.Follows i (names.map .name ++ [last])
      (s.follow i (names.map .name ++ [last])) := by
  induction names with
  | nil => exact fun i hi => follow_last hi last
  | cons n names ih =>
    intro i hi
    have hrest : names.map Segment.name ++ [last] ≠ [] := by simp
    rw [List.map_cons, List.cons_append]
    unfold Store.follow
    rw [get?_of_parentless hi]
    cases hv : s.local? i n with
    | none => exact .unbound hv
    | some v =>
      dsimp only
      rw [if_neg hrest]
      cases hm : s.membersOf? v with
      | none =>
        refine .noPackage hv (fun members hmembers => ?_) hrest
        rw [membersOf?_eq_some.2 hmembers] at hm
        cases hm
      | some members =>
        have hpackage := membersOf?_eq_some.1 hm
        have hfollows := ih members (hpackage.parentless h)
        dsimp only
        cases hf : s.follow members (names.map Segment.name ++ [last]) with
        | error segment =>
          rw [hf] at hfollows
          exact .step hv hpackage hrest hfollows
        | ok bindings =>
          rw [hf] at hfollows
          obtain ⟨imported, hresolves, hlists⟩ := hfollows
          exact ⟨imported, .step hv hpackage hrest hresolves, hlists⟩

/-! ## Binding what was found -/

/-- The second store is the first one with the imported names bound in the global scope, in place of
earlier bindings there; no other global name, no other scope and no package has changed, and the
members of a package neither, unless the global scope itself is what holds them, which in a run it
never does (`Program.members_ne_globals`). -/
structure Imported (s : Store) (imported : String → Option Value) (t : Store) : Prop where
  bound : ∀ name, t.local? globals name = (imported name).or (s.local? globals name)
  scopes : ∀ i : ScopeId, i ≠ globals → t.scopes[i.index]? = s.scopes[i.index]?
  parents : ∀ i, t.parent? i = s.parent? i
  packages : t.packages = s.packages
  members : ∀ p ∈ s.packages, p.members ≠ globals →
    ∀ name, t.local? p.members name = s.local? p.members name
  classes : t.classes = s.classes
  instances : t.instances = s.instances
  methods : t.methods = s.methods

/-- What is left as it is when names are bound in the global scope, one after another. -/
theorem bindAll_globals (bindings : List (String × Value)) (s : Store) :
    let t := s.bindAll globals bindings
    (∀ i : ScopeId, i ≠ globals → t.scopes[i.index]? = s.scopes[i.index]?) ∧
    (∀ i, t.parent? i = s.parent? i) ∧ t.packages = s.packages ∧ t.classes = s.classes ∧
    t.instances = s.instances ∧ t.methods = s.methods ∧ t.scopes.size = s.scopes.size := by
  induction bindings generalizing s with
  | nil => exact ⟨fun _ _ => rfl, fun _ => rfl, rfl, rfl, rfl, rfl, rfl⟩
  | cons b bindings ih =>
    obtain ⟨hscopes, hparents, hpackages, hclasses, hinstances, hmethods, hsize⟩ :=
      ih (s.bind globals b.1 b.2)
    refine ⟨fun i hi => ?_, fun i => ?_, hpackages, hclasses, hinstances, hmethods, ?_⟩
    · exact (hscopes i hi).trans (scopes_bind_of_ne (Ne.symm hi) b.1 b.2 s)
    · exact (hparents i).trans (parent?_bind globals b.1 b.2 s i)
    · exact hsize.trans (by simp [bind])

/-- A name that is among the bindings is bound to its value, and any other as before. -/
theorem local?_bindAll {imported : String → Option Value} {bindings : List (String × Value)}
    (hbindings : ∀ b ∈ bindings, imported b.1 = some b.2) (hs : globals.index < s.scopes.size)
    (name : String) : (s.bindAll globals bindings).local? globals name =
      if name ∈ bindings.map Prod.fst then imported name else s.local? globals name := by
  induction bindings generalizing s with
  | nil => rfl
  | cons b bindings ih =>
    have hstep := ih (fun c hc => hbindings c (List.mem_cons_of_mem b hc))
      (s := s.bind globals b.1 b.2) (by simpa [bind] using hs)
    have hfirst : (s.bind globals b.1 b.2).local? globals name =
        if b.1 = name then some b.2 else s.local? globals name := by
      rw [local?_bind]
      simp only [hs, true_and, and_true]
    refine hstep.trans ?_
    rw [List.map_cons, hfirst]
    by_cases hname : b.1 = name
    · have hb := hbindings b (List.mem_cons_self ..)
      rw [hname] at hb ⊢
      rw [if_pos rfl, if_pos (List.mem_cons_self ..), hb, ite_self]
    · have hmem : name ∈ b.1 :: bindings.map Prod.fst ↔ name ∈ bindings.map Prod.fst := by
        rw [List.mem_cons]
        exact or_iff_right (Ne.symm hname)
      rw [if_neg hname]
      simp only [hmem]

theorem imported_bindAll {imported : String → Option Value} {bindings : List (String × Value)}
    (h : Lists bindings imported) (hs : globals.index < s.scopes.size) :
    s.Imported imported (s.bindAll globals bindings) := by
  obtain ⟨hscopes, hparents, hpackages, hclasses, hinstances, hmethods, -⟩ :=
    bindAll_globals bindings s
  refine ⟨fun name => ?_, hscopes, hparents, hpackages, fun p _ hp name => ?_, hclasses,
    hinstances, hmethods⟩
  · rw [local?_bindAll (fun b hb => (h b.1 b.2).1 hb) hs]
    cases hname : imported name with
    | none =>
      rw [if_neg]
      · rfl
      · intro hmem
        obtain ⟨⟨n, v⟩, hb, rfl⟩ := List.mem_map.1 hmem
        rw [(h n v).1 hb] at hname
        cases hname
    | some v =>
      rw [if_pos (List.mem_map.2 ⟨(name, v), (h name v).2 hname, rfl⟩)]
      rfl
  · unfold local?
    rw [hscopes p.members hp]

end Store

/-! ## Packages in a run -/

/-- At no moment of a run is the scope with the members of a package the global scope. -/
theorem Program.members_ne_globals (depth : Nat) (p : Program) (console : Console) :
    ∀ moment ∈ p.history depth console, ∀ package ∈ moment.store.packages,
      package.members ≠ Store.globals := by
  intro moment hmoment package hpackage
  -- no package is made in a run, so the package is one of the library
  have hextends := (p.history_extends depth console moment hmoment).2
  have hend : package ∈ (p.run depth ⟨Library.store, console⟩).2.store.packages :=
    Array.mem_toList_iff.1 (hextends.packages.subset (Array.mem_toList_iff.2 hpackage))
  have hsame := (Statement.rooted_runAll depth Store.globals p.statements
    ⟨Library.store, console⟩).2
  rw [Program.run, hsame] at hend
  exact Library.members_ne_globals package hend

/-! ## Imports -/

/-- An import writes the global scope only. -/
theorem Action.local?_importPath (path : List Segment) (line : Nat) (w : World) {i : ScopeId}
    (hi : i ≠ Store.globals) (name : String) :
    (importPath path line w).2.store.local? i name = w.store.local? i name := by
  unfold importPath Store.local?
  cases w.store.follow Store.globals path with
  | error segment => rfl
  | ok bindings =>
    dsimp only
    rw [(Store.bindAll_globals bindings w.store).1 i hi]

/-- Imports do what their paths say, or nothing. Where the global scope is in no other one, the path
of an import, which is a row of names and a last segment if it was read (`Parser.importPath_form`),
resolves to one thing exactly. If it resolves, the names it imports are bound in the global scope and
nothing else changes, whatever scope the import stands in; if not, the import fails naming the
segment and nothing changes at all. A wildcard alone changes nothing either. What is bound among the
members of a package is the same after an import at any moment of a run. -/
theorem importPath_resolves {w : World} (h : w.store.Rooted) (call : Caller) (scope : ScopeId)
    (names : List String) (last : Segment) (line : Nat) :
    (∃ result, w.store.Resolves Store.globals (names.map .name ++ [last]) result ∧
      (∀ other, w.store.Resolves Store.globals (names.map .name ++ [last]) other → other = result) ∧
      (match result with
        | .ok imported =>
          ∃ t, (Statement.importPath (names.map .name ++ [last]) line).run call scope w =
            (.done (), { w with store := t }) ∧ w.store.Imported imported t
        | .error segment =>
          (Statement.importPath (names.map .name ++ [last]) line).run call scope w =
            (.fault (.importResolution (sourceOfPath (names.map .name ++ [last])) segment line), w)) ∧
      (names = [] → last = .wildcard →
        (Statement.importPath (names.map .name ++ [last]) line).run call scope w = (.done (), w))) ∧
    ∀ depth (p : Program) console, (∃ moment ∈ p.history depth console, moment.store = w.store) →
      ∀ package ∈ w.store.packages, ∀ name,
        ((Statement.importPath (names.map .name ++ [last]) line).run call scope w).2.store.local?
          package.members name = w.store.local? package.members name := by
  refine ⟨?_, fun depth p console ⟨moment, hmoment, hstore⟩ package hpackage name =>
    Action.local?_importPath _ line w
      (p.members_ne_globals depth console moment hmoment package (hstore ▸ hpackage)) name⟩
  have hfollows := h.follow last names Store.globals h.globals.2
  simp only [Statement.run, Action.importPath]
  cases hf : w.store.follow Store.globals (names.map .name ++ [last]) with
  | error segment =>
    rw [hf] at hfollows
    refine ⟨.error segment, hfollows, fun other hother => hother.unique hfollows, rfl, ?_⟩
    rintro rfl rfl
    cases hf
  | ok bindings =>
    rw [hf] at hfollows
    obtain ⟨imported, hresolves, hlists⟩ := hfollows
    refine ⟨.ok imported, hresolves, fun other hother => hother.unique hresolves, ?_, ?_⟩
    · exact ⟨_, rfl, Store.imported_bindAll hlists h.globals.1⟩
    · -- what the global scope binds is bound there again
      rintro rfl rfl
      cases hf
      have hsame : w.store.bindAll Store.globals (w.store.visible Store.globals) = w.store :=
        Store.bindAll_of_local? fun b hb => (Store.mem_visible_of_parentless h.globals.2).1 hb
      dsimp only
      rw [hsame]

theorem importPath_resolves_java_util :
    ∃ t, (Statement.importPath [.name "java", .name "util", .wildcard] 1).run (callWithin 0) ⟨1⟩
        ⟨Library.store, .start .empty none⟩ = (.done (), ⟨t, .start .empty none⟩) ∧
      (t.local? Store.globals "Scanner").isSome ∧
      ∀ name, t.local? ⟨3⟩ name = Library.store.local? ⟨3⟩ name := by
  have hrooted : (World.mk Library.store (.start .empty none)).store.Rooted := by
    dsimp only
    exact Library.rooted_store
  obtain ⟨⟨result, -, hunique, hrun, -⟩, hleaves⟩ :=
    importPath_resolves hrooted (callWithin 0) ⟨1⟩ ["java", "util"] .wildcard 1
  dsimp only at hunique hrun hleaves
  have hjava : Library.store.IsPackage (.package ⟨2⟩) ⟨4⟩ :=
    ⟨⟨2⟩, ⟨"java", ⟨4⟩⟩, rfl, by decide +kernel, rfl⟩
  have hutil : Library.store.IsPackage (.package ⟨1⟩) ⟨3⟩ :=
    ⟨⟨1⟩, ⟨"util", ⟨3⟩⟩, rfl, by decide +kernel, rfl⟩
  have hmembers : Library.store.Resolves Store.globals
      [.name "java", .name "util", .wildcard] (.ok (Library.store.local? ⟨3⟩)) :=
    .step (by decide +kernel) hjava (by simp) (.step (by decide +kernel) hutil (by simp) .wildcard)
  obtain rfl := hunique _ hmembers
  obtain ⟨t, hrun, himported⟩ := hrun
  refine ⟨t, hrun, ?_, fun name => ?_⟩
  · rw [himported.bound]
    decide +kernel
  · -- the store of the library is that of a moment, the first of any run
    have hmoment : ∃ moment ∈ Program.history 0 ⟨[]⟩ (.start .empty none),
        moment.store = Library.store :=
      ⟨⟨Library.store, [], none⟩, Program.start_mem_history 0 ⟨[]⟩ _, by dsimp only⟩
    have hpackage : (⟨"util", ⟨3⟩⟩ : Package) ∈ Library.store.packages := by decide +kernel
    have hsame := hleaves 0 ⟨[]⟩ (.start .empty none) hmoment _ hpackage name
    rw [hrun] at hsame
    exact hsame

end SmallJava
