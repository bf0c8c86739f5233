/-
Scopes that stand alone. The global scope is in no other one, and neither is the scope with the
members of a package, so a name means there what is bound there, and nothing else has a meaning.
Main statements: `get?_of_parentless`, `mem_visible_of_parentless`, and `Statement.rooted_runAll`,
statements that run leave these scopes alone and make no packages.
-/
import SmallJava.Proofs.Eval.Closed
import SmallJava.Proofs.Store.Alike
import SmallJava.Proofs.Store.Sound

namespace SmallJava

/-! ## Names in order -/

namespace Table

variable {α : Type}

/-- A table of entries has the names of the entries. -/
theorem mem_names_foldl {entries : List (String × α)} {t : Table α} {name : String} :
    name ∈ (entries.foldl (fun t e => t.insert e.1 e.2) t).names ↔
      name ∈ t.names ∨ name ∈ entries.map Prod.fst := by
  induction entries generalizing t with
  | nil => simp
  | cons e entries ih =>
    rw [List.foldl_cons, ih, mem_names, get?_insert, mem_names]
    by_cases he : e.1 = name
    · simp [he]
    · simp [he, Ne.symm he]

theorem mem_sortNames {names : List String} {name : String} :
    name ∈ sortNames names ↔ name ∈ names := by
  unfold sortNames ofList
  rw [mem_names_foldl, List.map_map]
  have hid : (Prod.fst ∘ fun n : String => (n, ())) = id := rfl
  rw [hid, List.map_id]
  simp [mem_names]

/-- What is found in the entries is no smaller than the first name. -/
theorem lookupEntry_of_lt {entries : List (String × α)} {name : String}
    (h : ∀ e ∈ entries, name < e.1) : lookupEntry name entries = none := by
  induction entries with
  | nil => rfl
  | cons e entries ih =>
    rw [lookupEntry, if_neg, ih fun e' he' => h e' (List.mem_cons_of_mem e he')]
    intro heq
    have hlt := h e (List.mem_cons_self ..)
    rw [heq] at hlt
    exact String.lt_irrefl name hlt

theorem insertEntry_of_lookupEntry {entries : List (String × α)} (h : Ascending entries)
    {name : String} {value : α} (hv : lookupEntry name entries = some value) :
    insertEntry name value entries = entries := by
  induction entries with
  | nil => cases hv
  | cons e entries ih =>
    obtain ⟨n, v⟩ := e
    obtain ⟨hn, hrest⟩ := List.pairwise_cons.1 h
    unfold insertEntry
    split
    · -- nothing is found in front of the first name
      rename_i hlt
      have hnone : lookupEntry name ((n, v) :: entries) = none := by
        refine lookupEntry_of_lt fun e he => ?_
        rcases List.mem_cons.1 he with rfl | he
        · exact hlt
        · exact String.lt_trans hlt (hn e he)
      rw [hnone] at hv
      cases hv
    · split
      · rename_i heq
        subst heq
        rw [lookupEntry, if_pos rfl] at hv
        cases hv
        rfl
      · rename_i hne
        rw [lookupEntry, if_neg (Ne.symm hne)] at hv
        rw [ih hrest hv]

/-- What a table holds already need not be put in. -/
theorem insert_of_get? {t : Table α} {name : String} {value : α} (h : t.get? name = some value) :
    t.insert name value = t := by
  obtain ⟨entries, hascending⟩ := t
  unfold insert
  simp only [mk.injEq]
  exact insertEntry_of_lookupEntry hascending h

end Table

namespace Store

variable {s t : Store} {i scope : ScopeId} {name : String} {v : Value}

/-! ## Names that mean something -/

/-- A name means something if some scope on the way outward binds it. -/
theorem isSome_get? : (s.get? i name).isSome ↔ ∃ j ∈ s.chain i, (s.local? j name).isSome := by
  rw [get?, List.findSome?_isSome_iff]

theorem mem_allNames : name ∈ s.allNames i ↔ (s.get? i name).isSome := by
  rw [allNames, Table.mem_sortNames, List.mem_flatMap, isSome_get?]
  exact exists_congr fun j => and_congr_right fun _ => mem_localNames

/-! ## Scopes in no other scope -/

theorem chain_of_parentless (h : s.parent? i = none) : s.chain i = [i] := by
  unfold chain
  cases i.index with
  | zero => rfl
  | succ bound => rw [chainUpTo, h]

/-- A name means what the scope itself binds it to. -/
theorem get?_of_parentless (h : s.parent? i = none) (name : String) :
    s.get? i name = s.local? i name := by
  unfold get?
  rw [chain_of_parentless h]
  cases hv : s.local? i name <;> simp [hv]

theorem mem_allNames_of_parentless (h : s.parent? i = none) :
    name ∈ s.allNames i ↔ (s.local? i name).isSome := by
  rw [mem_allNames, get?_of_parentless h]

/-- Nothing has a meaning but what the scope itself binds. -/
theorem mem_visible_of_parentless (h : s.parent? i = none) :
    (name, v) ∈ s.visible i ↔ s.local? i name = some v := by
  unfold visible
  rw [List.mem_filterMap]
  constructor
  · rintro ⟨n, -, hn⟩
    rw [get?_of_parentless h] at hn
    obtain ⟨u, hu, heq⟩ := Option.map_eq_some_iff.1 hn
    cases heq
    exact hu
  · intro hv
    refine ⟨name, ?_, ?_⟩
    · rw [mem_allNames_of_parentless h, hv]
      rfl
    · rw [get?_of_parentless h, hv]
      rfl

/-! ## Binding what is bound -/

theorem bind_of_local? (h : s.local? i name = some v) : s.bind i name v = s := by
  obtain ⟨sc, hsc, hv⟩ := Option.bind_eq_some_iff.1 h
  have hscopes : (s.bind i name v).scopes = s.scopes := by
    refine Array.ext_getElem? fun k => ?_
    unfold bind
    rw [Array.getElem?_modify]
    split
    · rename_i hk
      subst hk
      rw [hsc, Option.map_some, Table.insert_of_get? hv]
    · rfl
  obtain ⟨scopes, packages, classes, instances, methods⟩ := s
  unfold bind at hscopes ⊢
  simp only at hscopes
  rw [hscopes]

/-- Binding in a scope what it binds already changes nothing. -/
theorem bindAll_of_local? {bindings : List (String × Value)}
    (h : ∀ b ∈ bindings, s.local? i b.1 = some b.2) : s.bindAll i bindings = s := by
  induction bindings with
  | nil => rfl
  | cons b bindings ih =>
    unfold bindAll
    rw [List.foldl_cons, bind_of_local? (h b (List.mem_cons_self ..))]
    exact ih fun c hc => h c (List.mem_cons_of_mem b hc)

/-! ## Rooted stores -/

/-- The scope is there and in no other one. -/
def Alone (s : Store) (i : ScopeId) : Prop := i.index < s.scopes.size ∧ s.parent? i = none

instance (s : Store) (i : ScopeId) : Decidable (s.Alone i) :=
  inferInstanceAs (Decidable (_ ∧ _))

/-- The global scope stands alone, and so does the scope with the members of every package. -/
structure Rooted (s : Store) : Prop where
  globals : s.Alone globals
  members : ∀ p ∈ s.packages, s.Alone p.members

theorem Alone.keeps {writable : Option ScopeId} {names : List String} (h : s.Alone i)
    (hk : s.Keeps writable names t) : t.Alone i := by
  obtain ⟨hi, hparent⟩ := h
  refine ⟨Nat.lt_of_lt_of_le hi hk.size, ?_⟩
  rw [hk.parents i hi, hparent]

/-- Scopes that are left alone stay rooted as long as no package is made. -/
theorem Rooted.keeps {writable : Option ScopeId} {names : List String} (h : s.Rooted)
    (hk : s.Keeps writable names t) (hpackages : t.packages = s.packages) : t.Rooted where
  globals := h.globals.keeps hk
  members p hp := by
    rw [hpackages] at hp
    exact (h.members p hp).keeps hk

theorem Rooted.bind (h : s.Rooted) (scope : ScopeId) (name : String) (v : Value) :
    (s.bind scope name v).Rooted :=
  h.keeps (keeps_bind scope name v s) rfl

theorem Rooted.bindAll (h : s.Rooted) (scope : ScopeId) (bindings : List (String × Value)) :
    (s.bindAll scope bindings).Rooted := by
  induction bindings generalizing s with
  | nil => exact h
  | cons b bindings ih => exact ih (h.bind scope b.1 b.2)

theorem Rooted.newScope (h : s.Rooted) (bindings : Table Value) (parent : Option ScopeId) :
    (s.newScope bindings parent).2.Rooted :=
  h.keeps (keeps_newScope bindings parent s) rfl

theorem packages_newMembers (scope : ScopeId) (ms : List MethodDecl) (statics members : Table Value)
    (s : Store) : (newMembers scope ms statics members s).2.packages = s.packages := by
  induction ms generalizing statics members s with
  | nil => rfl
  | cons m ms ih =>
    unfold newMembers
    dsimp only
    split
    · exact ih ..
    · exact ih ..

theorem Rooted.newUserClass (h : s.Rooted) (scope : ScopeId) (name : String)
    (methods : List MethodDecl) : (s.newUserClass scope name methods).2.Rooted :=
  h.keeps (keeps_newUserClass scope name methods s) (packages_newMembers scope methods _ _ s)

/-- Evaluation makes no packages. -/
theorem MadeInCalls.packages {α : Type} {f : Store → α × Store} (hf : MadeInCalls f) (s : Store) :
    (f s).2.packages = s.packages := by
  obtain ⟨scopes, instances, -, h⟩ := hf.exists_eq s
  rw [h]

/-- What evaluation makes keeps a store rooted. -/
theorem Rooted.made {α : Type} {f : Store → α × Store} (h : s.Rooted) (hf : MadeInCalls f) :
    (f s).2.Rooted := by
  cases hf with
  | bind scope name v => exact h.bind scope name v
  | bindAll scope bindings => exact h.bindAll scope bindings
  | newScope bindings closure => exact h.newScope bindings (some closure)
  | newInstance c => exact h.keeps (keeps_newInstance c s) rfl

end Store

/-! ## Runs -/

/-- The store is rooted afterwards if it was before, and has the same packages. -/
def Action.KeepsRooted {α : Type} (x : Action α) : Prop :=
  ∀ w, (w.store.Rooted → (x w).2.store.Rooted) ∧ (x w).2.store.packages = w.store.packages

namespace Action

variable {α β : Type}

theorem KeepsRooted.bind {x : Action α} {f : α → Action β} (hx : x.KeepsRooted)
    (hf : ∀ a, (f a).KeepsRooted) : (x >>= f).KeepsRooted := by
  intro w
  rcases bind_snd x f w with h | ⟨a, h⟩
  · rw [h]
    exact hx w
  · rw [h]
    obtain ⟨hrooted, hpackages⟩ := hx w
    obtain ⟨hrooted', hpackages'⟩ := hf a (x w).2
    exact ⟨fun hw => hrooted' (hrooted hw), hpackages'.trans hpackages⟩

theorem keepsRooted_print (text : String) (line : Nat) : (print text line).KeepsRooted := by
  intro w
  rw [quiet_print text line w]
  exact ⟨id, rfl⟩

theorem keepsRooted_take (f : Console → Console.Taken × Console) (line : Nat) :
    (take f line).KeepsRooted := by
  intro w
  rw [quiet_take f line w]
  exact ⟨id, rfl⟩

theorem closedInRuns_keepsRooted : ClosedInRuns KeepsRooted where
  bind := KeepsRooted.bind
  demand _ := fun _ => ⟨id, rfl⟩
  make hf := fun w => ⟨fun hw => hw.made hf, hf.packages w.store⟩
  print := keepsRooted_print
  nextLine := keepsRooted_take Console.nextLine
  nextWord := keepsRooted_take Console.nextWord
  newUserClass scope name methods := fun w =>
    ⟨fun hw => hw.newUserClass scope name methods,
      Store.packages_newMembers scope methods _ _ w.store⟩

end Action

/-- Statements that run leave a rooted store rooted, so imports resolve wherever they stand, and they
make no packages. -/
theorem Statement.rooted_runAll (depth : Nat) (scope : ScopeId) (statements : List Statement)
    (w : World) : (w.store.Rooted →
      (Statement.runAll (callWithin depth) scope statements w).2.store.Rooted) ∧
    (Statement.runAll (callWithin depth) scope statements w).2.store.packages = w.store.packages :=
  Action.closedInRuns_keepsRooted.runAll
    (fun v arguments line => Action.closedInRuns_keepsRooted.callWithin depth v arguments line)
    scope statements w

theorem Library.rooted_store : Library.store.Rooted := ⟨by decide +kernel, by decide +kernel⟩

theorem Library.members_ne_globals : ∀ p ∈ Library.store.packages, p.members ≠ Store.globals := by
  decide +kernel

end SmallJava
