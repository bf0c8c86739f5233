/-
Looking names up. A name means what it is bound to in the nearest scope that binds it, going outward,
and the names that mean something are those that some scope on the way binds. Binding a name changes
what it means in the scopes from which one comes to the new binding first. Main statement:
`lookup_walks_outward`.
-/
import SmallJava.Proofs.Store.Rooted
import SmallJava.Proofs.Text.ByteOrder

namespace SmallJava.Store

/-- Going outward from a scope one comes to another, past scopes that do not bind the name. -/
inductive Reaches (s : Store) (name : String) : ScopeId → ScopeId → Prop
  | here {i : ScopeId} : s.Reaches name i i
  | outward {i p j : ScopeId} : s.local? i name = none → s.parent? i = some p →
      s.Reaches name p j → s.Reaches name i j

variable {s : Store} {i scope : ScopeId} {name other : String} {v : Value}

/-! ## Stores with nested scopes -/

theorem nested_initial : initial.Nested := by
  intro i p hp
  have hi := lt_of_parent? hp
  rw [show i = globals by cases i; simp_all [initial, globals]] at hp
  cases hp

theorem Nested.bind (h : s.Nested) (scope : ScopeId) (name : String) (v : Value) :
    (s.bind scope name v).Nested := by
  intro i p hp
  rw [parent?_bind] at hp
  exact h i p hp

/-! ## The nearest scope -/

/-- A name means what the nearest scope that binds it binds it to. -/
theorem Nested.get?_eq_some_iff (h : s.Nested) :
    s.get? i name = some v ↔ ∃ j, s.Reaches name i j ∧ s.local? j name = some v := by
  constructor
  · intro hv
    have hpath := h.outward i
    generalize s.chain i = path at hpath
    induction hpath with
    | @last i hp =>
      rw [h.get?_eq, hp, Option.bind_none, Option.or_none] at hv
      exact ⟨i, .here, hv⟩
    | @inside i p path hp _ ih =>
      rw [h.get?_eq, hp, Option.bind_some] at hv
      cases hlocal : s.local? i name with
      | none =>
        rw [hlocal, Option.none_or] at hv
        obtain ⟨j, hj, hbound⟩ := ih hv
        exact ⟨j, .outward hlocal hp hj, hbound⟩
      | some u =>
        rw [hlocal, Option.some_or] at hv
        exact ⟨i, .here, hlocal.trans hv⟩
  · rintro ⟨j, hj, hv⟩
    induction hj with
    | here => rw [h.get?_eq, hv, Option.some_or]
    | outward hlocal hp _ ih => rw [h.get?_eq, hlocal, hp, Option.none_or, Option.bind_some, ih hv]

/-! ## Names -/

theorem ascending_allNames (s : Store) (i : ScopeId) : (s.allNames i).Pairwise (· < ·) :=
  Table.ascending_names _

/-! ## Binding -/

/-- A name means what it has been bound to, in the scopes from which one comes there first. -/
theorem Nested.get?_bind_of_reaches (h : s.Nested) (hs : scope.index < s.scopes.size)
    (hr : s.Reaches name i scope) (v : Value) : (s.bind scope name v).get? i name = some v := by
  induction hr with
  | here => rw [(h.bind _ name v).get?_eq, local?_bind, if_pos ⟨rfl, rfl, hs⟩, Option.some_or]
  | outward hlocal hp _ ih =>
    rw [(h.bind _ name v).get?_eq, local?_bind, parent?_bind, hp, Option.bind_some, ih hs]
    split
    · rfl
    · rw [hlocal, Option.none_or]

/-- A scope that is not reached binds what it bound before. -/
theorem local?_bind_of_not_reaches (hr : ¬ (other = name ∧ s.Reaches name i scope)) (v : Value) :
    (s.bind scope name v).local? i other = s.local? i other := by
  rw [local?_bind, if_neg]
  rintro ⟨rfl, rfl, -⟩
  exact hr ⟨rfl, .here⟩

/-- What a name means elsewhere, and what other names mean, is left as it is. -/
theorem Nested.get?_bind_of_not_reaches (h : s.Nested)
    (hr : ¬ (other = name ∧ s.Reaches name i scope)) (v : Value) :
    (s.bind scope name v).get? i other = s.get? i other := by
  have hpath := h.outward i
  generalize s.chain i = path at hpath
  induction hpath with
  | last hp =>
    rw [(h.bind scope name v).get?_eq, h.get?_eq, local?_bind_of_not_reaches hr v, parent?_bind, hp]
    rfl
  | inside hp _ ih =>
    rw [(h.bind scope name v).get?_eq, h.get?_eq, local?_bind_of_not_reaches hr v, parent?_bind, hp,
      Option.bind_some, Option.bind_some]
    cases hbound : s.local? _ other with
    | some u => rfl
    | none =>
      rw [Option.none_or, Option.none_or]
      refine ih fun ⟨heq, hreach⟩ => hr ⟨heq, ?_⟩
      subst heq
      exact .outward hbound hp hreach

/-! ## The laws -/

/-- The texts are in strictly ascending order of their bytes. -/
def ByteAscending (names : List String) : Prop :=
  names.Pairwise fun a b => a.toUTF8.toList < b.toUTF8.toList

theorem byteAscending_of_pairwise {names : List String} (h : names.Pairwise (· < ·)) :
    ByteAscending names :=
  h.imp Text.toUTF8_lt_toUTF8.2

/-- Names are looked up along the way outward. A name is listed if it means something, which it does
if some scope on the way binds it, and it means what the nearest of them binds it to; names are
listed once each and in the order of their bytes, those of a scope itself being the ones it binds.
After a binding a name means what it was bound to where one comes to that binding before any other of
the name, and nothing else changes. -/
theorem lookup_walks_outward (h : s.Nested) (i : ScopeId) :
    (∃ path, s.Outward i path ∧ ∀ n, (n ∈ s.allNames i ↔ (s.get? i n).isSome) ∧
      ((s.get? i n).isSome ↔ ∃ j ∈ path, (s.local? j n).isSome)) ∧
    (∀ n v, s.get? i n = some v ↔ ∃ j, s.Reaches n i j ∧ s.local? j n = some v) ∧
    (∀ n, n ∈ s.localNames i ↔ (s.local? i n).isSome) ∧
    ByteAscending (s.localNames i) ∧ ByteAscending (s.allNames i) ∧
    ∀ scope : ScopeId, scope.index < s.scopes.size → ∀ m v n,
      (n = m ∧ s.Reaches m i scope → (s.bind scope m v).get? i n = some v) ∧
      (¬ (n = m ∧ s.Reaches m i scope) → (s.bind scope m v).get? i n = s.get? i n) := by
  refine ⟨⟨s.chain i, h.outward i, fun n => ⟨mem_allNames, isSome_get?⟩⟩,
    fun n v => h.get?_eq_some_iff, fun n => mem_localNames,
    byteAscending_of_pairwise (s.ascending_localNames i),
    byteAscending_of_pairwise (s.ascending_allNames i), fun scope hs m v n => ⟨?_, fun hr => ?_⟩⟩
  · rintro ⟨rfl, hr⟩
    exact h.get?_bind_of_reaches hs hr v
  · exact h.get?_bind_of_not_reaches hr v

/-- Of three scopes in one another the one in the middle binds a name: in the innermost one a new
binding in the middle is seen, and one outside is not. -/
theorem lookup_walks_outward_shadowed :
    let outer := (initial.newScope .empty (some globals)).2
    let s := (outer.newScope .empty (some ⟨1⟩)).2.bind ⟨1⟩ "x" .null
    s.Nested ∧ (s.bind ⟨1⟩ "x" (.text "new")).get? ⟨2⟩ "x" = some (.text "new") ∧
      (s.bind globals "x" (.text "new")).get? ⟨2⟩ "x" = s.get? ⟨2⟩ "x" ∧
      s.get? ⟨2⟩ "x" = some .null := by
  intro outer s
  have houter : outer.Nested := nested_initial.newScope (fun p hp => by cases hp; decide) .empty
  have hs : s.Nested :=
    (houter.newScope (fun p hp => by cases hp; decide) .empty).bind ⟨1⟩ "x" .null
  obtain ⟨-, hnearest, -, -, -, hbind⟩ := lookup_walks_outward hs ⟨2⟩
  have hmiddle : s.Reaches "x" ⟨2⟩ ⟨1⟩ := .outward rfl rfl .here
  refine ⟨hs, (hbind ⟨1⟩ (by decide) "x" _ "x").1 ⟨rfl, hmiddle⟩,
    (hbind globals (by decide) "x" _ "x").2 ?_, (hnearest "x" .null).2 ⟨⟨1⟩, hmiddle, rfl⟩⟩
  -- the walk from the innermost scope stops in the middle
  rintro ⟨-, hreach⟩
  cases hreach with
  | outward _ hp hreach =>
    cases hp
    cases hreach with
    | outward hlocal _ _ => cases hlocal

end SmallJava.Store
