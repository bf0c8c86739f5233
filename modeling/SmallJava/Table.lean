/-
Tables: finite maps from names, kept in the order of their names, so that a table is determined by
what it holds. Main statements: what is found after an insertion, which names are listed, and that
they are listed in strictly ascending order.
-/

namespace SmallJava

/-! ## Entries in order -/

/-- Entries whose names ascend strictly. -/
def Ascending {α : Type} (entries : List (String × α)) : Prop :=
  entries.Pairwise fun a b => a.1 < b.1

/-- The entries with one more, in its place; it replaces an entry of its name. -/
def insertEntry {α : Type} (name : String) (value : α) : List (String × α) → List (String × α)
  | [] => [(name, value)]
  | (n, v) :: rest =>
    if name < n then (name, value) :: (n, v) :: rest
    else if name = n then (name, value) :: rest
    else (n, v) :: insertEntry name value rest

/-- What the entries hold under a name. -/
def lookupEntry {α : Type} (name : String) : List (String × α) → Option α
  | [] => none
  | (n, v) :: rest => if n = name then some v else lookupEntry name rest

theorem mem_insertEntry {α : Type} {name : String} {value : α} {entries : List (String × α)}
    {e : String × α} (h : e ∈ insertEntry name value entries) :
    e = (name, value) ∨ e ∈ entries := by
  induction entries with
  | nil => exact Or.inl (by simpa [insertEntry] using h)
  | cons first rest ih =>
    obtain ⟨n, v⟩ := first
    simp only [insertEntry] at h
    split at h
    · rcases List.mem_cons.1 h with h | h
      · exact Or.inl h
      · exact Or.inr h
    · split at h
      · rcases List.mem_cons.1 h with h | h
        · exact Or.inl h
        · exact Or.inr (List.mem_cons_of_mem _ h)
      · rcases List.mem_cons.1 h with h | h
        · exact Or.inr (h ▸ List.mem_cons_self)
        · rcases ih h with h | h
          · exact Or.inl h
          · exact Or.inr (List.mem_cons_of_mem _ h)

theorem lt_of_not_lt_of_ne {a b : String} (h : ¬ a < b) (hne : a ≠ b) : b < a := by
  refine Decidable.byContradiction fun h' => hne ?_
  exact String.le_antisymm (String.not_lt.1 h') (String.not_lt.1 h)

theorem Ascending.insertEntry {α : Type} {entries : List (String × α)} (h : Ascending entries)
    (name : String) (value : α) : Ascending (insertEntry name value entries) := by
  induction entries with
  | nil => simp [Ascending, SmallJava.insertEntry]
  | cons first rest ih =>
    obtain ⟨n, v⟩ := first
    obtain ⟨hn, hrest⟩ := List.pairwise_cons.1 h
    simp only [SmallJava.insertEntry]
    split
    · rename_i hlt
      refine List.pairwise_cons.2 ⟨fun e he => ?_, h⟩
      rcases List.mem_cons.1 he with rfl | he
      · exact hlt
      · exact String.lt_trans hlt (hn e he)
    · split
      · rename_i heq
        subst heq
        exact List.pairwise_cons.2 ⟨hn, hrest⟩
      · rename_i hlt hne
        refine List.pairwise_cons.2 ⟨fun e he => ?_, ih hrest⟩
        rcases mem_insertEntry he with rfl | he
        · exact lt_of_not_lt_of_ne hlt hne
        · exact hn e he

/-! ## Tables -/

/-- A finite map from names. -/
structure Table (α : Type) where
  entries : List (String × α)
  ascending : Ascending entries

namespace Table

variable {α : Type}

/-- The table that holds nothing. -/
def empty : Table α := ⟨[], List.Pairwise.nil⟩

instance : Inhabited (Table α) := ⟨empty⟩

/-- The table with one more entry, in place of an entry of the same name. -/
def insert (t : Table α) (name : String) (value : α) : Table α :=
  ⟨insertEntry name value t.entries, t.ascending.insertEntry name value⟩

/-- What the table holds under a name. -/
def get? (t : Table α) (name : String) : Option α := lookupEntry name t.entries

/-- The names in the table, in ascending order. -/
def names (t : Table α) : List String := t.entries.map Prod.fst

/-- The table of the given entries; of entries with one name the last counts. -/
def ofList (entries : List (String × α)) : Table α :=
  entries.foldl (fun t e => t.insert e.1 e.2) empty

/-- The given names in strictly ascending order. -/
def sortNames (names : List String) : List String :=
  (ofList (names.map fun n => (n, ()))).names

/-! ## Laws -/

@[simp] theorem get?_empty (name : String) : (empty : Table α).get? name = none := rfl

theorem lookupEntry_insertEntry (entries : List (String × α)) (name : String) (value : α)
    (other : String) : lookupEntry other (insertEntry name value entries) =
      if name = other then some value else lookupEntry other entries := by
  induction entries with
  | nil => rfl
  | cons first rest ih =>
    obtain ⟨n, v⟩ := first
    unfold insertEntry
    split
    · rfl
    · split
      · rename_i heq
        subst heq
        simp only [lookupEntry]
        split <;> rfl
      · rename_i hne
        simp only [lookupEntry, ih]
        by_cases ho : name = other
        · subst ho
          simp [Ne.symm hne]
        · simp [ho]

theorem get?_insert (t : Table α) (name : String) (value : α) (other : String) :
    (t.insert name value).get? other = if name = other then some value else t.get? other :=
  lookupEntry_insertEntry t.entries name value other

theorem mem_names {t : Table α} {name : String} : name ∈ t.names ↔ (t.get? name).isSome := by
  unfold names get?
  generalize t.entries = entries
  induction entries with
  | nil => simp [lookupEntry]
  | cons first rest ih =>
    rw [List.map_cons, List.mem_cons, ih, lookupEntry]
    by_cases h : first.1 = name
    · simp [h]
    · simp [h, Ne.symm h]

theorem ascending_names (t : Table α) : t.names.Pairwise (· < ·) :=
  List.pairwise_map.2 t.ascending

end Table

end SmallJava
