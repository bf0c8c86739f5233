/-
Actions: the parts of a run. An action works on a world, the store and the console together, and
comes to an outcome; whatever it did before a fault stays done.
-/
import SmallJava.Console
import SmallJava.Store.Member

namespace SmallJava

/-- All that a run can change. -/
structure World where
  store : Store
  console : Console

/-- A part of a run. -/
def Action (α : Type) : Type := World → Outcome α × World

namespace Action

variable {α β : Type}

/-- Does nothing. -/
protected def pure (a : α) : Action α := fun w => (.done a, w)

/-- Does one thing after another. -/
protected def bind (x : Action α) (f : α → Action β) : Action β := fun w =>
  match x w with
  | (.done a, w) => f a w
  | (.fault e, w) => (.fault e, w)
  | (.tooDeep, w) => (.tooDeep, w)
  | (.stuck, w) => (.stuck, w)

instance : Monad Action where
  pure := Action.pure
  bind := Action.bind

@[simp] theorem pure_apply (a : α) (w : World) : (pure a : Action α) w = (.done a, w) := rfl

theorem bind_apply (x : Action α) (f : α → Action β) (w : World) :
    (x >>= f) w = match x w with
      | (.done a, w) => f a w
      | (.fault e, w) => (.fault e, w)
      | (.tooDeep, w) => (.tooDeep, w)
      | (.stuck, w) => (.stuck, w) := rfl

/-- The world is left as the first action left it, or as the second leaves it after that. -/
theorem bind_snd (x : Action α) (f : α → Action β) (w : World) :
    ((x >>= f) w).2 = (x w).2 ∨ ∃ a, (x >>= f) w = f a (x w).2 := by
  rw [bind_apply]
  generalize x w = r
  obtain ⟨outcome, v⟩ := r
  cases outcome with
  | done a => exact Or.inr ⟨a, rfl⟩
  | _ => exact Or.inl rfl

/-! ## Endings -/

/-- Stops with a fault. -/
def fail (f : Fault) : Action α := fun w => (.fault f, w)

/-- Stops because calls are nested too deeply. -/
def tooDeep : Action α := fun w => (.tooDeep, w)

/-- Stops because something is missing. -/
def stuck : Action α := fun w => (.stuck, w)

/-- The value, if there is one. -/
def required : Option α → Action α
  | some a => pure a
  | none => stuck

/-! ## The store -/

/-- Asks the store. -/
def ask (question : Store → α) : Action α := fun w => (.done (question w.store), w)

/-- Asks the store for something it may refuse. -/
def demand (question : Store → Outcome α) : Action α := fun w => (question w.store, w)

/-- Makes something in the store. -/
def make (f : Store → α × Store) : Action α := fun w =>
  let (a, store) := f w.store
  (.done a, { w with store })

/-- Binds a name in a scope. -/
def bindName (scope : ScopeId) (name : String) (value : Value) : Action Unit :=
  make fun s => ((), s.bind scope name value)

/-! ## The console -/

/-- Prints a text for the given line of the program. -/
def print (text : String) (line : Nat) : Action Unit := fun w =>
  match w.console.print text with
  | (true, console) => (.done (), { w with console })
  | (false, console) => (.fault (.stream .outputFull line), { w with console })

/-- Takes characters from the input for the given line of the program. -/
def take (f : Console → Console.Taken × Console) (line : Nat) : Action (List Char) := fun w =>
  match f w.console with
  | (.chars cs, console) => (.done cs, { w with console })
  | (.invalid, console) => (.fault (.stream .invalidEncoding line), { w with console })
  | (.ended, console) => (.fault (.inputExhausted line), { w with console })

end Action

end SmallJava
