/-
Runs of printed programs. Lines influence nothing but the line a fault is reported for, so a source
text and what its program is printed as run alike: they print the same, take the same input and end
the same way up to lines. Main statements: `Program.run_mapLines`, `runSource_source`.
-/
import SmallJava.Interpreter
import SmallJava.Proofs.Eval.Lines
import SmallJava.Proofs.Parser.RoundTrip

namespace SmallJava

/-! ## The library -/

/-- Methods of the library are not of the program, and none is embedded. -/
theorem Library.methods_store : ∀ m ∈ store.methods, m.isDeclared = false ∧ m.Lineless := by
  have h : ∀ m ∈ store.methods.toList, m.isDeclared = false ∧ m.Lineless := by decide +kernel
  exact fun m hm => h m (Array.mem_toList_iff.2 hm)

theorem Library.lineless_store : store.Lineless := fun m hm => (methods_store m hm).2

/-- The library has no lines. -/
theorem Library.mapLines_store (f : Nat → Nat) : store.mapLines f = store := by
  have h : store.methods.map (Method.mapLines f) = store.methods.map id :=
    Array.map_congr_left fun m hm => Method.mapLines_of_not_isDeclared f (methods_store m hm).1
  rw [Store.mapLines, h, Array.map_id]

/-! ## Runs -/

theorem Program.commutes_run (f : Nat → Nat) (depth : Nat) (p : Program) :
    Action.Commutes f id (p.run depth) ((p.mapLines f).run depth) :=
  Statement.commutes_runAll (commutes_callWithin f depth) Store.globals p.statements

/-- A program with a function applied to its lines runs as the program does, but for the line of a
fault and the lines of the methods it makes. -/
theorem Program.run_mapLines (f : Nat → Nat) (depth : Nat) (p : Program) {w : World}
    (hw : w.store = Library.store) :
    (p.mapLines f).run depth w =
      ((p.run depth w).1.mapLine f id, (p.run depth w).2.mapLines f) := by
  have h := (p.commutes_run f depth w (hw ▸ Library.lineless_store)).2
  rwa [World.mapLines, hw, Library.mapLines_store, ← hw] at h

/-- The fault without its line. -/
def Fault.erased (e : Fault) : Fault := e.mapLine fun _ => 0

/-- The failure without the line of a fault. -/
def Failure.erased : Failure → Failure
  | fault e => fault e.erased
  | e => e

theorem Outcome.toExcept_erased {α : Type} (o : Outcome α) :
    o.toExcept.mapError Failure.erased = (o.mapLine (fun _ => 0) id).toExcept := by
  cases o <;> rfl

theorem runSource_of_ofSource {source : String} {p : Program} (h : Program.ofSource source = .ok p)
    (depth : Nat) {w : World} (hw : w.store = Library.store) :
    runSource depth source w.console = ((p.run depth w).1.toExcept, (p.run depth w).2) := by
  unfold runSource
  rw [← hw, h]

/-- A source text and the print of its program leave the console alike, and end alike but for the
line of a fault, whatever they read and however deep calls may be nested. -/
theorem runSource_source {source : String} {p : Program} (h : Program.ofSource source = .ok p)
    (depth : Nat) (console : Console) :
    (runSource depth p.source console).2.console = (runSource depth source console).2.console ∧
      (runSource depth p.source console).1.mapError Failure.erased =
        (runSource depth source console).1.mapError Failure.erased := by
  obtain ⟨q, hq, he⟩ := Program.ofSource_source (Program.wellFormed_of_ofSource h)
  obtain ⟨w, hw, rfl⟩ : ∃ w : World, w.store = Library.store ∧ w.console = console :=
    ⟨⟨Library.store, console⟩, by simp only, rfl⟩
  rw [runSource_of_ofSource h depth hw, runSource_of_ofSource hq depth hw]
  -- both runs are compared with that of the program without lines
  have hp := Program.run_mapLines (fun _ => 0) depth p hw
  have hq := Program.run_mapLines (fun _ => 0) depth q hw
  rw [← Program.erased] at hp hq
  rw [he, hp] at hq
  obtain ⟨ho, hw⟩ := Prod.mk.inj hq
  refine ⟨?_, ?_⟩
  · exact (congrArg World.console hw).symm
  · rw [Outcome.toExcept_erased, Outcome.toExcept_erased, ho]

theorem runSource_source_fault_on_other_line :
    ∃ source p, source = "\n\nclass A \x7b static void main(String s) \x7b
        System.out.println(s); x = y; \x7d \x7d" ∧
      Program.ofSource source = .ok p ∧
      p.source = "class A \x7b\nstatic void main(String s) \x7b\nSystem.out.println(s);\nx = y;\n" ++
        "\x7d\n\x7d\n" ∧
      (runSource 1 p.source (.start .empty none)).2.console.printed = "hello world\n".toUTF8 ∧
      (runSource 1 p.source (.start .empty none)).1.mapError Failure.erased =
        (runSource 1 source (.start .empty none)).1.mapError Failure.erased := by
  obtain ⟨source, hs⟩ : ∃ source, source = "\n\nclass A \x7b static void main(String s) \x7b
        System.out.println(s); x = y; \x7d \x7d" := ⟨_, rfl⟩
  have h : (Program.ofSource source).toOption.map Program.source =
      some ("class A \x7b\nstatic void main(String s) \x7b\nSystem.out.println(s);\nx = y;\n" ++
        "\x7d\n\x7d\n") := by rw [hs]; decide +kernel
  have hprinted : (runSource 1 source (.start .empty none)).2.console.printed =
      "hello world\n".toUTF8 := by rw [hs]; decide +kernel
  cases hp : Program.ofSource source with
  | error e => rw [hp] at h; cases h
  | ok p =>
    rw [hp] at h
    obtain ⟨hconsole, hresult⟩ := runSource_source hp 1 (.start .empty none)
    exact ⟨source, p, hs, hp, Option.some.inj h, by rw [hconsole, hprinted], hresult⟩

end SmallJava
