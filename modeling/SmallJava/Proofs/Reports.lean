/-
Where faults are reported. Runs pass lines on and make none up: a function that leaves the lines of a
program as they are, and moves all others, leaves the line of its fault as it is, so that line is one
of the program, and so of a token. Main statement: `runSource_fault_line`.
-/
import SmallJava.Proofs.Grammar.Lines
import SmallJava.Proofs.Printed
import SmallJava.Proofs.Token.Lines

namespace SmallJava

/-! ## Lines of faults -/

theorem Fault.line?_mapLine (f : Nat → Nat) (e : Fault) : (e.mapLine f).line? = e.line?.map f := by
  cases e <;> rfl

theorem Fault.line?_eq_none {e : Fault} : e.line? = none ↔ e = .noEntryPoint := by
  cases e <;> simp [line?]

/-- The fault that a failure is, if it is one. -/
def Failure.fault? : Failure → Option Fault
  | fault e => some e
  | lex _ => none
  | parse _ => none
  | tooDeep => none
  | stuck => none

theorem eq_fault_of_mapError {result : Except Failure Unit} {e : Fault}
    (h : result.mapError Failure.fault? = .error (some e)) : result = .error (.fault e) := by
  cases result with
  | ok _ => cases h
  | error failure =>
    cases failure with
    | fault found => cases h; rfl
    | _ => cases h

/-- Moves all lines but those of the tokens. -/
def moveOthers (toks : List Located) (line : Nat) : Nat :=
  if ∃ t ∈ toks, t.line = line then line else line + 1

theorem fixes_moveOthers (toks : List Located) : Derivation.Fixes (moveOthers toks) toks :=
  fun t ht => if_pos ⟨t, ht, rfl⟩

theorem exists_of_moveOthers {toks : List Located} {line : Nat} (h : moveOthers toks line = line) :
    ∃ t ∈ toks, t.line = line := by
  by_contra hnone
  rw [moveOthers, if_neg hnone] at h
  omega

/-! ## Runs -/

/-- What leaves the lines of a program as they are leaves the line of its fault as it is. -/
theorem Program.mapLine_fault {f : Nat → Nat} {p : Program} (hp : p.mapLines f = p) {depth : Nat}
    {w : World} (hw : w.store = Library.store) {e : Fault} (h : (p.run depth w).1 = .fault e) :
    e.mapLine f = e := by
  have hrun := congrArg Prod.fst (Program.run_mapLines f depth p hw)
  rw [hp, h] at hrun
  exact (Outcome.fault.inj hrun).symm

/-- A source text that is no program stops before anything runs. -/
theorem Program.ofSource_ne_fault (source : String) (e : Fault) :
    Program.ofSource source ≠ .error (.fault e) := by
  rw [Program.ofSource, Parser.ofSource]
  split
  · exact fun h => by cases h
  · split <;> exact fun h => by cases h

/-- What faults runs the program of a source text. -/
theorem exists_run_of_fault {depth : Nat} {source : String} {w : World}
    (hw : w.store = Library.store) {e : Fault}
    (h : (runSource depth source w.console).1 = .error (.fault e)) :
    ∃ p, Program.ofSource source = .ok p ∧ (p.run depth w).1 = .fault e := by
  cases hp : Program.ofSource source with
  | error failure =>
    rw [runSource, hp] at h
    obtain rfl := Except.error.inj h
    exact absurd hp (Program.ofSource_ne_fault source e)
  | ok p =>
    rw [runSource_of_ofSource hp depth hw] at h
    refine ⟨p, rfl, ?_⟩
    cases hrun : (p.run depth w).1 with
    | fault found =>
      rw [hrun] at h
      cases h
      rfl
    | _ => rw [hrun] at h; cases h

/-- A source text that stops with a fault has no entry point, or has a token on the line that the
fault is reported for. -/
theorem runSource_fault_line {depth : Nat} {source : String} {console : Console} {e : Fault}
    (h : (runSource depth source console).1 = .error (.fault e)) :
    e = .noEntryPoint ∨ ∃ toks t, Token.tokenize source = .ok toks ∧ t ∈ toks ∧
      e.line? = some t.line ∧ 1 ≤ t.line ∧ t.line ≤ Token.lineCount source.toList := by
  obtain ⟨w, hw, rfl⟩ : ∃ w : World, w.store = Library.store ∧ w.console = console :=
    ⟨⟨Library.store, console⟩, by simp only, rfl⟩
  obtain ⟨p, hp, hrun⟩ := exists_run_of_fault hw h
  obtain ⟨toks, htoks, hroot⟩ := Program.ofSource_eq_ok hp
  -- all lines but those of the tokens are moved, and neither the program nor its fault notices
  have hfixed : e.mapLine (moveOthers toks) = e :=
    Program.mapLine_fault (Derivation.root_mapLines_eq (fixes_moveOthers toks) hroot) hw hrun
  cases hline : e.line? with
  | none => exact Or.inl (Fault.line?_eq_none.1 hline)
  | some line =>
    have hmoved := e.line?_mapLine (moveOthers toks)
    rw [hfixed, hline] at hmoved
    obtain ⟨t, ht, rfl⟩ := exists_of_moveOthers (Option.some.inj hmoved).symm
    exact Or.inr ⟨toks, t, htoks, ht, rfl, Token.tokenize_line htoks ht⟩

theorem runSource_fault_line_in_nested_call :
    ∃ source toks t, source = "class A \x7b static void f() \x7b\nMath.abs(\"x\"); \x7d
        static void main(String s) \x7b A.f(); \x7d \x7d" ∧
      (runSource 2 source (.start .empty none)).1 =
        .error (.fault (.invalidArgument (.notNumber "Math.abs" .text) 2)) ∧
      Token.tokenize source = .ok toks ∧ t ∈ toks ∧ t.line = 2 := by
  obtain ⟨source, hs⟩ : ∃ source, source =
      "class A \x7b static void f() \x7b\nMath.abs(\"x\"); \x7d
        static void main(String s) \x7b A.f(); \x7d \x7d" := ⟨_, rfl⟩
  have hend : (runSource 2 source (.start .empty none)).1.mapError Failure.fault? =
      .error (some (.invalidArgument (.notNumber "Math.abs" .text) 2)) := by
    rw [hs]
    decide +kernel
  have hfault := eq_fault_of_mapError hend
  rcases runSource_fault_line hfault with h | ⟨toks, t, htoks, ht, hline, -⟩
  · cases h
  · exact ⟨source, toks, t, hs, hfault, htoks, ht, (Option.some.inj hline).symm⟩

end SmallJava
