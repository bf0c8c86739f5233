/-
Lines of trees. Every line in the tree of a list of tokens is the line of one of them, so a function
that leaves the lines of the tokens as they are leaves the tree as it is. Main statement:
`root_mapLines_eq`.
-/
import SmallJava.Proofs.Grammar.Derivation
import SmallJava.Proofs.Syntax.Lines

namespace SmallJava.Derivation

variable {f : Nat → Nat} {ts us : List Located}

/-! ## Lines of tokens -/

/-- The function leaves the lines of all tokens as they are. -/
def Fixes (f : Nat → Nat) (toks : List Located) : Prop := ∀ t ∈ toks, f t.line = t.line

theorem fixes_append : Fixes f (ts ++ us) ↔ Fixes f ts ∧ Fixes f us := List.forall_mem_append

theorem fixes_cons {t : Located} : Fixes f (t :: ts) ↔ f t.line = t.line ∧ Fixes f ts :=
  List.forall_mem_cons

/-- Where there is a token, no line is made up. -/
theorem Fixes.lineOf (h : Fixes f ts) (hne : ts ≠ []) :
    f (Derivation.lineOf ts) = Derivation.lineOf ts := by
  cases ts with
  | nil => exact absurd rfl hne
  | cons t ts => exact (fixes_cons.1 h).1

/-! ## Expressions -/

mutual

theorem Expression.mapLines_eq {ts : List Located} {e : Expr} (hf : Fixes f ts) :
    Expression ts e → e.mapLines f = e
  | .grouped h _ => h.mapLines_eq hf

theorem Groups.mapLines_eq {ts : List Located} {g : Grouping} (hf : Fixes f ts) :
    Groups ts g → g.expr.mapLines f = g.expr
  | .chain h => h.mapLines_eq hf
  | .operation hleft hright => by
    rename_i sign _ _ _
    obtain ⟨h1, h2⟩ := fixes_append.1 hf
    obtain ⟨hline, h3⟩ := fixes_cons.1 h2
    cases sign with
    | assignment =>
      rw [Grouping.expr, Expr.mapLines, hleft.mapLines_eq h1, hright.mapLines_eq h3, hline]
    | operator op =>
      rw [Grouping.expr, Expr.mapLines, hleft.mapLines_eq h1, hright.mapLines_eq h3, hline]

theorem Chain.mapLines_eq {ts : List Located} {e : Expr} (hf : Fixes f ts) :
    Chain ts e → e.mapLines f = e
  | .primary h => h.mapLines_eq hf
  | .access h => by
    obtain ⟨h1, h2⟩ := fixes_append.1 hf
    rw [Expr.mapLines, h.mapLines_eq h1, (fixes_cons.1 h2).1]
  | .call h ha => by
    obtain ⟨h1, h2⟩ := fixes_append.1 hf
    obtain ⟨hline, h3⟩ := fixes_cons.1 h2
    rw [Expr.mapLines, h.mapLines_eq h1, ha.mapLines_eq (fixes_append.1 h3).1, hline]

theorem Arguments.mapLines_eq {ts : List Located} {es : List Expr} (hf : Fixes f ts) :
    Arguments ts es → Expr.mapLinesOfArguments f es = es
  | .none => rfl
  | .some h => h.mapLines_eq hf

theorem ArgumentList.mapLines_eq {ts : List Located} {es : List Expr} (hf : Fixes f ts) :
    ArgumentList ts es → Expr.mapLinesOfArguments f es = es
  | .one h => by rw [Expr.mapLinesOfArguments, h.mapLines_eq hf, Expr.mapLinesOfArguments]
  | .more h hs => by
    obtain ⟨h1, h2⟩ := fixes_append.1 hf
    rw [Expr.mapLinesOfArguments, h.mapLines_eq h1, hs.mapLines_eq (fixes_cons.1 h2).2]

theorem Primary.mapLines_eq {ts : List Located} {e : Expr} (hf : Fixes f ts) :
    Primary ts e → e.mapLines f = e
  | .name => by rw [Expr.mapLines, (fixes_cons.1 hf).1]
  | .number => by rw [Expr.mapLines, (fixes_cons.1 hf).1]
  | .text => by rw [Expr.mapLines, (fixes_cons.1 hf).1]
  | .null => by rw [Expr.mapLines, (fixes_cons.1 hf).1]
  | .construction => by rw [Expr.mapLines, (fixes_cons.1 (fixes_cons.1 hf).2).1]
  | .grouping h => h.mapLines_eq (fixes_append.1 (fixes_cons.1 hf).2).1

end

/-! ## Statements -/

theorem initializer_mapLines_eq {v : Option Expr} (hf : Fixes f ts) :
    Initializer ts v → v.map (·.mapLines f) = v
  | .none => rfl
  | .some h => by rw [Option.map_some, h.mapLines_eq (fixes_cons.1 hf).2]

mutual

theorem Statement.mapLines_eq {ts : List Located} {s : SmallJava.Statement} (hf : Fixes f ts) :
    Statement ts s → s.mapLines f = s
  | .importPath _ => by rw [SmallJava.Statement.mapLines, (fixes_cons.1 hf).1]
  | .declareClass _ h => by
    obtain ⟨hline, h1⟩ := fixes_cons.1 (fixes_append.1 hf).2
    obtain ⟨h2, -⟩ := fixes_append.1 (fixes_cons.1 (fixes_cons.1 h1).2).2
    rw [SmallJava.Statement.mapLines, h.mapLines_eq h2, hline]
  | .declareVariable ht hv => by
    obtain ⟨h1, h2⟩ := fixes_append.1 hf
    obtain ⟨h3, -⟩ := fixes_append.1 (fixes_cons.1 h2).2
    rw [SmallJava.Statement.mapLines, initializer_mapLines_eq h3 hv, h1.lineOf ht.ne_nil]
  | .expression h => by
    obtain ⟨h1, -⟩ := fixes_append.1 hf
    rw [SmallJava.Statement.mapLines, h.mapLines_eq h1, h1.lineOf h.ne_nil]

theorem Methods.mapLines_eq {ts : List Located} {ms : List MethodDecl} (hf : Fixes f ts) :
    Methods ts ms → mapLinesOfMethods f ms = ms
  | .nil => rfl
  | .cons h hs => by
    obtain ⟨h1, h2⟩ := fixes_append.1 hf
    rw [mapLinesOfMethods, h.mapLines_eq h1, hs.mapLines_eq h2]

theorem Method.mapLines_eq {ts : List Located} {m : MethodDecl} (hf : Fixes f ts) :
    Method ts m → m.mapLines f = m
  | .intro _ _ ht _ _ hb => by
    obtain ⟨h1, h2⟩ := fixes_append.1 hf
    obtain ⟨h3, h4⟩ := fixes_append.1 h2
    obtain ⟨h5, h6⟩ := fixes_append.1 h4
    obtain ⟨-, h7⟩ := fixes_append.1 (fixes_cons.1 (fixes_cons.1 h6).2).2
    obtain ⟨h8, -⟩ := fixes_append.1 (fixes_cons.1 (fixes_cons.1 h7).2).2
    -- a method has its type at least, so it stands on the line of a token
    have hline := (fixes_append.2 ⟨h1, fixes_append.2 ⟨h3, h5⟩⟩).lineOf (by simp [ht.ne_nil])
    rw [MethodDecl.mapLines, Signature.mapLines, hb.mapLines_eq h8, hline]

theorem Statements.mapLines_eq {ts : List Located} {ss : List SmallJava.Statement} (hf : Fixes f ts) :
    Statements ts ss → mapLinesOfBody f ss = ss
  | .nil => rfl
  | .cons h hs => by
    obtain ⟨h1, h2⟩ := fixes_append.1 hf
    rw [mapLinesOfBody, h.mapLines_eq h1, hs.mapLines_eq h2]

end

/-- A function that leaves the lines of tokens as they are leaves their tree as it is. -/
theorem root_mapLines_eq {p : Program} (hf : Fixes f ts) : Root ts p → p.mapLines f = p
  | .intro h => by
    have hbody := h.mapLines_eq hf
    rw [mapLinesOfBody_eq_map] at hbody
    rw [Program.mapLines, mapLinesOfBody_eq_map, List.map_append, hbody]
    rfl

end SmallJava.Derivation
