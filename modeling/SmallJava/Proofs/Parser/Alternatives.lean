/-
The two readings of a simple statement. A declaration and an expression that stands as a statement
never both succeed on the same tokens, since no expression goes on behind a name with another name
or a bracket. So the order in which they are tried decides nothing but which failure is reported:
with the other order, statements in blocks, in classes and on the top have the same trees. Main
statement: `statement_alternatives`.
-/
import SmallJava.Proofs.Parser.Violation

namespace SmallJava.Parser

variable {α β : Type} {p q : Parser α}

/-! ## Alternatives -/

/-- Reads with the first parser, or else, from the same tokens, with the second one. -/
def tryFirst (p q : Parser α) : Parser α := fun toks =>
  match p toks with
  | .ok a rest => .ok a rest
  | .error .. => q toks

theorem tryFirst_of_ok {toks rest : List Located} {a : α} (h : p toks = .ok a rest) (q : Parser α) :
    tryFirst p q toks = .ok a rest := by
  unfold tryFirst
  rw [h]

theorem tryFirst_of_ne {toks : List Located} (h : ∀ a rest, p toks ≠ .ok a rest) (q : Parser α) :
    tryFirst p q toks = q toks := by
  unfold tryFirst
  split
  · rename_i a rest ha
    exact absurd ha (h a rest)
  · rfl

/-- No tokens are read by both parsers. -/
def Disjoint (p q : Parser α) : Prop :=
  ∀ toks a rest b rest', p toks = .ok a rest → q toks ≠ .ok b rest'

theorem Disjoint.symm (h : Disjoint p q) : Disjoint q p := by
  intro toks a rest b rest' hq hp
  exact h toks b rest' a rest hp hq

/-- Where one of two disjoint parsers succeeds, it is the one that is heard. -/
theorem Disjoint.tryFirst_eq_ok (h : Disjoint p q) {toks rest : List Located} {a : α} :
    tryFirst p q toks = .ok a rest ↔ p toks = .ok a rest ∨ q toks = .ok a rest := by
  constructor
  · intro ht
    unfold tryFirst at ht
    split at ht
    · rename_i hp
      rw [hp]
      exact .inl ht
    · exact .inr ht
  · rintro (hp | hq)
    · exact tryFirst_of_ok hp q
    · rw [tryFirst_of_ne (fun b rest' hp => h toks b rest' a rest hp hq) q, hq]

/-! ## Parsers that read the same -/

/-- The parsers succeed on the same tokens, with the same values, and leave the same tokens. -/
def ReadSame (p q : Parser α) : Prop :=
  ∀ toks a rest, p toks = .ok a rest ↔ q toks = .ok a rest

/-- Two disjoint parsers can be tried in either order. -/
theorem Disjoint.readSame (h : Disjoint p q) : ReadSame (tryFirst q p) (tryFirst p q) := by
  intro toks a rest
  rw [h.tryFirst_eq_ok, h.symm.tryFirst_eq_ok, or_comm]

namespace ReadSame

theorem refl (p : Parser α) : ReadSame p p := fun _ _ _ => Iff.rfl

theorem symm (h : ReadSame p q) : ReadSame q p := fun toks a rest => (h toks a rest).symm

/-- One direction for parsers one after another; the other one is the same the other way round. -/
theorem bind_of {f g : α → Parser β} (h : ReadSame p q) (hf : ∀ a, ReadSame (f a) (g a))
    {toks rest : List Located} {b : β} (hp : (p >>= f) toks = .ok b rest) :
    (q >>= g) toks = .ok b rest := by
  obtain ⟨a, mid, ha, hb⟩ := bind_eq_ok hp
  rw [bind_of_ok ((h toks a mid).1 ha) g]
  exact (hf a mid b rest).1 hb

theorem bind {f g : α → Parser β} (h : ReadSame p q) (hf : ∀ a, ReadSame (f a) (g a)) :
    ReadSame (p >>= f) (q >>= g) := by
  intro toks b rest
  constructor
  · exact bind_of h hf
  · exact bind_of h.symm fun a => (hf a).symm

theorem untilClose (h : ReadSame p q) (missing : Expectation) :
    ∀ b : Nat, ReadSame (untilClose p missing b) (untilClose q missing b)
  | b, [], _, _ => by cases b <;> exact Iff.rfl
  | 0, _ :: _, _, _ => Iff.rfl
  | b + 1, t :: ts, items, rest => by
    unfold Parser.untilClose
    split
    · exact Iff.rfl
    · exact h.bind (fun first => (untilClose h missing b).bind fun others => refl _) _ _ _

theorem untilCloseAll (h : ReadSame p q) (missing : Expectation) :
    ReadSame (untilCloseAll p missing) (untilCloseAll q missing) :=
  fun toks => h.untilClose missing toks.length toks

variable {inner inner' : Parser Statement}

theorem methodOver (h : ReadSame inner inner') : ReadSame (methodOver inner) (methodOver inner') := by
  have hblock : ReadSame (blockOver inner) (blockOver inner') := by
    rw [blockOver_eq, blockOver_eq]
    exact h.untilCloseAll _
  exact (refl _).bind fun _ => (refl _).bind fun _ => (refl _).bind fun _ => hblock.bind fun _ =>
    refl _

theorem classOver (h : ReadSame inner inner') : ReadSame (classOver inner) (classOver inner') := by
  rw [classOver_eq, classOver_eq]
  exact (refl _).bind fun _ => (refl _).bind fun _ => (refl _).bind fun _ => (refl _).bind fun _ =>
    (h.methodOver.untilCloseAll _).bind fun _ => refl _

end ReadSame

/-! ## Programs with another parser of simple statements -/

/-- The words that an import or a class starts with. -/
def leadingWords : List Keyword := [.importKw, .classKw, .publicKw, .privateKw, .protectedKw]

/-- Reads a statement, a simple one with the given parser. -/
def statementWith (simple inner : Parser Statement) : Parser Statement
  | [] => failAt .statement []
  | t :: rest =>
    match t.token with
    | .keyword .importKw => importPath (t :: rest)
    | .keyword .classKw | .keyword .publicKw | .keyword .privateKw | .keyword .protectedKw =>
      classOver inner (t :: rest)
    | _ => simple (t :: rest)

/-- Reads a statement with at most `depth` statements inside one another, simple ones with the given
parser. -/
def statementUpToWith (simple : Parser Statement) : Nat → Parser Statement
  | 0 => fail .statement
  | depth + 1 => statementWith simple (statementUpToWith simple depth)

/-- Reads statements up to the end, at most `bound` of them, simple ones with the given parser, and
adds the start of the program. -/
def statementsToEndWith (simple : Parser Statement) : Nat → Parser (List Statement)
  | _, [] => .ok [.entry] []
  | bound + 1, t :: rest => (do
    let first ← fun toks => statementUpToWith simple (toks.length + 1) toks
    return first :: (← statementsToEndWith simple bound) : Parser _) (t :: rest)
  | 0, toks => failAt .statement toks

/-- Reads a program, simple statements with the given parser. -/
def programWith (simple : Parser Statement) : Parser Program := fun toks =>
  (do return ⟨← statementsToEndWith simple toks.length⟩ : Parser Program) toks

theorem simpleStatement_eq : simpleStatement = tryFirst declaration expressionStatement := by
  funext toks
  unfold simpleStatement tryFirst
  cases declaration toks <;> rfl

theorem statementWith_simpleStatement (inner : Parser Statement) :
    statementWith simpleStatement inner = statementOver inner := by
  funext toks
  cases toks <;> rfl

theorem statementUpToWith_simpleStatement (depth : Nat) :
    statementUpToWith simpleStatement depth = statementUpTo depth := by
  induction depth with
  | zero => rfl
  | succ depth ih => rw [statementUpToWith, ih, statementWith_simpleStatement, statementUpTo]

theorem statementsToEndWith_simpleStatement (bound : Nat) :
    statementsToEndWith simpleStatement bound = statementsToEnd bound := by
  have hstatement : (fun toks => statementUpToWith simpleStatement (toks.length + 1) toks) =
      statement := by
    funext toks
    rw [statementUpToWith_simpleStatement, statement]
  induction bound with
  | zero =>
    funext toks
    cases toks <;> rfl
  | succ bound ih =>
    funext toks
    cases toks with
    | nil => rfl
    | cons t rest =>
      rw [statementsToEndWith, hstatement, ih]
      rfl

/-- The programs are those of declarations first. -/
theorem programWith_simpleStatement : programWith simpleStatement = program := by
  funext toks
  rw [programWith, statementsToEndWith_simpleStatement]
  rfl

namespace ReadSame

variable {simple simple' : Parser Statement}

theorem statementWith {inner inner' : Parser Statement} (h : ReadSame simple simple')
    (hinner : ReadSame inner inner') :
    ReadSame (statementWith simple inner) (statementWith simple' inner') := by
  intro toks
  cases toks with
  | nil => exact fun _ _ => Iff.rfl
  | cons t ts =>
    unfold Parser.statementWith
    dsimp only
    split
    · exact fun _ _ => Iff.rfl
    · exact hinner.classOver _
    · exact hinner.classOver _
    · exact hinner.classOver _
    · exact hinner.classOver _
    · exact h _

theorem statementUpToWith (h : ReadSame simple simple') (depth : Nat) :
    ReadSame (statementUpToWith simple depth) (statementUpToWith simple' depth) := by
  induction depth with
  | zero => exact refl _
  | succ depth ih => exact h.statementWith ih

theorem statementsToEndWith (h : ReadSame simple simple') :
    ∀ bound : Nat, ReadSame (statementsToEndWith simple bound) (statementsToEndWith simple' bound)
  | bound, [], _, _ => by cases bound <;> exact Iff.rfl
  | 0, _ :: _, _, _ => Iff.rfl
  | bound + 1, t :: ts, ss, rest => by
    have hone : ReadSame (fun toks => Parser.statementUpToWith simple (toks.length + 1) toks)
        (fun toks => Parser.statementUpToWith simple' (toks.length + 1) toks) :=
      fun toks => h.statementUpToWith (toks.length + 1) toks
    exact hone.bind (fun first => (statementsToEndWith h bound).bind fun others => refl _) _ _ _

theorem programWith (h : ReadSame simple simple') :
    ReadSame (programWith simple) (programWith simple') :=
  fun toks => (h.statementsToEndWith toks.length).bind (fun _ => refl _) toks

end ReadSame

/-! ## Simple statements -/

/-- What starts as a declaration does is no expression statement: behind the name stands a name or a
bracket, and neither goes on with an expression. -/
theorem declaration_disjoint : Disjoint declaration expressionStatement := by
  intro toks s rest s' rest' hdeclaration hexpression
  obtain ⟨n, l, t, us, rfl, hfollows⟩ := declaration_starts hdeclaration
  rw [expressionStatement_name n l hfollows us] at hexpression
  cases hexpression

/-- A statement that starts as no import or class does is a simple one. -/
theorem statement_of_leading {t : Located} (h : ∀ k ∈ leadingWords, t.token ≠ .keyword k)
    (rest : List Located) : statement (t :: rest) = simpleStatement (t :: rest) := by
  rw [statement_eq]
  unfold statementOver
  dsimp only
  split
  · exact absurd ‹_› (h .importKw (by decide))
  · exact absurd ‹_› (h .classKw (by decide))
  · exact absurd ‹_› (h .publicKw (by decide))
  · exact absurd ‹_› (h .privateKw (by decide))
  · exact absurd ‹_› (h .protectedKw (by decide))
  · rfl

/-- Trying a declaration first decides nothing. A declaration and an expression statement never both
succeed. On tokens that start as no import or class does, a statement is what one of them reads, if
it succeeds, and otherwise fails as the expression statement does, the tokens left over included.
And the other order would read the same programs with the same trees. -/
theorem statement_alternatives (toks : List Located) :
    (∀ s rest s' rest', declaration toks = .ok s rest → expressionStatement toks ≠ .ok s' rest') ∧
    (∀ t after, toks = t :: after → (∀ k ∈ leadingWords, t.token ≠ .keyword k) →
      (∀ s rest, declaration toks = .ok s rest → statement toks = .ok s rest) ∧
      (∀ s rest, expressionStatement toks = .ok s rest → statement toks = .ok s rest) ∧
      ((∀ s rest, declaration toks ≠ .ok s rest) → statement toks = expressionStatement toks)) ∧
    ∀ p rest, programWith (tryFirst expressionStatement declaration) toks = .ok p rest ↔
      program toks = .ok p rest := by
  refine ⟨fun s rest s' rest' => declaration_disjoint toks s rest s' rest', ?_, ?_⟩
  · rintro t after rfl hleading
    rw [statement_of_leading hleading, simpleStatement_eq]
    refine ⟨fun s rest hd => ?_, fun s rest he => ?_, fun hd => ?_⟩
    · exact declaration_disjoint.tryFirst_eq_ok.2 (.inl hd)
    · exact declaration_disjoint.tryFirst_eq_ok.2 (.inr he)
    · exact tryFirst_of_ne hd expressionStatement
  · rw [← programWith_simpleStatement, simpleStatement_eq]
    exact declaration_disjoint.readSame.programWith toks

end SmallJava.Parser
