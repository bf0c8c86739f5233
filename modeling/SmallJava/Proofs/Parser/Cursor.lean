/-
Where the parsers stop. A success takes tokens off the front and leaves the others; a failure leaves
tokens too, and it tells of the place where it leaves them: of the token that comes next, of there
being none, or of the parameters whose closing parenthesis was the last token taken. Main statement:
`production_stands`.

Each parser has one lemma, which asks the same of the parsers inside it. The attempt to read a
declaration takes no tokens if it fails, so it needs no exception.
-/
import SmallJava.Proofs.Parser.Violation

namespace SmallJava

open Derivation (lineOf)

/-! ## The place of a failure -/

/-- The tokens of a method up to the parenthesis that closes its parameters, which may repeat names. -/
inductive Derivation.Head : List Located → Signature → Prop
  | intro {ws ss ts ps : List Located} {a : Access} {isStatic : Bool} {t : SmallJava.TypeName}
      {params : List SmallJava.Parameter} {n : String} {l l₁ : Nat} : AccessWord ws a →
      StaticWord ss isStatic → TypeName ts t → Listed Parameter ps params →
      Head (ws ++ (ss ++ (ts ++ ⟨.name n, l⟩ :: ⟨.symbol .lparen, l₁⟩ :: ps)))
        ⟨a, isStatic, t, n, params, lineOf (ws ++ (ss ++ ts))⟩

namespace ParseError

/-- A failure about parameters comes right behind their closing parenthesis, and the method has two
parameters at least of the name in question. -/
def Closes (used : List Located) : ParseError → Prop
  | duplicateParameter name method line => ∃ before head s close,
      used = before ++ head ++ [⟨.symbol .rparen, close⟩] ∧ Derivation.Head head s ∧
      s.name = method ∧ s.line = line ∧ 2 ≤ (s.params.map (·.name)).count name
  | _ => True

/-- The failure tells of the place between the tokens taken and those left over. -/
structure StandsBetween (used rest : List Located) (e : ParseError) : Prop where
  describes : e.Describes rest
  closes : e.Closes used

theorem Closes.after {used : List Located} {e : ParseError} (h : e.Closes used)
    (front : List Located) : e.Closes (front ++ used) := by
  cases e with
  | duplicateParameter name method line =>
    obtain ⟨before, head, s, close, rfl, hs⟩ := h
    exact ⟨front ++ before, head, s, close, by simp, hs⟩
  | _ => trivial

end ParseError

namespace Parser

variable {α β : Type} {p : Parser α} {toks mid : List Located}

/-- An answer on the given tokens: a success leaves an end of them, and a failure leaves one in front
of which it stands. -/
def Leaves (toks : List Located) : Reply α → Prop
  | .ok _ rest => rest <:+ toks
  | .error e rest => ∃ used, toks = used ++ rest ∧ e.StandsBetween used rest

/-- All answers of the parser are such. -/
def Stands (p : Parser α) : Prop := ∀ toks, Leaves toks (p toks)

/-! ## One parser after another -/

/-- Tokens in front, which are taken before, change nothing. -/
theorem Leaves.of_suffix {r : Reply α} (h : Leaves mid r) (hmid : mid <:+ toks) : Leaves toks r := by
  cases r with
  | ok a rest => exact List.IsSuffix.trans h hmid
  | error e rest =>
    obtain ⟨front, rfl⟩ := hmid
    obtain ⟨used, rfl, hstands⟩ := h
    exact ⟨front ++ used, by simp, hstands.describes, hstands.closes.after front⟩

theorem Leaves.cons {r : Reply α} (h : Leaves toks r) (t : Located) : Leaves (t :: toks) r :=
  h.of_suffix (List.suffix_cons t toks)

theorem Leaves.bind {f : α → Parser β} (hp : Leaves toks (p mid))
    (hf : ∀ a rest, p mid = .ok a rest → Leaves toks (f a rest)) :
    Leaves toks ((p >>= f) mid) := by
  rw [bind_apply]
  cases h : p mid with
  | ok a rest => exact hf a rest h
  | error e rest =>
    rw [h] at hp
    exact hp

theorem leaves_failAt (expected : Expectation) (toks : List Located) :
    Leaves toks (failAt expected toks : Reply α) := by
  cases toks with
  | nil => exact ⟨[], rfl, rfl, trivial⟩
  | cons t rest => exact ⟨[], rfl, ⟨rest, rfl⟩, trivial⟩

namespace Stands

theorem pure (a : α) : Stands (pure a : Parser α) := fun _ => List.suffix_rfl

theorem fail (expected : Expectation) : Stands (fail expected : Parser α) := leaves_failAt expected

/-- What comes after an answer on tokens is one on them too. -/
theorem after {f : α → Parser β} (hp : Leaves toks (p mid)) (hf : ∀ a, Stands (f a)) :
    Leaves toks ((p >>= f) mid) := by
  refine hp.bind fun a rest h => ?_
  rw [h] at hp
  exact (hf a rest).of_suffix hp

theorem bind {f : α → Parser β} (hp : Stands p) (hf : ∀ a, Stands (f a)) : Stands (p >>= f) :=
  fun toks => after (hp toks) hf

theorem map {f : α → β} (hp : Stands p) : Stands (f <$> p) := hp.bind fun a => pure (f a)

theorem onLine {f : Nat → Parser α} (h : ∀ line, Stands (f line)) : Stands (onLine f) := by
  intro toks
  rw [onLine_apply]
  exact h _ toks

/-! ## Single tokens -/

theorem expect (token : Token) : Stands (expect token) := by
  intro toks
  unfold Parser.expect
  split
  · exact leaves_failAt _ _
  · split
    · exact List.suffix_cons _ _
    · exact leaves_failAt _ _

theorem nameAs (part : Expectation) : Stands (nameAs part) := by
  intro toks
  unfold Parser.nameAs
  split
  · exact List.suffix_cons _ _
  · exact leaves_failAt _ _

/-! ## Lists with commas -/

theorem afterItem {more : Parser (List α)} (h : Stands more) (closing : Symbol) (first : α) :
    Stands (afterItem more closing first) := by
  intro toks
  unfold Parser.afterItem
  split
  · rename_i s line rest
    split
    · exact (h.bind (fun others => pure (first :: others)) rest).cons _
    · split
      · exact List.suffix_cons _ _
      · exact leaves_failAt _ _
  · exact leaves_failAt _ _

theorem separated (h : Stands p) (closing : Symbol) (bound : Nat) :
    Stands (separated p closing bound) := by
  induction bound with
  | zero => exact fail _
  | succ bound ih =>
    rw [separated_succ]
    exact h.bind fun first => afterItem ih closing first

theorem list (h : Stands p) (closing : Symbol) : Stands (list p closing) := by
  intro toks
  cases toks with
  | nil => exact h.separated closing 1 []
  | cons t rest =>
    rw [list_cons]
    split
    · exact List.suffix_cons _ _
    · exact h.separated closing _ _

/-! ## Expressions -/

section Expressions

variable {inner : Parser Expr}

theorem grouping (h : Stands inner) : Stands (grouping inner) :=
  h.bind fun _ => (expect _).bind fun _ => pure _

theorem construction : Stands construction := onLine fun _ => (nameAs _).bind fun _ => pure _

theorem primary (h : Stands inner) : Stands (primary inner) := by
  intro toks
  unfold Parser.primary
  split
  · exact List.suffix_cons _ _
  · exact List.suffix_cons _ _
  · exact List.suffix_cons _ _
  · exact List.suffix_cons _ _
  · exact (h.grouping _).cons _
  · exact (construction _).cons _
  · exact leaves_failAt _ _

theorem chain (h : Stands inner) (bound : Nat) (node : Expr) : Stands (chain inner bound node) := by
  induction bound generalizing node with
  | zero =>
    intro toks
    unfold Parser.chain
    exact List.suffix_rfl
  | succ bound ih =>
    intro toks
    unfold Parser.chain
    split
    · rename_i heq
      cases heq
      exact ((nameAs _).bind (fun member => ih _) _).cons _
    · rename_i heq
      cases heq
      exact ((h.list _).bind (fun arguments => ih _) _).cons _
    · exact List.suffix_rfl

theorem assigned (h : Stands inner) (target : Expr) : Stands (assigned inner target) := by
  intro toks
  unfold Parser.assigned
  split
  · exact (h.bind (fun value => pure _) _).cons _
  · exact List.suffix_rfl

theorem endpoint (h : Stands inner) : Stands (endpoint inner) :=
  (h.primary.bind fun node toks => h.chain toks.length node toks).bind fun target =>
    h.assigned target

theorem operations {operand : Parser Expr} (h : Stands operand)
    (operator? : Token → Option Operator) (bound : Nat) (left : Expr) :
    Stands (operations operator? operand bound left) := by
  induction bound generalizing left with
  | zero =>
    intro toks
    unfold Parser.operations
    exact List.suffix_rfl
  | succ bound ih =>
    intro toks
    unfold Parser.operations
    split
    · rename_i heq
      cases heq
      split
      · exact (h.bind (fun right => ih _) _).cons _
      · exact List.suffix_rfl
    · exact List.suffix_rfl

theorem joined {operand : Parser Expr} (h : Stands operand)
    (operator? : Token → Option Operator) : Stands (joined operator? operand) :=
  h.bind fun first toks => h.operations operator? toks.length first toks

theorem multiplicativeOver (h : Stands inner) : Stands (multiplicativeOver inner) :=
  h.endpoint.joined _

theorem additiveOver (h : Stands inner) : Stands (additiveOver inner) :=
  h.multiplicativeOver.joined _

theorem expressionUpTo (depth : Nat) : Stands (expressionUpTo depth) := by
  induction depth with
  | zero => exact fail _
  | succ depth ih => exact ih.additiveOver

theorem expression : Stands expression := fun toks => expressionUpTo (toks.length + 1) toks

end Expressions

/-! ## Simple statements -/

theorem brackets (bound : Nat) : Stands (brackets bound) := by
  induction bound with
  | zero =>
    intro toks
    unfold Parser.brackets
    exact List.suffix_rfl
  | succ bound ih =>
    intro toks
    unfold Parser.brackets
    split
    · rename_i heq
      cases heq
      exact ((expect _).bind (fun _ => ih.map) _).cons _
    · exact List.suffix_rfl

theorem typeName : Stands typeName :=
  (nameAs _).bind fun _ => bind (fun toks => brackets toks.length toks) fun _ => pure _

theorem segments (bound : Nat) : Stands (segments bound) := by
  induction bound with
  | zero =>
    intro toks
    unfold Parser.segments
    split
    · exact List.suffix_cons _ _
    · rename_i heq
      cases heq
    · exact List.suffix_cons _ _
    · exact leaves_failAt _ _
  | succ bound ih =>
    intro toks
    unfold Parser.segments
    split
    · exact List.suffix_cons _ _
    · rename_i heq
      cases heq
      exact ((ih.map _).cons _).cons _
    · exact List.suffix_cons _ _
    · exact leaves_failAt _ _

theorem importPath : Stands importPath :=
  (expect _).bind fun _ => bind (fun toks => segments toks.length toks) fun _ =>
    (expect _).bind fun _ => pure _

theorem initializer : Stands initializer := by
  intro toks
  unfold Parser.initializer
  split
  · exact (expression.map _).cons _
  · exact List.suffix_rfl

theorem declaration : Stands declaration :=
  onLine fun _ => typeName.bind fun _ => (nameAs _).bind fun _ => initializer.bind fun _ =>
    (expect _).bind fun _ => pure _

theorem expressionStatement : Stands expressionStatement :=
  onLine fun _ => expression.bind fun _ => (expect _).bind fun _ => pure _

/-- Of a declaration that failed nothing is left: the expression is read from the same tokens. -/
theorem simpleStatement : Stands simpleStatement := by
  intro toks
  unfold Parser.simpleStatement
  have hdeclaration := declaration toks
  split
  · rename_i h
    rw [h] at hdeclaration
    exact hdeclaration
  · exact expressionStatement toks

/-! ## Methods -/

theorem untilClose (h : Stands p) (missing : Expectation) (bound : Nat) :
    Stands (untilClose p missing bound) := by
  induction bound with
  | zero =>
    intro toks
    unfold Parser.untilClose
    split
    · exact leaves_failAt _ _
    · split
      · exact List.suffix_cons _ _
      · exact leaves_failAt _ _
  | succ bound ih =>
    intro toks
    unfold Parser.untilClose
    split
    · exact leaves_failAt _ _
    · split
      · exact List.suffix_cons _ _
      · exact h.bind (fun first => ih.bind fun others => pure _) _

theorem untilCloseAll (h : Stands p) (missing : Expectation) : Stands (untilCloseAll p missing) :=
  fun toks => h.untilClose missing toks.length toks

theorem access : Stands access := by
  intro toks
  unfold Parser.access
  split
  · exact List.suffix_cons _ _
  · exact List.suffix_cons _ _
  · exact List.suffix_cons _ _
  · exact List.suffix_rfl

theorem staticWord : Stands staticWord := by
  intro toks
  unfold Parser.staticWord
  split
  · exact List.suffix_cons _ _
  · exact List.suffix_rfl

theorem parameter : Stands parameter := typeName.bind fun _ => (nameAs _).bind fun _ => pure _

theorem signature : Stands signature :=
  onLine fun _ => access.bind fun _ => staticWord.bind fun _ => typeName.bind fun _ =>
    (nameAs _).bind fun _ => (expect _).bind fun _ => (parameter.list _).bind fun _ => pure _

end Stands

/-- A name that is found a second time is among the names, and twice if it was not seen before. -/
theorem count_of_firstRepeated? {name : String} {names seen : List String}
    (h : firstRepeated? seen names = some name) :
    1 ≤ names.count name ∧ (name ∉ seen → 2 ≤ names.count name) := by
  induction names generalizing seen with
  | nil => cases h
  | cons n ns ih =>
    unfold firstRepeated? at h
    split at h
    · rename_i hseen
      cases h
      rw [List.count_cons_self]
      exact ⟨by omega, fun hname => absurd hseen hname⟩
    · obtain ⟨hone, htwo⟩ := ih h
      by_cases hname : n = name
      · subst hname
        rw [List.count_cons_self]
        exact ⟨by omega, fun _ => by omega⟩
      · rw [List.count_cons_of_ne hname]
        refine ⟨hone, fun hseen => htwo ?_⟩
        simp [Ne.symm hname, hseen]

/-- What the parser of signatures takes is a method up to its closing parenthesis. -/
theorem signature_head {rest : List Located} {s : Signature} (h : signature toks = .ok s rest) :
    ∃ head close, toks = head ++ [⟨.symbol .rparen, close⟩] ++ rest ∧ Derivation.Head head s := by
  obtain ⟨ws, ss, ts, ps, l, l₁, close, rfl, hws, hss, hts, hps, hline⟩ := signature_sound h
  obtain ⟨a, isStatic, t, n, params, line⟩ := s
  cases hline
  exact ⟨ws ++ (ss ++ (ts ++ ⟨.name n, l⟩ :: ⟨.symbol .lparen, l₁⟩ :: ps)), close, by simp,
    .intro hws hss hts hps⟩

/-- Repeated parameters are found right behind the parenthesis that closes them. -/
theorem distinctParameters_leaves {s : Signature} (h : signature toks = .ok s mid) :
    Leaves toks (distinctParameters s mid) := by
  obtain ⟨head, close, rfl, hhead⟩ := signature_head h
  unfold distinctParameters
  split
  · rename_i name hname
    obtain ⟨-, htwice⟩ := count_of_firstRepeated? hname
    refine ⟨head ++ [⟨.symbol .rparen, close⟩], rfl, trivial, [], head, s, close, rfl, hhead, rfl,
      rfl, htwice List.not_mem_nil⟩
  · exact List.suffix_append _ _

namespace Stands

variable {inner : Parser Statement}

theorem methodOver (h : Stands inner) : Stands (methodOver inner) := by
  have hblock : Stands (blockOver inner) := by
    rw [blockOver_eq]
    exact h.untilCloseAll _
  intro toks
  refine (signature toks).bind fun s mid hs => after (distinctParameters_leaves hs) fun _ => ?_
  exact (expect _).bind fun _ => hblock.bind fun _ => pure _

/-! ## Whole statements -/

theorem classOver (h : Stands inner) : Stands (classOver inner) := by
  rw [classOver_eq]
  exact access.bind fun _ => (expect _).bind fun _ => (nameAs _).bind fun _ => (expect _).bind
    fun _ => (h.methodOver.untilCloseAll _).bind fun _ => pure _

theorem statementOver (h : Stands inner) : Stands (statementOver inner) := by
  intro toks
  cases toks with
  | nil => exact leaves_failAt _ _
  | cons t rest =>
    obtain hq | hq | hq := statementOver_cases inner t
    · rw [hq]
      exact importPath _
    · rw [hq]
      exact h.classOver _
    · rw [hq]
      exact simpleStatement _

theorem statementUpTo (depth : Nat) : Stands (statementUpTo depth) := by
  induction depth with
  | zero => exact fail _
  | succ depth ih => exact ih.statementOver

theorem statement : Stands statement := fun toks => statementUpTo (toks.length + 1) toks

theorem block : Stands block := by
  rw [Parser.block, blockOver_eq]
  exact statement.untilCloseAll _

end Stands

/-! ## Productions -/

/-- The productions of the grammar that have a parser of their own. -/
inductive Production
  | expression | additive | multiplicative
  | statement | importPath | declaration | expressionStatement | block
  | classDeclaration | method | typeName

namespace Production

/-- What a production is read as. -/
def Tree : Production → Type
  | expression | additive | multiplicative => Expr
  | statement | importPath | declaration | expressionStatement | classDeclaration => Statement
  | block => List Statement
  | method => MethodDecl
  | typeName => TypeName

/-- The parser of a production. -/
def parser : (k : Production) → Parser k.Tree
  | expression => Parser.expression
  | additive => Parser.additive
  | multiplicative => Parser.multiplicative
  | statement => Parser.statement
  | importPath => Parser.importPath
  | declaration => Parser.declaration
  | expressionStatement => Parser.expressionStatement
  | block => Parser.block
  | classDeclaration => Parser.classDeclaration
  | method => Parser.method
  | typeName => Parser.typeName

theorem parser_stands (k : Production) : Stands k.parser := by
  cases k with
  | expression => exact .expression
  | additive => exact Stands.expression.additiveOver
  | multiplicative => exact Stands.expression.multiplicativeOver
  | statement => exact .statement
  | importPath => exact .importPath
  | declaration => exact .declaration
  | expressionStatement => exact .expressionStatement
  | block => exact .block
  | classDeclaration => exact Stands.statement.classOver
  | method => exact Stands.statement.methodOver
  | typeName => exact .typeName

/-- A block takes its closing brace at least. -/
theorem block_takes (n : Nat) : Agree 1 n Parser.block Parser.block := by
  refine .of_takes fun toks ss rest h => ?_
  rw [Parser.block, blockOver_eq] at h
  obtain ⟨used, l, rfl, -⟩ := untilClose_sound (statement_reads _) _ _ toks ss rest
    (Nat.lt_succ_self _) h
  simp only [List.length_append, List.length_cons]
  omega

theorem parser_takes (k : Production) (n : Nat) : Agree 1 n k.parser k.parser := by
  cases k with
  | expression => exact expression_takes
  | additive => exact (agree_additiveOver expression_takes).mono (Nat.le_refl _) (Nat.le_succ n)
  | multiplicative => exact multiplicative_takes
  | statement => exact statement_takes
  | importPath => exact agree_importPath
  | declaration => exact agree_declaration
  | expressionStatement => exact agree_expressionStatement
  | block => exact block_takes n
  | classDeclaration => exact (agree_classOver statement_takes).mono (Nat.le_refl _) (Nat.le_succ n)
  | method => exact method_takes
  | typeName => exact agree_typeName

end Production

/-- The tokens left over stand where the answer says. Where a production succeeds, they are an end of
the tokens given, and a shorter one. Where it fails they are an end too: an unexpected token comes
first among them, at the end of the input there are none, and a repeated parameter occurs twice in
the list whose closing parenthesis comes right before them. -/
theorem production_stands (k : Production) (toks : List Located) :
    match k.parser toks with
    | .ok _ rest => rest <:+ toks ∧ rest.length < toks.length
    | .error e rest => ∃ used, toks = used ++ rest ∧ e.StandsBetween used rest := by
  have hstands := k.parser_stands toks
  have htakes := k.parser_takes (toks.length + 1) toks (Nat.lt_succ_self _)
  cases h : k.parser toks with
  | ok tree rest =>
    rw [h] at hstands
    exact ⟨hstands, htakes.2 tree rest h⟩
  | error e rest =>
    rw [h] at hstands
    exact hstands

end Parser

end SmallJava
