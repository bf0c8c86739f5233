/-
Parsers and lines. No parser looks at a line: on tokens whose lines a function is applied to, it
takes as many tokens, and what it reads or tells of a failure is the same but for that function. The
line that stands in where no token is left is never heard of, since then nothing is read. So no line
is made up either. Main statement: `program_mapLines`.
-/
import SmallJava.Parser.Statement
import SmallJava.Proofs.Parser.Progress
import SmallJava.Proofs.Syntax.Lines

namespace SmallJava

/-! ## Lines of tokens and failures -/

/-- The token with a function applied to its line. -/
def Located.mapLine (f : Nat → Nat) (t : Located) : Located := ⟨t.token, f t.line⟩

namespace ParseError

/-- The failure with a function applied to its line. -/
def mapLine (f : Nat → Nat) : ParseError → ParseError
  | unexpected expected found line => unexpected expected found (f line)
  | endOfInput expected => endOfInput expected
  | duplicateParameter name method line => duplicateParameter name method (f line)

/-- The line a failure is reported for. -/
def line? : ParseError → Option Nat
  | unexpected _ _ line => some line
  | endOfInput _ => none
  | duplicateParameter _ _ line => some line

theorem line?_mapLine (f : Nat → Nat) (e : ParseError) :
    (e.mapLine f).line? = e.line?.map f := by cases e <;> rfl

end ParseError

/-! ## Lines of trees -/

namespace Expr

mutual

/-- The lines in an expression. -/
def lines : Expr → List Nat
  | literal _ l => [l]
  | name _ l => [l]
  | assign target value l => l :: (target.lines ++ value.lines)
  | binary _ left right l => l :: (left.lines ++ right.lines)
  | access parent _ l => l :: parent.lines
  | call callee arguments l => l :: (callee.lines ++ linesOfArguments arguments)

/-- The lines in arguments. -/
def linesOfArguments : List Expr → List Nat
  | [] => []
  | e :: es => e.lines ++ linesOfArguments es

end

end Expr

mutual

/-- The lines in a statement. -/
def Statement.lines : Statement → List Nat
  | .importPath _ l => [l]
  | .declareClass _ methods l => l :: linesOfMethods methods
  | .expression value l => l :: value.lines
  | .declareVariable _ _ value l => l :: (value.map Expr.lines).getD []
  | .entry => []

/-- The lines in a method. -/
def MethodDecl.lines : MethodDecl → List Nat
  | .mk signature body => signature.line :: linesOfBody body

/-- The lines in methods. -/
def linesOfMethods : List MethodDecl → List Nat
  | [] => []
  | m :: ms => m.lines ++ linesOfMethods ms

/-- The lines in statements. -/
def linesOfBody : List Statement → List Nat
  | [] => []
  | s :: ss => s.lines ++ linesOfBody ss

end

/-- The lines in a program. -/
def Program.lines (p : Program) : List Nat := linesOfBody p.statements

section

variable (f : Nat → Nat)

mutual

theorem Expr.lines_mapLines : ∀ e : Expr, (e.mapLines f).lines = e.lines.map f
  | .literal .. => by simp [Expr.mapLines, Expr.lines]
  | .name .. => by simp [Expr.mapLines, Expr.lines]
  | .assign target value _ => by
    simp [Expr.mapLines, Expr.lines, target.lines_mapLines, value.lines_mapLines]
  | .binary _ left right _ => by
    simp [Expr.mapLines, Expr.lines, left.lines_mapLines, right.lines_mapLines]
  | .access parent _ _ => by simp [Expr.mapLines, Expr.lines, parent.lines_mapLines]
  | .call callee arguments _ => by
    simp [Expr.mapLines, Expr.lines, callee.lines_mapLines, linesOfArguments_mapLines arguments]

theorem linesOfArguments_mapLines : ∀ es : List Expr,
    Expr.linesOfArguments (Expr.mapLinesOfArguments f es) = (Expr.linesOfArguments es).map f
  | [] => by simp [Expr.mapLinesOfArguments, Expr.linesOfArguments]
  | e :: es => by
    simp [Expr.mapLinesOfArguments, Expr.linesOfArguments, e.lines_mapLines,
      linesOfArguments_mapLines es]

end

mutual

theorem Statement.lines_mapLines : ∀ s : Statement, (s.mapLines f).lines = s.lines.map f
  | .importPath .. => by simp [Statement.mapLines, Statement.lines]
  | .declareClass _ methods _ => by
    simp [Statement.mapLines, Statement.lines, linesOfMethods_mapLines methods]
  | .expression value _ => by simp [Statement.mapLines, Statement.lines, value.lines_mapLines]
  | .declareVariable _ _ none _ => by simp [Statement.mapLines, Statement.lines]
  | .declareVariable _ _ (some value) _ => by
    simp [Statement.mapLines, Statement.lines, value.lines_mapLines]
  | .entry => by simp [Statement.mapLines, Statement.lines]

theorem MethodDecl.lines_mapLines : ∀ m : MethodDecl, (m.mapLines f).lines = m.lines.map f
  | .mk signature body => by
    simp [MethodDecl.mapLines, MethodDecl.lines, Signature.mapLines, linesOfBody_mapLines body]

theorem linesOfMethods_mapLines : ∀ ms : List MethodDecl,
    linesOfMethods (mapLinesOfMethods f ms) = (linesOfMethods ms).map f
  | [] => by simp [mapLinesOfMethods, linesOfMethods]
  | m :: ms => by
    simp [mapLinesOfMethods, linesOfMethods, m.lines_mapLines, linesOfMethods_mapLines ms]

theorem linesOfBody_mapLines : ∀ ss : List Statement,
    linesOfBody (mapLinesOfBody f ss) = (linesOfBody ss).map f
  | [] => by simp [mapLinesOfBody, linesOfBody]
  | s :: ss => by
    simp [mapLinesOfBody, linesOfBody, s.lines_mapLines, linesOfBody_mapLines ss]

end

theorem Program.lines_mapLines (p : Program) : (p.mapLines f).lines = p.lines.map f :=
  linesOfBody_mapLines f p.statements

theorem Expr.mapLinesOfArguments_eq_map (es : List Expr) :
    mapLinesOfArguments f es = es.map (Expr.mapLines f) := by
  induction es with
  | nil => rfl
  | cons e es ih => rw [mapLinesOfArguments, ih, List.map_cons]

theorem mapLinesOfMethods_eq_map (ms : List MethodDecl) :
    mapLinesOfMethods f ms = ms.map (MethodDecl.mapLines f) := by
  induction ms with
  | nil => rfl
  | cons m ms ih => rw [mapLinesOfMethods, ih, List.map_cons]

end

/-! ## Parsers and lines -/

/-- The reply with functions applied to what was read and to the lines of the failure and of the
tokens left over. -/
def Reply.mapLines {α β : Type} (f : Nat → Nat) (g : α → β) : Reply α → Reply β
  | .ok a rest => .ok (g a) (rest.map (Located.mapLine f))
  | .error e rest => .error (e.mapLine f) (rest.map (Located.mapLine f))

namespace Parser

/-- The second parser does on tokens with a function applied to their lines what the first does on
the tokens themselves; `g` relates what they read. -/
def Commutes {α : Type} (f : Nat → Nat) (g : α → α) (p q : Parser α) : Prop :=
  ∀ toks, q (toks.map (Located.mapLine f)) = (p toks).mapLines f g

section

variable {α β : Type} {f : Nat → Nat} {g : α → α} {p q : Parser α}

theorem failAt_mapLine (part : Expectation) (toks : List Located) :
    (failAt part (toks.map (Located.mapLine f)) : Reply α) = (failAt part toks).mapLines f g := by
  cases toks <;> rfl

theorem commutes_fail (part : Expectation) : Commutes f g (fail part) (fail part) :=
  failAt_mapLine part

theorem commutes_pure {a b : α} (h : g a = b) : Commutes f g (pure a) (pure b) := by
  intro toks
  subst h
  rfl

theorem Commutes.bind {h : β → β} {x y : α → Parser β} (hp : Commutes f g p q)
    (hx : ∀ a, Commutes f h (x a) (y (g a))) : Commutes f h (p >>= x) (q >>= y) := by
  intro toks
  rw [bind_apply, bind_apply, hp]
  cases p toks with
  | ok a rest => exact hx a rest
  | error e rest => rfl

theorem Commutes.map {h : β → β} (hp : Commutes f g p q) (k : α → β) (hk : ∀ a, k (g a) = h (k a)) :
    Commutes f h (k <$> p) (k <$> q) := by
  intro toks
  rw [map_apply, map_apply, hp]
  cases p toks with
  | ok a rest => simp only [Reply.mapLines, hk]
  | error e rest => rfl

/-- An item in front of others. -/
theorem Commutes.cons {more more' : Parser (List α)} (h : Commutes f (List.map g) more more')
    (first : α) : Commutes f (List.map g) (more >>= fun others => pure (first :: others))
      (more' >>= fun others => pure (g first :: others)) :=
  h.bind fun _ => commutes_pure rfl

/-- The number of tokens does not change with their lines. -/
theorem Commutes.sized {x y : Nat → Parser α} (h : ∀ bound, Commutes f g (x bound) (y bound)) :
    Commutes f g (fun toks => x toks.length toks) (fun toks => y toks.length toks) := by
  intro toks
  dsimp only
  rw [List.length_map]
  exact h toks.length toks

/-- Where no token is left, the line that stands in for that of the next one must not matter. -/
theorem Commutes.onLine {x y : Nat → Parser α} (h : ∀ line, Commutes f g (x line) (y (f line)))
    (hend : y 0 [] = y (f 0) []) : Commutes f g (onLine x) (onLine y) := by
  intro toks
  cases toks with
  | nil =>
    calc y 0 [] = y (f 0) [] := hend
      _ = (x 0 []).mapLines f g := h 0 []
  | cons t rest => exact h t.line (t :: rest)

/-! ## Single tokens -/

theorem commutes_expect (token : Token) : Commutes f f (expect token) (expect token) := by
  intro toks
  cases toks with
  | nil => rfl
  | cons t rest =>
    by_cases ht : t.token = token
    · simp [expect, Located.mapLine, ht, Reply.mapLines]
    · simpa [expect, Located.mapLine, ht] using failAt_mapLine (g := f) (.token token) (t :: rest)

theorem commutes_nameAs (part : Expectation) : Commutes f id (nameAs part) (nameAs part) := by
  intro toks
  rcases toks with _ | ⟨⟨t, l⟩, rest⟩
  · rfl
  · cases t <;> rfl

/-! ## Lists with commas -/

theorem Commutes.afterItem {more more' : Parser (List α)} (h : Commutes f (List.map g) more more')
    (closing : Symbol) (first : α) :
    Commutes f (List.map g) (afterItem more closing first) (afterItem more' closing (g first)) := by
  intro toks
  rcases toks with _ | ⟨⟨t, l⟩, rest⟩
  · rfl
  cases t with
  | symbol s =>
    simp only [List.map_cons, Located.mapLine, Parser.afterItem]
    split
    · exact h.cons first rest
    · split
      · rfl
      · rfl
  | _ => rfl

theorem Commutes.separated (h : Commutes f g p q) (closing : Symbol) (bound : Nat) :
    Commutes f (List.map g) (separated p closing bound) (separated q closing bound) := by
  induction bound with
  | zero => exact commutes_fail _
  | succ bound ih =>
    rw [separated_succ, separated_succ]
    exact h.bind fun first => ih.afterItem closing first

theorem Commutes.list (h : Commutes f g p q) (closing : Symbol) :
    Commutes f (List.map g) (list p closing) (list q closing) := by
  intro toks
  cases toks with
  | nil => exact h.separated closing 1 []
  | cons t rest =>
    rw [List.map_cons, list_cons, list_cons, List.length_map]
    by_cases ht : t.token = .symbol closing
    · rw [if_pos ht, if_pos (show (t.mapLine f).token = _ from ht)]
      rfl
    · rw [if_neg ht, if_neg (show (t.mapLine f).token ≠ _ from ht)]
      exact h.separated closing (rest.length + 1) (t :: rest)

end

/-! ## Expressions -/

section Expressions

variable {f : Nat → Nat} {inner inner' : Parser Expr}

theorem Commutes.grouping (h : Commutes f (Expr.mapLines f) inner inner') :
    Commutes f (Expr.mapLines f) (grouping inner) (grouping inner') :=
  h.bind fun _ => (commutes_expect _).bind fun _ => commutes_pure rfl

theorem commutes_construction : Commutes f (Expr.mapLines f) construction construction :=
  .onLine (fun _ => (commutes_nameAs _).bind fun _ => commutes_pure rfl) rfl

theorem Commutes.primary (h : Commutes f (Expr.mapLines f) inner inner') :
    Commutes f (Expr.mapLines f) (primary inner) (primary inner') := by
  intro toks
  rcases toks with _ | ⟨⟨t, l⟩, rest⟩
  · rfl
  cases t with
  | keyword k =>
    cases k with
    | newKw => exact commutes_construction rest
    | _ => rfl
  | symbol s =>
    cases s with
    | lparen => exact h.grouping rest
    | _ => rfl
  | _ => rfl

theorem Commutes.chain (h : Commutes f (Expr.mapLines f) inner inner') (bound : Nat) (node : Expr) :
    Commutes f (Expr.mapLines f) (chain inner bound node)
      (chain inner' bound (node.mapLines f)) := by
  induction bound generalizing node with
  | zero => exact fun toks => rfl
  | succ bound ih =>
    intro toks
    rcases toks with _ | ⟨⟨t, l⟩, rest⟩
    · rfl
    cases t with
    | symbol s =>
      cases s with
      | dot =>
        exact (commutes_nameAs _).bind (fun member => ih (.access node member l)) rest
      | lparen =>
        refine (h.list _).bind (fun arguments => ?_) rest
        rw [← Expr.mapLinesOfArguments_eq_map]
        exact ih (.call node arguments l)
      | _ => rfl
    | _ => rfl

theorem Commutes.assigned (h : Commutes f (Expr.mapLines f) inner inner') (target : Expr) :
    Commutes f (Expr.mapLines f) (assigned inner target)
      (assigned inner' (target.mapLines f)) := by
  intro toks
  rcases toks with _ | ⟨⟨t, l⟩, rest⟩
  · rfl
  cases t with
  | symbol s =>
    cases s with
    | equals =>
      have next : Commutes f (Expr.mapLines f)
          (inner >>= fun value => pure (.assign target value l))
          (inner' >>= fun value => pure (.assign (target.mapLines f) value (f l))) :=
        h.bind fun _ => commutes_pure rfl
      exact next rest
    | _ => rfl
  | _ => rfl

theorem Commutes.endpoint (h : Commutes f (Expr.mapLines f) inner inner') :
    Commutes f (Expr.mapLines f) (endpoint inner) (endpoint inner') :=
  (h.primary.bind fun node => .sized fun bound => h.chain bound node).bind fun target =>
    h.assigned target

theorem Commutes.operations {operand operand' : Parser Expr}
    (h : Commutes f (Expr.mapLines f) operand operand') (operator? : Token → Option Operator)
    (bound : Nat) (left : Expr) :
    Commutes f (Expr.mapLines f) (operations operator? operand bound left)
      (operations operator? operand' bound (left.mapLines f)) := by
  induction bound generalizing left with
  | zero => exact fun toks => rfl
  | succ bound ih =>
    intro toks
    cases toks with
    | nil => rfl
    | cons t rest =>
      cases hop : operator? t.token with
      | none => simp [Parser.operations, Located.mapLine, hop, Reply.mapLines]
      | some op =>
        have next : Commutes f (Expr.mapLines f)
            (operand >>= fun right =>
              Parser.operations operator? operand bound (.binary op left right t.line))
            (operand' >>= fun right =>
              Parser.operations operator? operand' bound
                (.binary op (left.mapLines f) right (f t.line))) :=
          h.bind fun right => ih (.binary op left right t.line)
        simpa [Parser.operations, Located.mapLine, hop] using next rest

theorem Commutes.joined {operand operand' : Parser Expr}
    (h : Commutes f (Expr.mapLines f) operand operand') (operator? : Token → Option Operator) :
    Commutes f (Expr.mapLines f) (joined operator? operand) (joined operator? operand') :=
  h.bind fun first => .sized fun bound => h.operations operator? bound first

theorem commutes_expressionUpTo (depth : Nat) :
    Commutes f (Expr.mapLines f) (expressionUpTo depth) (expressionUpTo depth) := by
  induction depth with
  | zero => exact commutes_fail _
  | succ depth ih => exact (ih.endpoint.joined _).joined _

theorem commutes_expression : Commutes f (Expr.mapLines f) expression expression :=
  .sized fun bound => commutes_expressionUpTo (bound + 1)

end Expressions

/-! ## Simple statements -/

section Statements

variable {f : Nat → Nat}

theorem commutes_brackets (bound : Nat) : Commutes f id (brackets bound) (brackets bound) := by
  induction bound with
  | zero => exact fun toks => rfl
  | succ bound ih =>
    intro toks
    rcases toks with _ | ⟨⟨t, l⟩, rest⟩
    · rfl
    cases t with
    | symbol s =>
      cases s with
      | lbracket => exact (commutes_expect _).bind (fun _ => ih.map (· + 1) fun _ => rfl) rest
      | _ => rfl
    | _ => rfl

theorem commutes_typeName : Commutes f id typeName typeName :=
  (commutes_nameAs _).bind fun _ => (Commutes.sized commutes_brackets).bind fun _ =>
    commutes_pure rfl

theorem commutes_segments (bound : Nat) : Commutes f id (segments bound) (segments bound) := by
  induction bound with
  | zero =>
    intro toks
    rcases toks with _ | ⟨⟨t, l⟩, rest⟩
    · rfl
    cases t with
    | name n => simp [segments, Located.mapLine, Reply.mapLines]
    | symbol s => cases s <;> rfl
    | _ => rfl
  | succ bound ih =>
    intro toks
    match toks with
    | [] => rfl
    | ⟨.number x, l⟩ :: rest => rfl
    | ⟨.text s, l⟩ :: rest => rfl
    | ⟨.keyword k, l⟩ :: rest => rfl
    | ⟨.symbol s, l⟩ :: rest => cases s <;> rfl
    | [⟨.name n, l⟩] => rfl
    | ⟨.name n, l⟩ :: ⟨t, l'⟩ :: rest =>
      cases t with
      | symbol s =>
        cases s with
        | dot =>
          have next : Commutes f id ((Segment.name n :: ·) <$> segments bound)
              ((Segment.name n :: ·) <$> segments bound) := ih.map _ fun _ => rfl
          exact next rest
        | _ => rfl
      | _ => rfl

theorem commutes_importPath : Commutes f (Statement.mapLines f) importPath importPath :=
  (commutes_expect _).bind fun _ => (Commutes.sized commutes_segments).bind fun _ =>
    (commutes_expect _).bind fun _ => commutes_pure (by rw [Statement.mapLines]; rfl)

theorem commutes_initializer :
    Commutes f (Option.map (Expr.mapLines f)) initializer initializer := by
  intro toks
  rcases toks with _ | ⟨⟨t, l⟩, rest⟩
  · rfl
  cases t with
  | symbol s =>
    cases s with
    | equals => exact commutes_expression.map some (fun _ => rfl) rest
    | _ => rfl
  | _ => rfl

theorem commutes_declaration : Commutes f (Statement.mapLines f) declaration declaration :=
  .onLine (fun _ => commutes_typeName.bind fun _ => (commutes_nameAs _).bind fun _ =>
    commutes_initializer.bind fun _ => (commutes_expect _).bind fun _ =>
      commutes_pure (by rw [Statement.mapLines]; rfl)) rfl

theorem commutes_expressionStatement :
    Commutes f (Statement.mapLines f) expressionStatement expressionStatement :=
  .onLine (fun _ => commutes_expression.bind fun _ => (commutes_expect _).bind fun _ =>
    commutes_pure (by rw [Statement.mapLines])) rfl

/-- The attempt to read a declaration fails on the same tokens, whatever their lines. -/
theorem commutes_simpleStatement :
    Commutes f (Statement.mapLines f) simpleStatement simpleStatement := by
  intro toks
  unfold simpleStatement
  rw [commutes_declaration]
  cases declaration toks with
  | ok statement rest => rfl
  | error e rest => exact commutes_expressionStatement toks

/-! ## Classes -/

section Classes

variable {α : Type} {g : α → α} {item item' : Parser α} {inner inner' : Parser Statement}

theorem Commutes.untilClose (h : Commutes f g item item') (missing : Expectation) (bound : Nat) :
    Commutes f (List.map g) (untilClose item missing bound) (untilClose item' missing bound) := by
  induction bound with
  | zero =>
    intro toks
    cases toks with
    | nil => rfl
    | cons t rest =>
      by_cases ht : t.token = .symbol .rbrace
      · simp [Parser.untilClose, Located.mapLine, ht, Reply.mapLines]
      · simpa [Parser.untilClose, Located.mapLine, ht] using failAt_mapLine missing (t :: rest)
  | succ bound ih =>
    intro toks
    cases toks with
    | nil => rfl
    | cons t rest =>
      by_cases ht : t.token = .symbol .rbrace
      · simp [Parser.untilClose, Located.mapLine, ht, Reply.mapLines]
      · have next : Commutes f (List.map g)
            (item >>= fun first => Parser.untilClose item missing bound >>= fun others =>
              pure (first :: others))
            (item' >>= fun first => Parser.untilClose item' missing bound >>= fun others =>
              pure (first :: others)) := h.bind fun first => ih.cons first
        simpa [Parser.untilClose, Located.mapLine, ht] using next (t :: rest)

theorem Commutes.untilCloseAll (h : Commutes f g item item') (missing : Expectation) :
    Commutes f (List.map g) (untilCloseAll item missing) (untilCloseAll item' missing) :=
  .sized fun bound => h.untilClose missing bound

theorem commutes_access : Commutes f id access access := by
  intro toks
  rcases toks with _ | ⟨⟨t, l⟩, rest⟩
  · rfl
  cases t with
  | keyword k => cases k <;> rfl
  | _ => rfl

theorem commutes_staticWord : Commutes f id staticWord staticWord := by
  intro toks
  rcases toks with _ | ⟨⟨t, l⟩, rest⟩
  · rfl
  cases t with
  | keyword k => cases k <;> rfl
  | _ => rfl

theorem commutes_parameter : Commutes f id parameter parameter :=
  commutes_typeName.bind fun _ => (commutes_nameAs _).bind fun _ => commutes_pure rfl

theorem commutes_signature : Commutes f (Signature.mapLines f) signature signature :=
  .onLine (fun _ => commutes_access.bind fun _ => commutes_staticWord.bind fun _ =>
    commutes_typeName.bind fun _ => (commutes_nameAs _).bind fun _ => (commutes_expect _).bind
      fun _ => (commutes_parameter.list _).bind fun params =>
        commutes_pure (by rw [List.map_id]; rfl)) rfl

theorem commutes_distinctParameters (s : Signature) :
    Commutes f id (distinctParameters s) (distinctParameters (s.mapLines f)) := by
  intro toks
  unfold distinctParameters
  rw [show (s.mapLines f).params = s.params from rfl]
  cases firstRepeated? [] (s.params.map (·.name)) with
  | none => rfl
  | some name => rfl

theorem Commutes.methodOver (h : Commutes f (Statement.mapLines f) inner inner') :
    Commutes f (MethodDecl.mapLines f) (methodOver inner) (methodOver inner') := by
  have hblock : Commutes f (List.map (Statement.mapLines f)) (blockOver inner)
      (blockOver inner') := by
    rw [blockOver_eq, blockOver_eq]
    exact h.untilCloseAll _
  exact commutes_signature.bind fun s => (commutes_distinctParameters s).bind fun _ =>
    (commutes_expect _).bind fun _ => hblock.bind fun body =>
      commutes_pure (by rw [MethodDecl.mapLines, mapLinesOfBody_eq_map])

theorem Commutes.classOver (h : Commutes f (Statement.mapLines f) inner inner') :
    Commutes f (Statement.mapLines f) (classOver inner) (classOver inner') := by
  rw [classOver_eq, classOver_eq]
  exact commutes_access.bind fun _ => (commutes_expect _).bind fun line =>
    (commutes_nameAs _).bind fun n => (commutes_expect _).bind fun _ =>
      (h.methodOver.untilCloseAll _).bind fun methods =>
        commutes_pure (by rw [Statement.mapLines, mapLinesOfMethods_eq_map]; rfl)

/-! ## Whole statements -/

theorem Commutes.statementOver (h : Commutes f (Statement.mapLines f) inner inner') :
    Commutes f (Statement.mapLines f) (statementOver inner) (statementOver inner') := by
  intro toks
  rcases toks with _ | ⟨⟨t, l⟩, rest⟩
  · rfl
  cases t with
  | name n => exact commutes_simpleStatement (⟨.name n, l⟩ :: rest)
  | number x => exact commutes_simpleStatement (⟨.number x, l⟩ :: rest)
  | text s => exact commutes_simpleStatement (⟨.text s, l⟩ :: rest)
  | symbol s => exact commutes_simpleStatement (⟨.symbol s, l⟩ :: rest)
  | keyword k =>
    cases k with
    | importKw => exact commutes_importPath (⟨.keyword .importKw, l⟩ :: rest)
    | classKw => exact h.classOver (⟨.keyword .classKw, l⟩ :: rest)
    | publicKw => exact h.classOver (⟨.keyword .publicKw, l⟩ :: rest)
    | privateKw => exact h.classOver (⟨.keyword .privateKw, l⟩ :: rest)
    | protectedKw => exact h.classOver (⟨.keyword .protectedKw, l⟩ :: rest)
    | staticKw => exact commutes_simpleStatement (⟨.keyword .staticKw, l⟩ :: rest)
    | newKw => exact commutes_simpleStatement (⟨.keyword .newKw, l⟩ :: rest)
    | nullKw => exact commutes_simpleStatement (⟨.keyword .nullKw, l⟩ :: rest)

end Classes

theorem commutes_statementUpTo (depth : Nat) :
    Commutes f (Statement.mapLines f) (statementUpTo depth) (statementUpTo depth) := by
  induction depth with
  | zero => exact commutes_fail _
  | succ depth ih => exact ih.statementOver

theorem commutes_statement : Commutes f (Statement.mapLines f) statement statement :=
  .sized fun bound => commutes_statementUpTo (bound + 1)

/-! ## Whole programs -/

theorem commutes_statementsToEnd (bound : Nat) :
    Commutes f (List.map (Statement.mapLines f)) (statementsToEnd bound)
      (statementsToEnd bound) := by
  induction bound with
  | zero =>
    intro toks
    cases toks with
    | nil =>
      rw [List.map_nil, statementsToEnd_nil]
      simp [Reply.mapLines, Statement.mapLines]
    | cons t rest => rfl
  | succ bound ih =>
    intro toks
    cases toks with
    | nil =>
      rw [List.map_nil, statementsToEnd_nil]
      simp [Reply.mapLines, Statement.mapLines]
    | cons t rest =>
      exact commutes_statement.bind (fun first => ih.cons first) (t :: rest)

theorem commutes_program : Commutes f (Program.mapLines f) program program :=
  .sized fun bound => (commutes_statementsToEnd bound).map Program.mk fun ss => by
    rw [Program.mapLines, mapLinesOfBody_eq_map]

end Statements

/-! ## Lines of tokens -/

/-- Moves a line and no other. -/
def moveLine (moved line : Nat) : Nat := if line = moved then line + 1 else line

theorem moveLine_ne (moved : Nat) : moveLine moved moved ≠ moved := by
  simp [moveLine]

/-- Tokens do not notice when a line is moved on which none of them stands. -/
theorem map_moveLine {toks : List Located} {line : Nat} (h : ∀ t ∈ toks, t.line ≠ line) :
    toks.map (Located.mapLine (moveLine line)) = toks := by
  refine (List.map_congr_left fun t ht => ?_).trans (List.map_id toks)
  simp [Located.mapLine, moveLine, h t ht]

/-- So neither does what they are read as. -/
theorem mapLines_moveLine {toks : List Located} {line : Nat} (h : ∀ t ∈ toks, t.line ≠ line) :
    (program toks).mapLines (moveLine line) (Program.mapLines (moveLine line)) = program toks := by
  rw [← commutes_program, map_moveLine h]

/-- Lines are passed on as they are: with a function applied to the lines of the tokens, a program
is read as the same program, or refused with the same failure, but for that function applied to
their lines. Every line in a program, and that of a failure, is the line of a token. -/
theorem program_mapLines (toks : List Located) :
    (∀ f : Nat → Nat, program (toks.map (Located.mapLine f)) =
      (program toks).mapLines f (Program.mapLines f)) ∧
    match program toks with
    | .ok p _ => ∀ line ∈ p.lines, ∃ t ∈ toks, t.line = line
    | .error e _ => ∀ line ∈ e.line?, ∃ t ∈ toks, t.line = line := by
  refine ⟨fun f => commutes_program toks, ?_⟩
  have moved : ∀ line, (¬ ∃ t ∈ toks, t.line = line) →
      (program toks).mapLines (moveLine line) (Program.mapLines (moveLine line)) = program toks :=
    fun line h => mapLines_moveLine fun t ht hline => h ⟨t, ht, hline⟩
  cases hp : program toks with
  | ok p rest =>
    intro line hline
    by_contra hnone
    have hfixed : p.mapLines (moveLine line) = p := by
      have h := moved line hnone
      rw [hp] at h
      exact (Reply.ok.inj h).1
    -- a line that is moved stays what it is in the program
    have hlines : p.lines.map (moveLine line) = p.lines.map id := by
      rw [← p.lines_mapLines, hfixed, List.map_id]
    exact moveLine_ne line (List.map_inj_left.1 hlines line hline)
  | error e rest =>
    intro line hline
    by_contra hnone
    have hfixed : e.mapLine (moveLine line) = e := by
      have h := moved line hnone
      rw [hp] at h
      exact (Reply.error.inj h).1
    have hmoved := e.line?_mapLine (moveLine line)
    rw [hfixed, Option.mem_def.1 hline] at hmoved
    exact moveLine_ne line (Option.some.inj hmoved).symm

end Parser

end SmallJava
