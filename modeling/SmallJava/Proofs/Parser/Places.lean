/-
Places in a program. A node of the tree of a program stands on some of its tokens, and its place is
the tokens before it and after it. Each rule of the grammar says which nodes are under a node, and
where. Main statement: where the tokens of a node are exchanged for those of a node that is alike,
the whole reads alike (`Place.exchange`).
-/
import SmallJava.Proofs.Parser.RoundTrip

namespace SmallJava

/-! ## Erased trees, part by part -/

namespace Expr

@[simp] theorem erased_assign (target value : Expr) (l : Nat) :
    (assign target value l).erased = assign target.erased value.erased 0 := rfl

@[simp] theorem erased_binary (op : Operator) (left right : Expr) (l : Nat) :
    (binary op left right l).erased = binary op left.erased right.erased 0 := rfl

@[simp] theorem erased_access (parent : Expr) (member : String) (l : Nat) :
    (access parent member l).erased = access parent.erased member 0 := rfl

@[simp] theorem erased_call (callee : Expr) (arguments : List Expr) (l : Nat) :
    (call callee arguments l).erased = call callee.erased (erasedArguments arguments) 0 := rfl

@[simp] theorem erasedArguments_nil : erasedArguments [] = [] := rfl

@[simp] theorem erasedArguments_cons (e : Expr) (es : List Expr) :
    erasedArguments (e :: es) = e.erased :: erasedArguments es := rfl

end Expr

namespace Statement

/-- The statement without its lines. -/
def erased (s : Statement) : Statement := s.mapLines fun _ => 0

@[simp] theorem erased_expression (value : Expr) (l : Nat) :
    (expression value l).erased = expression value.erased 0 := rfl

@[simp] theorem erased_declareVariable (type : TypeName) (n : String) (value : Expr) (l : Nat) :
    (declareVariable type n (some value) l).erased =
      declareVariable type n (some value.erased) 0 := rfl

@[simp] theorem erased_declareClass (n : String) (methods : List MethodDecl) (l : Nat) :
    (declareClass n methods l).erased = declareClass n (erasedMethods methods) 0 := rfl

end Statement

/-- The method without its lines. -/
def MethodDecl.erased (m : MethodDecl) : MethodDecl := m.mapLines fun _ => 0

@[simp] theorem MethodDecl.erased_mk (signature : Signature) (body : List Statement) :
    (mk signature body).erased = mk (signature.mapLines fun _ => 0) (erasedBody body) := rfl

@[simp] theorem erasedMethods_cons (m : MethodDecl) (ms : List MethodDecl) :
    erasedMethods (m :: ms) = m.erased :: erasedMethods ms := rfl

@[simp] theorem erasedBody_cons (s : Statement) (ss : List Statement) :
    erasedBody (s :: ss) = s.erased :: erasedBody ss := rfl

theorem erasedBody_append (ss ss' : List Statement) :
    erasedBody (ss ++ ss') = erasedBody ss ++ erasedBody ss' := by
  simp [erasedBody, mapLinesOfBody_eq_map]

/-! ## Groupings that bind as tightly -/

namespace Grouping

/-- A grouping that can take the place of another one: it stands for the same expression up to
lines, is a chain or of the same level, and ends in no assignment if the other one does not. -/
structure Tightens (g' g : Grouping) : Prop where
  expr : g'.expr.erased = g.expr.erased
  level : g'.level = 3 ∨ g'.level = g.level
  ends : g.endsInAssignment = false → g'.endsInAssignment = false

theorem sign_level_lt (s : Sign) : s.level < 3 := by
  cases s with
  | assignment => simp [Sign.level]
  | operator op => rcases op.level_eq with h | h <;> simp [Sign.level, h]

theorem exists_chain_of_level {g : Grouping} (h : g.level = 3) : ∃ e, g = chain e := by
  cases g with
  | chain e => exact ⟨e, rfl⟩
  | operation sign l left right =>
    have := sign_level_lt sign
    simp only [level] at h
    omega

theorem Fits.tighten_left {sign : Sign} {left left' right : Grouping} (h : Fits sign left right)
    (ht : left'.Tightens left) : Fits sign left' right := by
  constructor
  case reach => exact ht.ends h.reach
  case target =>
    intro hs
    obtain ⟨e, rfl⟩ := h.target hs
    rcases ht.level with hl | hl <;> exact exists_chain_of_level hl
  case tighter =>
    intro hs
    obtain ⟨hleft, hright⟩ := h.tighter hs
    refine ⟨?_, hright⟩
    rcases ht.level with hl | hl <;> omega
  case leftward => exact h.leftward

theorem Fits.tighten_right {sign : Sign} {left right right' : Grouping} (h : Fits sign left right)
    (ht : right'.Tightens right) : Fits sign left right' := by
  have hsign := sign_level_lt sign
  constructor
  case reach => exact h.reach
  case target => exact h.target
  case tighter =>
    intro hs
    obtain ⟨hleft, hright⟩ := h.tighter hs
    refine ⟨hleft, ?_⟩
    rcases ht.level with hl | hl <;> omega
  case leftward =>
    intro hs
    have hne := h.leftward hs
    rcases ht.level with hl | hl <;> omega

theorem erased_expr_operation {sign : Sign} {l : Nat} {left left' right right' : Grouping}
    (hl : left'.expr.erased = left.expr.erased) (hr : right'.expr.erased = right.expr.erased) :
    (operation sign l left' right').expr.erased = (operation sign l left right).expr.erased := by
  cases sign <;> simp [expr, hl, hr]

theorem Tightens.left {sign : Sign} {l : Nat} {left left' right : Grouping}
    (h : left'.Tightens left) :
    (operation sign l left' right).Tightens (operation sign l left right) := by
  refine ⟨erased_expr_operation h.expr rfl, Or.inr rfl, fun hends => ?_⟩
  -- whether an operation ends in an assignment is a matter of its sign and its right operand
  cases sign with
  | assignment => exact hends
  | operator op => exact hends

theorem Tightens.right {sign : Sign} {l : Nat} {left right right' : Grouping}
    (h : right'.Tightens right) :
    (operation sign l left right').Tightens (operation sign l left right) := by
  refine ⟨erased_expr_operation rfl h.expr, Or.inr rfl, fun hends => ?_⟩
  cases sign with
  | assignment => exact hends
  | operator op => exact h.ends hends

end Grouping

namespace Derivation

/-! ## Nodes -/

/-- A node of the tree of a program. -/
inductive Node
  | expression (e : Expr)
  | grouping (g : Grouping)
  | chain (e : Expr)
  | arguments (es : List Expr)
  | statement (s : SmallJava.Statement)
  | methods (ms : List MethodDecl)
  | method (m : MethodDecl)
  | statements (ss : List SmallJava.Statement)
  | root (p : Program)

/-- The tokens are read as the node. -/
@[simp] def Derives (ts : List Located) : Node → Prop
  | .expression e => Expression ts e
  | .grouping g => Groups ts g ∧ g.Documented
  | .chain e => Chain ts e
  | .arguments es => ArgumentList ts es
  | .statement s => Statement ts s
  | .methods ms => Methods ts ms
  | .method m => Method ts m
  | .statements ss => Statements ts ss
  | .root p => Root ts p

namespace Node

/-- The expression a node stands for, if it is one. -/
@[simp] def expr? : Node → Option Expr
  | expression e => some e
  | grouping g => some g.expr
  | chain e => some e
  | _ => none

/-- Nodes of one kind that are the same up to lines; a grouping also has to bind as tightly. -/
inductive Alike : Node → Node → Prop
  | expression {e' e : Expr} : e'.erased = e.erased → Alike (expression e') (expression e)
  | grouping {g' g : Grouping} : g'.Tightens g → Alike (grouping g') (grouping g)
  | chain {e' e : Expr} : e'.erased = e.erased → Alike (chain e') (chain e)
  | arguments {es' es : List Expr} : Expr.erasedArguments es' = Expr.erasedArguments es →
      Alike (arguments es') (arguments es)
  | statement {s' s : SmallJava.Statement} : s'.erased = s.erased →
      Alike (statement s') (statement s)
  | methods {ms' ms : List MethodDecl} : erasedMethods ms' = erasedMethods ms →
      Alike (methods ms') (methods ms)
  | method {m' m : MethodDecl} : m'.erased = m.erased → Alike (method m') (method m)
  | statements {ss' ss : List SmallJava.Statement} : erasedBody ss' = erasedBody ss →
      Alike (statements ss') (statements ss)
  | root {p' p : Program} : p'.erased = p.erased → Alike (root p') (root p)

end Node

/-- Tokens that are read as the expression that a node stands for can stand alone. -/
theorem Derives.expression {ts : List Located} {n : Node} {e : Expr} (h : Derives ts n)
    (he : n.expr? = some e) : Expression ts e := by
  cases n with
  | expression e' => cases he; exact h
  | grouping g => cases he; exact .grouped h.1 h.2
  | chain e' => cases he; exact .grouped (.chain h) trivial
  | _ => cases he

/-! ## Surroundings -/

/-- The tokens before a place and those after it. -/
structure Surroundings where
  before : List Located
  after : List Located

namespace Surroundings

/-- Surroundings without tokens. -/
def none : Surroundings := ⟨[], []⟩

/-- The tokens at the place between those before and after it. -/
def fill (c : Surroundings) (ts : List Located) : List Located := c.before ++ (ts ++ c.after)

/-- The surroundings of a place within a place. -/
def around (c d : Surroundings) : Surroundings := ⟨c.before ++ d.before, d.after ++ c.after⟩

@[simp] theorem fill_none (ts : List Located) : none.fill ts = ts := by simp [fill, none]

@[simp] theorem fill_mk (before after ts : List Located) :
    fill ⟨before, after⟩ ts = before ++ (ts ++ after) := rfl

@[simp] theorem fill_around (c d : Surroundings) (ts : List Located) :
    (c.around d).fill ts = c.fill (d.fill ts) := by simp [fill, around]

end Surroundings

/-! ## Places -/

/-- One node is under another one at a place, by a rule of the grammar. The statement of an
expression can have any line here, since its first token may be one of those at the place. -/
inductive Under : Surroundings → Node → Node → Prop
  | grouping {g : Grouping} : Under .none (.expression g.expr) (.grouping g)
  | chain {e : Expr} : Under .none (.grouping (.chain e)) (.chain e)
  | left {us : List Located} {sign : Sign} {l : Nat} {left right : Grouping} :
      Derives us (.grouping right) → Grouping.Fits sign left right →
      Under ⟨[], ⟨.symbol sign.symbol, l⟩ :: us⟩ (.grouping (.operation sign l left right))
        (.grouping left)
  | right {ts : List Located} {sign : Sign} {l : Nat} {left right : Grouping} :
      Derives ts (.grouping left) → Grouping.Fits sign left right →
      Under ⟨ts ++ [⟨.symbol sign.symbol, l⟩], []⟩ (.grouping (.operation sign l left right))
        (.grouping right)
  | parentheses {e : Expr} {l l' : Nat} :
      Under ⟨[⟨.symbol .lparen, l⟩], [⟨.symbol .rparen, l'⟩]⟩ (.chain e) (.expression e)
  | parent {e : Expr} {n : String} {l l' : Nat} :
      Under ⟨[], [⟨.symbol .dot, l⟩, ⟨.name n, l'⟩]⟩ (.chain (.access e n l)) (.chain e)
  | callee {us : List Located} {e : Expr} {es : List Expr} {l l' : Nat} : Arguments us es →
      Under ⟨[], ⟨.symbol .lparen, l⟩ :: (us ++ [⟨.symbol .rparen, l'⟩])⟩ (.chain (.call e es l))
        (.chain e)
  | arguments {ts : List Located} {e : Expr} {es : List Expr} {l l' : Nat} : Chain ts e →
      Under ⟨ts ++ [⟨.symbol .lparen, l⟩], [⟨.symbol .rparen, l'⟩]⟩ (.chain (.call e es l))
        (.arguments es)
  | lastArgument {e : Expr} : Under .none (.arguments [e]) (.expression e)
  | argument {us : List Located} {l : Nat} {e : Expr} {es : List Expr} : ArgumentList us es →
      Under ⟨[], ⟨.symbol .comma, l⟩ :: us⟩ (.arguments (e :: es)) (.expression e)
  | laterArguments {ts : List Located} {l : Nat} {e : Expr} {es : List Expr} : Expression ts e →
      Under ⟨ts ++ [⟨.symbol .comma, l⟩], []⟩ (.arguments (e :: es)) (.arguments es)
  | value {e : Expr} {l l' : Nat} :
      Under ⟨[], [⟨.symbol .semicolon, l⟩]⟩ (.statement (.expression e l')) (.expression e)
  | initializer {ts : List Located} {t : SmallJava.TypeName} {n : String} {e : Expr}
      {l l₁ l₂ : Nat} : TypeName ts t →
      Under ⟨ts ++ [⟨.name n, l⟩, ⟨.symbol .equals, l₁⟩], [⟨.symbol .semicolon, l₂⟩]⟩
        (.statement (.declareVariable t n (some e) (lineOf ts))) (.expression e)
  | members {ws : List Located} {a : Access} {ms : List MethodDecl} {n : String}
      {l l₁ l₂ l₃ : Nat} : AccessWord ws a →
      Under ⟨ws ++ [⟨.keyword .classKw, l⟩, ⟨.name n, l₁⟩, ⟨.symbol .lbrace, l₂⟩],
        [⟨.symbol .rbrace, l₃⟩]⟩ (.statement (.declareClass n ms l)) (.methods ms)
  | firstMethod {us : List Located} {m : MethodDecl} {ms : List MethodDecl} : Methods us ms →
      Under ⟨[], us⟩ (.methods (m :: ms)) (.method m)
  | laterMethods {ts : List Located} {m : MethodDecl} {ms : List MethodDecl} : Method ts m →
      Under ⟨ts, []⟩ (.methods (m :: ms)) (.methods ms)
  | body {ws ss ts ps : List Located} {a : Access} {isStatic : Bool} {t : SmallJava.TypeName}
      {params : List SmallJava.Parameter} {body : List SmallJava.Statement} {n : String}
      {l l₁ l₂ l₃ l₄ : Nat} : AccessWord ws a → StaticWord ss isStatic → TypeName ts t →
      Listed Parameter ps params → (params.map (·.name)).Nodup →
      Under ⟨ws ++ (ss ++ (ts ++ ⟨.name n, l⟩ :: ⟨.symbol .lparen, l₁⟩ ::
        (ps ++ [⟨.symbol .rparen, l₂⟩, ⟨.symbol .lbrace, l₃⟩]))), [⟨.symbol .rbrace, l₄⟩]⟩
        (.method (.mk ⟨a, isStatic, t, n, params, lineOf (ws ++ (ss ++ ts))⟩ body))
        (.statements body)
  | firstStatement {us : List Located} {s : SmallJava.Statement}
      {ss : List SmallJava.Statement} : Statements us ss →
      Under ⟨[], us⟩ (.statements (s :: ss)) (.statement s)
  | laterStatements {ts : List Located} {s : SmallJava.Statement}
      {ss : List SmallJava.Statement} : Statement ts s →
      Under ⟨ts, []⟩ (.statements (s :: ss)) (.statements ss)
  | program {ss : List SmallJava.Statement} :
      Under .none (.root ⟨ss ++ [.entry]⟩) (.statements ss)

/-- A node stands inside another one at a place, any number of rules below it. -/
inductive Place : Surroundings → Node → Node → Prop
  | here (n : Node) : Place .none n n
  | under {c d : Surroundings} {outer n inner : Node} : Under c outer n → Place d n inner →
      Place (c.around d) outer inner

/-- The tokens between the surroundings are those of an expression inside a node. -/
def Occurs (c : Surroundings) (ts : List Located) (e : Expr) (outer : Node) : Prop :=
  ∃ n, Place c outer n ∧ Derives ts n ∧ n.expr? = some e

/-! ## Exchange -/

/-- A node under another one can be exchanged for one that is alike. -/
theorem Under.exchange {c : Surroundings} {outer n n' : Node} (h : Under c outer n)
    (ha : n'.Alike n) {us : List Located} (hr : Derives us n') :
    ∃ outer' : Node, outer'.Alike outer ∧ Derives (c.fill us) outer' := by
  cases h with
  | grouping =>
    cases ha with
    | @grouping g' _ ht =>
      exact ⟨.expression g'.expr, .expression ht.expr, by simpa using Expression.grouped hr.1 hr.2⟩
  | chain =>
    cases ha with
    | @chain e' _ he =>
      refine ⟨.grouping (.chain e'), .grouping ⟨he, Or.inl rfl, fun _ => rfl⟩, ?_⟩
      simpa [Grouping.Documented] using Groups.chain hr
  | left hright hfits =>
    cases ha with
    | grouping ht =>
      exact ⟨_, .grouping ht.left, .operation hr.1 hright.1, hr.2, hright.2, hfits.tighten_left ht⟩
  | right hleft hfits =>
    cases ha with
    | grouping ht =>
      refine ⟨_, .grouping ht.right, ?_, hleft.2, hr.2, hfits.tighten_right ht⟩
      simpa using Groups.operation hleft.1 hr.1
  | parentheses =>
    cases ha with
    | expression he => exact ⟨_, .chain he, Chain.primary (.grouping hr)⟩
  | parent =>
    cases ha with
    | chain he => exact ⟨_, .chain (by simp [he]), Chain.access hr⟩
  | callee harguments =>
    cases ha with
    | chain he => exact ⟨_, .chain (by simp [he]), Chain.call hr harguments⟩
  | @arguments _ e _ l _ hcallee =>
    cases ha with
    | @arguments es' _ he =>
      refine ⟨.chain (.call e es' l), .chain (by simp [he]), ?_⟩
      simpa using Chain.call hcallee (.some hr)
  | lastArgument =>
    cases ha with
    | @expression e' _ he =>
      exact ⟨.arguments [e'], .arguments (by simp [he]), by simpa using ArgumentList.one hr⟩
  | argument hlater =>
    cases ha with
    | expression he => exact ⟨_, .arguments (by simp [he]), ArgumentList.more hr hlater⟩
  | @laterArguments _ _ e _ hfirst =>
    cases ha with
    | @arguments es' _ he =>
      refine ⟨.arguments (e :: es'), .arguments (by simp [he]), ?_⟩
      simpa using ArgumentList.more hfirst hr
  | value =>
    cases ha with
    | expression he => exact ⟨_, .statement (by simp [he]), Statement.expression hr⟩
  | @initializer ts t n _ _ _ _ htype =>
    cases ha with
    | @expression e' _ he =>
      refine ⟨.statement (.declareVariable t n (some e') (lineOf ts)),
        .statement (by simp [he]), ?_⟩
      simpa using Statement.declareVariable htype (.some hr)
  | @members _ _ _ n l _ _ _ haccess =>
    cases ha with
    | @methods ms' _ he =>
      refine ⟨.statement (.declareClass n ms' l), .statement (by simp [he]), ?_⟩
      simpa using Statement.declareClass haccess hr
  | @firstMethod _ _ ms hlater =>
    cases ha with
    | @method m' _ he =>
      refine ⟨.methods (m' :: ms), .methods (by simp [he]), ?_⟩
      simpa using Methods.cons hr hlater
  | @laterMethods _ m _ hfirst =>
    cases ha with
    | @methods ms' _ he =>
      refine ⟨.methods (m :: ms'), .methods (by simp [he]), ?_⟩
      simpa using Methods.cons hfirst hr
  | @body ws ss ts _ a isStatic t params _ n _ _ _ _ _ haccess hstatic htype hparams hdistinct =>
    cases ha with
    | @statements body' _ he =>
      refine ⟨.method (.mk ⟨a, isStatic, t, n, params, lineOf (ws ++ (ss ++ ts))⟩ body'),
        .method (by simp [he]), ?_⟩
      simpa using Method.intro haccess hstatic htype hparams hdistinct hr
  | @firstStatement _ _ ss hlater =>
    cases ha with
    | @statement s' _ he =>
      refine ⟨.statements (s' :: ss), .statements (by simp [he]), ?_⟩
      simpa using Statements.cons hr hlater
  | @laterStatements _ s _ hfirst =>
    cases ha with
    | @statements ss' _ he =>
      refine ⟨.statements (s :: ss'), .statements (by simp [he]), ?_⟩
      simpa using Statements.cons hfirst hr
  | program =>
    cases ha with
    | @statements ss' _ he =>
      refine ⟨.root ⟨ss' ++ [.entry]⟩, .root ?_, by simpa using Root.intro hr⟩
      show Program.mk (erasedBody (_ ++ [.entry])) = Program.mk (erasedBody (_ ++ [.entry]))
      rw [erasedBody_append, erasedBody_append, he]

/-- A node at a place can be exchanged for one that is alike. -/
theorem Place.exchange {c : Surroundings} {outer n n' : Node} (h : Place c outer n)
    (ha : n'.Alike n) {us : List Located} (hr : Derives us n') :
    ∃ outer' : Node, outer'.Alike outer ∧ Derives (c.fill us) outer' := by
  induction h with
  | here n => exact ⟨n', ha, by simpa using hr⟩
  | under hstep _ ih =>
    obtain ⟨m', hm, hread⟩ := ih ha
    rw [Surroundings.fill_around]
    exact hstep.exchange hm hread

end Derivation

end SmallJava
