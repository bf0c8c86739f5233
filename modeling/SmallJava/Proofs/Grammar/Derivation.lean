/-
Derivations: the trees that lists of located tokens are read as. Every production of the written
grammar has its tree, expressions that of the documented grouping. Main statement: the tokens that
have a tree are exactly those that the written grammar derives.
-/
import SmallJava.Parser.Statement
import SmallJava.Proofs.Grammar.Grouping

namespace SmallJava.Derivation

/-- The tokens without their lines. -/
def words (toks : List Located) : List Token := toks.map (·.token)

/-- The line of the first token, zero where there is none. -/
def lineOf (toks : List Located) : Nat := (toks.head?.map (·.line)).getD 0

/-! ## Types and parameters -/

/-- Pairs of brackets and their number. -/
inductive Brackets : List Located → Nat → Prop
  | none : Brackets [] 0
  | pair {ts : List Located} {k l l' : Nat} : Brackets ts k →
      Brackets (⟨.symbol .lbracket, l⟩ :: ⟨.symbol .rbracket, l'⟩ :: ts) (k + 1)

/-- A type. -/
inductive TypeName : List Located → SmallJava.TypeName → Prop
  | intro {n : String} {l k : Nat} {ts : List Located} : Brackets ts k →
      TypeName (⟨.name n, l⟩ :: ts) ⟨n, k⟩

/-- A parameter. -/
inductive Parameter : List Located → SmallJava.Parameter → Prop
  | intro {ts : List Located} {t : SmallJava.TypeName} {n : String} {l : Nat} : TypeName ts t →
      Parameter (ts ++ [⟨.name n, l⟩]) ⟨t, n⟩

/-- At least one item, and more after commas. -/
inductive Separated {α : Type} (item : List Located → α → Prop) : List Located → List α → Prop
  | one {ts : List Located} {a : α} : item ts a → Separated item ts [a]
  | more {ts us : List Located} {l : Nat} {a : α} {as : List α} : item ts a →
      Separated item us as → Separated item (ts ++ ⟨.symbol .comma, l⟩ :: us) (a :: as)

/-- Items with commas between them, perhaps none. -/
inductive Listed {α : Type} (item : List Located → α → Prop) : List Located → List α → Prop
  | none : Listed item [] []
  | some {ts : List Located} {as : List α} : Separated item ts as → Listed item ts as

/-- Items one after another. -/
inductive Repeated {α : Type} (item : List Located → α → Prop) : List Located → List α → Prop
  | nil : Repeated item [] []
  | cons {ts us : List Located} {a : α} {as : List α} : item ts a → Repeated item us as →
      Repeated item (ts ++ us) (a :: as)

/-- A word of access, if there is one. -/
inductive AccessWord : List Located → Access → Prop
  | none : AccessWord [] .package
  | everyone {l : Nat} : AccessWord [⟨.keyword .publicKw, l⟩] .everyone
  | owner {l : Nat} : AccessWord [⟨.keyword .privateKw, l⟩] .owner
  | heirs {l : Nat} : AccessWord [⟨.keyword .protectedKw, l⟩] .heirs

/-- The word that makes a method static, if it is there. -/
inductive StaticWord : List Located → Bool → Prop
  | none : StaticWord [] false
  | static {l : Nat} : StaticWord [⟨.keyword .staticKw, l⟩] true

/-! ## Expressions -/

mutual

/-- An expression, by its documented grouping. -/
inductive Expression : List Located → Expr → Prop
  | grouped {ts : List Located} {g : Grouping} : Groups ts g → g.Documented → Expression ts g.expr

/-- Any grouping of chains and signs. -/
inductive Groups : List Located → Grouping → Prop
  | chain {ts : List Located} {e : Expr} : Chain ts e → Groups ts (.chain e)
  | operation {ts us : List Located} {sign : Sign} {l : Nat} {left right : Grouping} :
      Groups ts left → Groups us right →
      Groups (ts ++ ⟨.symbol sign.symbol, l⟩ :: us) (.operation sign l left right)

/-- A primary with the accesses and calls after it, from the left. -/
inductive Chain : List Located → Expr → Prop
  | primary {ts : List Located} {e : Expr} : Primary ts e → Chain ts e
  | access {ts : List Located} {e : Expr} {n : String} {l l' : Nat} : Chain ts e →
      Chain (ts ++ [⟨.symbol .dot, l⟩, ⟨.name n, l'⟩]) (.access e n l)
  | call {ts us : List Located} {e : Expr} {es : List Expr} {l l' : Nat} : Chain ts e →
      Arguments us es →
      Chain (ts ++ ⟨.symbol .lparen, l⟩ :: (us ++ [⟨.symbol .rparen, l'⟩])) (.call e es l)

/-- The arguments of a call. -/
inductive Arguments : List Located → List Expr → Prop
  | none : Arguments [] []
  | some {ts : List Located} {es : List Expr} : ArgumentList ts es → Arguments ts es

/-- At least one argument, and more after commas. -/
inductive ArgumentList : List Located → List Expr → Prop
  | one {ts : List Located} {e : Expr} : Expression ts e → ArgumentList ts [e]
  | more {ts us : List Located} {l : Nat} {e : Expr} {es : List Expr} : Expression ts e →
      ArgumentList us es → ArgumentList (ts ++ ⟨.symbol .comma, l⟩ :: us) (e :: es)

/-- A name, a constant, an expression in parentheses or a construction. -/
inductive Primary : List Located → Expr → Prop
  | name {n : String} {l : Nat} : Primary [⟨.name n, l⟩] (.name n l)
  | number {x : Double} {l : Nat} : Primary [⟨.number x, l⟩] (.literal (.number x) l)
  | text {s : String} {l : Nat} : Primary [⟨.text s, l⟩] (.literal (.text s) l)
  | null {l : Nat} : Primary [⟨.keyword .nullKw, l⟩] (.literal .null l)
  | construction {n : String} {l l' : Nat} :
      Primary [⟨.keyword .newKw, l⟩, ⟨.name n, l'⟩] (.name n l')
  | grouping {ts : List Located} {e : Expr} {l l' : Nat} : Expression ts e →
      Primary (⟨.symbol .lparen, l⟩ :: (ts ++ [⟨.symbol .rparen, l'⟩])) e

end

/-! ## Statements -/

/-- The steps of a path. -/
inductive Path : List Located → List Segment → Prop
  | name {n : String} {l : Nat} : Path [⟨.name n, l⟩] [.name n]
  | wildcard {l : Nat} : Path [⟨.symbol .star, l⟩] [.wildcard]
  | step {n : String} {l l' : Nat} {ts : List Located} {path : List Segment} : Path ts path →
      Path (⟨.name n, l⟩ :: ⟨.symbol .dot, l'⟩ :: ts) (.name n :: path)

/-- The first value of a variable, if one is given. -/
inductive Initializer : List Located → Option Expr → Prop
  | none : Initializer [] none
  | some {ts : List Located} {e : Expr} {l : Nat} : Expression ts e →
      Initializer (⟨.symbol .equals, l⟩ :: ts) (some e)

mutual

/-- A statement; it stands on the line of its first token, an import or a class on that of its
keyword. -/
inductive Statement : List Located → SmallJava.Statement → Prop
  | importPath {ts : List Located} {path : List Segment} {l l' : Nat} : Path ts path →
      Statement (⟨.keyword .importKw, l⟩ :: (ts ++ [⟨.symbol .semicolon, l'⟩])) (.importPath path l)
  | declareClass {ws ts : List Located} {a : Access} {ms : List MethodDecl} {n : String}
      {l l₁ l₂ l₃ : Nat} : AccessWord ws a → Methods ts ms →
      Statement (ws ++ ⟨.keyword .classKw, l⟩ :: ⟨.name n, l₁⟩ :: ⟨.symbol .lbrace, l₂⟩ ::
        (ts ++ [⟨.symbol .rbrace, l₃⟩])) (.declareClass n ms l)
  | declareVariable {ts us : List Located} {t : SmallJava.TypeName} {n : String} {v : Option Expr}
      {l l' : Nat} : TypeName ts t → Initializer us v →
      Statement (ts ++ ⟨.name n, l⟩ :: (us ++ [⟨.symbol .semicolon, l'⟩]))
        (.declareVariable t n v (lineOf ts))
  | expression {ts : List Located} {e : Expr} {l : Nat} : Expression ts e →
      Statement (ts ++ [⟨.symbol .semicolon, l⟩]) (.expression e (lineOf ts))

/-- The methods of a class. -/
inductive Methods : List Located → List MethodDecl → Prop
  | nil : Methods [] []
  | cons {ts us : List Located} {m : MethodDecl} {ms : List MethodDecl} : Method ts m →
      Methods us ms → Methods (ts ++ us) (m :: ms)

/-- A method with parameters of different names; it stands on the line of its first token. -/
inductive Method : List Located → MethodDecl → Prop
  | intro {ws ss ts ps bs : List Located} {a : Access} {isStatic : Bool} {t : SmallJava.TypeName}
      {params : List SmallJava.Parameter} {body : List SmallJava.Statement} {n : String}
      {l l₁ l₂ l₃ l₄ : Nat} : AccessWord ws a → StaticWord ss isStatic → TypeName ts t →
      Listed Parameter ps params → (params.map (·.name)).Nodup → Statements bs body →
      Method (ws ++ (ss ++ (ts ++ ⟨.name n, l⟩ :: ⟨.symbol .lparen, l₁⟩ ::
        (ps ++ ⟨.symbol .rparen, l₂⟩ :: ⟨.symbol .lbrace, l₃⟩ :: (bs ++ [⟨.symbol .rbrace, l₄⟩])))))
        (.mk ⟨a, isStatic, t, n, params, lineOf (ws ++ (ss ++ ts))⟩ body)

/-- The statements of a block or of a whole text. -/
inductive Statements : List Located → List SmallJava.Statement → Prop
  | nil : Statements [] []
  | cons {ts us : List Located} {s : SmallJava.Statement} {ss : List SmallJava.Statement} :
      Statement ts s → Statements us ss → Statements (ts ++ us) (s :: ss)

end

theorem statements_of_repeated {ts : List Located} {ss : List SmallJava.Statement}
    (h : Repeated Statement ts ss) : Statements ts ss := by
  induction h with
  | nil => exact .nil
  | cons h _ ih => exact .cons h ih

theorem methods_of_repeated {ts : List Located} {ms : List MethodDecl}
    (h : Repeated Method ts ms) : Methods ts ms := by
  induction h with
  | nil => exact .nil
  | cons h _ ih => exact .cons h ih

/-- A program: its statements, and its start after them. -/
inductive Root : List Located → Program → Prop
  | intro {ts : List Located} {ss : List SmallJava.Statement} : Statements ts ss →
      Root ts ⟨ss ++ [.entry]⟩

/-! ## Lines -/

theorem lineOf_append {ts : List Located} (h : ts ≠ []) (us : List Located) :
    lineOf (ts ++ us) = lineOf ts := by
  cases ts with
  | nil => exact absurd rfl h
  | cons t ts => rfl

theorem TypeName.ne_nil {ts : List Located} {t : SmallJava.TypeName} : TypeName ts t → ts ≠ []
  | .intro _ => by simp

theorem Primary.ne_nil {ts : List Located} {e : Expr} (h : Primary ts e) : ts ≠ [] := by
  cases h <;> simp

theorem Chain.ne_nil {ts : List Located} {e : Expr} : Chain ts e → ts ≠ []
  | .primary h => h.ne_nil
  | .access _ => by simp
  | .call _ _ => by simp

theorem Groups.ne_nil {ts : List Located} {g : Grouping} : Groups ts g → ts ≠ []
  | .chain h => h.ne_nil
  | .operation _ _ => by simp

theorem Expression.ne_nil {ts : List Located} {e : Expr} : Expression ts e → ts ≠ []
  | .grouped h _ => h.ne_nil

/-! ## From trees to words -/

theorem words_append (ts us : List Located) : words (ts ++ us) = words ts ++ words us :=
  List.map_append

theorem words_cons (t : Located) (ts : List Located) : words (t :: ts) = t.token :: words ts := rfl

theorem Brackets.written {ts : List Located} {k : Nat} (h : Brackets ts k) :
    Grammar.Brackets (words ts) := by
  induction h with
  | none => exact .none
  | pair _ ih => exact .pair ih

theorem TypeName.written {ts : List Located} {t : SmallJava.TypeName} :
    TypeName ts t → Grammar.TypeName (words ts)
  | .intro h => .intro h.written

theorem parameterList_written {ts : List Located} {ps : List SmallJava.Parameter}
    (h : Separated Parameter ts ps) : Grammar.ParameterList (words ts) (ps.map (·.name)) := by
  induction h with
  | one h =>
    cases h with
    | intro h => rw [words_append]; exact .one h.written
  | more h _ ih =>
    cases h with
    | intro h =>
      rw [words_append, words_append, List.append_assoc]
      exact .more h.written ih

theorem parameters_written {ts : List Located} {ps : List SmallJava.Parameter} :
    Listed Parameter ts ps → Grammar.Parameters (words ts) (ps.map (·.name))
  | .none => .none
  | .some h => .some (parameterList_written h)

theorem AccessWord.written {ts : List Located} {a : Access} :
    AccessWord ts a → Grammar.AccessWord (words ts)
  | .none => .none
  | .everyone => .everyone
  | .owner => .owner
  | .heirs => .heirs

theorem StaticWord.written {ts : List Located} {b : Bool} :
    StaticWord ts b → Grammar.StaticWord (words ts)
  | .none => .none
  | .static => .static

mutual

theorem Expression.written {ts : List Located} {e : Expr} :
    Expression ts e → Grammar.Expression (words ts)
  | .grouped h _ => h.written

theorem Groups.written {ts : List Located} {g : Grouping} :
    Groups ts g → Grammar.Expression (words ts)
  | .chain h => .chain h.written
  | .operation hl hr => by
    rw [words_append, words_cons]
    exact hl.written.join hr.written

theorem Chain.written {ts : List Located} {e : Expr} : Chain ts e → Grammar.Chain (words ts)
  | .primary h => .primary h.written
  | .access h => by
    rw [words_append]
    exact .access h.written
  | .call h ha => by
    rw [words_append, words_cons, words_append]
    exact .call h.written ha.written

theorem Arguments.written {ts : List Located} {es : List Expr} :
    Arguments ts es → Grammar.Arguments (words ts)
  | .none => .none
  | .some h => .some h.written

theorem ArgumentList.written {ts : List Located} {es : List Expr} :
    ArgumentList ts es → Grammar.ArgumentList (words ts)
  | .one h => .one h.written
  | .more h hs => by
    rw [words_append, words_cons]
    exact .more h.written hs.written

theorem Primary.written {ts : List Located} {e : Expr} : Primary ts e → Grammar.Primary (words ts)
  | .name => .name
  | .number => .number
  | .text => .text
  | .null => .null
  | .construction => .construction
  | .grouping h => by
    rw [words_cons, words_append]
    exact .grouping h.written

end

theorem Path.written {ts : List Located} {path : List Segment} :
    Path ts path → Grammar.Path (words ts)
  | .name => .name
  | .wildcard => .wildcard
  | .step h => .step h.written

theorem Initializer.written {ts : List Located} {v : Option Expr} :
    Initializer ts v → Grammar.Initializer (words ts)
  | .none => .none
  | .some h => .some h.written

mutual

theorem Statement.written {ts : List Located} {s : SmallJava.Statement} :
    Statement ts s → Grammar.Statement (words ts)
  | .importPath h => by
    rw [words_cons, words_append]
    exact .importPath h.written
  | .declareClass hw h => by
    rw [words_append, words_cons, words_cons, words_cons, words_append]
    exact .declareClass hw.written h.written
  | .declareVariable ht h => by
    rw [words_append, words_cons, words_append]
    exact .declareVariable ht.written h.written
  | .expression h => by
    rw [words_append]
    exact .expression h.written

theorem Methods.written {ts : List Located} {ms : List MethodDecl} :
    Methods ts ms → Grammar.Methods (words ts)
  | .nil => .nil
  | .cons h hs => by
    rw [words_append]
    exact .cons h.written hs.written

theorem Method.written {ts : List Located} {m : MethodDecl} : Method ts m → Grammar.Method (words ts)
  | .intro hw hs ht hp hd hb => by
    simp only [words_append, words_cons]
    exact .intro hw.written hs.written ht.written (parameters_written hp) hd hb.written

theorem Statements.written {ts : List Located} {ss : List SmallJava.Statement} :
    Statements ts ss → Grammar.Statements (words ts)
  | .nil => .nil
  | .cons h hs => by
    rw [words_append]
    exact .cons h.written hs.written

end

/-! ## From words to trees -/

theorem words_eq_append {toks : List Located} {ts us : List Token} (h : words toks = ts ++ us) :
    ∃ as bs, toks = as ++ bs ∧ words as = ts ∧ words bs = us := List.map_eq_append_iff.1 h

theorem words_eq_cons {toks : List Located} {t : Token} {ts : List Token}
    (h : words toks = t :: ts) : ∃ l us, toks = ⟨t, l⟩ :: us ∧ words us = ts := by
  obtain ⟨⟨_, l⟩, us, rfl, rfl, h'⟩ := List.map_eq_cons_iff.1 h
  exact ⟨l, us, rfl, h'⟩

theorem words_eq_nil {toks : List Located} (h : words toks = []) : toks = [] := List.map_eq_nil_iff.1 h

theorem words_eq_one {toks : List Located} {t : Token} (h : words toks = [t]) :
    ∃ l, toks = [⟨t, l⟩] := by
  obtain ⟨l, us, rfl, h'⟩ := words_eq_cons h
  rw [words_eq_nil h']
  exact ⟨l, rfl⟩

/-- One more sign and chain. -/
theorem Groups.snoc {ts us : List Located} {g : Grouping} {e : Expr} (sign : Sign) (l : Nat)
    (h : Groups ts g) (he : Chain us e) :
    Groups (ts ++ ⟨.symbol sign.symbol, l⟩ :: us) (g.snoc sign l e) := by
  induction g generalizing ts with
  | chain _ => exact .operation h (.chain he)
  | operation _ _ left right _ ih =>
    cases h with
    | operation hl hr =>
      rw [Grouping.snoc]
      split
      · -- the new sign goes into the right operand
        rw [List.append_assoc, List.cons_append]
        exact .operation hl (ih hr)
      · exact .operation (.operation hl hr) (.chain he)

theorem brackets_of_written {ts : List Token} (h : Grammar.Brackets ts) :
    ∀ {toks : List Located}, words toks = ts → ∃ k, Brackets toks k := by
  induction h with
  | none => intro toks hw; rw [words_eq_nil hw]; exact ⟨0, .none⟩
  | pair _ ih =>
    intro toks hw
    obtain ⟨l, us, rfl, hu⟩ := words_eq_cons hw
    obtain ⟨l', vs, rfl, hv⟩ := words_eq_cons hu
    obtain ⟨k, hk⟩ := ih hv
    exact ⟨k + 1, .pair hk⟩

theorem typeName_of_written {ts : List Token} (h : Grammar.TypeName ts) {toks : List Located}
    (hw : words toks = ts) : ∃ t, TypeName toks t := by
  cases h with
  | intro h =>
    obtain ⟨l, us, rfl, hu⟩ := words_eq_cons hw
    obtain ⟨k, hk⟩ := brackets_of_written h hu
    exact ⟨_, .intro hk⟩

theorem parameterList_of_written {ts : List Token} {ns : List String}
    (h : Grammar.ParameterList ts ns) : ∀ {toks : List Located}, words toks = ts →
      ∃ ps, Separated Parameter toks ps ∧ ps.map (·.name) = ns := by
  induction h with
  | @one ts n h =>
    intro toks hw
    obtain ⟨as, bs, rfl, ha, hb⟩ := words_eq_append hw
    obtain ⟨l, rfl⟩ := words_eq_one hb
    obtain ⟨t, ht⟩ := typeName_of_written h ha
    exact ⟨[⟨t, n⟩], .one (.intro ht), rfl⟩
  | @more ts us n ns h _ ih =>
    intro toks hw
    obtain ⟨as, bs, rfl, ha, hb⟩ := words_eq_append hw
    obtain ⟨l, cs, rfl, hc⟩ := words_eq_cons hb
    obtain ⟨l', ds, rfl, hd⟩ := words_eq_cons hc
    obtain ⟨t, ht⟩ := typeName_of_written h ha
    obtain ⟨ps, hps, rfl⟩ := ih hd
    refine ⟨⟨t, n⟩ :: ps, ?_, rfl⟩
    have hp : Parameter (as ++ [⟨.name n, l⟩]) ⟨t, n⟩ := .intro ht
    rw [show as ++ ⟨.name n, l⟩ :: ⟨.symbol .comma, l'⟩ :: ds =
      (as ++ [⟨.name n, l⟩]) ++ ⟨.symbol .comma, l'⟩ :: ds by simp]
    exact .more hp hps

theorem parameters_of_written {ts : List Token} {ns : List String} (h : Grammar.Parameters ts ns)
    {toks : List Located} (hw : words toks = ts) :
    ∃ ps, Listed Parameter toks ps ∧ ps.map (·.name) = ns := by
  cases h with
  | none => rw [words_eq_nil hw]; exact ⟨[], .none, rfl⟩
  | some h =>
    obtain ⟨ps, hps, hn⟩ := parameterList_of_written h hw
    exact ⟨ps, .some hps, hn⟩

theorem accessWord_of_written {ts : List Token} (h : Grammar.AccessWord ts) {toks : List Located}
    (hw : words toks = ts) : ∃ a, AccessWord toks a := by
  cases h with
  | none => rw [words_eq_nil hw]; exact ⟨_, .none⟩
  | everyone => obtain ⟨l, rfl⟩ := words_eq_one hw; exact ⟨_, .everyone⟩
  | owner => obtain ⟨l, rfl⟩ := words_eq_one hw; exact ⟨_, .owner⟩
  | heirs => obtain ⟨l, rfl⟩ := words_eq_one hw; exact ⟨_, .heirs⟩

theorem staticWord_of_written {ts : List Token} (h : Grammar.StaticWord ts) {toks : List Located}
    (hw : words toks = ts) : ∃ b, StaticWord toks b := by
  cases h with
  | none => rw [words_eq_nil hw]; exact ⟨_, .none⟩
  | static => obtain ⟨l, rfl⟩ := words_eq_one hw; exact ⟨_, .static⟩

mutual

theorem groups_of_written {ts : List Token} {toks : List Located} (hw : words toks = ts) :
    Grammar.Expression ts → ∃ g : Grouping, Groups toks g ∧ g.Documented
  | .chain h => by
    obtain ⟨e, he⟩ := chain_of_written hw h
    exact ⟨.chain e, .chain he, trivial⟩
  | .operation h hc => by
    obtain ⟨as, bs, rfl, ha, hb⟩ := words_eq_append hw
    obtain ⟨l, cs, rfl, hcs⟩ := words_eq_cons hb
    -- regroup what came before, from the left
    obtain ⟨g, hg, hd⟩ := groups_of_written ha h
    obtain ⟨e, he⟩ := chain_of_written hcs hc
    exact ⟨_, hg.snoc _ l he, Grouping.documented_snoc _ l e hd⟩

theorem chain_of_written {ts : List Token} {toks : List Located} (hw : words toks = ts) :
    Grammar.Chain ts → ∃ e, Chain toks e
  | .primary h => by
    obtain ⟨e, he⟩ := primary_of_written hw h
    exact ⟨e, .primary he⟩
  | .access h => by
    obtain ⟨as, bs, rfl, ha, hb⟩ := words_eq_append hw
    obtain ⟨l, cs, rfl, hc⟩ := words_eq_cons hb
    obtain ⟨l', rfl⟩ := words_eq_one hc
    obtain ⟨e, he⟩ := chain_of_written ha h
    exact ⟨_, .access he⟩
  | .call h hs => by
    obtain ⟨as, bs, rfl, ha, hb⟩ := words_eq_append hw
    obtain ⟨l, cs, rfl, hc⟩ := words_eq_cons hb
    obtain ⟨ds, fs, rfl, hd, hf⟩ := words_eq_append hc
    obtain ⟨l', rfl⟩ := words_eq_one hf
    obtain ⟨e, he⟩ := chain_of_written ha h
    obtain ⟨es, hes⟩ := arguments_of_written hd hs
    exact ⟨_, .call he hes⟩

theorem arguments_of_written {ts : List Token} {toks : List Located} (hw : words toks = ts) :
    Grammar.Arguments ts → ∃ es, Arguments toks es
  | .none => by rw [words_eq_nil hw]; exact ⟨[], .none⟩
  | .some h => by
    obtain ⟨es, hes⟩ := argumentList_of_written hw h
    exact ⟨es, .some hes⟩

theorem argumentList_of_written {ts : List Token} {toks : List Located} (hw : words toks = ts) :
    Grammar.ArgumentList ts → ∃ es, ArgumentList toks es
  | .one h => by
    obtain ⟨g, hg, hd⟩ := groups_of_written hw h
    exact ⟨_, .one (.grouped hg hd)⟩
  | .more h hs => by
    obtain ⟨as, bs, rfl, ha, hb⟩ := words_eq_append hw
    obtain ⟨l, cs, rfl, hc⟩ := words_eq_cons hb
    obtain ⟨g, hg, hd⟩ := groups_of_written ha h
    obtain ⟨es, hes⟩ := argumentList_of_written hc hs
    exact ⟨_, .more (.grouped hg hd) hes⟩

theorem primary_of_written {ts : List Token} {toks : List Located} (hw : words toks = ts) :
    Grammar.Primary ts → ∃ e, Primary toks e
  | .name => by obtain ⟨l, rfl⟩ := words_eq_one hw; exact ⟨_, .name⟩
  | .number => by obtain ⟨l, rfl⟩ := words_eq_one hw; exact ⟨_, .number⟩
  | .text => by obtain ⟨l, rfl⟩ := words_eq_one hw; exact ⟨_, .text⟩
  | .null => by obtain ⟨l, rfl⟩ := words_eq_one hw; exact ⟨_, .null⟩
  | .construction => by
    obtain ⟨l, us, rfl, hu⟩ := words_eq_cons hw
    obtain ⟨l', rfl⟩ := words_eq_one hu
    exact ⟨_, .construction⟩
  | .grouping h => by
    obtain ⟨l, us, rfl, hu⟩ := words_eq_cons hw
    obtain ⟨as, bs, rfl, ha, hb⟩ := words_eq_append hu
    obtain ⟨l', rfl⟩ := words_eq_one hb
    obtain ⟨g, hg, hd⟩ := groups_of_written ha h
    exact ⟨_, .grouping (.grouped hg hd)⟩

end

theorem expression_of_written {ts : List Token} {toks : List Located} (hw : words toks = ts)
    (h : Grammar.Expression ts) : ∃ e, Expression toks e := by
  obtain ⟨g, hg, hd⟩ := groups_of_written hw h
  exact ⟨_, .grouped hg hd⟩

theorem path_of_written {ts : List Token} (h : Grammar.Path ts) :
    ∀ {toks : List Located}, words toks = ts → ∃ path, Path toks path := by
  induction h with
  | name => intro toks hw; obtain ⟨l, rfl⟩ := words_eq_one hw; exact ⟨_, .name⟩
  | wildcard => intro toks hw; obtain ⟨l, rfl⟩ := words_eq_one hw; exact ⟨_, .wildcard⟩
  | step _ ih =>
    intro toks hw
    obtain ⟨l, us, rfl, hu⟩ := words_eq_cons hw
    obtain ⟨l', vs, rfl, hv⟩ := words_eq_cons hu
    obtain ⟨path, hp⟩ := ih hv
    exact ⟨_, .step hp⟩

theorem initializer_of_written {ts : List Token} (h : Grammar.Initializer ts)
    {toks : List Located} (hw : words toks = ts) : ∃ v, Initializer toks v := by
  cases h with
  | none => rw [words_eq_nil hw]; exact ⟨_, .none⟩
  | some h =>
    obtain ⟨l, us, rfl, hu⟩ := words_eq_cons hw
    obtain ⟨e, he⟩ := expression_of_written hu h
    exact ⟨_, .some he⟩

mutual

theorem statement_of_written {ts : List Token} {toks : List Located} (hw : words toks = ts) :
    Grammar.Statement ts → ∃ s, Statement toks s
  | .importPath h => by
    obtain ⟨l, us, rfl, hu⟩ := words_eq_cons hw
    obtain ⟨as, bs, rfl, ha, hb⟩ := words_eq_append hu
    obtain ⟨l', rfl⟩ := words_eq_one hb
    obtain ⟨path, hp⟩ := path_of_written h ha
    exact ⟨_, .importPath hp⟩
  | .declareClass hwd h => by
    obtain ⟨ws, bs, rfl, ha, hb⟩ := words_eq_append hw
    obtain ⟨l, cs, rfl, hc⟩ := words_eq_cons hb
    obtain ⟨l₁, ds, rfl, hd⟩ := words_eq_cons hc
    obtain ⟨l₂, fs, rfl, hf⟩ := words_eq_cons hd
    obtain ⟨gs, is, rfl, hg, hi⟩ := words_eq_append hf
    obtain ⟨l₃, rfl⟩ := words_eq_one hi
    obtain ⟨a, haw⟩ := accessWord_of_written hwd ha
    obtain ⟨ms, hms⟩ := methods_of_written hg h
    exact ⟨_, .declareClass haw hms⟩
  | .declareVariable ht h => by
    obtain ⟨as, bs, rfl, ha, hb⟩ := words_eq_append hw
    obtain ⟨l, cs, rfl, hc⟩ := words_eq_cons hb
    obtain ⟨ds, fs, rfl, hd, hf⟩ := words_eq_append hc
    obtain ⟨l', rfl⟩ := words_eq_one hf
    obtain ⟨t, ht⟩ := typeName_of_written ht ha
    obtain ⟨v, hv⟩ := initializer_of_written h hd
    exact ⟨_, .declareVariable ht hv⟩
  | .expression h => by
    obtain ⟨as, bs, rfl, ha, hb⟩ := words_eq_append hw
    obtain ⟨l, rfl⟩ := words_eq_one hb
    obtain ⟨e, he⟩ := expression_of_written ha h
    exact ⟨_, .expression he⟩

theorem methods_of_written {ts : List Token} {toks : List Located} (hw : words toks = ts) :
    Grammar.Methods ts → ∃ ms, Methods toks ms
  | .nil => by rw [words_eq_nil hw]; exact ⟨[], .nil⟩
  | .cons h hs => by
    obtain ⟨as, bs, rfl, ha, hb⟩ := words_eq_append hw
    obtain ⟨m, hm⟩ := method_of_written ha h
    obtain ⟨ms, hms⟩ := methods_of_written hb hs
    exact ⟨_, .cons hm hms⟩

theorem method_of_written {ts : List Token} {toks : List Located} (hw : words toks = ts) :
    Grammar.Method ts → ∃ m, Method toks m
  | .intro hwd hsw ht hps hn hbs => by
    obtain ⟨ws, as, rfl, h₁, hA⟩ := words_eq_append hw
    obtain ⟨ss, bs, rfl, h₂, hB⟩ := words_eq_append hA
    obtain ⟨ts, cs, rfl, h₃, hC⟩ := words_eq_append hB
    obtain ⟨l, ds, rfl, hD⟩ := words_eq_cons hC
    obtain ⟨l₁, es, rfl, hE⟩ := words_eq_cons hD
    obtain ⟨ps, fs, rfl, h₄, hF⟩ := words_eq_append hE
    obtain ⟨l₂, gs, rfl, hG⟩ := words_eq_cons hF
    obtain ⟨l₃, hs, rfl, hH⟩ := words_eq_cons hG
    obtain ⟨is, js, rfl, h₅, hJ⟩ := words_eq_append hH
    obtain ⟨l₄, rfl⟩ := words_eq_one hJ
    obtain ⟨a, ha⟩ := accessWord_of_written hwd h₁
    obtain ⟨b, hb⟩ := staticWord_of_written hsw h₂
    obtain ⟨t, ht⟩ := typeName_of_written ht h₃
    obtain ⟨params, hparams, rfl⟩ := parameters_of_written hps h₄
    obtain ⟨body, hbody⟩ := statements_of_written h₅ hbs
    exact ⟨_, .intro ha hb ht hparams hn hbody⟩

theorem statements_of_written {ts : List Token} {toks : List Located} (hw : words toks = ts) :
    Grammar.Statements ts → ∃ ss, Statements toks ss
  | .nil => by rw [words_eq_nil hw]; exact ⟨[], .nil⟩
  | .cons h hs => by
    obtain ⟨as, bs, rfl, ha, hb⟩ := words_eq_append hw
    obtain ⟨s, hs'⟩ := statement_of_written ha h
    obtain ⟨ss, hss⟩ := statements_of_written hb hs
    exact ⟨_, .cons hs' hss⟩

end

/-- Tokens have a tree exactly if the written grammar derives them. -/
theorem exists_root_iff {toks : List Located} :
    (∃ p, Root toks p) ↔ Grammar.Statements (words toks) := by
  constructor
  · rintro ⟨_, ⟨h⟩⟩
    exact h.written
  · intro h
    obtain ⟨ss, hss⟩ := statements_of_written rfl h
    exact ⟨_, .intro hss⟩

end SmallJava.Derivation
