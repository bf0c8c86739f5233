/-
The written grammar with one rule less: parameters of a method may have one name. By it a list of
tokens is judged to begin a program or not, since repeated names are found only after the list of
parameters that has them.
-/
import SmallJava.Proofs.Grammar.Written

namespace SmallJava.Grammar.Loose

/-! ## Statements -/

/-- `access? 'static'? type NAME '(' parameters ')'` -/
inductive Head : List Token → Prop
  | intro {ws ss ts ps : List Token} {n : String} {ns : List String} : AccessWord ws →
      StaticWord ss → TypeName ts → Parameters ps ns →
      Head (ws ++ (ss ++ (ts ++ .name n :: .symbol .lparen :: (ps ++ [.symbol .rparen]))))

mutual

/-- `statement := import | class | declaration | expression ';'` -/
inductive Statement : List Token → Prop
  | importPath {ts : List Token} : Path ts →
      Statement (.keyword .importKw :: (ts ++ [.symbol .semicolon]))
  | declareClass {ws ts : List Token} {n : String} : AccessWord ws → Methods ts →
      Statement (ws ++ .keyword .classKw :: .name n :: .symbol .lbrace :: (ts ++ [.symbol .rbrace]))
  | declareVariable {ts us : List Token} {n : String} : TypeName ts → Initializer us →
      Statement (ts ++ .name n :: (us ++ [.symbol .semicolon]))
  | expression {ts : List Token} : Expression ts → Statement (ts ++ [.symbol .semicolon])

/-- `method*` -/
inductive Methods : List Token → Prop
  | nil : Methods []
  | cons {ts us : List Token} : Method ts → Methods us → Methods (ts ++ us)

/-- `method := access? 'static'? type NAME '(' parameters ')' '{' statement* '}'` -/
inductive Method : List Token → Prop
  | intro {hs bs : List Token} : Head hs → Statements bs →
      Method (hs ++ .symbol .lbrace :: (bs ++ [.symbol .rbrace]))

/-- `root := statement*` -/
inductive Statements : List Token → Prop
  | nil : Statements []
  | cons {ts us : List Token} : Statement ts → Statements us → Statements (ts ++ us)

end

/-! ## From the written grammar -/

mutual

theorem statement_of_written {ts : List Token} : Grammar.Statement ts → Statement ts
  | .importPath h => .importPath h
  | .declareClass hw h => .declareClass hw (methods_of_written h)
  | .declareVariable ht h => .declareVariable ht h
  | .expression h => .expression h

theorem methods_of_written {ts : List Token} : Grammar.Methods ts → Methods ts
  | .nil => .nil
  | .cons h hs => .cons (method_of_written h) (methods_of_written hs)

theorem method_of_written {ts : List Token} : Grammar.Method ts → Method ts
  | .intro hw hs ht hp _ hb => by
    simpa using Method.intro (.intro hw hs ht hp) (statements_of_written hb)

theorem statements_of_written {ts : List Token} : Grammar.Statements ts → Statements ts
  | .nil => .nil
  | .cons h hs => .cons (statement_of_written h) (statements_of_written hs)

end

/-! ## Beginnings -/

/-- The tokens begin a program. -/
def Begins (ts : List Token) : Prop := ∃ us, Statements (ts ++ us)

/-- The tokens that follow the first name of a declaration. -/
def FollowsTypeName (t : Token) : Prop := (∃ n, t = .name n) ∨ t = .symbol .lbracket

/-- The tokens end in a name where a statement may start, and the next one makes that statement a
declaration. Whether a statement may start is judged by the lists that it can be completed to. -/
def StartsDeclaration (L : List Token → Prop) (ts : List Token) (next : Token) : Prop :=
  ∃ front n, ts = front ++ [.name n] ∧ FollowsTypeName next ∧
    ∀ s, Statement s → ∃ us, L (front ++ (s ++ us))

/-- A name and what follows it are the start of a declaration. -/
theorem statement_of_followsTypeName (n : String) {next : Token} (h : FollowsTypeName next) :
    ∃ us, Statement (.name n :: next :: us) := by
  obtain ⟨m, rfl⟩ | rfl := h
  · have ht : TypeName [.name n] := .intro .none
    exact ⟨_, .declareVariable (n := m) ht .none⟩
  · have ht : TypeName [.name n, .symbol .lbracket, .symbol .rbracket] := .intro (.pair .none)
    exact ⟨_, .declareVariable (n := n) ht .none⟩

/-- Such tokens and the next one can be completed. -/
theorem StartsDeclaration.completed {L : List Token → Prop} {ts : List Token} {next : Token} :
    StartsDeclaration L ts next → ∃ us, L ((ts ++ [next]) ++ us)
  | ⟨front, n, hts, hf, hL⟩ => by
    obtain ⟨vs, hs⟩ := statement_of_followsTypeName n hf
    obtain ⟨us, hus⟩ := hL _ hs
    refine ⟨vs ++ us, ?_⟩
    rw [hts]
    simpa using hus

theorem StartsDeclaration.mono {L M : List Token → Prop} {ts : List Token} {next : Token}
    (hLM : ∀ us, L us → ∃ vs, M (us ++ vs)) :
    StartsDeclaration L ts next → StartsDeclaration M ts next
  | ⟨front, n, hts, hf, hL⟩ => by
    refine ⟨front, n, hts, hf, fun s hs => ?_⟩
    obtain ⟨us, hus⟩ := hL s hs
    obtain ⟨vs, hvs⟩ := hLM _ hus
    exact ⟨us ++ vs, by simpa using hvs⟩

/-- More tokens in front change nothing. -/
theorem StartsDeclaration.after {L : List Token → Prop} {front ts : List Token} {next : Token} :
    StartsDeclaration (fun us => L (front ++ us)) ts next →
      StartsDeclaration L (front ++ ts) next
  | ⟨mid, n, hts, hf, hL⟩ => by
    refine ⟨front ++ mid, n, by rw [hts, List.append_assoc], hf, fun s hs => ?_⟩
    obtain ⟨us, hus⟩ := hL s hs
    exact ⟨us, by rwa [List.append_assoc]⟩

end SmallJava.Grammar.Loose
