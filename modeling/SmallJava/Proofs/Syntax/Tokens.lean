/-
The tokens of a printed program. Main statement: the text of a well-formed program spells them
(`Program.spells`); so what is printed can be scanned, and the scanner finds the tokens that the
printer meant.
-/
import SmallJava.Proofs.Syntax.Lines
import SmallJava.Proofs.Syntax.WellFormed
import SmallJava.Proofs.Token.Spelling

namespace SmallJava

/-! ## Expressions -/

/-- The token of a constant. -/
def Literal.token : Literal → Token
  | text s => .text s
  | number x => .number x
  | null => .keyword .nullKw

namespace Expr

/-- The tokens of an expression that is part of another one. -/
def nestedTokens (e : Expr) (ts : List Token) : List Token :=
  match e with
  | assign .. => .symbol .lparen :: (ts ++ [.symbol .rparen])
  | _ => ts

mutual

/-- The tokens of a printed expression. -/
def tokens : Expr → List Token
  | literal v _ => [v.token]
  | name n _ => [.name n]
  | assign target value _ => nestedTokens target target.tokens ++ .symbol .equals :: value.tokens
  | binary op left right _ =>
    .symbol .lparen :: (nestedTokens left left.tokens ++ .symbol op.symbol ::
      (nestedTokens right right.tokens ++ [.symbol .rparen]))
  | access parent member _ => nestedTokens parent parent.tokens ++ [.symbol .dot, .name member]
  | call callee arguments _ =>
    nestedTokens callee callee.tokens ++ .symbol .lparen ::
      (tokensOfArguments arguments ++ [.symbol .rparen])

/-- The tokens of printed arguments. -/
def tokensOfArguments : List Expr → List Token
  | [] => []
  | [e] => nestedTokens e e.tokens
  | e :: es => nestedTokens e e.tokens ++ .symbol .comma :: tokensOfArguments es

end

theorem tokensOfArguments_cons (e : Expr) {es : List Expr} (h : es ≠ []) :
    tokensOfArguments (e :: es) =
      nestedTokens e e.tokens ++ .symbol .comma :: tokensOfArguments es := by
  cases es with
  | nil => exact absurd rfl h
  | cons e' es => rw [tokensOfArguments]; exact fun h => by cases h

end Expr

/-! ## Statements -/

/-- The tokens of pairs of brackets. -/
def tokensOfBrackets : Nat → List Token
  | 0 => []
  | k + 1 => .symbol .lbracket :: .symbol .rbracket :: tokensOfBrackets k

/-- The tokens of a printed type. -/
def TypeName.tokens (t : TypeName) : List Token := .name t.name :: tokensOfBrackets t.dimensions

/-- The token of a word of access, if there is one. -/
def Access.tokens : Access → List Token
  | everyone => [.keyword .publicKw]
  | owner => [.keyword .privateKw]
  | heirs => [.keyword .protectedKw]
  | package => []

/-- The tokens of a printed parameter. -/
def Parameter.tokens (p : Parameter) : List Token := p.type.tokens ++ [.name p.name]

/-- The tokens of printed parameters. -/
def tokensOfParameters : List Parameter → List Token
  | [] => []
  | [p] => p.tokens
  | p :: ps => p.tokens ++ .symbol .comma :: tokensOfParameters ps

/-- The token that makes a method static, if it is. -/
def tokensOfStatic (isStatic : Bool) : List Token := if isStatic then [.keyword .staticKw] else []

/-- The tokens of a printed signature. -/
def Signature.tokens (s : Signature) : List Token :=
  s.access.tokens ++ (tokensOfStatic s.isStatic ++ (s.returnType.tokens ++ .name s.name ::
    .symbol .lparen :: (tokensOfParameters s.params ++ [.symbol .rparen])))

/-- The token of a step of a path. -/
def Segment.token : Segment → Token
  | name n => .name n
  | wildcard => .symbol .star

/-- The tokens of a printed path. -/
def tokensOfPath : List Segment → List Token
  | [] => []
  | [s] => [s.token]
  | s :: path => s.token :: .symbol .dot :: tokensOfPath path

/-- The tokens of a first value, if one is given. -/
def tokensOfInitializer : Option Expr → List Token
  | none => []
  | some e => .symbol .equals :: e.tokens

mutual

/-- The tokens of a printed statement. -/
def Statement.tokens : Statement → List Token
  | .importPath path _ => .keyword .importKw :: (tokensOfPath path ++ [.symbol .semicolon])
  | .declareClass n methods _ =>
    .keyword .classKw :: .name n :: .symbol .lbrace ::
      (tokensOfMethods methods ++ [.symbol .rbrace])
  | .expression value _ => value.tokens ++ [.symbol .semicolon]
  | .declareVariable type n value _ =>
    type.tokens ++ .name n :: (tokensOfInitializer value ++ [.symbol .semicolon])
  | .entry => []

/-- The tokens of a printed method. -/
def MethodDecl.tokens : MethodDecl → List Token
  | .mk signature body =>
    signature.tokens ++ .symbol .lbrace :: (tokensOfBody body ++ [.symbol .rbrace])

/-- The tokens of printed methods. -/
def tokensOfMethods : List MethodDecl → List Token
  | [] => []
  | m :: ms => m.tokens ++ tokensOfMethods ms

/-- The tokens of printed statements. -/
def tokensOfBody : List Statement → List Token
  | [] => []
  | s :: ss => s.tokens ++ tokensOfBody ss

end

/-! ## Ends inside a printed text -/

section Ends

open Token

variable {cs ds : List Char} {ts us : List Token}

/-- Texts that start with a character outside of words and numbers. -/
theorem ends_cons {c : Char} (hc : Piece.isNameRest c = false) (hd : c ≠ '.') (ds : List Char) :
    ∀ rest, Ends rest → Ends (c :: ds ++ rest) := fun rest _ => Ends.cons hc hd (ds ++ rest)

/-- Texts that start with a point and no digit. -/
theorem ends_dot {c : Char} (hc : c.isDigit = false) (ds : List Char) :
    ∀ rest, Ends rest → Ends ('.' :: c :: ds ++ rest) := by
  intro rest _ c' cs h
  cases h
  exact ⟨rfl, fun _ d ds' hd => by cases hd; exact hc⟩

/-- A name that starts a text does not start with a digit. -/
theorem IsName.head {n : String} (h : IsName n) (ds : List Char) :
    ∃ c cs, n.toList ++ ds = c :: cs ∧ c.isDigit = false := by
  obtain ⟨c, cs, hn, hc, -⟩ := h.letters
  exact ⟨c, cs ++ ds, by rw [hn, List.cons_append], isDigit_of_isNameStart hc⟩

namespace Spells

theorem name {n : String} (hn : IsName n) (hd : ∀ rest, Ends rest → Ends (ds ++ rest))
    (h : Spells ds us) : Spells (n.toList ++ ds) (.name n :: us) :=
  Spells.word (t := .name n) hn (fun _ h => by cases h) hd h

theorem keyword (k : Keyword) (h : Spells ds us) :
    Spells (k.spelling.toList ++ ' ' :: ds) (.keyword k :: us) :=
  Spells.word (t := .keyword k) trivial (fun _ h => by cases h) (ends_cons rfl (by decide) ds)
    h.blank

/-- A name after a point. -/
theorem member {n : String} (hn : IsName n) (h : Spells cs ts) :
    Spells (cs ++ '.' :: n.toList) (ts ++ [.symbol .dot, .name n]) := by
  have hname : Spells n.toList [.name n] := Spells.single (t := .name n) hn fun _ h => h
  refine h.append (hname.symbol (s := .dot) (by decide)) ?_
  obtain ⟨c, cs', hcs, hc⟩ := hn.head []
  rw [List.append_nil] at hcs
  rw [hcs]
  exact ends_dot hc cs'

end Spells

end Ends

/-! ## Texts of expressions -/

theorem Operator.sign_toList (op : Operator) : op.sign.toList = [op.symbol.char] := by
  cases op <;> rfl

theorem Literal.spells {v : Literal} (hv : v.WellFormed) : Spells v.source.toList [v.token] := by
  cases v with
  | text s =>
    rw [Literal.source, String.toList_ofList]
    exact Spells.single (t := .text s) trivial fun _ _ => trivial
  | number x => exact Spells.single (t := .number x) hv fun _ h => h
  | null => exact Spells.single (t := .keyword .nullKw) trivial fun _ h => h

namespace Expr

theorem nested_spells {e : Expr} (h : Spells e.source.toList e.tokens) :
    Spells (nested e e.source).toList (nestedTokens e e.tokens) := by
  cases e with
  | assign target value l =>
    have htext : (nested (assign target value l) (assign target value l).source).toList =
        '(' :: ((assign target value l).source.toList ++ [')']) := by
      simp [nested]
    rw [htext]
    exact Spells.symbol (s := .lparen) (by decide)
      (h.append (Spells.nil.symbol (s := .rparen) (by decide)) (ends_cons rfl (by decide) []))
  | _ => exact h

/-- An operator between blanks. -/
theorem operator_spells (op : Operator) {ds : List Char} {us : List Token} (h : Spells ds us) :
    Spells (' ' :: op.symbol.char :: ' ' :: ds) (.symbol op.symbol :: us) := by
  refine (Spells.token (t := .symbol op.symbol) trivial (fun rest _ => ?_) h.blank).blank
  cases op <;> first | trivial | exact fun c cs hc => by cases hc; decide

mutual

theorem spells : ∀ e : Expr, e.WellFormed → Spells e.source.toList e.tokens
  | literal v _, h => by
    rw [source, tokens]
    exact Literal.spells h
  | name n _, h => by
    rw [source, tokens]
    exact Spells.single (t := .name n) h fun _ h => h
  | assign target value l, h => by
    have htext : (assign target value l).source.toList =
        (nested target target.source).toList ++ ' ' :: '=' :: ' ' :: value.source.toList := by
      simp [source]
    rw [htext, tokens]
    exact (nested_spells (spells target h.1)).append
      ((spells value h.2).blank.symbol (s := .equals) (by decide)).blank
      (ends_cons rfl (by decide) _)
  | binary op left right l, h => by
    have htext : (binary op left right l).source.toList =
        '(' :: ((nested left left.source).toList ++ ' ' :: op.symbol.char :: ' ' ::
          ((nested right right.source).toList ++ [')'])) := by
      simp [source, op.sign_toList]
    -- from the right: each text must spell before what comes after it
    have hright := (nested_spells (spells right h.2)).append
      (Spells.nil.symbol (s := .rparen) (by decide)) (ends_cons rfl (by decide) [])
    rw [htext, tokens]
    exact Spells.symbol (s := .lparen) (by decide) ((nested_spells (spells left h.1)).append
      (operator_spells op hright) (ends_cons rfl (by decide) _))
  | access parent member l, h => by
    have htext : (access parent member l).source.toList =
        (nested parent parent.source).toList ++ '.' :: member.toList := by
      simp [source]
    rw [htext, tokens]
    exact (nested_spells (spells parent h.1)).member h.2
  | call callee arguments l, h => by
    have htext : (call callee arguments l).source.toList =
        (nested callee callee.source).toList ++ '(' ::
          ((sourceOfArguments arguments).toList ++ [')']) := by
      simp [source]
    have harguments := (spells_arguments arguments h.2).append
      (Spells.nil.symbol (s := .rparen) (by decide)) (ends_cons rfl (by decide) [])
    rw [htext, tokens]
    exact (nested_spells (spells callee h.1)).append
      (harguments.symbol (s := .lparen) (by decide)) (ends_cons rfl (by decide) _)

theorem spells_arguments : ∀ es : List Expr, WellFormedArguments es →
    Spells (sourceOfArguments es).toList (tokensOfArguments es)
  | [], _ => Spells.nil
  | [e], h => by
    rw [sourceOfArguments, tokensOfArguments]
    exact nested_spells (spells e h.1)
  | e :: e' :: es, h => by
    have htext : (sourceOfArguments (e :: e' :: es)).toList =
        (nested e e.source).toList ++ ',' :: ' ' :: (sourceOfArguments (e' :: es)).toList := by
      rw [sourceOfArguments_cons _ (by simp)]
      simp
    rw [htext, tokensOfArguments_cons _ (by simp)]
    exact (nested_spells (spells e h.1)).append
      ((spells_arguments (e' :: es) h.2).blank.symbol (s := .comma) (by decide))
      (ends_cons rfl (by decide) _)

end

end Expr

/-! ## Texts of paths and types -/

theorem sourceOfPath_cons (s : Segment) {path : List Segment} (h : path ≠ []) :
    sourceOfPath (s :: path) = s.source ++ "." ++ sourceOfPath path := by
  rw [sourceOfPath, List.map_cons, String.intercalate_cons_of_ne_nil (by simpa using h), sourceOfPath]

theorem tokensOfPath_cons (s : Segment) {path : List Segment} (h : path ≠ []) :
    tokensOfPath (s :: path) = s.token :: .symbol .dot :: tokensOfPath path := by
  cases path with
  | nil => exact absurd rfl h
  | cons s' path => rw [tokensOfPath]; exact fun h => by cases h

theorem path_head {path : List Segment} (h : WellFormedPath path) :
    ∃ c cs, (sourceOfPath path).toList = c :: cs ∧ c.isDigit = false := by
  match path, h with
  | [.name n], h =>
    obtain ⟨c, cs, hcs, hc⟩ := IsName.head h []
    exact ⟨c, cs, by rw [← hcs, List.append_nil]; simp [sourceOfPath, Segment.source], hc⟩
  | [.wildcard], _ => exact ⟨'*', [], by simp [sourceOfPath, Segment.source], rfl⟩
  | .name n :: s :: path, h =>
    obtain ⟨c, cs, hcs, hc⟩ := IsName.head h.1 ('.' :: (sourceOfPath (s :: path)).toList)
    refine ⟨c, cs, ?_, hc⟩
    rw [sourceOfPath_cons _ (by simp), ← hcs]
    simp [Segment.source]

theorem spells_path : ∀ path : List Segment, WellFormedPath path →
    Spells (sourceOfPath path).toList (tokensOfPath path)
  | [.name n], h => by
    have htext : (sourceOfPath [.name n]).toList = n.toList := by simp [sourceOfPath, Segment.source]
    rw [htext]
    exact Spells.single (t := .name n) h fun _ h => h
  | [.wildcard], _ => by
    have htext : (sourceOfPath [.wildcard]).toList = ['*'] := by simp [sourceOfPath, Segment.source]
    rw [htext]
    exact Spells.nil.symbol (s := .star) (by decide)
  | .name n :: s :: path, h => by
    have htext : (sourceOfPath (.name n :: s :: path)).toList =
        n.toList ++ '.' :: (sourceOfPath (s :: path)).toList := by
      rw [sourceOfPath_cons _ (by simp)]
      simp [Segment.source]
    have hrest := spells_path (s :: path) h.2
    obtain ⟨c, cs, hcs, hc⟩ := path_head h.2
    rw [htext, tokensOfPath_cons _ (by simp)]
    refine (hrest.symbol (s := .dot) (by decide)).name h.1 ?_
    rw [hcs]
    exact ends_dot hc cs

theorem spells_brackets {ds : List Char} {us : List Token} (h : Spells ds us) : ∀ k : Nat,
    Spells ((String.join (List.replicate k "[]")).toList ++ ds) (tokensOfBrackets k ++ us)
  | 0 => by simpa [tokensOfBrackets] using h
  | k + 1 => by
    have htext : (String.join (List.replicate (k + 1) "[]")).toList ++ ds =
        '[' :: ']' :: ((String.join (List.replicate k "[]")).toList ++ ds) := by
      rw [List.replicate_succ, String.join_cons]
      simp
    rw [htext]
    exact ((spells_brackets h k).symbol (s := .rbracket) (by decide)).symbol (s := .lbracket)
      (by decide)

/-- A type and the blank after it. -/
theorem TypeName.spells {t : TypeName} (ht : IsName t.name) {ds : List Char} {us : List Token}
    (h : Spells ds us) : Spells (t.source.toList ++ ' ' :: ds) (t.tokens ++ us) := by
  have htext : t.source.toList ++ ' ' :: ds =
      t.name.toList ++ ((String.join (List.replicate t.dimensions "[]")).toList ++ ' ' :: ds) := by
    rw [TypeName.source, String.toList_append, List.append_assoc]
  rw [htext]
  refine (spells_brackets h.blank t.dimensions).name ht ?_
  cases t.dimensions with
  | zero => simpa using ends_cons rfl (by decide) ds
  | succ k =>
    intro rest _
    rw [List.replicate_succ, String.join_cons, String.toList_append]
    exact Token.Ends.cons (c := '[') rfl (by decide) _

theorem Parameter.spells {p : Parameter} (hp : p.WellFormed) : Spells p.source.toList p.tokens := by
  have htext : p.source.toList = p.type.source.toList ++ ' ' :: p.name.toList := by
    simp [Parameter.source]
  rw [htext]
  exact TypeName.spells hp.1 (Spells.single (t := .name p.name) hp.2 fun _ h => h)

theorem tokensOfParameters_cons (p : Parameter) {ps : List Parameter} (h : ps ≠ []) :
    tokensOfParameters (p :: ps) = p.tokens ++ .symbol .comma :: tokensOfParameters ps := by
  cases ps with
  | nil => exact absurd rfl h
  | cons p' ps => rw [tokensOfParameters]; exact fun h => by cases h

theorem spells_parameters : ∀ ps : List Parameter, (∀ p ∈ ps, p.WellFormed) →
    Spells (String.intercalate ", " (ps.map (·.source))).toList (tokensOfParameters ps)
  | [], _ => by simpa [tokensOfParameters] using Spells.nil
  | [p], h => by simpa [tokensOfParameters] using Parameter.spells (h p (by simp))
  | p :: p' :: ps, h => by
    have htext : (String.intercalate ", " ((p :: p' :: ps).map (·.source))).toList =
        p.source.toList ++ ',' :: ' ' ::
          (String.intercalate ", " ((p' :: ps).map (·.source))).toList := by
      rw [List.map_cons, String.intercalate_cons_of_ne_nil (by simp)]
      simp
    have hrest := spells_parameters (p' :: ps) fun q hq => h q (List.mem_cons_of_mem _ hq)
    rw [htext, tokensOfParameters_cons _ (by simp)]
    exact (Parameter.spells (h p (by simp))).append
      (hrest.blank.symbol (s := .comma) (by decide)) (ends_cons rfl (by decide) _)

/-! ## Texts of statements -/

theorem Access.spells (a : Access) {ds : List Char} {us : List Token} (h : Spells ds us) :
    Spells (a.source.toList ++ ds) (a.tokens ++ us) := by
  cases a with
  | everyone => exact h.keyword .publicKw
  | owner => exact h.keyword .privateKw
  | heirs => exact h.keyword .protectedKw
  | package => exact h

theorem spells_static (isStatic : Bool) {ds : List Char} {us : List Token} (h : Spells ds us) :
    Spells ((if isStatic then "static " else "").toList ++ ds) (tokensOfStatic isStatic ++ us) := by
  cases isStatic with
  | true => exact h.keyword .staticKw
  | false => exact h

theorem Signature.spells {s : Signature} (hs : s.WellFormed) : Spells s.source.toList s.tokens := by
  have htext : s.source.toList = s.access.source.toList ++
      ((if s.isStatic then "static " else "").toList ++ (s.returnType.source.toList ++ ' ' ::
        (s.name.toList ++ '(' ::
          ((String.intercalate ", " (s.params.map (·.source))).toList ++ [')'])))) := by
    simp [Signature.source]
  have hparams := (spells_parameters s.params hs.params).append
    (Spells.nil.symbol (s := .rparen) (by decide)) (ends_cons rfl (by decide) [])
  rw [htext]
  exact s.access.spells (spells_static s.isStatic (TypeName.spells hs.type
    ((hparams.symbol (s := .lparen) (by decide)).name hs.name (ends_cons rfl (by decide) _))))

/-- A block between braces, on lines of its own. -/
theorem spells_block {ds : List Char} {us : List Token} (h : Spells ds us) :
    Spells (' ' :: '{' :: '\n' :: (ds ++ ['}']))
      (.symbol .lbrace :: (us ++ [.symbol .rbrace])) :=
  ((h.append (Spells.nil.symbol (s := .rbrace) (by decide))
    (ends_cons rfl (by decide) [])).lineFeed.symbol (s := .lbrace) (by decide)).blank

/-- Something and a semicolon. -/
theorem spells_semicolon {ds : List Char} {us : List Token} (h : Spells ds us) :
    Spells (ds ++ [';']) (us ++ [.symbol .semicolon]) :=
  h.append (Spells.nil.symbol (s := .semicolon) (by decide)) (ends_cons rfl (by decide) [])

mutual

theorem Statement.spells : ∀ s : Statement, s.WellFormed → Spells s.source.toList s.tokens
  | .importPath path l, h => by
    have htext : (Statement.importPath path l).source.toList =
        Keyword.importKw.spelling.toList ++ ' ' :: ((sourceOfPath path).toList ++ [';']) := by
      simp [Statement.source, Keyword.spelling]
    rw [htext, Statement.tokens]
    exact (spells_semicolon (spells_path path h)).keyword .importKw
  | .declareClass n methods l, h => by
    have htext : (Statement.declareClass n methods l).source.toList =
        Keyword.classKw.spelling.toList ++ ' ' ::
          (n.toList ++ ' ' :: '{' :: '\n' :: ((sourceOfMethods methods).toList ++ ['}'])) := by
      simp [Statement.source, Keyword.spelling]
    rw [htext, Statement.tokens]
    exact ((spells_block (spells_methods methods h.2)).name h.1
      (ends_cons rfl (by decide) _)).keyword .classKw
  | .expression value l, h => by
    have htext : (Statement.expression value l).source.toList = value.source.toList ++ [';'] := by
      simp [Statement.source]
    rw [htext, Statement.tokens]
    exact spells_semicolon (value.spells h)
  | .declareVariable type n none l, h => by
    have htext : (Statement.declareVariable type n none l).source.toList =
        type.source.toList ++ ' ' :: (n.toList ++ [';']) := by
      simp [Statement.source]
    rw [htext, Statement.tokens]
    exact TypeName.spells h.1 ((Spells.nil.symbol (s := .semicolon) (by decide)).name h.2.1
      (ends_cons rfl (by decide) []))
  | .declareVariable type n (some value) l, h => by
    have htext : (Statement.declareVariable type n (some value) l).source.toList =
        type.source.toList ++ ' ' ::
          (n.toList ++ ' ' :: '=' :: ' ' :: (value.source.toList ++ [';'])) := by
      simp [Statement.source]
    rw [htext, Statement.tokens]
    exact TypeName.spells h.1 (((spells_semicolon (value.spells (h.2.2 value rfl))).blank.symbol
      (s := .equals) (by decide)).blank.name h.2.1 (ends_cons rfl (by decide) _))
  | .entry, h => absurd h id

theorem MethodDecl.spells : ∀ m : MethodDecl, m.WellFormed → Spells m.source.toList m.tokens
  | .mk signature body, h => by
    have htext : (MethodDecl.mk signature body).source.toList =
        signature.source.toList ++ ' ' :: '{' :: '\n' :: ((sourceOfBody body).toList ++ ['}']) := by
      simp [MethodDecl.source]
    rw [htext, MethodDecl.tokens]
    exact (Signature.spells h.1).append (spells_block (spells_body body h.2)) (ends_cons rfl (by decide) _)

theorem spells_methods : ∀ ms : List MethodDecl, WellFormedMethods ms →
    Spells (sourceOfMethods ms).toList (tokensOfMethods ms)
  | [], _ => Spells.nil
  | m :: ms, h => by
    have htext : (sourceOfMethods (m :: ms)).toList =
        m.source.toList ++ '\n' :: (sourceOfMethods ms).toList := by
      simp [sourceOfMethods]
    rw [htext, tokensOfMethods]
    exact (m.spells h.1).append (spells_methods ms h.2).lineFeed (ends_cons rfl (by decide) _)

theorem spells_body : ∀ ss : List Statement, WellFormedBody ss →
    Spells (sourceOfBody ss).toList (tokensOfBody ss)
  | [], _ => Spells.nil
  | s :: ss, h => by
    have htext : (sourceOfBody (s :: ss)).toList =
        s.source.toList ++ '\n' :: (sourceOfBody ss).toList := by
      simp [sourceOfBody]
    rw [htext, tokensOfBody]
    exact (s.spells h.1).append (spells_body ss h.2).lineFeed (ends_cons rfl (by decide) _)

end

/-! ## Texts of programs -/

theorem filter_isEntry {body : List Statement} (h : WellFormedBody body) :
    (body ++ [Statement.entry]).filter (!·.isEntry) = body := by
  induction body with
  | nil => rfl
  | cons s ss ih =>
    have hs : s.isEntry = false := by
      cases s with
      | entry => exact absurd h.1 id
      | _ => rfl
    rw [List.cons_append, List.filter_cons, hs, ih h.2]
    rfl

/-- A printed program spells the tokens of the statements before its start. -/
theorem Program.spells {body : List Statement} (h : WellFormedBody body) :
    Spells (Program.mk (body ++ [.entry])).source.toList (tokensOfBody body) := by
  rw [Program.source, filter_isEntry h]
  exact spells_body body h

end SmallJava
