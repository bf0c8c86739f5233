/-
The round trip through text. Whatever lines the tokens of a printed program stand on, they have a
tree, which is that of the program up to lines: a printed expression inside another one is a chain,
since operations and assignments have parentheses there. Main statement: `source_round_trip`.
-/
import SmallJava.Interpreter
import SmallJava.Proofs.Parser.Language
import SmallJava.Proofs.Syntax.Tokens

namespace SmallJava

/-! ## Erased trees -/

/-- The statements of a body without their lines. -/
def erasedBody (ss : List Statement) : List Statement := mapLinesOfBody (fun _ => 0) ss

/-- The methods of a class without their lines. -/
def erasedMethods (ms : List MethodDecl) : List MethodDecl := mapLinesOfMethods (fun _ => 0) ms

/-- The arguments of a call without their lines. -/
def Expr.erasedArguments (es : List Expr) : List Expr := mapLinesOfArguments (fun _ => 0) es

namespace Derivation

/-! ## Expressions -/

/-- A tree for printed tokens: a chain, unless the expression is an assignment. -/
def HasGroups (ts : List Located) (e : Expr) : Prop :=
  ∃ g, Groups ts g ∧ g.Documented ∧ g.expr.erased = e.erased ∧
    ((∀ target value l, e ≠ .assign target value l) → ∃ e', g = .chain e')

theorem hasGroups_of_chain {ts : List Located} {e e' : Expr} (h : Chain ts e')
    (he : e'.erased = e.erased) : HasGroups ts e :=
  ⟨.chain e', .chain h, trivial, he, fun _ => ⟨e', rfl⟩⟩

theorem hasGroups_of_primary {ts : List Located} {e e' : Expr} (h : Primary ts e')
    (he : e'.erased = e.erased) : HasGroups ts e := hasGroups_of_chain (.primary h) he

/-- Inside another expression the tree is a chain. -/
theorem chain_of_nested {e : Expr} (h : ∀ {ts}, words ts = e.tokens → HasGroups ts e)
    {ts : List Located} (hw : words ts = Expr.nestedTokens e e.tokens) :
    ∃ e', Chain ts e' ∧ e'.erased = e.erased := by
  by_cases ha : ∃ target value l, e = .assign target value l
  · -- an assignment stands in parentheses, which make it a primary
    obtain ⟨target, value, l, rfl⟩ := ha
    obtain ⟨l₁, us, rfl, hu⟩ := words_eq_cons hw
    obtain ⟨vs, bs, rfl, hv, hb⟩ := words_eq_append hu
    obtain ⟨l₂, rfl⟩ := words_eq_one hb
    obtain ⟨g, hg, hd, he, -⟩ := h hv
    exact ⟨g.expr, .primary (.grouping (.grouped hg hd)), he⟩
  · have hne : ∀ target value l, e ≠ .assign target value l := fun t v l he => ha ⟨t, v, l, he⟩
    have hnested : Expr.nestedTokens e e.tokens = e.tokens := by
      cases e with
      | assign target value l => exact absurd rfl (hne target value l)
      | _ => rfl
    rw [hnested] at hw
    obtain ⟨g, hg, -, he, hc⟩ := h hw
    obtain ⟨e', rfl⟩ := hc hne
    cases hg with
    | chain hg => exact ⟨e', hg, he⟩

theorem arguments_of_list {es : List Expr} (h : ∀ {ts}, es ≠ [] →
      words ts = Expr.tokensOfArguments es →
        ∃ es', ArgumentList ts es' ∧ Expr.erasedArguments es' = Expr.erasedArguments es)
    {ts : List Located} (hw : words ts = Expr.tokensOfArguments es) :
    ∃ es', Arguments ts es' ∧ Expr.erasedArguments es' = Expr.erasedArguments es := by
  cases es with
  | nil =>
    rw [words_eq_nil hw]
    exact ⟨[], .none, rfl⟩
  | cons e es =>
    obtain ⟨es', hes, he⟩ := h (by simp) hw
    exact ⟨es', .some hes, he⟩

mutual

theorem groups_of_tokens : ∀ (e : Expr) {ts : List Located}, words ts = e.tokens → HasGroups ts e
  | .literal v l, ts, hw => by
    rw [Expr.tokens] at hw
    obtain ⟨l', rfl⟩ := words_eq_one hw
    cases v with
    | text s => exact hasGroups_of_primary .text rfl
    | number x => exact hasGroups_of_primary .number rfl
    | null => exact hasGroups_of_primary .null rfl
  | .name n l, ts, hw => by
    rw [Expr.tokens] at hw
    obtain ⟨l', rfl⟩ := words_eq_one hw
    exact hasGroups_of_primary .name rfl
  | .assign target value l, ts, hw => by
    rw [Expr.tokens] at hw
    obtain ⟨us, bs, rfl, hu, hb⟩ := words_eq_append hw
    obtain ⟨l', vs, rfl, hv⟩ := words_eq_cons hb
    obtain ⟨t, ht, hte⟩ := chain_of_nested (groups_of_tokens target) hu
    obtain ⟨g, hg, hd, hge, -⟩ := groups_of_tokens value hv
    -- the target is a chain and the value may end as it likes, so this grouping is the documented one
    have hgroups : Groups (us ++ ⟨.symbol Sign.assignment.symbol, l'⟩ :: vs)
        (.operation .assignment l' (.chain t) g) := .operation (.chain ht) hg
    refine ⟨_, hgroups,
      ⟨trivial, hd, rfl, fun _ => ⟨t, rfl⟩, fun h => (by cases h), fun h => absurd rfl h⟩, ?_,
      fun h => absurd rfl (h target value l)⟩
    show Expr.assign t.erased g.expr.erased 0 = Expr.assign target.erased value.erased 0
    rw [hte, hge]
  | .binary op left right l, ts, hw => by
    rw [Expr.tokens] at hw
    obtain ⟨l₁, us, rfl, hu⟩ := words_eq_cons hw
    obtain ⟨vs, bs, rfl, hv, hb⟩ := words_eq_append hu
    obtain ⟨l₂, cs, rfl, hc⟩ := words_eq_cons hb
    obtain ⟨xs, ds, rfl, hx, hds⟩ := words_eq_append hc
    obtain ⟨l₃, rfl⟩ := words_eq_one hds
    obtain ⟨a, ha, hae⟩ := chain_of_nested (groups_of_tokens left) hv
    obtain ⟨b, hb', hbe⟩ := chain_of_nested (groups_of_tokens right) hx
    -- both operands are chains, so any operator between them fits
    have hgroups : Groups (vs ++ ⟨.symbol (Sign.operator op).symbol, l₂⟩ :: xs)
        (.operation (.operator op) l₂ (.chain a) (.chain b)) := .operation (.chain ha) (.chain hb')
    have hexpr : Expression (vs ++ ⟨.symbol op.symbol, l₂⟩ :: xs) (.binary op a b l₂) :=
      .grouped hgroups ⟨trivial, trivial, Grouping.fits_chains _ a b⟩
    have hp : Primary (⟨.symbol .lparen, l₁⟩ ::
        (vs ++ ⟨.symbol op.symbol, l₂⟩ :: xs ++ [⟨.symbol .rparen, l₃⟩])) _ := .grouping hexpr
    rw [List.append_assoc] at hp
    refine hasGroups_of_primary hp ?_
    show Expr.binary op a.erased b.erased 0 = Expr.binary op left.erased right.erased 0
    rw [hae, hbe]
  | .access parent member l, ts, hw => by
    rw [Expr.tokens] at hw
    obtain ⟨us, bs, rfl, hu, hb⟩ := words_eq_append hw
    obtain ⟨l₁, cs, rfl, hc⟩ := words_eq_cons hb
    obtain ⟨l₂, rfl⟩ := words_eq_one hc
    obtain ⟨a, ha, hae⟩ := chain_of_nested (groups_of_tokens parent) hu
    refine hasGroups_of_chain (.access ha) ?_
    show Expr.access a.erased member 0 = Expr.access parent.erased member 0
    rw [hae]
  | .call callee arguments l, ts, hw => by
    rw [Expr.tokens] at hw
    obtain ⟨us, bs, rfl, hu, hb⟩ := words_eq_append hw
    obtain ⟨l₁, cs, rfl, hc⟩ := words_eq_cons hb
    obtain ⟨vs, ds, rfl, hv, hds⟩ := words_eq_append hc
    obtain ⟨l₂, rfl⟩ := words_eq_one hds
    obtain ⟨a, ha, hae⟩ := chain_of_nested (groups_of_tokens callee) hu
    obtain ⟨es, hes, hese⟩ := arguments_of_list (argumentList_of_tokens arguments) hv
    refine hasGroups_of_chain (.call ha hes) ?_
    show Expr.call a.erased (Expr.erasedArguments es) 0 =
      Expr.call callee.erased (Expr.erasedArguments arguments) 0
    rw [hae, hese]

theorem argumentList_of_tokens : ∀ (es : List Expr) {ts : List Located}, es ≠ [] →
    words ts = Expr.tokensOfArguments es →
      ∃ es', ArgumentList ts es' ∧ Expr.erasedArguments es' = Expr.erasedArguments es
  | [], _, h, _ => absurd rfl h
  | [e], ts, _, hw => by
    rw [Expr.tokensOfArguments] at hw
    obtain ⟨a, ha, hae⟩ := chain_of_nested (groups_of_tokens e) hw
    refine ⟨[a], .one (.grouped (.chain ha) trivial), ?_⟩
    show [a.erased] = [e.erased]
    rw [hae]
  | e :: e' :: es, ts, _, hw => by
    rw [Expr.tokensOfArguments_cons _ (by simp)] at hw
    obtain ⟨us, bs, rfl, hu, hb⟩ := words_eq_append hw
    obtain ⟨l, vs, rfl, hv⟩ := words_eq_cons hb
    obtain ⟨a, ha, hae⟩ := chain_of_nested (groups_of_tokens e) hu
    obtain ⟨es', hes, hese⟩ := argumentList_of_tokens (e' :: es) (by simp) hv
    refine ⟨a :: es', .more (.grouped (.chain ha) trivial) hes, ?_⟩
    show a.erased :: Expr.erasedArguments es' = e.erased :: Expr.erasedArguments (e' :: es)
    rw [hae, hese]

end

/-- Printed tokens of an expression have it for their tree, up to lines. -/
theorem expression_of_tokens (e : Expr) {ts : List Located} (hw : words ts = e.tokens) :
    ∃ e', Expression ts e' ∧ e'.erased = e.erased := by
  obtain ⟨g, hg, hd, he, -⟩ := groups_of_tokens e hw
  exact ⟨g.expr, .grouped hg hd, he⟩

/-! ## Types, parameters and paths -/

theorem brackets_of_tokens : ∀ (k : Nat) {ts : List Located}, words ts = tokensOfBrackets k →
    Brackets ts k
  | 0, ts, hw => by
    rw [words_eq_nil hw]
    exact .none
  | k + 1, ts, hw => by
    obtain ⟨l, us, rfl, hu⟩ := words_eq_cons hw
    obtain ⟨l', vs, rfl, hv⟩ := words_eq_cons hu
    exact .pair (brackets_of_tokens k hv)

theorem typeName_of_tokens (t : SmallJava.TypeName) {ts : List Located}
    (hw : words ts = t.tokens) : TypeName ts t := by
  obtain ⟨l, us, rfl, hu⟩ := words_eq_cons hw
  exact .intro (brackets_of_tokens t.dimensions hu)

theorem parameter_of_tokens (p : SmallJava.Parameter) {ts : List Located}
    (hw : words ts = p.tokens) : Parameter ts p := by
  obtain ⟨us, bs, rfl, hu, hb⟩ := words_eq_append hw
  obtain ⟨l, rfl⟩ := words_eq_one hb
  exact .intro (typeName_of_tokens p.type hu)

theorem separated_of_tokens : ∀ (ps : List SmallJava.Parameter) {ts : List Located}, ps ≠ [] →
    words ts = tokensOfParameters ps → Separated Parameter ts ps
  | [], _, h, _ => absurd rfl h
  | [p], ts, _, hw => .one (parameter_of_tokens p hw)
  | p :: p' :: ps, ts, _, hw => by
    rw [tokensOfParameters_cons _ (by simp)] at hw
    obtain ⟨us, bs, rfl, hu, hb⟩ := words_eq_append hw
    obtain ⟨l, vs, rfl, hv⟩ := words_eq_cons hb
    exact .more (parameter_of_tokens p hu) (separated_of_tokens (p' :: ps) (by simp) hv)

theorem parameters_of_tokens (ps : List SmallJava.Parameter) {ts : List Located}
    (hw : words ts = tokensOfParameters ps) : Listed Parameter ts ps := by
  cases ps with
  | nil =>
    rw [words_eq_nil hw]
    exact .none
  | cons p ps => exact .some (separated_of_tokens (p :: ps) (by simp) hw)

theorem accessWord_of_tokens (a : Access) {ts : List Located} (hw : words ts = a.tokens) :
    AccessWord ts a := by
  cases a with
  | everyone => obtain ⟨l, rfl⟩ := words_eq_one hw; exact .everyone
  | owner => obtain ⟨l, rfl⟩ := words_eq_one hw; exact .owner
  | heirs => obtain ⟨l, rfl⟩ := words_eq_one hw; exact .heirs
  | package => rw [words_eq_nil hw]; exact .none

theorem staticWord_of_tokens (b : Bool) {ts : List Located} (hw : words ts = tokensOfStatic b) :
    StaticWord ts b := by
  cases b with
  | true => obtain ⟨l, rfl⟩ := words_eq_one hw; exact .static
  | false => rw [words_eq_nil hw]; exact .none

theorem path_of_tokens : ∀ (path : List Segment) {ts : List Located}, WellFormedPath path →
    words ts = tokensOfPath path → Path ts path
  | [.name n], ts, _, hw => by obtain ⟨l, rfl⟩ := words_eq_one hw; exact .name
  | [.wildcard], ts, _, hw => by obtain ⟨l, rfl⟩ := words_eq_one hw; exact .wildcard
  | .name n :: s :: path, ts, h, hw => by
    rw [tokensOfPath_cons _ (by simp)] at hw
    obtain ⟨l, us, rfl, hu⟩ := words_eq_cons hw
    obtain ⟨l', vs, rfl, hv⟩ := words_eq_cons hu
    exact .step (path_of_tokens (s :: path) h.2 hv)

/-! ## Statements -/

mutual

theorem statement_of_tokens : ∀ (s : SmallJava.Statement) {ts : List Located}, s.WellFormed →
    words ts = s.tokens →
      ∃ s', Statement ts s' ∧ s'.mapLines (fun _ => 0) = s.mapLines fun _ => 0
  | .importPath path l, ts, h, hw => by
    rw [Statement.tokens] at hw
    obtain ⟨l₁, us, rfl, hu⟩ := words_eq_cons hw
    obtain ⟨vs, bs, rfl, hv, hb⟩ := words_eq_append hu
    obtain ⟨l₂, rfl⟩ := words_eq_one hb
    exact ⟨_, .importPath (path_of_tokens path h hv), rfl⟩
  | .declareClass n methods l, ts, h, hw => by
    rw [Statement.tokens] at hw
    obtain ⟨l₁, us, rfl, hu⟩ := words_eq_cons hw
    obtain ⟨l₂, vs, rfl, hv⟩ := words_eq_cons hu
    obtain ⟨l₃, xs, rfl, hx⟩ := words_eq_cons hv
    obtain ⟨ys, bs, rfl, hy, hb⟩ := words_eq_append hx
    obtain ⟨l₄, rfl⟩ := words_eq_one hb
    obtain ⟨ms, hms, he⟩ := methods_of_tokens methods h.2 hy
    have hclass : Statement ([] ++ ⟨.keyword .classKw, l₁⟩ :: ⟨.name n, l₂⟩ ::
        ⟨.symbol .lbrace, l₃⟩ :: (ys ++ [⟨.symbol .rbrace, l₄⟩])) (.declareClass n ms l₁) :=
      .declareClass .none hms
    refine ⟨_, hclass, ?_⟩
    show SmallJava.Statement.declareClass n (erasedMethods ms) 0 =
      .declareClass n (erasedMethods methods) 0
    rw [he]
  | .expression value l, ts, h, hw => by
    rw [Statement.tokens] at hw
    obtain ⟨us, bs, rfl, hu, hb⟩ := words_eq_append hw
    obtain ⟨l', rfl⟩ := words_eq_one hb
    obtain ⟨e, he, hee⟩ := expression_of_tokens value hu
    refine ⟨_, .expression he, ?_⟩
    show SmallJava.Statement.expression e.erased 0 = .expression value.erased 0
    rw [hee]
  | .declareVariable type n none l, ts, h, hw => by
    rw [Statement.tokens] at hw
    obtain ⟨us, bs, rfl, hu, hb⟩ := words_eq_append hw
    obtain ⟨l₁, cs, rfl, hc⟩ := words_eq_cons hb
    obtain ⟨l₂, rfl⟩ := words_eq_one hc
    have hvariable : Statement (us ++ ⟨.name n, l₁⟩ :: ([] ++ [⟨.symbol .semicolon, l₂⟩])) _ :=
      .declareVariable (typeName_of_tokens type hu) .none
    exact ⟨_, hvariable, rfl⟩
  | .declareVariable type n (some value) l, ts, h, hw => by
    rw [Statement.tokens] at hw
    obtain ⟨us, bs, rfl, hu, hb⟩ := words_eq_append hw
    obtain ⟨l₁, cs, rfl, hc⟩ := words_eq_cons hb
    obtain ⟨vs, ds, rfl, hv, hd⟩ := words_eq_append hc
    obtain ⟨l₂, rfl⟩ := words_eq_one hd
    obtain ⟨l₃, xs, rfl, hx⟩ := words_eq_cons hv
    obtain ⟨e, he, hee⟩ := expression_of_tokens value hx
    refine ⟨_, .declareVariable (typeName_of_tokens type hu) (.some he), ?_⟩
    show SmallJava.Statement.declareVariable type n (some e.erased) 0 =
      .declareVariable type n (some value.erased) 0
    rw [hee]
  | .entry, _, h, _ => absurd h id

theorem methods_of_tokens : ∀ (ms : List MethodDecl) {ts : List Located}, WellFormedMethods ms →
    words ts = tokensOfMethods ms → ∃ ms', Methods ts ms' ∧ erasedMethods ms' = erasedMethods ms
  | [], ts, _, hw => by
    rw [words_eq_nil hw]
    exact ⟨[], .nil, rfl⟩
  | m :: ms, ts, h, hw => by
    rw [tokensOfMethods] at hw
    obtain ⟨us, vs, rfl, hu, hv⟩ := words_eq_append hw
    obtain ⟨m', hm, he⟩ := method_of_tokens m h.1 hu
    obtain ⟨ms', hms, hes⟩ := methods_of_tokens ms h.2 hv
    refine ⟨m' :: ms', .cons hm hms, ?_⟩
    show m'.mapLines (fun _ => 0) :: erasedMethods ms' =
      m.mapLines (fun _ => 0) :: erasedMethods ms
    rw [he, hes]

theorem method_of_tokens : ∀ (m : MethodDecl) {ts : List Located}, m.WellFormed →
    words ts = m.tokens →
      ∃ m', Method ts m' ∧ m'.mapLines (fun _ => 0) = m.mapLines fun _ => 0
  | .mk s body, ts, h, hw => by
    rw [MethodDecl.tokens, Signature.tokens] at hw
    simp only [List.append_assoc, List.cons_append, List.nil_append] at hw
    obtain ⟨ws, as, rfl, h₁, hA⟩ := words_eq_append hw
    obtain ⟨ss, bs, rfl, h₂, hB⟩ := words_eq_append hA
    obtain ⟨us, cs, rfl, h₃, hC⟩ := words_eq_append hB
    obtain ⟨l, ds, rfl, hD⟩ := words_eq_cons hC
    obtain ⟨l₁, es, rfl, hE⟩ := words_eq_cons hD
    obtain ⟨ps, fs, rfl, h₄, hF⟩ := words_eq_append hE
    obtain ⟨l₂, gs, rfl, hG⟩ := words_eq_cons hF
    obtain ⟨l₃, hs, rfl, hH⟩ := words_eq_cons hG
    obtain ⟨is, js, rfl, h₅, hJ⟩ := words_eq_append hH
    obtain ⟨l₄, rfl⟩ := words_eq_one hJ
    obtain ⟨body', hbody, he⟩ := statements_of_tokens body h.2 h₅
    refine ⟨_, .intro (accessWord_of_tokens s.access h₁) (staticWord_of_tokens s.isStatic h₂)
      (typeName_of_tokens s.returnType h₃) (parameters_of_tokens s.params h₄) h.1.distinct hbody, ?_⟩
    show MethodDecl.mk ⟨s.access, s.isStatic, s.returnType, s.name, s.params, 0⟩ (erasedBody body') =
      .mk ⟨s.access, s.isStatic, s.returnType, s.name, s.params, 0⟩ (erasedBody body)
    rw [he]

theorem statements_of_tokens : ∀ (ss : List SmallJava.Statement) {ts : List Located},
    WellFormedBody ss → words ts = tokensOfBody ss →
      ∃ ss', Statements ts ss' ∧ erasedBody ss' = erasedBody ss
  | [], ts, _, hw => by
    rw [words_eq_nil hw]
    exact ⟨[], .nil, rfl⟩
  | s :: ss, ts, h, hw => by
    rw [tokensOfBody] at hw
    obtain ⟨us, vs, rfl, hu, hv⟩ := words_eq_append hw
    obtain ⟨s', hs, he⟩ := statement_of_tokens s h.1 hu
    obtain ⟨ss', hss, hes⟩ := statements_of_tokens ss h.2 hv
    refine ⟨s' :: ss', .cons hs hss, ?_⟩
    show s'.mapLines (fun _ => 0) :: erasedBody ss' = s.mapLines (fun _ => 0) :: erasedBody ss
    rw [he, hes]

end

end Derivation

/-! ## Programs -/

namespace Program

theorem ofSource_eq_ok {source : String} {p : Program} (h : ofSource source = .ok p) :
    ∃ toks, Token.tokenize source = .ok toks ∧ Derivation.Root toks p := by
  unfold ofSource Parser.ofSource at h
  split at h
  · cases h
  · rename_i toks htoks
    split at h
    · rename_i q rest hq
      cases h
      exact ⟨toks, htoks, (Parser.program_sound hq).2⟩
    · cases h

theorem ofSource_of_root {source : String} {toks : List Located} {p : Program}
    (ht : Token.tokenize source = .ok toks) (hr : Derivation.Root toks p) :
    ofSource source = .ok p := by
  unfold ofSource Parser.ofSource
  rw [ht]
  simp only [Parser.program_complete hr]

/-- What source text is read as is well formed. -/
theorem wellFormed_of_ofSource {source : String} {p : Program} (h : ofSource source = .ok p) :
    p.WellFormed := by
  obtain ⟨toks, ht, hr⟩ := ofSource_eq_ok h
  exact Derivation.root_wellFormed (Token.tokenize_lexical ht) hr

/-- A printed program is read as the same one up to lines. -/
theorem ofSource_source {p : Program} (h : p.WellFormed) :
    ∃ q, ofSource p.source = .ok q ∧ q.erased = p.erased := by
  obtain ⟨body, hbody, hwf⟩ := h
  obtain ⟨statements⟩ := p
  dsimp only at hbody
  subst hbody
  obtain ⟨toks, ht, hw⟩ := (Program.spells hwf).tokenize
  obtain ⟨ss, hss, he⟩ := Derivation.statements_of_tokens body hwf hw
  refine ⟨_, ofSource_of_root ht (.intro hss), ?_⟩
  show Program.mk (erasedBody (ss ++ [.entry])) = Program.mk (erasedBody (body ++ [.entry]))
  simp only [erasedBody, mapLinesOfBody_eq_map, List.map_append] at *
  rw [he]

end Program

/-- Reading a source text and printing it gives a text that is read as the same program up to
lines, and printed as itself. -/
theorem source_round_trip {source : String} {p : Program} (h : Program.ofSource source = .ok p) :
    ∃ q, Program.ofSource p.source = .ok q ∧ q.erased = p.erased ∧ q.source = p.source := by
  obtain ⟨q, hq, he⟩ := Program.ofSource_source (Program.wellFormed_of_ofSource h)
  exact ⟨q, hq, he, Program.source_eq_of_erased he⟩

theorem source_round_trip_nested_assignment :
    ∃ p q, Program.ofSource "s = \"n\" + x = f(y, new C);" = .ok p ∧
      p.source = "s = (\"n\" + (x = f(y, C)));\n" ∧
      Program.ofSource p.source = .ok q ∧ q.erased = p.erased ∧ q.source = p.source := by
  have h : (Program.ofSource "s = \"n\" + x = f(y, new C);").toOption.map Program.source =
      some "s = (\"n\" + (x = f(y, C)));\n" := by decide +kernel
  cases hp : Program.ofSource "s = \"n\" + x = f(y, new C);" with
  | error e => rw [hp] at h; cases h
  | ok p =>
    rw [hp] at h
    obtain ⟨q, hq⟩ := source_round_trip hp
    exact ⟨p, q, rfl, Option.some.inj h, hq⟩

end SmallJava
