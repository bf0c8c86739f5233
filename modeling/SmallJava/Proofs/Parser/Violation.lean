/-
The violations that the parser of programs reports. Main statement: `program_refuses`, the tokens in
front of the reported one begin a program and do so no more with it, unless it is the second token of
a declaration.

The failures of statements are refusals as those of expressions are, up to forgotten declarations.
Completions of the tokens with the reported one are excluded by reading them: what the grammar
without distinct parameters derives is read or refused for a repeated parameter (`program_admits`),
while the parser fails on it as before.
-/
import SmallJava.Proofs.Parser.Append
import SmallJava.Proofs.Parser.Refusal

namespace SmallJava.Parser

open Derivation (words words_append words_cons)
open Grammar.Loose (FollowsTypeName StartsDeclaration Begins)

variable {toks mid : List Located}

/-! ## Types and parameters -/

theorem refuses_bracketsAll : ∀ N : Nat, Refuses N Grammar.Brackets bracketsAll
  | 0 => refuses_zero _ _
  | N + 1 => by
    intro toks ht
    obtain ⟨l, rest, rfl⟩ | hne := next_cases (.symbol .lbracket) toks
    · refine .cons ?_ (bracketsAll_lbracket l)
      refine .expect_bind ⟨_, .pair .none⟩ fun l' mid hmid => ?_
      subst hmid
      rw [List.length_cons, List.length_cons] at ht
      have hpairs := refuses_bracketsAll N mid (by omega)
      exact (hpairs.imp fun us => .pair).map
    · exact .of_ok (bracketsAll_of_ne hne)

theorem bracketsAll_stops : ∀ (N : Nat) {toks mid : List Located} {k : Nat}, toks.length < N →
    bracketsAll toks = .ok k mid → ∀ l ts, mid ≠ ⟨.symbol .lbracket, l⟩ :: ts
  | 0, _, _, _, ht, _ => absurd ht (Nat.not_lt_zero _)
  | N + 1, toks, mid, k, ht, h => by
    obtain ⟨l, rest, rfl⟩ | hne := next_cases (.symbol .lbracket) toks
    · rw [bracketsAll_lbracket] at h
      obtain ⟨l', mid', hl, h'⟩ := bind_eq_ok h
      obtain ⟨j, hj, -⟩ := map_eq_ok h'
      rw [expect_eq_ok hl, List.length_cons, List.length_cons] at ht
      exact bracketsAll_stops N (by omega) hj
    · rw [bracketsAll_of_ne hne] at h
      cases h
      exact hne

theorem typeName_refusesAt : RefusesAt Grammar.TypeName typeName toks := by
  rw [typeName_eq]
  refine .nameAs_bind ⟨[.name ""], .intro .none⟩ fun n l mid _ => ?_
  have hpairs := refuses_bracketsAll _ mid (Nat.lt_succ_self _)
  exact (hpairs.imp fun us => .intro).map

theorem typeName_settles : Settles Grammar.TypeName typeName := by
  intro toks t mid h
  obtain ⟨used, hused, hu⟩ := typeName_sound h
  rw [typeName_eq] at h
  obtain ⟨n, mid₁, -, h₁⟩ := bind_eq_ok h
  obtain ⟨k, mid₂, hk, h₂⟩ := bind_eq_ok h₁
  cases h₂
  have hstop := bracketsAll_stops _ (Nat.lt_succ_self _) hk
  exact ⟨used, hused, fun us hus => typeName_complete hu (ne_cons_of_head hus hstop), hu.written⟩

/-- `type NAME` -/
def ParameterOf (ts : List Token) : Prop := ∃ us n, Grammar.TypeName us ∧ ts = us ++ [.name n]

theorem parameter_refusesAt : RefusesAt ParameterOf parameter toks :=
  .bind typeName_settles (typeName_refusesAt.mono fun us hus => ⟨[.name ""], us, "", hus, rfl⟩)
    fun _ _ _ _ _ hu => .nameAs_bind ⟨_, _, "", hu, rfl⟩ fun _ _ _ _ => .of_ok rfl

theorem parameter_settles : Settles ParameterOf parameter := by
  intro toks p mid h
  obtain ⟨used, hused, hu⟩ := parameter_sound h
  refine ⟨used, hused, fun us _ => parameter_complete hu us, ?_⟩
  cases hu with
  | intro ht => exact ⟨_, _, ht.written, words_append ..⟩

/-- `(type NAME (',' type NAME)*)?` -/
def ParametersOf (ts : List Token) : Prop := ∃ ns, Grammar.Parameters ts ns

theorem parameters_refusesAt :
    RefusesAt (ClosedBy .rparen ParametersOf) (list parameter .rparen) toks := by
  have hlist : Refuses (toks.length + 1) (ClosedBy .rparen fun ts =>
      ∃ ns, Grammar.ParameterList ts ns) (list parameter .rparen) := by
    refine refuses_list (fun _ => agree_parameter) (by decide) parameter_settles
      ⟨_, _, "", .intro (n := "") .none, rfl⟩ ?_ ?_ fun _ _ => parameter_refusesAt
    · rintro _ ⟨us, n, hus, rfl⟩
      exact ⟨_, ⟨_, .one hus⟩, rfl⟩
    · rintro _ _ ⟨us, n, hus, rfl⟩ ⟨vs, ⟨ns, hvs⟩, rfl⟩
      exact ⟨_, ⟨_, .more (n := n) hus hvs⟩, by simp⟩
  exact (hlist toks (Nat.lt_succ_self _)).imp fun us ⟨vs, ⟨ns, hvs⟩, hus⟩ =>
    ⟨vs, ⟨ns, .some hvs⟩, hus⟩

theorem parameters_settles : Settles (ClosedBy .rparen ParametersOf) (list parameter .rparen) := by
  intro toks ps mid h
  obtain ⟨used, l, rfl, hu⟩ := list_sound (fun toks p rest (_ : toks.length < _) hp =>
    parameter_sound hp) (Nat.lt_succ_self _) h
  refine ⟨used ++ [⟨.symbol .rparen, l⟩], by simp, fun us _ => ?_, _,
    ⟨_, Derivation.parameters_written hu⟩, words_append ..⟩
  rw [List.append_assoc]
  exact parameters_complete hu l us

/-! ## Imports -/

theorem refuses_segmentsAll : ∀ N : Nat, Refuses N Grammar.Path segmentsAll
  | 0 => refuses_zero _ _
  | N + 1 => by
    intro toks ht
    obtain ⟨l, ts, rfl⟩ | ⟨n, l, l', ts, rfl⟩ | ⟨n, l, ts, rfl, hd⟩ | ⟨hn, hs⟩ := path_cases toks
    · exact .of_ok (segments_star _ l ts)
    · rw [List.length_cons, List.length_cons] at ht
      have hsteps := refuses_segmentsAll N ts (by omega)
      exact .after [_, _] (hsteps.imp fun us => .step).map fun us _ => segmentsAll_step n l l' us
    · exact .of_ok (segments_last _ n l hd)
    · exact .here _ ⟨_, .wildcard⟩ fun us hus =>
        segments_failAt _ (fun n => ne_cons_of_head hus (hn n)) (ne_cons_of_head hus hs)

theorem segmentsAll_settles : Settles Grammar.Path segmentsAll
  | toks, path, mid, h => by
    obtain ⟨l, ts, rfl⟩ | ⟨n, l, l', ts, rfl⟩ | ⟨n, l, ts, rfl, hd⟩ | ⟨hn, hs⟩ := path_cases toks
    · rw [segmentsAll, segments_star] at h
      cases h
      exact ⟨[_], rfl, fun us _ => segments_star _ l us, .wildcard⟩
    · rw [segmentsAll_step] at h
      obtain ⟨path', hp, rfl⟩ := map_eq_ok h
      obtain ⟨used, rfl, hset, hu⟩ := segmentsAll_settles ts path' mid hp
      refine ⟨_ :: _ :: used, rfl, fun us hus => ?_, .step hu⟩
      rw [List.cons_append, List.cons_append, segmentsAll_step, map_apply, hset us hus]
    · rw [segmentsAll, segments_last _ _ _ hd] at h
      cases h
      exact ⟨[_], rfl, fun us hus => segments_last _ n l (ne_cons_of_head hus hd), .name⟩
    · rw [segmentsAll, segments_failAt _ hn hs] at h
      exact absurd h failAt_ne_ok
termination_by toks => toks.length

theorem importPath_refusesAt : RefusesAt Grammar.Loose.Statement importPath toks := by
  rw [importPath_eq]
  refine .expect_bind ⟨_, .importPath .wildcard⟩ fun l mid _ => ?_
  have hpath := refuses_segmentsAll _ mid (Nat.lt_succ_self _)
  exact .bind segmentsAll_settles (hpath.mono fun us hus => ⟨_, .importPath hus⟩)
    fun _ _ _ _ _ hu => .expect_bind ⟨_, .importPath hu⟩ fun _ _ _ => .of_ok rfl

/-! ## Declarations and expressions -/

theorem expressionStatement_refusesAt :
    RefusesAt Grammar.Loose.Statement expressionStatement toks :=
  .onLine fun _ => .bind expression_settles
    ((expression_refusesAt toks).mono fun _ hus => ⟨_, .expression hus⟩)
    fun _ _ _ _ _ hu => .expect_bind ⟨_, .expression hu⟩ fun _ _ _ => .of_ok rfl

/-- What would go on with a declaration is refused in an expression. -/
theorem expressionStatement_name (n : String) (l : Nat) {t : Located}
    (h : FollowsTypeName t.token) (us : List Located) :
    expressionStatement (⟨.name n, l⟩ :: t :: us) =
      .error (.unexpected (.token (.symbol .semicolon)) t.token t.line) (t :: us) := by
  have hstops : Stops 1 (t :: us) := by
    intro t' us' ht
    cases ht
    obtain ⟨m, hm⟩ | hm := h <;> rw [hm]
    · exact ⟨by simp, by simp, by simp, by simp⟩
    · exact ⟨by simp, by simp, by simp, fun op _ => by cases op <;> simp [Operator.symbol]⟩
  have hname : Derivation.Expression [⟨.name n, l⟩] (.name n l) :=
    .grouped (.chain (.primary .name)) trivial
  have he : expression (⟨.name n, l⟩ :: t :: us) = .ok (.name n l) (t :: us) :=
    expression_complete hname (t :: us) hstops
  have hne : t.token ≠ .symbol .semicolon := by
    obtain ⟨m, hm⟩ | hm := h <;> rw [hm] <;> simp
  unfold expressionStatement
  rw [onLine_apply, bind_of_ok he, symbol, bind_apply, expect, if_neg hne]
  rfl

/-- The failure of a declaration is forgotten, and the one that is reported stands in front of its
second token if it has one. -/
theorem simpleStatement_refusesAt : RefusesAt Grammar.Loose.Statement simpleStatement toks := by
  intro e rest he
  unfold simpleStatement at he
  split at he
  · cases he
  · obtain ⟨used, rfl, hd, hb, ha⟩ := expressionStatement_refusesAt e rest he
    refine ⟨used, rfl, hd, hb, ?_⟩
    rcases ha with ha | ha
    · by_cases hdecl : ∃ us s left, us.head? = rest.head? ∧ declaration (used ++ us) = .ok s left
      · -- a declaration with this second token is no expression
        obtain ⟨us, s, left, hus, hs⟩ := hdecl
        obtain ⟨n, l, t, vs, heq, ht⟩ := declaration_starts hs
        have herr := ha us hus
        rw [heq, expressionStatement_name n l ht] at herr
        cases herr
        have hused : used = [⟨.name n, l⟩] := List.append_cancel_right (by simpa using heq)
        obtain ⟨after, rfl⟩ := eq_cons_of_head hus.symm
        refine .inr ⟨t, after, rfl, [], n, by rw [hused]; rfl, ht, fun s hs => ⟨[], ?_⟩⟩
        simpa using hs
      · refine .inl fun us hus => ?_
        unfold simpleStatement
        split
        · rename_i s left hs
          exact absurd ⟨us, s, left, hus, hs⟩ hdecl
        · exact ha us hus
    · exact .inr ha

/-! ## Methods -/

theorem access_settles : Settles Grammar.AccessWord access := by
  intro toks a mid h
  have hcases : (∃ l, toks = ⟨.keyword .publicKw, l⟩ :: mid ∧ a = .everyone) ∨
      (∃ l, toks = ⟨.keyword .privateKw, l⟩ :: mid ∧ a = .owner) ∨
      (∃ l, toks = ⟨.keyword .protectedKw, l⟩ :: mid ∧ a = .heirs) ∨
      (toks = mid ∧ ∀ us, us.head? = mid.head? → access us = .ok a us) := by
    unfold access at h
    split at h <;> cases h
    · exact .inl ⟨_, rfl, rfl⟩
    · exact .inr (.inl ⟨_, rfl, rfl⟩)
    · exact .inr (.inr (.inl ⟨_, rfl, rfl⟩))
    · rename_i h₁ h₂ h₃
      refine .inr (.inr (.inr ⟨rfl, fun us hus => ?_⟩))
      unfold access
      split
      · exact absurd rfl (ne_cons_of_head hus h₁ _ _)
      · exact absurd rfl (ne_cons_of_head hus h₂ _ _)
      · exact absurd rfl (ne_cons_of_head hus h₃ _ _)
      · rfl
  obtain ⟨l, rfl, rfl⟩ | ⟨l, rfl, rfl⟩ | ⟨l, rfl, rfl⟩ | ⟨rfl, hset⟩ := hcases
  · exact ⟨[_], rfl, fun _ _ => rfl, .everyone⟩
  · exact ⟨[_], rfl, fun _ _ => rfl, .owner⟩
  · exact ⟨[_], rfl, fun _ _ => rfl, .heirs⟩
  · exact ⟨[], rfl, hset, .none⟩

theorem staticWord_settles : Settles Grammar.StaticWord staticWord := by
  intro toks b mid h
  obtain ⟨l, rest, rfl⟩ | hne := next_cases (.keyword .staticKw) toks
  · cases h
    exact ⟨[_], rfl, fun _ _ => rfl, .static⟩
  · have hset (us : List Located) (hus : us.head? = toks.head?) : staticWord us = .ok false us := by
      unfold staticWord
      split
      · exact absurd rfl (ne_cons_of_head hus hne _ _)
      · rfl
    rw [hset toks rfl] at h
    cases h
    exact ⟨[], rfl, hset, .none⟩

theorem access_refusesAt {L : List Token → Prop} : RefusesAt L access toks := by
  intro e rest he
  unfold access at he
  split at he <;> cases he

theorem staticWord_refusesAt {L : List Token → Prop} : RefusesAt L staticWord toks := by
  intro e rest he
  unfold staticWord at he
  split at he <;> cases he

theorem signature_refusesAt : RefusesAt Grammar.Loose.Head signature toks := by
  refine .onLine fun line => ?_
  refine .bind access_settles access_refusesAt fun ws a mid₁ _ _ hws => ?_
  refine .bind staticWord_settles staticWord_refusesAt fun ss isStatic mid₂ _ _ hss => ?_
  -- what has been read and the least that completes it
  have hhead {ts ps : List Token} (n : String) (ht : Grammar.TypeName ts) (hp : ParametersOf ps) :
      Grammar.Loose.Head (words ws ++ (words ss ++ (ts ++ .name n :: .symbol .lparen ::
        (ps ++ [.symbol .rparen])))) := by
    obtain ⟨ns, hp⟩ := hp
    exact .intro hws hss ht hp
  have hnone : ParametersOf [] := ⟨[], .none⟩
  refine .bind typeName_settles (typeName_refusesAt.mono fun us hus => ⟨_, hhead "" hus hnone⟩)
    fun ts t mid₃ _ _ hts => ?_
  refine .nameAs_bind ⟨_, hhead "" hts hnone⟩ fun n l mid₄ _ => ?_
  refine .expect_bind ⟨_, hhead n hts hnone⟩ fun l₁ mid₅ _ => ?_
  exact .bind parameters_settles
    (parameters_refusesAt.imp fun us ⟨ps, hps, hus⟩ => hus ▸ hhead n hts hps)
    fun _ _ _ _ _ _ => .of_ok rfl

theorem signature_settles : Settles Grammar.Loose.Head signature := by
  intro toks s mid h
  obtain ⟨ws, ss, ts, ps, l, l₁, l₂, rfl, hws, hss, hts, hps, hline⟩ := signature_sound h
  obtain ⟨a, isStatic, t, n, params, line⟩ := s
  cases hline
  refine ⟨ws ++ (ss ++ (ts ++ ⟨.name n, l⟩ :: ⟨.symbol .lparen, l₁⟩ ::
    (ps ++ [⟨.symbol .rparen, l₂⟩]))), by simp, fun us _ => ?_, ?_⟩
  · simp only [List.append_assoc, List.cons_append, List.nil_append]
    exact signature_complete hws hss hts hps n l l₁ l₂ us
  · simp only [words_append, words_cons]
    exact .intro hws.written hss.written hts.written (Derivation.parameters_written hps)

theorem distinctParameters_settles (s : Signature) : Settles (· = []) (distinctParameters s) := by
  intro toks u mid h
  obtain ⟨rfl, hnodup⟩ := distinctParameters_eq_ok h
  exact ⟨[], rfl, fun us _ => distinctParameters_of_nodup hnodup us, rfl⟩

theorem distinctParameters_refusesAt {L : List Token → Prop} (hL : ∃ us, L us) (s : Signature) :
    RefusesAt L (distinctParameters s) toks := by
  intro e rest he
  unfold distinctParameters at he
  split at he
  · rename_i name hname
    cases he
    refine ⟨[], rfl, trivial, hL, .inl fun us _ => ?_⟩
    unfold distinctParameters
    rw [List.nil_append, hname]
  · cases he

/-! ## Classes -/

theorem statement_settles : Settles Grammar.Loose.Statement statement := by
  intro toks s mid h
  obtain ⟨used, hused, hu⟩ := statement_sound h
  exact ⟨used, hused, fun us _ => statement_complete hu us,
    Grammar.Loose.statement_of_written hu.written⟩

theorem method_settles : Settles Grammar.Loose.Method method := by
  intro toks m mid h
  obtain ⟨used, hused, hu⟩ := methodOver_sound (statement_reads _) (Nat.lt_succ_self _) h
  exact ⟨used, hused, fun us _ => method_complete hu us,
    Grammar.Loose.method_of_written hu.written⟩

section Classes

variable {N : Nat}

theorem refuses_method (h : Refuses N Grammar.Loose.Statement statement) :
    Refuses N Grammar.Loose.Method method := by
  intro toks ht
  refine .bind signature_settles (signature_refusesAt.mono fun us hus => ⟨_, .intro hus .nil⟩) ?_
  rintro hs s mid rfl - hhead
  have hempty : ∃ us, Grammar.Loose.Method (words hs ++ us) := ⟨_, .intro hhead .nil⟩
  refine .bind (distinctParameters_settles s) (distinctParameters_refusesAt hempty s) ?_
  rintro none u mid rfl - hnone
  rw [hnone]
  refine .expect_bind hempty fun l mid₂ hmid => ?_
  subst hmid
  simp only [List.length_append, List.length_cons] at ht
  rw [blockOver_eq]
  have hblock := refuses_untilCloseAll (fun _ => statement_takes) (.token (.symbol .rbrace))
    statement_settles Grammar.Loose.Statements.nil (fun _ _ => .cons) h mid₂ (by omega)
  exact (hblock.imp fun us ⟨bs, hbs, hus⟩ => hus ▸ .intro hhead hbs).map

theorem refuses_classOver (h : Refuses N Grammar.Loose.Statement statement) :
    Refuses (N + 1) Grammar.Loose.Statement (classOver statement) := by
  intro toks ht
  rw [classOver_eq]
  refine .bind access_settles access_refusesAt ?_
  rintro ws a mid rfl - hws
  have hempty (n : String) := Grammar.Loose.Statement.declareClass (n := n) hws .nil
  refine .expect_bind ⟨_, hempty ""⟩ fun l mid₁ h₁ => ?_
  subst h₁
  refine .nameAs_bind ⟨_, hempty ""⟩ fun n l₁ mid₂ h₂ => ?_
  subst h₂
  refine .expect_bind ⟨_, hempty n⟩ fun l₂ mid₃ h₃ => ?_
  subst h₃
  simp only [List.length_append, List.length_cons] at ht
  have hmethods := refuses_untilCloseAll (fun _ => method_takes) .methodOrClose method_settles
    Grammar.Loose.Methods.nil (fun _ _ => .cons) (refuses_method h) mid₃ (by omega)
  exact (hmethods.imp fun us ⟨ms, hms, hus⟩ => hus ▸ .declareClass hws hms).map

end Classes

/-! ## Whole statements -/

/-- The first token tells which parser reads a statement. -/
theorem statementOver_cases (inner : Parser Statement) (t : Located) :
    (∀ rest, statementOver inner (t :: rest) = importPath (t :: rest)) ∨
    (∀ rest, statementOver inner (t :: rest) = classOver inner (t :: rest)) ∨
    ∀ rest, statementOver inner (t :: rest) = simpleStatement (t :: rest) := by
  unfold statementOver
  dsimp only
  split
  · exact .inl fun _ => rfl
  · exact .inr (.inl fun _ => rfl)
  · exact .inr (.inl fun _ => rfl)
  · exact .inr (.inl fun _ => rfl)
  · exact .inr (.inl fun _ => rfl)
  · exact .inr (.inr fun _ => rfl)

theorem refuses_statement : ∀ N : Nat, Refuses N Grammar.Loose.Statement statement
  | 0 => refuses_zero _ _
  | N + 1 => by
    intro toks ht
    rw [statement_eq]
    rcases toks with _ | ⟨t, rest⟩
    · exact .here .statement ⟨_, .importPath .wildcard⟩ fun us hus => by
        rw [eq_nil_of_head hus]
        rfl
    · obtain hq | hq | hq := statementOver_cases statement t
      · exact importPath_refusesAt.congr (eq_of_head hq)
      · exact (refuses_classOver (refuses_statement N) _ ht).congr (eq_of_head hq)
      · exact simpleStatement_refusesAt.congr (eq_of_head hq)

/-! ## Whole programs -/

theorem refuses_statementsAll : ∀ N : Nat, Refuses N Grammar.Loose.Statements statementsAll
  | 0 => refuses_zero _ _
  | N + 1 => by
    intro toks ht
    rcases toks with _ | ⟨t, rest⟩
    · exact .of_ok statementsAll_nil
    · have hone (us : List Token) (hus : Grammar.Loose.Statement us) :
          Grammar.Loose.Statements us := by
        simpa using Grammar.Loose.Statements.cons hus .nil
      refine .congr (q := statement >>= fun first => statementsAll >>= fun others =>
        pure (first :: others)) (.bind statement_settles ((refuses_statement _ _ ht).imp hone) ?_)
          (eq_of_head (statementsAll_cons t))
      intro used s mid _ hm hu
      have htakes := (statement_takes _ (Nat.lt_succ_self _)).2 _ _ hm
      have hothers := refuses_statementsAll N mid (by omega)
      exact (hothers.imp fun us => .cons hu).map

theorem program_refusesAt : RefusesAt Grammar.Loose.Statements program toks :=
  (refuses_statementsAll _ toks (Nat.lt_succ_self _)).map

/-! ## Repeated parameters

Tokens that the grammar derives but for a repeated parameter are refused for no other reason. -/

/-- The parser reads the tokens, or finds a parameter repeated in them. -/
def Admits {α : Type} (p : Parser α) (ts : List Located) : Prop :=
  ∀ rest, (∃ a, p (ts ++ rest) = .ok a rest) ∨
    ∃ name method line left, p (ts ++ rest) = .error (.duplicateParameter name method line) left

namespace Admits

variable {α β : Type} {p q : Parser α} {ts us : List Located}

theorem of_ok {a : α} (h : ∀ rest, p (ts ++ rest) = .ok a rest) : Admits p ts :=
  fun rest => .inl ⟨a, h rest⟩

theorem bind {f : α → Parser β} (hp : Admits p ts) (hf : ∀ a, Admits (f a) us) :
    Admits (p >>= f) (ts ++ us) := by
  intro rest
  rw [List.append_assoc, bind_apply]
  obtain ⟨a, ha⟩ | ⟨name, method, line, left, ha⟩ := hp (us ++ rest)
  · rw [ha]
    exact hf a rest
  · rw [ha]
    exact .inr ⟨name, method, line, left, rfl⟩

theorem map {f : α → β} (hp : Admits p ts) : Admits (f <$> p) ts := by
  intro rest
  rw [map_apply]
  obtain ⟨a, ha⟩ | ⟨name, method, line, left, ha⟩ := hp rest <;> rw [ha]
  · exact .inl ⟨f a, rfl⟩
  · exact .inr ⟨name, method, line, left, rfl⟩

theorem after (front : List Located) (hq : Admits q ts)
    (hp : ∀ rest, p (front ++ rest) = q rest) : Admits p (front ++ ts) := by
  intro rest
  rw [List.append_assoc, hp]
  exact hq rest

/-- What is admitted does not fail otherwise. -/
theorem ne_failAt (h : Admits p ts) (part : Expectation) (rest : List Located) :
    p (ts ++ rest) ≠ failAt part (ts ++ rest) := by
  intro hf
  obtain ⟨a, ha⟩ | ⟨name, method, line, left, ha⟩ := h rest <;> rw [hf] at ha <;>
    cases hts : ts ++ rest <;> rw [hts] at ha <;> cases ha

theorem untilCloseAll_cons {item : Parser α} (hi : ∀ n, Agree 1 n item item)
    (hstop : StopsAtEnd item) (missing : Expectation) (h : Admits item ts)
    (hs : Admits (untilCloseAll item missing) us) :
    Admits (untilCloseAll item missing) (ts ++ us) := by
  intro rest
  rw [untilCloseAll_item hi hstop missing fun part => by
    rw [List.append_assoc]
    exact h.ne_failAt part _]
  exact h.bind (fun a => hs.map (f := (a :: ·))) rest

theorem distinctParameters (s : Signature) : Admits (distinctParameters s) [] := by
  intro rest
  unfold Parser.distinctParameters
  cases firstRepeated? [] (s.params.map (·.name)) with
  | none => exact .inl ⟨(), rfl⟩
  | some name => exact .inr ⟨name, s.name, s.line, rest, rfl⟩

end Admits

/-- What has a tree is read. -/
theorem statement_admits_tree {ts : List Located} :
    (∃ s, Derivation.Statement ts s) → Admits statement ts
  | ⟨_, hs⟩ => .of_ok (statement_complete hs)

theorem signature_of_head {ts : List Token} (h : Grammar.Loose.Head ts) {toks : List Located}
    (hw : words toks = ts) : ∃ s, ∀ rest, signature (toks ++ rest) = .ok s rest := by
  cases h with
  | @intro _ _ _ _ n _ hwd hsw ht hps =>
    obtain ⟨ws, as, rfl, h₁, hA⟩ := Derivation.words_eq_append hw
    obtain ⟨ss, bs, rfl, h₂, hB⟩ := Derivation.words_eq_append hA
    obtain ⟨ts, cs, rfl, h₃, hC⟩ := Derivation.words_eq_append hB
    obtain ⟨l, ds, rfl, hD⟩ := Derivation.words_eq_cons hC
    obtain ⟨l₁, es, rfl, hE⟩ := Derivation.words_eq_cons hD
    obtain ⟨ps, fs, rfl, h₄, hF⟩ := Derivation.words_eq_append hE
    obtain ⟨l₂, rfl⟩ := Derivation.words_eq_one hF
    obtain ⟨a, ha⟩ := Derivation.accessWord_of_written hwd h₁
    obtain ⟨b, hb⟩ := Derivation.staticWord_of_written hsw h₂
    obtain ⟨t, ht⟩ := Derivation.typeName_of_written ht h₃
    obtain ⟨params, hparams, -⟩ := Derivation.parameters_of_written hps h₄
    refine ⟨⟨a, b, t, n, params, Derivation.lineOf (ws ++ (ss ++ ts))⟩, fun rest => ?_⟩
    simp only [List.append_assoc, List.cons_append, List.nil_append]
    exact signature_complete ha hb ht hparams n l l₁ l₂ rest

mutual

theorem statement_admits {ts : List Token} {toks : List Located} (hw : words toks = ts) :
    Grammar.Loose.Statement ts → Admits statement toks
  | .importPath h => statement_admits_tree (Derivation.statement_of_written hw (.importPath h))
  | .declareVariable ht h =>
    statement_admits_tree (Derivation.statement_of_written hw (.declareVariable ht h))
  | .expression h => statement_admits_tree (Derivation.statement_of_written hw (.expression h))
  | .declareClass (n := n) hwd h => by
    obtain ⟨ws, bs, rfl, ha, hb⟩ := Derivation.words_eq_append hw
    obtain ⟨l, cs, rfl, hc⟩ := Derivation.words_eq_cons hb
    obtain ⟨l₁, ds, rfl, hd⟩ := Derivation.words_eq_cons hc
    obtain ⟨l₂, fs, rfl, hf⟩ := Derivation.words_eq_cons hd
    obtain ⟨gs, is, rfl, hg, hi⟩ := Derivation.words_eq_append hf
    obtain ⟨l₃, rfl⟩ := Derivation.words_eq_one hi
    obtain ⟨a, haw⟩ := Derivation.accessWord_of_written hwd ha
    have hmethods := (methods_admits hg h l₃).map (f := (Statement.declareClass n · l))
    have hread (rest : List Located) := classOver_header statement haw n l l₁ l₂ rest
    intro rest
    rw [statement_eq, List.append_assoc, List.cons_append, statementOver_class haw, List.cons_append,
      List.cons_append, hread]
    exact hmethods rest

theorem methods_admits {ts : List Token} {toks : List Located} (hw : words toks = ts) :
    Grammar.Loose.Methods ts → ∀ l,
      Admits (untilCloseAll method .methodOrClose) (toks ++ [⟨.symbol .rbrace, l⟩])
  | .nil, l => by
    rw [Derivation.words_eq_nil hw]
    exact .of_ok fun rest => untilCloseAll_rbrace _ _ l rest
  | .cons h hs, l => by
    obtain ⟨as, bs, rfl, ha, hb⟩ := Derivation.words_eq_append hw
    rw [List.append_assoc]
    exact (method_admits ha h).untilCloseAll_cons (fun _ => method_takes) method_stopsAtEnd _
      (methods_admits hb hs l)

theorem method_admits {ts : List Token} {toks : List Located} (hw : words toks = ts) :
    Grammar.Loose.Method ts → Admits method toks
  | .intro hh hb => by
    obtain ⟨hs, as, rfl, h₁, hA⟩ := Derivation.words_eq_append hw
    obtain ⟨l, bs, rfl, hB⟩ := Derivation.words_eq_cons hA
    obtain ⟨cs, ds, rfl, h₂, hD⟩ := Derivation.words_eq_append hB
    obtain ⟨l', rfl⟩ := Derivation.words_eq_one hD
    obtain ⟨s, hs⟩ := signature_of_head hh h₁
    refine Admits.bind (.of_ok hs) fun s => ?_
    refine (Admits.distinctParameters s).bind fun _ => ?_
    have hbody := (statements_admits h₂ hb l').map (f := MethodDecl.mk s)
    refine hbody.after [_] fun rest => ?_
    rw [← blockOver_eq]
    rfl

theorem statements_admits {ts : List Token} {toks : List Located} (hw : words toks = ts) :
    Grammar.Loose.Statements ts → ∀ l, Admits (untilCloseAll statement (.token (.symbol .rbrace)))
      (toks ++ [⟨.symbol .rbrace, l⟩])
  | .nil, l => by
    rw [Derivation.words_eq_nil hw]
    exact .of_ok fun rest => untilCloseAll_rbrace _ _ l rest
  | .cons h hs, l => by
    obtain ⟨as, bs, rfl, ha, hb⟩ := Derivation.words_eq_append hw
    rw [List.append_assoc]
    exact (statement_admits ha h).untilCloseAll_cons (fun _ => statement_takes)
      statement_stopsAtEnd _ (statements_admits hb hs l)

end

theorem statementsAll_admits {ts : List Token} {toks : List Located} (hw : words toks = ts) :
    Grammar.Loose.Statements ts → (∃ ss, statementsAll toks = .ok ss []) ∨
      ∃ name method line left,
        statementsAll toks = .error (.duplicateParameter name method line) left
  | .nil => by
    rw [Derivation.words_eq_nil hw]
    exact .inl ⟨_, statementsAll_nil⟩
  | .cons h hs => by
    obtain ⟨as, bs, rfl, ha, hb⟩ := Derivation.words_eq_append hw
    have hfirst := statement_admits ha h
    have hread : statementsAll (as ++ bs) = (statement >>= fun first =>
        statementsAll >>= fun others => pure (first :: others)) (as ++ bs) := by
      cases hts : as ++ bs with
      | nil =>
        obtain ⟨part, hp⟩ := statement_stopsAtEnd [] (.inl rfl)
        exact absurd (hts ▸ hp) (hfirst.ne_failAt part bs)
      | cons t rest => exact statementsAll_cons t rest
    rw [hread, bind_apply]
    obtain ⟨s, hs'⟩ | ⟨name, method, line, left, hdup⟩ := hfirst bs
    · obtain ⟨ss, hss⟩ | ⟨name, method, line, left, hdup⟩ := statementsAll_admits hb hs
      · rw [hs']
        exact .inl ⟨s :: ss, bind_of_ok hss _⟩
      · refine .inr ⟨name, method, line, left, ?_⟩
        rw [hs']
        show (statementsAll >>= fun others => pure (s :: others)) bs = _
        rw [bind_apply, hdup]
    · exact .inr ⟨name, method, line, left, by rw [hdup]⟩

/-- Tokens that the grammar derives but for a repeated parameter are a program, or refused for that
parameter. -/
theorem program_admits {toks : List Located} (h : Grammar.Loose.Statements (words toks)) :
    (∃ p, program toks = .ok p []) ∨ ∃ name method line left,
      program toks = .error (.duplicateParameter name method line) left := by
  rw [program_apply, map_apply]
  obtain ⟨ss, hss⟩ | ⟨name, method, line, left, hdup⟩ := statementsAll_admits rfl h
  · rw [hss]
    exact .inl ⟨_, rfl⟩
  · rw [hdup]
    exact .inr ⟨name, method, line, left, rfl⟩

/-! ## The reported violation -/

/-- The tokens in front of a failure begin a program, and the failure is about the first token after
them or about there being none. With that token they begin a program no more, except where it makes
a declaration of the statement that starts right before it: the failure of a declaration is forgotten,
and what is reported is that its name and what follows are no expression. -/
theorem program_refuses {toks rest : List Located} {e : ParseError}
    (h : program toks = .error e rest) : ∃ before, toks = before ++ rest ∧ e.Describes rest ∧
      Begins (words before) ∧ ∀ expected found line, e = .unexpected expected found line →
        (Begins (words before ++ [found]) ↔
          StartsDeclaration Grammar.Loose.Statements (words before) found) := by
  obtain ⟨before, rfl, hd, hb, ha⟩ := program_refusesAt e rest h
  refine ⟨before, rfl, hd, hb, ?_⟩
  rintro expected found line rfl
  obtain ⟨after, rfl⟩ := hd
  constructor
  · rintro ⟨us, hus⟩
    rcases ha with ha | ⟨t, after', heq, hs⟩
    · -- whatever completes the tokens, the parser fails on them as before
      have hsame := ha (⟨found, line⟩ :: us.map (⟨·, 0⟩)) rfl
      have hwords : words (before ++ ⟨found, line⟩ :: us.map (⟨·, 0⟩)) =
          (words before ++ [found]) ++ us := by
        simp [words, Function.comp_def]
      rw [← hwords] at hus
      obtain ⟨p, hp⟩ | ⟨name, method, line', left, hp⟩ := program_admits hus
      · rw [hsame] at hp
        cases hp
      · rw [hsame] at hp
        cases hp
    · cases heq
      exact hs
  · exact StartsDeclaration.completed

/-- `int x = y + ;` with the value on a line of its own. -/
def missingOperand : List Located :=
  [⟨.name "int", 1⟩, ⟨.name "x", 1⟩, ⟨.symbol .equals, 1⟩, ⟨.name "y", 2⟩, ⟨.symbol .plus, 2⟩,
    ⟨.symbol .semicolon, 2⟩]

theorem program_missingOperand (us : List Located) : program (missingOperand ++ us) =
    .error (.unexpected (.token (.symbol .semicolon)) (.name "x") 1)
      ((missingOperand ++ us).drop 1) := rfl

/-- The failure stands in front of the declared name, with which the tokens still begin a program. -/
theorem program_refuses_missingOperand :
    program missingOperand = .error (.unexpected (.token (.symbol .semicolon)) (.name "x") 1)
      (missingOperand.drop 1) ∧
    StartsDeclaration Grammar.Loose.Statements [.name "int"] (.name "x") := by
  refine ⟨program_missingOperand [], ?_⟩
  obtain ⟨before, hbefore, -, -, hiff⟩ := program_refuses (program_missingOperand [])
  have hint : [⟨.name "int", 1⟩] = before :=
    List.append_cancel_right (show [⟨.name "int", 1⟩] ++ missingOperand.drop 1 = _ from hbefore)
  subst hint
  have hs : Grammar.Loose.Statement [.name "int", .name "x", .symbol .semicolon] :=
    @Grammar.Loose.Statement.declareVariable [.name "int"] [] "x" (.intro .none) .none
  have hss := Grammar.Loose.Statements.cons hs .nil
  exact (hiff _ _ _ rfl).1 ⟨[.symbol .semicolon], hss⟩

/-- The missing operand of an initializer is the first violation, but the failure is reported at the
declared name and on its line. -/
theorem initializer_violation_at_name :
    Begins (words (missingOperand.take 5)) ∧ ¬ Begins (words missingOperand) ∧
    program missingOperand = .error (.unexpected (.token (.symbol .semicolon)) (.name "x") 1)
      (missingOperand.drop 1) := by
  refine ⟨?_, ?_, program_missingOperand []⟩
  · have hsum : Grammar.Expression [.name "y", .symbol .plus, .name "z"] :=
      @Grammar.Expression.operation [.name "y"] [.name "z"] (.operator .sum)
        (.chain (.primary .name)) (.primary .name)
    have hs := @Grammar.Loose.Statement.declareVariable [.name "int"] _ "x" (.intro .none)
      (.some hsum)
    have hss := Grammar.Loose.Statements.cons hs .nil
    exact ⟨[.name "z", .symbol .semicolon], hss⟩
  · rintro ⟨us, hus⟩
    have hwords : words (missingOperand ++ us.map (⟨·, 2⟩)) = words missingOperand ++ us := by
      simp [words, Function.comp_def]
    rw [← hwords] at hus
    obtain ⟨p, hp⟩ | ⟨name, method, line, left, hp⟩ := program_admits hus
    · rw [program_missingOperand] at hp
      cases hp
    · rw [program_missingOperand] at hp
      cases hp

end SmallJava.Parser
