/-
Soundness of the parsers: what a parser answers is the tree of the tokens it took, and the tokens
left over cannot go on with it. Main statements: `expression_sound`, `statement_sound` and
`program_sound`.

An expression is sound on some tokens if it is on all shorter lists, since the expressions inside
another one begin after at least one token; so the number of tokens carries the induction. The level
tells how far a parser goes: 3 reads endpoints, 2 products, 1 sums.
-/
import SmallJava.Proofs.Grammar.Derivation
import SmallJava.Proofs.Parser.Progress

namespace SmallJava.Parser

open SmallJava.Derivation

/-! ## Where an expression stops -/

/-- The next token does not go on with an expression: it is no access, call or assignment, and no
operator of at least the given level. -/
def Stops (n : Nat) (rest : List Located) : Prop :=
  ∀ t ts, rest = t :: ts → t.token ≠ .symbol .dot ∧ t.token ≠ .symbol .lparen ∧
    t.token ≠ .symbol .equals ∧ ∀ op : Operator, n ≤ op.level → t.token ≠ .symbol op.symbol

theorem Stops.nil (n : Nat) : Stops n [] := fun _ _ h => by cases h

theorem Stops.mono {m n : Nat} {rest : List Located} (h : Stops m rest) (hn : m ≤ n) :
    Stops n rest := by
  intro t ts ht
  obtain ⟨h1, h2, h3, h4⟩ := h t ts ht
  exact ⟨h1, h2, h3, fun op hop => h4 op (by omega)⟩

/-- The operators a parser of operations looks for are those of one level. -/
def Picks (operator? : Token → Option Operator) (n : Nat) : Prop :=
  ∀ token op, operator? token = some op ↔ token = .symbol op.symbol ∧ op.level = n

theorem picks_term : Picks termOperator? 1 := by
  intro token op
  constructor
  · intro h
    unfold termOperator? at h
    split at h <;> cases h <;> exact ⟨rfl, rfl⟩
  · rintro ⟨rfl, h⟩
    cases op <;> first | rfl | cases h

theorem picks_factor : Picks factorOperator? 2 := by
  intro token op
  constructor
  · intro h
    unfold factorOperator? at h
    split at h <;> cases h <;> exact ⟨rfl, rfl⟩
  · rintro ⟨rfl, h⟩
    cases op <;> first | rfl | cases h

/-! ## What a parser reads -/

/-- What a parser of expressions of the given level reads. -/
def ReadsLevel (N n : Nat) (p : Parser Expr) : Prop :=
  ∀ toks e rest, toks.length < N → p toks = .ok e rest →
    ∃ used g, toks = used ++ rest ∧ Groups used g ∧ g.Documented ∧ g.expr = e ∧
      (g.level = 0 ∨ n ≤ g.level) ∧ Stops n rest ∧ (g.endsInAssignment = true → Stops 1 rest)

/-- What the parser of expressions reads. -/
def ReadsExpression (N : Nat) (p : Parser Expr) : Prop :=
  ∀ toks e rest, toks.length < N → p toks = .ok e rest →
    ∃ used, toks = used ++ rest ∧ Expression used e ∧ Stops 1 rest

/-! ## Lists with commas -/

section Lists

variable {α : Type} {item : Parser α} {R : List Located → α → Prop} {N : Nat}

theorem separated_sound (h : ∀ toks a rest, toks.length < N → item toks = .ok a rest →
      ∃ used, toks = used ++ rest ∧ R used a) (closing : Symbol) :
    ∀ (b : Nat) (toks : List Located) (as : List α) (rest : List Located), toks.length < N →
      separated item closing b toks = .ok as rest →
      ∃ used l, toks = used ++ ⟨.symbol closing, l⟩ :: rest ∧ Separated R used as
  | 0, toks, as, rest, _, hs => absurd hs failAt_ne_ok
  | b + 1, toks, as, rest, hN, hs => by
    rw [separated_succ] at hs
    obtain ⟨a, mid, ha, hr⟩ := bind_eq_ok hs
    obtain ⟨ts, rfl, hR⟩ := h toks a mid hN ha
    rw [List.length_append] at hN
    unfold afterItem at hr
    split at hr
    · rename_i s l us
      split at hr
      · rename_i hc
        subst hc
        obtain ⟨others, mid', ho, hr⟩ := bind_eq_ok hr
        cases hr
        rw [List.length_cons] at hN
        obtain ⟨vs, l', rfl, hv⟩ := separated_sound h closing b us others rest (by omega) ho
        exact ⟨ts ++ ⟨.symbol .comma, l⟩ :: vs, l', by simp, .more hR hv⟩
      · split at hr
        · rename_i hc
          subst hc
          cases hr
          exact ⟨ts, l, rfl, .one hR⟩
        · exact absurd hr failAt_ne_ok
    · exact absurd hr failAt_ne_ok

theorem list_sound (h : ∀ toks a rest, toks.length < N → item toks = .ok a rest →
      ∃ used, toks = used ++ rest ∧ R used a) {closing : Symbol} {toks rest : List Located}
    {as : List α} (hN : toks.length < N) (hl : list item closing toks = .ok as rest) :
    ∃ used l, toks = used ++ ⟨.symbol closing, l⟩ :: rest ∧ Listed R used as := by
  rcases toks with _ | ⟨t, ts⟩
  · obtain ⟨used, l, h1, -⟩ := separated_sound h closing 1 [] as rest hN hl
    cases used <;> cases h1
  · rw [list_cons] at hl
    split at hl
    · rename_i hc
      cases hl
      exact ⟨[], t.line, by rw [← hc]; rfl, .none⟩
    · obtain ⟨used, l, h1, h2⟩ := separated_sound h closing _ _ as rest hN hl
      exact ⟨used, l, h1, .some h2⟩

end Lists

/-- Items up to a closing brace. -/
theorem untilClose_sound {α : Type} {item : Parser α} {R : List Located → α → Prop} {N : Nat}
    (h : ∀ toks a rest, toks.length < N → item toks = .ok a rest →
      ∃ used, toks = used ++ rest ∧ R used a) (missing : Expectation) :
    ∀ (b : Nat) (toks : List Located) (as : List α) (rest : List Located), toks.length < N →
      untilClose item missing b toks = .ok as rest →
      ∃ used l, toks = used ++ ⟨.symbol .rbrace, l⟩ :: rest ∧ Repeated R used as
  | _, [], _, _, _, hc => by
    unfold untilClose at hc
    exact absurd hc failAt_ne_ok
  | b, ⟨token, l⟩ :: ts, as, rest, hN, hc => by
    unfold untilClose at hc
    split at hc
    · rename_i ht
      cases hc; cases ht
      exact ⟨[], l, rfl, .nil⟩
    · cases b with
      | zero => exact absurd hc failAt_ne_ok
      | succ b =>
        obtain ⟨a, mid, ha, hr⟩ := bind_eq_ok hc
        obtain ⟨others, mid', ho, hr'⟩ := bind_eq_ok hr
        cases hr'
        obtain ⟨us, hus, hR⟩ := h _ a mid hN ha
        -- the other items stand in what the first has left
        rw [hus] at hN ⊢
        rw [List.length_append] at hN
        obtain ⟨vs, l', rfl, hv⟩ := untilClose_sound h missing b mid others rest (by omega) ho
        exact ⟨us ++ vs, l', by simp, .cons hR hv⟩

theorem argumentList_of_separated {ts : List Located} {es : List Expr}
    (h : Separated Expression ts es) : ArgumentList ts es := by
  induction h with
  | one h => exact .one h
  | more h _ ih => exact .more h ih

theorem arguments_of_listed {ts : List Located} {es : List Expr} :
    Listed Expression ts es → Arguments ts es
  | .none => .none
  | .some h => .some (argumentList_of_separated h)

/-! ## Endpoints -/

section Endpoints

variable {N : Nat}

theorem primary_sound (h : ReadsExpression N expression) {toks rest : List Located} {e : Expr}
    (hN : toks.length < N + 1) (hp : primary expression toks = .ok e rest) :
    ∃ used, toks = used ++ rest ∧ Primary used e := by
  unfold primary at hp
  split at hp
  · cases hp; exact ⟨[_], rfl, .name⟩
  · cases hp; exact ⟨[_], rfl, .number⟩
  · cases hp; exact ⟨[_], rfl, .text⟩
  · cases hp; exact ⟨[_], rfl, .null⟩
  · rename_i l ts
    obtain ⟨e', mid, he, hr⟩ := bind_eq_ok hp
    obtain ⟨l', mid', hl, hr'⟩ := bind_eq_ok hr
    cases hr'
    rw [List.length_cons] at hN
    obtain ⟨used, rfl, hu, -⟩ := h ts e mid (by omega) he
    refine ⟨⟨.symbol .lparen, l⟩ :: (used ++ [⟨.symbol .rparen, l'⟩]), ?_, .grouping hu⟩
    rw [expect_eq_ok hl]
    simp
  · rename_i l ts
    unfold construction onLine at hp
    split at hp
    · cases hp
    · rename_i t us
      obtain ⟨n, mid, hn, hp⟩ := bind_eq_ok hp
      cases hp
      obtain ⟨l', h'⟩ := nameAs_eq_ok hn
      cases h'
      exact ⟨[_, _], rfl, .construction⟩
  · exact absurd hp failAt_ne_ok

/-- The accesses and calls after a chain go on with it. -/
theorem chain_sound (h : ReadsExpression N expression) :
    ∀ (b : Nat) (node : Expr) (front toks : List Located) (e : Expr) (rest : List Located),
      toks.length < N + 1 → toks.length ≤ b → Chain front node →
      chain expression b node toks = .ok e rest →
      ∃ used, toks = used ++ rest ∧ Chain (front ++ used) e ∧
        ∀ t ts, rest = t :: ts → t.token ≠ .symbol .dot ∧ t.token ≠ .symbol .lparen
  | b, node, front, [], e, rest, _, _, hn, hc => by
    have : chain expression b node [] = .ok node [] := by cases b <;> rfl
    rw [this] at hc
    cases hc
    exact ⟨[], rfl, by rwa [List.append_nil], fun _ _ h => by cases h⟩
  | 0, _, _, _ :: _, _, _, _, hb, _, _ => absurd hb (by simp)
  | b + 1, node, front, ⟨token, line⟩ :: ts, e, rest, hN, hb, hn, hc => by
    rw [List.length_cons] at hN hb
    by_cases hd : token = .symbol .dot
    · subst hd
      rw [chain_dot] at hc
      obtain ⟨n, mid, hm, hr⟩ := bind_eq_ok hc
      obtain ⟨l, rfl⟩ := nameAs_eq_ok hm
      rw [List.length_cons] at hN hb
      obtain ⟨used, rfl, hu, hs⟩ := chain_sound h b _ _ mid e rest (by omega) (by omega)
        (Chain.access hn) hr
      refine ⟨⟨.symbol .dot, line⟩ :: ⟨.name n, l⟩ :: used, rfl, ?_, hs⟩
      rwa [List.append_assoc] at hu
    · by_cases hp : token = .symbol .lparen
      · subst hp
        rw [chain_lparen] at hc
        obtain ⟨as, mid, hm, hr⟩ := bind_eq_ok hc
        obtain ⟨us, l, rfl, hus⟩ := list_sound (R := Expression)
          (fun toks a rest ht ha => by
            obtain ⟨used, h1, h2, -⟩ := h toks a rest ht ha; exact ⟨used, h1, h2⟩) (by omega) hm
        rw [List.length_append, List.length_cons] at hN hb
        obtain ⟨used, rfl, hu, hs⟩ := chain_sound h b _ _ mid e rest (by omega) (by omega)
          (Chain.call hn (arguments_of_listed hus)) hr
        refine ⟨⟨.symbol .lparen, line⟩ :: (us ++ ⟨.symbol .rparen, l⟩ :: used), by simp, ?_, hs⟩
        simpa using hu
      · rw [chain_of_ne _ _ _ hd hp] at hc
        cases hc
        refine ⟨[], rfl, by rwa [List.append_nil], fun t us ht => ?_⟩
        cases ht
        exact ⟨hd, hp⟩

theorem endpoint_sound (h : ReadsExpression N expression) :
    ReadsLevel (N + 1) 3 (endpoint expression) := by
  intro toks e rest hN he
  obtain ⟨target, mid, ht, ha⟩ := bind_eq_ok he
  obtain ⟨node, mid', hp, hc⟩ := bind_eq_ok ht
  obtain ⟨front, rfl, hf⟩ := primary_sound h hN hp
  rw [List.length_append] at hN
  obtain ⟨used, rfl, hu, hs⟩ := chain_sound h _ node front mid' target mid (by omega)
    (Nat.le_refl _) (.primary hf) hc
  rw [List.length_append] at hN
  unfold assigned at ha
  split at ha
  · rename_i l ts
    obtain ⟨value, mid'', hv, hr⟩ := bind_eq_ok ha
    cases hr
    rw [List.length_cons] at hN
    -- the value stops where the whole does, since it reaches as far as it can
    obtain ⟨vs, rfl, ⟨hg, hd⟩, hstop⟩ := h ts value rest (by omega) hv
    refine ⟨(front ++ used) ++ ⟨.symbol Sign.assignment.symbol, l⟩ :: vs, _, by simp [Sign.symbol],
      .operation (.chain hu) hg, ⟨trivial, hd, rfl, fun _ => ⟨target, rfl⟩, fun h => ?_, fun h => ?_⟩,
      rfl, Or.inl rfl, hstop.mono (by decide), fun _ => hstop⟩
    · cases h
    · exact absurd rfl h
  · rename_i hne
    cases ha
    refine ⟨front ++ used, .chain e, by simp, .chain hu, trivial, rfl, Or.inr (Nat.le_refl _), ?_,
      fun h => by cases h⟩
    intro t ts ht
    obtain ⟨h1, h2⟩ := hs t ts ht
    refine ⟨h1, h2, fun h3 => ?_, fun op hop => ?_⟩
    · subst ht
      obtain ⟨tok, l⟩ := t
      cases h3
      exact hne l ts rfl
    · rcases op.level_eq with h' | h' <;> omega

end Endpoints

/-! ## Operations -/

section Operations

variable {N n : Nat} {operator? : Token → Option Operator} {operand : Parser Expr}

/-- The operators and operands after a grouping go on with it. -/
theorem operations_sound (hpick : Picks operator? n) (hn : n ≠ 0)
    (ho : ReadsLevel N (n + 1) operand) :
    ∀ (b : Nat) (front : List Located) (g : Grouping) (toks : List Located) (e : Expr)
      (rest : List Located), toks.length < N + 1 → toks.length ≤ b → Groups front g →
      g.Documented → (g.level = 0 ∨ n ≤ g.level) → Stops (n + 1) toks →
      (g.endsInAssignment = true → Stops 1 toks) →
      operations operator? operand b g.expr toks = .ok e rest →
      ∃ used g', toks = used ++ rest ∧ Groups (front ++ used) g' ∧ g'.Documented ∧ g'.expr = e ∧
        (g'.level = 0 ∨ n ≤ g'.level) ∧ Stops n rest ∧ (g'.endsInAssignment = true → Stops 1 rest)
  | b, front, g, [], e, rest, _, _, hg, hd, hl, _, ha, hr => by
    have : operations operator? operand b g.expr [] = .ok g.expr [] := by cases b <;> rfl
    rw [this] at hr
    cases hr
    exact ⟨[], g, rfl, by rwa [List.append_nil], hd, rfl, hl, .nil n, ha⟩
  | 0, _, _, _ :: _, _, _, _, hb, _, _, _, _, _, _ => absurd hb (by simp)
  | b + 1, front, g, ⟨token, line⟩ :: ts, e, rest, hN, hb, hg, hd, hl, hs, ha, hr => by
    rw [List.length_cons] at hN hb
    unfold operations at hr
    split at hr
    · rename_i op hop
      obtain ⟨rfl, hlevel⟩ := (hpick token op).1 hop
      obtain ⟨right, mid, hright, hr'⟩ := bind_eq_ok hr
      obtain ⟨us, gr, rfl, hgr, hdr, rfl, hlr, hsr, har⟩ := ho ts right mid (by omega) hright
      -- an assignment at the right end would have taken the operator
      have hreach : g.endsInAssignment = false := by
        cases hend : g.endsInAssignment
        · rfl
        · exact absurd rfl ((ha hend _ _ rfl).2.2.2 op (by omega))
      have hgl : g.level ≠ 0 := fun h0 => by
        rw [Grouping.level_pos_of_ends h0] at hreach
        cases hreach
      have hfits : Grouping.Fits (.operator op) g gr := by
        refine ⟨hreach, fun h => (by cases h), fun h => ?_, fun _ => ?_⟩
        · simp only [Sign.level] at h
          omega
        · simp only [Sign.level]
          omega
      have hgroups : Groups (front ++ ⟨.symbol (Sign.operator op).symbol, line⟩ :: us)
          (.operation (.operator op) line g gr) := .operation hg hgr
      rw [List.length_append] at hN hb
      obtain ⟨used, g', rfl, h1, h2, h3, h4⟩ := operations_sound hpick hn ho b _ _ mid e rest
        (by omega) (by omega) hgroups ⟨hd, hdr, hfits⟩
        (Or.inr (by simp only [Grouping.level, Sign.level]; omega)) hsr har hr'
      exact ⟨⟨.symbol op.symbol, line⟩ :: (us ++ used), g', by simp,
        by simpa [Sign.symbol] using h1, h2, h3, h4⟩
    · rename_i hnone
      cases hr
      refine ⟨[], g, rfl, by rwa [List.append_nil], hd, rfl, hl, ?_, ha⟩
      intro t us ht
      obtain ⟨h1, h2, h3, h4⟩ := hs t us ht
      refine ⟨h1, h2, h3, fun op hop => ?_⟩
      cases ht
      -- of this level it would have been picked, and of a higher one the operands stop before it
      by_cases hlevel : op.level = n
      · intro htok
        have := (hpick _ op).2 ⟨htok, hlevel⟩
        rw [hnone] at this
        cases this
      · exact h4 op (by omega)

theorem joined_sound (hpick : Picks operator? n) (hn : n ≠ 0) (ho : ReadsLevel N (n + 1) operand) :
    ReadsLevel N n (joined operator? operand) := by
  intro toks e rest hN hj
  obtain ⟨first, mid, hf, hr⟩ := bind_eq_ok hj
  obtain ⟨used, g, rfl, hg, hd, rfl, hl, hs, ha⟩ := ho toks first mid hN hf
  rw [List.length_append] at hN
  obtain ⟨used', g', rfl, h1, h2, h3, h4⟩ := operations_sound hpick hn ho mid.length used g mid e
    rest (by omega) (Nat.le_refl _) hg hd (by omega) hs ha hr
  exact ⟨used ++ used', g', by simp, h1, h2, h3, h4⟩

end Operations

/-! ## Whole expressions -/

theorem expression_reads : ∀ N : Nat, ReadsExpression N expression
  | 0 => fun _ _ _ h _ => absurd h (Nat.not_lt_zero _)
  | N + 1 => by
    intro toks e rest hN he
    -- the operands are read from fewer tokens, so the induction is on their number
    rw [expression_eq] at he
    obtain ⟨used, g, h1, h2, h3, rfl, -, h4, -⟩ := joined_sound picks_term (by decide)
      (joined_sound picks_factor (by decide) (endpoint_sound (expression_reads N))) toks e rest hN he
    exact ⟨used, h1, .grouped h2 h3, h4⟩

/-- What is read as an expression has it for its tree. -/
theorem expression_sound {toks rest : List Located} {e : Expr}
    (h : expression toks = .ok e rest) : ∃ used, toks = used ++ rest ∧ Expression used e := by
  obtain ⟨used, h1, h2, -⟩ := expression_reads _ toks e rest (Nat.lt_succ_self _) h
  exact ⟨used, h1, h2⟩

/-! ## Types and paths -/

theorem onLine_apply {α : Type} (f : Nat → Parser α) (toks : List Located) :
    onLine f toks = f (lineOf toks) toks := by
  cases toks <;> rfl

theorem brackets_sound : ∀ (b : Nat) (toks : List Located) (k : Nat) (rest : List Located),
    brackets b toks = .ok k rest → ∃ used, toks = used ++ rest ∧ Derivation.Brackets used k
  | b, [], k, rest, h => by
    have : brackets b [] = .ok 0 [] := by cases b <;> rfl
    rw [this] at h
    cases h
    exact ⟨[], rfl, .none⟩
  | 0, t :: ts, k, rest, h => by
    have : brackets 0 (t :: ts) = .ok 0 (t :: ts) := rfl
    rw [this] at h
    cases h
    exact ⟨[], rfl, .none⟩
  | b + 1, ⟨token, l⟩ :: ts, k, rest, h => by
    by_cases ht : token = .symbol .lbracket
    · subst ht
      rw [brackets_lbracket] at h
      obtain ⟨l', mid, hl, hr⟩ := bind_eq_ok h
      obtain ⟨j, hj, rfl⟩ := map_eq_ok hr
      obtain ⟨used, rfl, hu⟩ := brackets_sound b mid j rest hj
      rw [expect_eq_ok hl]
      exact ⟨_ :: _ :: used, rfl, .pair hu⟩
    · rw [brackets_of_ne _ ht] at h
      cases h
      exact ⟨[], rfl, .none⟩

theorem typeName_sound {toks rest : List Located} {t : TypeName}
    (h : typeName toks = .ok t rest) : ∃ used, toks = used ++ rest ∧ Derivation.TypeName used t := by
  obtain ⟨n, mid, hn, hr⟩ := bind_eq_ok h
  obtain ⟨k, mid', hk, hr'⟩ := bind_eq_ok hr
  cases hr'
  obtain ⟨l, rfl⟩ := nameAs_eq_ok hn
  obtain ⟨used, rfl, hu⟩ := brackets_sound _ mid k rest hk
  exact ⟨_ :: used, rfl, .intro hu⟩

theorem parameter_sound {toks rest : List Located} {p : Parameter}
    (h : parameter toks = .ok p rest) : ∃ used, toks = used ++ rest ∧ Derivation.Parameter used p := by
  obtain ⟨t, mid, ht, hr⟩ := bind_eq_ok h
  obtain ⟨n, mid', hn, hr'⟩ := bind_eq_ok hr
  cases hr'
  obtain ⟨used, rfl, hu⟩ := typeName_sound ht
  obtain ⟨l, rfl⟩ := nameAs_eq_ok hn
  exact ⟨used ++ [⟨.name n, l⟩], by simp, .intro hu⟩

theorem segments_sound : ∀ (b : Nat) (toks : List Located) (path : List Segment)
    (rest : List Located), segments b toks = .ok path rest →
      ∃ used, toks = used ++ rest ∧ Derivation.Path used path
  | b, toks, path, rest, h => by
    obtain ⟨l, ts, rfl⟩ | ⟨n, l, l', ts, rfl⟩ | ⟨n, l, ts, rfl, hd⟩ | ⟨hn, hs⟩ := path_cases toks
    · rw [segments_star] at h
      cases h
      exact ⟨[_], rfl, .wildcard⟩
    · cases b with
      | zero => cases h; exact ⟨[_], rfl, .name⟩
      | succ b =>
        rw [segments_step] at h
        obtain ⟨path', hp, rfl⟩ := map_eq_ok h
        obtain ⟨used, rfl, hu⟩ := segments_sound b ts path' rest hp
        exact ⟨_ :: _ :: used, rfl, .step hu⟩
    · rw [segments_last _ _ _ hd] at h
      cases h
      exact ⟨[_], rfl, .name⟩
    · rw [segments_failAt _ hn hs] at h
      exact absurd h failAt_ne_ok

/-! ## Simple statements -/

theorem importPath_sound {toks rest : List Located} {s : Statement}
    (h : importPath toks = .ok s rest) : ∃ used, toks = used ++ rest ∧ Derivation.Statement used s := by
  obtain ⟨l, mid, hl, hr⟩ := bind_eq_ok h
  obtain ⟨path, mid', hp, hr'⟩ := bind_eq_ok hr
  obtain ⟨l', mid'', hl', hr''⟩ := bind_eq_ok hr'
  cases hr''
  obtain ⟨used, rfl, hu⟩ := segments_sound _ mid path mid' hp
  rw [expect_eq_ok hl, expect_eq_ok hl']
  exact ⟨⟨.keyword .importKw, l⟩ :: (used ++ [⟨.symbol .semicolon, l'⟩]), by simp, .importPath hu⟩

theorem initializer_sound {toks rest : List Located} {v : Option Expr}
    (h : initializer toks = .ok v rest) :
    ∃ used, toks = used ++ rest ∧ Derivation.Initializer used v := by
  unfold initializer at h
  split at h
  · rename_i l ts
    obtain ⟨e, he, rfl⟩ := map_eq_ok h
    obtain ⟨used, rfl, hu⟩ := expression_sound he
    exact ⟨_ :: used, rfl, .some hu⟩
  · cases h
    exact ⟨[], rfl, .none⟩

theorem declaration_sound {toks rest : List Located} {s : Statement}
    (h : declaration toks = .ok s rest) :
    ∃ used, toks = used ++ rest ∧ Derivation.Statement used s := by
  unfold declaration at h
  rw [onLine_apply] at h
  obtain ⟨t, mid, ht, h1⟩ := bind_eq_ok h
  obtain ⟨n, mid', hn, h2⟩ := bind_eq_ok h1
  obtain ⟨v, mid'', hv, h3⟩ := bind_eq_ok h2
  obtain ⟨l', mid₃, hl', h4⟩ := bind_eq_ok h3
  cases h4
  obtain ⟨ts, rfl, hts⟩ := typeName_sound ht
  obtain ⟨l, rfl⟩ := nameAs_eq_ok hn
  obtain ⟨us, rfl, hus⟩ := initializer_sound hv
  rw [expect_eq_ok hl', lineOf_append hts.ne_nil]
  exact ⟨ts ++ ⟨.name n, l⟩ :: (us ++ [⟨.symbol .semicolon, l'⟩]), by simp, .declareVariable hts hus⟩

theorem expressionStatement_sound {toks rest : List Located} {s : Statement}
    (h : expressionStatement toks = .ok s rest) :
    ∃ used, toks = used ++ rest ∧ Derivation.Statement used s := by
  unfold expressionStatement at h
  rw [onLine_apply] at h
  obtain ⟨e, mid, he, h1⟩ := bind_eq_ok h
  obtain ⟨l, mid', hl, h2⟩ := bind_eq_ok h1
  cases h2
  obtain ⟨ts, rfl, hts⟩ := expression_sound he
  rw [expect_eq_ok hl, lineOf_append hts.ne_nil]
  exact ⟨ts ++ [⟨.symbol .semicolon, l⟩], by simp, .expression hts⟩

theorem simpleStatement_sound {toks rest : List Located} {s : Statement}
    (h : simpleStatement toks = .ok s rest) :
    ∃ used, toks = used ++ rest ∧ Derivation.Statement used s := by
  unfold simpleStatement at h
  split at h
  · rename_i hd
    cases h
    exact declaration_sound hd
  · exact expressionStatement_sound h

/-! ## Classes -/

theorem access_sound {toks rest : List Located} {a : Access} (h : access toks = .ok a rest) :
    ∃ used, toks = used ++ rest ∧ Derivation.AccessWord used a := by
  unfold access at h
  split at h <;> cases h
  · exact ⟨[_], rfl, .everyone⟩
  · exact ⟨[_], rfl, .owner⟩
  · exact ⟨[_], rfl, .heirs⟩
  · exact ⟨[], rfl, .none⟩

theorem staticWord_sound {toks rest : List Located} {b : Bool} (h : staticWord toks = .ok b rest) :
    ∃ used, toks = used ++ rest ∧ Derivation.StaticWord used b := by
  unfold staticWord at h
  split at h <;> cases h
  · exact ⟨[_], rfl, .static⟩
  · exact ⟨[], rfl, .none⟩

/-- No name is found a second time exactly if all are different. -/
theorem firstRepeated?_eq_none : ∀ {seen ns : List String},
    firstRepeated? seen ns = none ↔ ns.Nodup ∧ ∀ n ∈ ns, n ∉ seen
  | _, [] => by simp [firstRepeated?]
  | seen, n :: ns => by
    rw [firstRepeated?]
    by_cases h : n ∈ seen
    · rw [if_pos h]
      exact ⟨fun h' => (by cases h'), fun h' => absurd h (h'.2 n (List.mem_cons_self ..))⟩
    · rw [if_neg h, firstRepeated?_eq_none, List.nodup_cons]
      constructor
      · rintro ⟨hd, hn⟩
        refine ⟨⟨fun hm => hn n hm (List.mem_cons_self ..), hd⟩, fun m hm => ?_⟩
        rcases List.mem_cons.1 hm with rfl | hm
        · exact h
        · exact fun hs => hn m hm (List.mem_cons_of_mem _ hs)
      · rintro ⟨⟨hm, hd⟩, hn⟩
        refine ⟨hd, fun m hm' hs => ?_⟩
        rcases List.mem_cons.1 hs with rfl | hs
        · exact hm hm'
        · exact hn m (List.mem_cons_of_mem _ hm') hs

theorem distinctParameters_eq_ok {s : Signature} {toks rest : List Located} {u : Unit}
    (h : distinctParameters s toks = .ok u rest) :
    rest = toks ∧ (s.params.map (·.name)).Nodup := by
  unfold distinctParameters at h
  split at h
  · cases h
  · rename_i hn
    cases h
    exact ⟨rfl, (firstRepeated?_eq_none.1 hn).1⟩

section Classes

variable {N : Nat}

/-- What the parser of statements reads. -/
def ReadsStatement (N : Nat) (p : Parser Statement) : Prop :=
  ∀ toks s rest, toks.length < N → p toks = .ok s rest →
    ∃ used, toks = used ++ rest ∧ Derivation.Statement used s

/-- What is read as the start of a method, up to its closing parenthesis. -/
theorem signature_sound {toks rest : List Located} {s : Signature}
    (h : signature toks = .ok s rest) : ∃ ws ss ts ps l l₁ l₂,
      toks = ws ++ (ss ++ (ts ++ ⟨.name s.name, l⟩ :: ⟨.symbol .lparen, l₁⟩ ::
        (ps ++ ⟨.symbol .rparen, l₂⟩ :: rest))) ∧
      Derivation.AccessWord ws s.access ∧ Derivation.StaticWord ss s.isStatic ∧
      Derivation.TypeName ts s.returnType ∧ Listed Derivation.Parameter ps s.params ∧
      s.line = lineOf (ws ++ (ss ++ ts)) := by
  unfold signature at h
  rw [onLine_apply] at h
  obtain ⟨a, m₁, ha, g1⟩ := bind_eq_ok h
  obtain ⟨isStatic, m₂, hst, g2⟩ := bind_eq_ok g1
  obtain ⟨t, m₃, ht, g3⟩ := bind_eq_ok g2
  obtain ⟨n, m₄, hn, g4⟩ := bind_eq_ok g3
  obtain ⟨l₁, m₅, hl₁, g5⟩ := bind_eq_ok g4
  obtain ⟨params, m₆, hp, g6⟩ := bind_eq_ok g5
  cases g6
  obtain ⟨ws, rfl, hws⟩ := access_sound ha
  obtain ⟨ss, rfl, hss⟩ := staticWord_sound hst
  obtain ⟨ts, rfl, hts⟩ := typeName_sound ht
  obtain ⟨l, rfl⟩ := nameAs_eq_ok hn
  have hm5 := expect_eq_ok hl₁
  subst hm5
  obtain ⟨ps, l₂, rfl, hps⟩ := list_sound (fun toks p rest (_ : toks.length < m₅.length + 1) h =>
    parameter_sound h) (Nat.lt_succ_self _) hp
  refine ⟨ws, ss, ts, ps, l, l₁, l₂, rfl, hws, hss, hts, hps, ?_⟩
  rw [← List.append_assoc ss, ← List.append_assoc ws]
  exact lineOf_append (by simp [hts.ne_nil]) _

theorem methodOver_sound (h : ReadsStatement N statement) {toks rest : List Located}
    {m : MethodDecl} (hN : toks.length < N) (hm : methodOver statement toks = .ok m rest) :
    ∃ used, toks = used ++ rest ∧ Derivation.Method used m := by
  obtain ⟨s, mid, hs, h1⟩ := bind_eq_ok hm
  obtain ⟨u, mid', hd, h2⟩ := bind_eq_ok h1
  obtain ⟨l₃, mid'', hl₃, h3⟩ := bind_eq_ok h2
  obtain ⟨body, mid₃, hb, h4⟩ := bind_eq_ok h3
  cases h4
  obtain ⟨ws, ss, ts, ps, l, l₁, l₂, rfl, hws, hss, hts, hps, hline⟩ := signature_sound hs
  obtain ⟨a, isStatic, t, n, params, line⟩ := s
  cases hline
  obtain ⟨rfl, hnodup⟩ := distinctParameters_eq_ok hd
  have hm7 := expect_eq_ok hl₃
  subst hm7
  rw [blockOver_eq, untilCloseAll] at hb
  simp only [List.length_append, List.length_cons] at hN
  obtain ⟨bs, l₄, rfl, hbs⟩ := untilClose_sound h _ _ mid'' body rest (by omega) hb
  exact ⟨ws ++ (ss ++ (ts ++ ⟨.name n, l⟩ :: ⟨.symbol .lparen, l₁⟩ ::
      (ps ++ ⟨.symbol .rparen, l₂⟩ :: ⟨.symbol .lbrace, l₃⟩ :: (bs ++ [⟨.symbol .rbrace, l₄⟩])))),
    by simp, .intro hws hss hts hps hnodup (statements_of_repeated hbs)⟩

theorem classOver_sound (h : ReadsStatement N statement) {toks rest : List Located}
    {s : Statement} (hN : toks.length < N + 1) (hc : classOver statement toks = .ok s rest) :
    ∃ used, toks = used ++ rest ∧ Derivation.Statement used s := by
  rw [classOver_eq] at hc
  obtain ⟨a, mid, ha, h1⟩ := bind_eq_ok hc
  obtain ⟨l, mid', hl, h2⟩ := bind_eq_ok h1
  obtain ⟨n, mid'', hn, h3⟩ := bind_eq_ok h2
  obtain ⟨l₂, mid₃, hl₂, h4⟩ := bind_eq_ok h3
  obtain ⟨ms, mid₄, hms, h5⟩ := bind_eq_ok h4
  cases h5
  obtain ⟨ws, rfl, hws⟩ := access_sound ha
  have hm := expect_eq_ok hl
  subst hm
  obtain ⟨l₁, rfl⟩ := nameAs_eq_ok hn
  have hm' := expect_eq_ok hl₂
  subst hm'
  simp only [List.length_append, List.length_cons] at hN
  obtain ⟨us, l₃, rfl, hus⟩ := untilClose_sound (fun toks m rest ht hm => methodOver_sound h ht hm)
    _ _ mid₃ ms rest (by omega) hms
  exact ⟨ws ++ ⟨.keyword .classKw, l⟩ :: ⟨.name n, l₁⟩ :: ⟨.symbol .lbrace, l₂⟩ ::
      (us ++ [⟨.symbol .rbrace, l₃⟩]), by simp, .declareClass hws (methods_of_repeated hus)⟩

end Classes

/-! ## Whole statements -/

theorem statement_reads : ∀ N : Nat, ReadsStatement N statement
  | 0 => fun _ _ _ h _ => absurd h (Nat.not_lt_zero _)
  | N + 1 => by
    intro toks s rest hN hs
    rw [statement_eq] at hs
    unfold statementOver at hs
    split at hs
    · exact absurd hs failAt_ne_ok
    · split at hs
      · exact importPath_sound hs
      · exact classOver_sound (statement_reads N) hN hs
      · exact classOver_sound (statement_reads N) hN hs
      · exact classOver_sound (statement_reads N) hN hs
      · exact classOver_sound (statement_reads N) hN hs
      · exact simpleStatement_sound hs

/-- What is read as a statement has it for its tree. -/
theorem statement_sound {toks rest : List Located} {s : Statement}
    (h : statement toks = .ok s rest) : ∃ used, toks = used ++ rest ∧ Derivation.Statement used s :=
  statement_reads _ toks s rest (Nat.lt_succ_self _) h

/-! ## Whole programs -/

theorem statementsToEnd_sound : ∀ (b : Nat) (toks : List Located) (ss : List Statement)
    (rest : List Located), statementsToEnd b toks = .ok ss rest →
      rest = [] ∧ ∃ front, ss = front ++ [.entry] ∧ Derivation.Statements toks front
  | b, [], ss, rest, h => by
    rw [statementsToEnd_nil] at h
    cases h
    exact ⟨rfl, [], rfl, .nil⟩
  | 0, t :: ts, ss, rest, h => absurd h failAt_ne_ok
  | b + 1, t :: ts, ss, rest, h => by
    rw [statementsToEnd_cons] at h
    obtain ⟨first, mid, hf, h1⟩ := bind_eq_ok h
    obtain ⟨others, mid', ho, h2⟩ := bind_eq_ok h1
    cases h2
    obtain ⟨used, hu, hs⟩ := statement_sound hf
    obtain ⟨rfl, front, rfl, hfront⟩ := statementsToEnd_sound b mid others rest ho
    rw [hu]
    exact ⟨rfl, first :: front, rfl, .cons hs hfront⟩

/-- What is read as a program takes all tokens and has it for its tree. -/
theorem program_sound {toks rest : List Located} {p : Program}
    (h : program toks = .ok p rest) : rest = [] ∧ Derivation.Root toks p := by
  unfold program at h
  obtain ⟨ss, mid, hs, h1⟩ := bind_eq_ok h
  cases h1
  obtain ⟨h2, front, rfl, hfront⟩ := statementsToEnd_sound _ _ ss rest hs
  exact ⟨h2, .intro hfront⟩

end SmallJava.Parser
