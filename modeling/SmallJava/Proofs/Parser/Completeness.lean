/-
Completeness of the parsers: tokens that have a tree are read as that tree, whatever stands after
them that cannot go on with them. Main statements: `expression_complete`, `statement_complete` and
`program_complete`.

An expression is read in three levels, and a grouping whose last sign is of one level is what the
levels above it leave to that one. So `Reads` says what each level does with a grouping, and the
levels of the operands, which the documented grouping fixes, say which of them is used on which.
-/
import SmallJava.Proofs.Parser.Soundness

namespace SmallJava.Parser

open SmallJava.Derivation

/-! ## Tokens after an expression -/

/-- A comma and the ends of arguments and of statements. -/
theorem Stops.closing {s : Symbol} (h : s = .comma ∨ s = .rparen ∨ s = .semicolon) (n l : Nat)
    (rest : List Located) : Stops n (⟨.symbol s, l⟩ :: rest) := by
  intro t ts ht
  cases ht
  refine ⟨?_, ?_, ?_, fun op _ => ?_⟩
  · rcases h with rfl | rfl | rfl <;> simp
  · rcases h with rfl | rfl | rfl <;> simp
  · rcases h with rfl | rfl | rfl <;> simp
  · rcases h with rfl | rfl | rfl <;> cases op <;> simp [Operator.symbol]

/-- An operator of a lower level. -/
theorem Stops.operator {op : Operator} {n : Nat} (h : op.level < n) (l : Nat)
    (rest : List Located) : Stops n (⟨.symbol op.symbol, l⟩ :: rest) := by
  intro t ts ht
  cases ht
  refine ⟨?_, ?_, ?_, fun op' h' hs => ?_⟩
  · cases op <;> simp [Operator.symbol]
  · cases op <;> simp [Operator.symbol]
  · cases op <;> simp [Operator.symbol]
  · have : op = op' := by cases op <;> cases op' <;> cases hs <;> rfl
    subst this
    omega

theorem following_stop {n : Nat} {rest : List Located} (h : Stops n rest) (e : Expr) :
    following e rest = .ok e rest := by
  cases rest with
  | nil => rfl
  | cons t ts =>
    obtain ⟨hd, hp, -⟩ := h t ts rfl
    exact following_of_ne e hd hp ts

theorem assigned_of_ne {rest : List Located} (h : ∀ l ts, rest ≠ ⟨.symbol .equals, l⟩ :: ts)
    (e : Expr) : assigned expression e rest = .ok e rest := by
  unfold assigned
  split
  · exact absurd rfl (h _ _)
  · rfl

theorem Stops.ne_equals {n : Nat} {rest : List Located} (h : Stops n rest) (l : Nat)
    (ts : List Located) : rest ≠ ⟨.symbol .equals, l⟩ :: ts :=
  fun hr => (h _ ts hr).2.2.1 rfl

/-- No operator of the level is there to be read. -/
theorem operationsAll_stop {operator? : Token → Option Operator} {n : Nat}
    (hpick : Picks operator? n) {rest : List Located} (h : Stops n rest) (operand : Parser Expr)
    (e : Expr) : operationsAll operator? operand e rest = .ok e rest := by
  cases rest with
  | nil => rfl
  | cons t ts =>
    refine operationsAll_of_none ?_ operand e ts
    cases hop : operator? t.token with
    | none => rfl
    | some op =>
      obtain ⟨htok, hlevel⟩ := (hpick _ op).1 hop
      exact absurd htok ((h t ts rfl).2.2.2 op (by omega))

/-! ## Lists with commas -/

section Lists

variable {α : Type} {item : Parser α} {closing : Symbol} {a : α} {ts : List Located}

theorem separated_one {b l : Nat} {rest : List Located} (hc : closing ≠ .comma)
    (h : item (ts ++ ⟨.symbol closing, l⟩ :: rest) = .ok a (⟨.symbol closing, l⟩ :: rest)) :
    separated item closing (b + 1) (ts ++ ⟨.symbol closing, l⟩ :: rest) = .ok [a] rest := by
  rw [separated_succ, bind_of_ok h]
  simp only [afterItem, if_neg hc, if_true]

theorem separated_more {b l : Nat} {as : List α} {us rest : List Located}
    (h : item (ts ++ ⟨.symbol .comma, l⟩ :: us) = .ok a (⟨.symbol .comma, l⟩ :: us))
    (hs : separated item closing b us = .ok as rest) :
    separated item closing (b + 1) (ts ++ ⟨.symbol .comma, l⟩ :: us) = .ok (a :: as) rest := by
  rw [separated_succ, bind_of_ok h]
  simp only [afterItem, if_true]
  rw [bind_of_ok hs]
  rfl

/-- Items do not start with what closes their list. -/
theorem list_some {t : Located} {as : List α} {us rest : List Located}
    (ht : t.token ≠ .symbol closing)
    (hs : separated item closing (us.length + 1) (t :: us) = .ok as rest) :
    list item closing (t :: us) = .ok as rest := by
  rw [list_cons, if_neg ht, hs]

end Lists

/-! ## Starts of expressions -/

/-- The tokens that an expression can start with. -/
def StartsExpression : Token → Prop
  | .name _ | .number _ | .text _ | .keyword .nullKw | .keyword .newKw | .symbol .lparen => True
  | _ => False

/-- A start is still one with more after it. -/
theorem starts_append {ts : List Located}
    (h : ∃ t us, ts = t :: us ∧ StartsExpression t.token) (vs : List Located) :
    ∃ t us, ts ++ vs = t :: us ∧ StartsExpression t.token := by
  obtain ⟨t, us, rfl, ht⟩ := h
  exact ⟨t, us ++ vs, rfl, ht⟩

mutual

theorem argumentList_starts {ts : List Located} {es : List Expr} :
    ArgumentList ts es → ∃ t us, ts = t :: us ∧ StartsExpression t.token
  | .one h => expression_starts h
  | .more h _ => starts_append (expression_starts h) _

theorem expression_starts {ts : List Located} {e : Expr} :
    Expression ts e → ∃ t us, ts = t :: us ∧ StartsExpression t.token
  | .grouped h _ => groups_starts h

theorem groups_starts {ts : List Located} {g : Grouping} :
    Groups ts g → ∃ t us, ts = t :: us ∧ StartsExpression t.token
  | .chain h => chain_starts h
  | .operation h _ => starts_append (groups_starts h) _

theorem chain_starts {ts : List Located} {e : Expr} :
    Chain ts e → ∃ t us, ts = t :: us ∧ StartsExpression t.token
  | .primary h => primary_starts h
  | .access h => starts_append (chain_starts h) _
  | .call h _ => starts_append (chain_starts h) _

theorem primary_starts {ts : List Located} {e : Expr} :
    Primary ts e → ∃ t us, ts = t :: us ∧ StartsExpression t.token
  | .name => ⟨_, _, rfl, trivial⟩
  | .number => ⟨_, _, rfl, trivial⟩
  | .text => ⟨_, _, rfl, trivial⟩
  | .null => ⟨_, _, rfl, trivial⟩
  | .construction => ⟨_, _, rfl, trivial⟩
  | .grouping _ => ⟨_, _, rfl, trivial⟩

end

/-! ## Groupings -/

/-- What the parsers of the three levels do with a grouping. -/
structure Reads (ts : List Located) (g : Grouping) : Prop where
  target : ∀ e, g = .chain e → ∀ rest, postfixed expression (ts ++ rest) = following e rest
  endpoint : g.level = 0 ∨ 3 ≤ g.level → ∀ rest, Stops 3 rest →
    (g.endsInAssignment = true → Stops 1 rest) →
      endpoint expression (ts ++ rest) = .ok g.expr rest
  factor : g.level = 0 ∨ 2 ≤ g.level → ∀ rest, Stops 3 rest →
    (g.endsInAssignment = true → Stops 1 rest) →
      multiplicative (ts ++ rest) =
        operationsAll factorOperator? (Parser.endpoint expression) g.expr rest
  term : ∀ rest, Stops 2 rest → (g.endsInAssignment = true → Stops 1 rest) →
    expression (ts ++ rest) = operationsAll termOperator? multiplicative g.expr rest

theorem expression_eq_joined : expression = joined termOperator? multiplicative := expression_eq

namespace Reads

variable {ts us : List Located} {g left right : Grouping} {e : Expr}

/-- A whole product is a whole sum. -/
theorem term_of_factor
    (h : ∀ rest, Stops 3 rest → (g.endsInAssignment = true → Stops 1 rest) →
      multiplicative (ts ++ rest) =
        operationsAll factorOperator? (Parser.endpoint expression) g.expr rest)
    (rest : List Located) (hs : Stops 2 rest) (ha : g.endsInAssignment = true → Stops 1 rest) :
    expression (ts ++ rest) = operationsAll termOperator? multiplicative g.expr rest := by
  have hfactor : multiplicative (ts ++ rest) = .ok g.expr rest := by
    rw [h rest (hs.mono (by decide)) ha, operationsAll_stop picks_factor hs]
  rw [expression_eq_joined, joined_eq, bind_of_ok hfactor]

/-- A whole endpoint is a whole product. -/
theorem of_endpoint
    (ht : ∀ e, g = .chain e → ∀ rest, postfixed expression (ts ++ rest) = following e rest)
    (h : ∀ rest, Stops 3 rest → (g.endsInAssignment = true → Stops 1 rest) →
      Parser.endpoint expression (ts ++ rest) = .ok g.expr rest) : Reads ts g := by
  have hfactor : ∀ rest, Stops 3 rest → (g.endsInAssignment = true → Stops 1 rest) →
      multiplicative (ts ++ rest) =
        operationsAll factorOperator? (Parser.endpoint expression) g.expr rest := by
    intro rest hs ha
    rw [multiplicative, multiplicativeOver, joined_eq, bind_of_ok (h rest hs ha)]
  exact ⟨ht, fun _ => h, fun _ => hfactor, term_of_factor hfactor⟩

theorem chain (h : ∀ rest, postfixed expression (ts ++ rest) = following e rest) :
    Reads ts (.chain e) := by
  refine of_endpoint (fun e' he => by cases he; exact h) fun rest hs _ => ?_
  have hp : postfixed expression (ts ++ rest) = .ok e rest := by
    rw [h rest, following_stop hs]
  show (postfixed expression >>= assigned expression) (ts ++ rest) = _
  rw [bind_of_ok hp, assigned_of_ne hs.ne_equals]
  rfl

theorem assignment (l : Nat) (hl : Reads ts (.chain e)) (hr : Reads us right) :
    Reads (ts ++ ⟨.symbol .equals, l⟩ :: us) (.operation .assignment l (.chain e) right) := by
  refine of_endpoint (fun e' he => by cases he) fun rest _ ha => ?_
  have hstop := ha rfl
  -- the target is read up to the sign, and the value up to the end of the whole
  have hp : postfixed expression (ts ++ ⟨.symbol .equals, l⟩ :: (us ++ rest)) =
      .ok e (⟨.symbol .equals, l⟩ :: (us ++ rest)) := by
    rw [hl.target e rfl, following_of_ne e (by simp) (by simp)]
  have hv : expression (us ++ rest) = .ok right.expr rest := by
    rw [hr.term rest (hstop.mono (by decide)) fun _ => hstop, operationsAll_stop picks_term hstop]
  show (postfixed expression >>= assigned expression) _ = _
  rw [List.append_assoc, List.cons_append, bind_of_ok hp]
  show (expression >>= fun value => pure (Expr.assign e value l)) (us ++ rest) = _
  rw [bind_of_ok hv]
  rfl

theorem product {op : Operator} (l : Nat) (hop : op.level = 2)
    (hfits : Grouping.Fits (.operator op) left right) (hl : Reads ts left) (hr : Reads us right) :
    Reads (ts ++ ⟨.symbol op.symbol, l⟩ :: us) (.operation (.operator op) l left right) := by
  have hlevel : (Sign.operator op).level = 2 := hop
  have hfactor : ∀ rest, Stops 3 rest → (right.endsInAssignment = true → Stops 1 rest) →
      multiplicative ((ts ++ ⟨.symbol op.symbol, l⟩ :: us) ++ rest) =
        operationsAll factorOperator? (Parser.endpoint expression)
          (.binary op left.expr right.expr l) rest := by
    intro rest hs ha
    obtain ⟨hleft, hright⟩ := hfits.tighter hlevel
    have hright' := hfits.leftward (by simp)
    rw [hlevel] at hright'
    have hpick : factorOperator? (Token.symbol op.symbol) = some op :=
      (picks_factor _ op).2 ⟨rfl, hop⟩
    -- the left operand ends in no assignment, which would take the operator
    rw [List.append_assoc, List.cons_append,
      hl.factor (by omega) _ (Stops.operator (by omega) l _) (fun h => by
        rw [hfits.reach] at h; cases h),
      operationsAll_of_some hpick fun _ => endpoint_takes,
      bind_of_ok (hr.endpoint (by omega) rest hs ha)]
  refine ⟨fun e he => (by cases he), fun h => ?_, fun _ => hfactor,
    term_of_factor (g := .operation (.operator op) l left right) hfactor⟩
  exact absurd h (by rw [Grouping.level, hlevel]; decide)

theorem sum {op : Operator} (l : Nat) (hop : op.level = 1)
    (hfits : Grouping.Fits (.operator op) left right) (hl : Reads ts left) (hr : Reads us right) :
    Reads (ts ++ ⟨.symbol op.symbol, l⟩ :: us) (.operation (.operator op) l left right) := by
  have hlevel : (Grouping.operation (.operator op) l left right).level = 1 := hop
  refine ⟨fun e he => (by cases he), fun h => ?_, fun h => ?_, fun rest hs ha => ?_⟩
  · exact absurd h (by rw [hlevel]; decide)
  · exact absurd h (by rw [hlevel]; decide)
  · have hright := hfits.leftward (by simp)
    simp only [Sign.level, hop] at hright
    have hpick : termOperator? (Token.symbol op.symbol) = some op :=
      (picks_term _ op).2 ⟨rfl, hop⟩
    -- the right operand is a whole product, since its signs bind tighter
    have hfactor : multiplicative (us ++ rest) = .ok right.expr rest := by
      rw [hr.factor (by omega) rest (hs.mono (by decide)) ha, operationsAll_stop picks_factor hs]
    rw [List.append_assoc, List.cons_append,
      hl.term _ (Stops.operator (by omega) l _) (fun h => by rw [hfits.reach] at h; cases h),
      operationsAll_of_some hpick fun _ => multiplicative_takes, bind_of_ok hfactor]
    rfl

theorem operation {sign : Sign} (l : Nat) (hfits : Grouping.Fits sign left right)
    (hl : Reads ts left) (hr : Reads us right) :
    Reads (ts ++ ⟨.symbol sign.symbol, l⟩ :: us) (.operation sign l left right) := by
  cases sign with
  | assignment =>
    obtain ⟨e, rfl⟩ := hfits.target rfl
    exact assignment l hl hr
  | operator op =>
    rcases op.level_eq with hop | hop
    · exact sum l hop hfits hl hr
    · exact product l hop hfits hl hr

end Reads

/-! ## Expressions -/

theorem expect_self (token : Token) (l : Nat) (rest : List Located) :
    expect token (⟨token, l⟩ :: rest) = .ok l rest := by
  simp only [expect, if_true]

theorem arguments_complete_of_list {ts rest : List Located} {es : List Expr} {l : Nat}
    (h : ArgumentList ts es)
    (hs : ∀ b, ts.length ≤ b →
      separated expression .rparen b (ts ++ ⟨.symbol .rparen, l⟩ :: rest) = .ok es rest) :
    list expression .rparen (ts ++ ⟨.symbol .rparen, l⟩ :: rest) = .ok es rest := by
  obtain ⟨t, us, rfl, ht⟩ := argumentList_starts h
  refine list_some ?_ (hs _ ?_)
  · intro hr
    rw [hr] at ht
    exact ht
  · simp

theorem primary_grouping {toks rest : List Located} {e : Expr} {l : Nat} (l' : Nat)
    (h : expression toks = .ok e (⟨.symbol .rparen, l⟩ :: rest)) :
    primary expression (⟨.symbol .lparen, l'⟩ :: toks) = .ok e rest := by
  show (expression >>= fun e => expect (.symbol .rparen) >>= fun _ => pure e) toks = _
  rw [bind_of_ok h, bind_of_ok (expect_self _ l rest)]
  rfl

mutual

theorem expression_complete {ts : List Located} {e : Expr} :
    Expression ts e → ∀ rest, Stops 1 rest → expression (ts ++ rest) = .ok e rest
  | .grouped h hd, rest, hs => by
    rw [(groups_complete h hd).term rest (hs.mono (by decide)) fun _ => hs,
      operationsAll_stop picks_term hs]

theorem groups_complete {ts : List Located} {g : Grouping} :
    Groups ts g → g.Documented → Reads ts g
  | .chain h, _ => .chain (chain_complete h)
  | .operation (l := l) hl hr, ⟨hdl, hdr, hfits⟩ =>
    .operation l hfits (groups_complete hl hdl) (groups_complete hr hdr)

theorem chain_complete {ts : List Located} {e : Expr} :
    Chain ts e → ∀ rest, postfixed expression (ts ++ rest) = following e rest
  | .primary h, rest => by
    rw [postfixed_eq, bind_of_ok (primary_complete h rest)]
  | .access h, rest => by
    rw [List.append_assoc, chain_complete h, List.cons_append, following_dot]
    rfl
  | .call h ha, rest => by
    rw [List.append_assoc, chain_complete h, List.cons_append, following_lparen, List.append_assoc,
      List.singleton_append, bind_of_ok (arguments_complete ha _ rest)]

theorem arguments_complete {ts : List Located} {es : List Expr} :
    Arguments ts es → ∀ l rest,
      list expression .rparen (ts ++ ⟨.symbol .rparen, l⟩ :: rest) = .ok es rest
  | .none, _, _ => rfl
  | .some h, l, rest => arguments_complete_of_list h fun b hb => argumentList_complete h b hb l rest

theorem argumentList_complete {ts : List Located} {es : List Expr} :
    ArgumentList ts es → ∀ b, ts.length ≤ b → ∀ l rest,
      separated expression .rparen b (ts ++ ⟨.symbol .rparen, l⟩ :: rest) = .ok es rest
  | .one h, 0, hb, _, _ => absurd (List.eq_nil_of_length_eq_zero (Nat.le_zero.1 hb)) h.ne_nil
  | .one h, b + 1, _, l, rest =>
    separated_one (by decide) (expression_complete h _ (.closing (by simp) _ _ _))
  | .more _ _, 0, hb, _, _ => by simp at hb
  | .more h hs, b + 1, hb, l, rest => by
    rw [List.append_assoc, List.cons_append]
    rw [List.length_append, List.length_cons] at hb
    exact separated_more (expression_complete h _ (.closing (by simp) _ _ _))
      (argumentList_complete hs b (by omega) l rest)

theorem primary_complete {ts : List Located} {e : Expr} :
    Primary ts e → ∀ rest, primary expression (ts ++ rest) = .ok e rest
  | .name, _ => rfl
  | .number, _ => rfl
  | .text, _ => rfl
  | .null, _ => rfl
  | .construction, _ => rfl
  | .grouping h, rest => by
    rw [List.cons_append, List.append_assoc]
    exact primary_grouping _ (expression_complete h _ (.closing (by simp) _ _ _))

end

/-! ## Types and parameters -/

theorem bracketsAll_of_ne {rest : List Located}
    (h : ∀ l ts, rest ≠ ⟨.symbol .lbracket, l⟩ :: ts) : bracketsAll rest = .ok 0 rest := by
  rcases rest with _ | ⟨⟨token, l⟩, ts⟩
  · rfl
  · refine brackets_of_ne _ ?_ ts
    rintro rfl
    exact h l ts rfl

theorem brackets_complete {ts : List Located} {k : Nat} (h : Derivation.Brackets ts k)
    {rest : List Located} (hr : ∀ l us, rest ≠ ⟨.symbol .lbracket, l⟩ :: us) :
    bracketsAll (ts ++ rest) = .ok k rest := by
  induction h with
  | none => exact bracketsAll_of_ne hr
  | @pair ts k l l' _ ih =>
    rw [List.cons_append, List.cons_append, bracketsAll_lbracket, symbol,
      bind_of_ok (expect_self _ l' _), map_apply, ih]

theorem typeName_complete {ts : List Located} {t : TypeName} (h : Derivation.TypeName ts t)
    {rest : List Located} (hr : ∀ l us, rest ≠ ⟨.symbol .lbracket, l⟩ :: us) :
    typeName (ts ++ rest) = .ok t rest := by
  cases h with
  | @intro n l k ts hb =>
    have hn : identifier (⟨.name n, l⟩ :: (ts ++ rest)) = .ok n (ts ++ rest) := rfl
    rw [typeName_eq, List.cons_append, bind_of_ok hn, bind_of_ok (brackets_complete hb hr)]
    rfl

/-- A name is no bracket. -/
theorem typeName_then_name {ts : List Located} {t : TypeName} (h : Derivation.TypeName ts t)
    (n : String) (l : Nat) (rest : List Located) :
    typeName (ts ++ ⟨.name n, l⟩ :: rest) = .ok t (⟨.name n, l⟩ :: rest) :=
  typeName_complete h fun _ _ hn => by cases hn

theorem parameter_complete {ts : List Located} {p : Parameter} (h : Derivation.Parameter ts p)
    (rest : List Located) : parameter (ts ++ rest) = .ok p rest := by
  cases h with
  | @intro ts t n l ht =>
    show (typeName >>= fun t => identifier >>= fun n => pure (Parameter.mk t n)) _ = _
    rw [List.append_assoc, List.singleton_append, bind_of_ok (typeName_then_name ht n l rest)]
    rfl

theorem separatedParameters_complete {ts : List Located} {ps : List Parameter}
    (h : Separated Derivation.Parameter ts ps) : ∀ b, ts.length ≤ b → ∀ l rest,
      separated parameter .rparen b (ts ++ ⟨.symbol .rparen, l⟩ :: rest) = .ok ps rest := by
  induction h with
  | one h =>
    intro b hb l rest
    cases b with
    | zero => cases h; simp at hb
    | succ b => exact separated_one (by decide) (parameter_complete h _)
  | more h _ ih =>
    intro b hb l rest
    cases b with
    | zero => simp at hb
    | succ b =>
      rw [List.append_assoc, List.cons_append]
      rw [List.length_append, List.length_cons] at hb
      exact separated_more (parameter_complete h _) (ih b (by omega) l rest)

/-- A list of parameters starts with the name of a type. -/
theorem separatedParameters_starts {ts : List Located} {ps : List Parameter}
    (h : Separated Derivation.Parameter ts ps) : ∃ n l us, ts = ⟨.name n, l⟩ :: us := by
  cases h with
  | one h =>
    cases h with
    | intro h => cases h; exact ⟨_, _, _, rfl⟩
  | more h _ =>
    cases h with
    | intro h => cases h; exact ⟨_, _, _, rfl⟩

theorem parameters_complete {ts : List Located} {ps : List Parameter}
    (h : Listed Derivation.Parameter ts ps) (l : Nat) (rest : List Located) :
    list parameter .rparen (ts ++ ⟨.symbol .rparen, l⟩ :: rest) = .ok ps rest := by
  cases h with
  | none => rfl
  | some h =>
    have hs := separatedParameters_complete h
    obtain ⟨n, l', us, rfl⟩ := separatedParameters_starts h
    exact list_some (by simp) (hs _ (by simp) l rest)

/-! ## Simple statements -/

theorem path_complete {ts : List Located} {path : List Segment} (h : Derivation.Path ts path)
    {rest : List Located} (hr : ∀ l us, rest ≠ ⟨.symbol .dot, l⟩ :: us) :
    segmentsAll (ts ++ rest) = .ok path rest := by
  induction h with
  | name => exact segments_last _ _ _ hr
  | wildcard => exact segments_star _ _ _
  | step _ ih =>
    rw [List.cons_append, List.cons_append, segmentsAll_step, map_apply, ih]

theorem importPath_complete {ts : List Located} {path : List Segment}
    (h : Derivation.Path ts path) (l l' : Nat) (rest : List Located) :
    importPath (⟨.keyword .importKw, l⟩ :: (ts ++ ⟨.symbol .semicolon, l'⟩ :: rest)) =
      .ok (.importPath path l) rest := by
  have hp : segmentsAll (ts ++ ⟨.symbol .semicolon, l'⟩ :: rest) =
      .ok path (⟨.symbol .semicolon, l'⟩ :: rest) := path_complete h fun _ _ hs => by cases hs
  rw [importPath_eq, keyword, bind_of_ok (expect_self _ l _), bind_of_ok hp, symbol,
    bind_of_ok (expect_self _ l' rest)]
  rfl

theorem initializer_complete {ts : List Located} {v : Option Expr}
    (h : Derivation.Initializer ts v) (l : Nat) (rest : List Located) :
    initializer (ts ++ ⟨.symbol .semicolon, l⟩ :: rest) =
      .ok v (⟨.symbol .semicolon, l⟩ :: rest) := by
  cases h with
  | none => rfl
  | some h =>
    have hs : Stops 1 (⟨.symbol .semicolon, l⟩ :: rest) := .closing (by simp) 1 l rest
    rw [List.cons_append]
    show (some <$> expression) _ = _
    rw [map_apply, expression_complete h _ hs]

theorem declaration_complete {ts us : List Located} {t : TypeName} {v : Option Expr}
    (ht : Derivation.TypeName ts t) (hv : Derivation.Initializer us v) (n : String) (l l' : Nat)
    (rest : List Located) :
    declaration (ts ++ ⟨.name n, l⟩ :: (us ++ ⟨.symbol .semicolon, l'⟩ :: rest)) =
      .ok (.declareVariable t n v (lineOf ts)) rest := by
  have hn : identifier (⟨.name n, l⟩ :: (us ++ ⟨.symbol .semicolon, l'⟩ :: rest)) =
      .ok n (us ++ ⟨.symbol .semicolon, l'⟩ :: rest) := rfl
  unfold declaration
  rw [onLine_apply, bind_of_ok (typeName_then_name ht n l _), bind_of_ok hn,
    bind_of_ok (initializer_complete hv l' rest), symbol, bind_of_ok (expect_self _ l' rest),
    lineOf_append ht.ne_nil]
  rfl

theorem expressionStatement_complete {ts : List Located} {e : Expr}
    (h : Derivation.Expression ts e) (l : Nat) (rest : List Located) :
    expressionStatement (ts ++ ⟨.symbol .semicolon, l⟩ :: rest) =
      .ok (.expression e (lineOf ts)) rest := by
  unfold expressionStatement
  rw [onLine_apply, bind_of_ok (expression_complete h _ (.closing (by simp) 1 l rest)), symbol,
    bind_of_ok (expect_self _ l rest), lineOf_append h.ne_nil]
  rfl

/-! ## Expressions are no declarations

What comes after a name that starts an expression is a point, a parenthesis, a sign or nothing, while
in a declaration it is another name or a bracket. -/

/-- What is left does not start like the second part of a declaration. -/
def NoSecondPart (us : List Located) : Prop :=
  ∀ t vs, us = t :: vs → ∃ s : Symbol, t.token = .symbol s ∧ s ≠ .lbracket

/-- After a name at the start, nothing like the second part of a declaration follows. -/
def NoDeclaration (ts : List Located) : Prop :=
  ∀ n l us, ts = ⟨.name n, l⟩ :: us → NoSecondPart us

theorem NoDeclaration.append {ts : List Located} (h : NoDeclaration ts) (hne : ts ≠ [])
    {s : Symbol} (hs : s ≠ .lbracket) (l : Nat) (vs : List Located) :
    NoDeclaration (ts ++ ⟨.symbol s, l⟩ :: vs) := by
  intro n l' us hus
  rcases ts with _ | ⟨t, ts⟩
  · exact absurd rfl hne
  · rw [List.cons_append] at hus
    cases hus
    intro t vs' ht
    rcases ts with _ | ⟨t', ts⟩
    · cases ht; exact ⟨s, rfl, hs⟩
    · cases ht; exact h n l' _ rfl _ _ rfl

theorem primary_noDeclaration {ts : List Located} {e : Expr} (h : Derivation.Primary ts e) :
    NoDeclaration ts := by
  intro n l us hus
  cases h <;> cases hus
  intro t vs ht
  cases ht

mutual

theorem groups_noDeclaration {ts : List Located} {g : Grouping} :
    Derivation.Groups ts g → NoDeclaration ts
  | .chain h => chain_noDeclaration h
  | .operation h _ => by
    rename_i sign _ _ _ _
    refine (groups_noDeclaration h).append h.ne_nil ?_ _ _
    cases sign with
    | assignment => decide
    | operator op => cases op <;> decide

theorem chain_noDeclaration {ts : List Located} {e : Expr} :
    Derivation.Chain ts e → NoDeclaration ts
  | .primary h => primary_noDeclaration h
  | .access h => (chain_noDeclaration h).append h.ne_nil (by decide) _ _
  | .call h _ => (chain_noDeclaration h).append h.ne_nil (by decide) _ _

end

/-- A declaration starts with a name, and goes on with another one or a bracket. -/
theorem declaration_starts {toks rest : List Located} {s : Statement}
    (h : declaration toks = .ok s rest) : ∃ n l t us, toks = ⟨.name n, l⟩ :: t :: us ∧
      ((∃ m, t.token = .name m) ∨ t.token = .symbol .lbracket) := by
  unfold declaration at h
  rw [onLine_apply] at h
  obtain ⟨t, mid, ht, h₁⟩ := bind_eq_ok h
  obtain ⟨m, mid', hm, -⟩ := bind_eq_ok h₁
  obtain ⟨l', rfl⟩ := nameAs_eq_ok hm
  obtain ⟨used, rfl, hty⟩ := typeName_sound ht
  cases hty with
  | intro hb =>
    cases hb with
    | none => exact ⟨_, _, _, _, rfl, .inl ⟨m, rfl⟩⟩
    | pair _ => exact ⟨_, _, _, _, rfl, .inr rfl⟩

/-- No declaration starts where an expression statement stands. -/
theorem declaration_ne_ok {ts : List Located} {e : Expr} (h : Derivation.Expression ts e) (l : Nat)
    (rest rest' : List Located) (s : Statement) :
    declaration (ts ++ ⟨.symbol .semicolon, l⟩ :: rest) ≠ .ok s rest' := by
  cases h with
  | grouped hg _ =>
    have hn := (groups_noDeclaration hg).append hg.ne_nil (s := .semicolon) (by decide) l rest
    intro hd
    obtain ⟨n, l', t, us, hts, hsecond⟩ := declaration_starts hd
    obtain ⟨s, hs, hne⟩ := hn n l' _ hts t us rfl
    rcases hsecond with ⟨m, hm⟩ | hm
    · rw [hm] at hs
      cases hs
    · rw [hm] at hs
      cases hs
      exact hne rfl

theorem simpleStatement_of_declaration {toks rest : List Located} {s : Statement}
    (h : declaration toks = .ok s rest) : simpleStatement toks = .ok s rest := by
  unfold simpleStatement
  rw [h]

theorem simpleStatement_complete {ts : List Located} {e : Expr}
    (h : Derivation.Expression ts e) (l : Nat) (rest : List Located) :
    simpleStatement (ts ++ ⟨.symbol .semicolon, l⟩ :: rest) =
      .ok (.expression e (lineOf ts)) rest := by
  unfold simpleStatement
  split
  · rename_i s rest' hd
    exact absurd hd (declaration_ne_ok h l rest rest' s)
  · exact expressionStatement_complete h l rest

/-! ## Classes -/

theorem access_complete {ts : List Located} {a : Access} (h : Derivation.AccessWord ts a)
    {t : Located} (ht : ∀ k : Keyword, t.token = .keyword k →
      k ≠ .publicKw ∧ k ≠ .privateKw ∧ k ≠ .protectedKw) (rest : List Located) :
    access (ts ++ t :: rest) = .ok a (t :: rest) := by
  cases h with
  | none =>
    rw [List.nil_append]
    unfold access
    split
    · rename_i heq; cases heq; exact absurd rfl (ht _ rfl).1
    · rename_i heq; cases heq; exact absurd rfl (ht _ rfl).2.1
    · rename_i heq; cases heq; exact absurd rfl (ht _ rfl).2.2
    · rfl
  | everyone => rfl
  | owner => rfl
  | heirs => rfl

theorem staticWord_complete {ts : List Located} {b : Bool} (h : Derivation.StaticWord ts b)
    (n : String) (l : Nat) (rest : List Located) :
    staticWord (ts ++ ⟨.name n, l⟩ :: rest) = .ok b (⟨.name n, l⟩ :: rest) := by
  cases h <;> rfl

theorem distinctParameters_of_nodup {s : Signature} (h : (s.params.map (·.name)).Nodup)
    (toks : List Located) : distinctParameters s toks = .ok () toks := by
  have hn : firstRepeated? [] (s.params.map (·.name)) = none :=
    firstRepeated?_eq_none.2 ⟨h, fun _ _ => List.not_mem_nil⟩
  unfold distinctParameters
  rw [hn]

/-- The words before a method, its type and the point where they end. -/
theorem methodHead_complete {ws ss ts : List Located} {a : Access} {isStatic : Bool}
    {t : TypeName} (hw : Derivation.AccessWord ws a) (hs : Derivation.StaticWord ss isStatic)
    (ht : Derivation.TypeName ts t) (rest : List Located) :
    access (ws ++ (ss ++ (ts ++ rest))) = .ok a (ss ++ (ts ++ rest)) ∧
      staticWord (ss ++ (ts ++ rest)) = .ok isStatic (ts ++ rest) := by
  cases ht with
  | @intro n l k us _ =>
    refine ⟨?_, staticWord_complete hs n l (us ++ rest)⟩
    cases hs with
    | none => exact access_complete hw (fun k hk => by cases hk) _
    | static => exact access_complete hw (fun k hk => by cases hk; decide) _

/-- A method is read up to its closing parenthesis, whatever stands after that. -/
theorem signature_complete {ws ss ts ps : List Located} {a : Access} {isStatic : Bool}
    {t : TypeName} {params : List Parameter} (hw : Derivation.AccessWord ws a)
    (hs : Derivation.StaticWord ss isStatic) (ht : Derivation.TypeName ts t)
    (hp : Listed Derivation.Parameter ps params) (n : String) (l l₁ l₂ : Nat)
    (rest : List Located) :
    signature (ws ++ (ss ++ (ts ++ ⟨.name n, l⟩ :: ⟨.symbol .lparen, l₁⟩ ::
      (ps ++ ⟨.symbol .rparen, l₂⟩ :: rest)))) =
        .ok ⟨a, isStatic, t, n, params, lineOf (ws ++ (ss ++ ts))⟩ rest := by
  obtain ⟨ha, hst⟩ := methodHead_complete hw hs ht (⟨.name n, l⟩ :: ⟨.symbol .lparen, l₁⟩ ::
    (ps ++ ⟨.symbol .rparen, l₂⟩ :: rest))
  have hn (us : List Located) : identifier (⟨.name n, l⟩ :: us) = .ok n us := rfl
  have hline (us : List Located) : lineOf (ws ++ (ss ++ (ts ++ us))) =
      lineOf (ws ++ (ss ++ ts)) := by
    rw [← List.append_assoc ss, ← List.append_assoc ws]
    exact lineOf_append (by simp [ht.ne_nil]) _
  unfold signature
  rw [onLine_apply, bind_of_ok ha, bind_of_ok hst, bind_of_ok (typeName_then_name ht n l _),
    bind_of_ok (hn _), symbol, bind_of_ok (expect_self _ l₁ _),
    bind_of_ok (parameters_complete hp l₂ _), hline]
  rfl

theorem methodOver_complete {inner : Parser Statement} {ws ss ts ps toks rest : List Located}
    {a : Access} {isStatic : Bool} {t : TypeName} {params : List Parameter}
    {body : List Statement} {n : String} {l l₁ l₂ l₃ : Nat} (hw : Derivation.AccessWord ws a)
    (hs : Derivation.StaticWord ss isStatic) (ht : Derivation.TypeName ts t)
    (hp : Listed Derivation.Parameter ps params) (hd : (params.map (·.name)).Nodup)
    (hb : blockOver inner toks = .ok body rest) :
    methodOver inner (ws ++ (ss ++ (ts ++ ⟨.name n, l⟩ :: ⟨.symbol .lparen, l₁⟩ ::
      (ps ++ ⟨.symbol .rparen, l₂⟩ :: ⟨.symbol .lbrace, l₃⟩ :: toks)))) =
        .ok (.mk ⟨a, isStatic, t, n, params, lineOf (ws ++ (ss ++ ts))⟩ body) rest := by
  have hsig := signature_complete hw hs ht hp n l l₁ l₂ (⟨.symbol .lbrace, l₃⟩ :: toks)
  show (signature >>= fun s => distinctParameters s >>= fun _ => expect (.symbol .lbrace) >>=
    fun _ => blockOver inner >>= fun body => pure (MethodDecl.mk s body)) _ = _
  rw [bind_of_ok hsig, bind_of_ok (distinctParameters_of_nodup hd _),
    bind_of_ok (expect_self _ l₃ toks), bind_of_ok hb]
  rfl

/-- After the brace of a class its methods are read. -/
theorem classOver_header (inner : Parser Statement) {ws : List Located} {a : Access}
    (hw : Derivation.AccessWord ws a) (n : String) (l l₁ l₂ : Nat) (toks : List Located) :
    classOver inner (ws ++ ⟨.keyword .classKw, l⟩ :: ⟨.name n, l₁⟩ :: ⟨.symbol .lbrace, l₂⟩ ::
      toks) = ((.declareClass n · l) <$> untilCloseAll (methodOver inner) .methodOrClose) toks := by
  have ha := access_complete hw (t := ⟨.keyword .classKw, l⟩)
    (fun k hk => by cases hk; decide) (⟨.name n, l₁⟩ :: ⟨.symbol .lbrace, l₂⟩ :: toks)
  have hn (us : List Located) : identifier (⟨.name n, l₁⟩ :: us) = .ok n us := rfl
  rw [classOver_eq, bind_of_ok ha, keyword, bind_of_ok (expect_self _ l _), bind_of_ok (hn _), symbol,
    bind_of_ok (expect_self _ l₂ toks)]
  rfl

theorem classOver_complete {inner : Parser Statement} {ws toks rest : List Located} {a : Access}
    {ms : List MethodDecl} {n : String} {l l₁ l₂ : Nat} (hw : Derivation.AccessWord ws a)
    (hm : untilCloseAll (methodOver inner) .methodOrClose toks = .ok ms rest) :
    classOver inner (ws ++ ⟨.keyword .classKw, l⟩ :: ⟨.name n, l₁⟩ :: ⟨.symbol .lbrace, l₂⟩ ::
      toks) = .ok (.declareClass n ms l) rest := by
  rw [classOver_header inner hw, map_apply, hm]

/-! ## Blocks -/

/-- No item starts where a block ends. -/
def StopsAtEnd {α : Type} (item : Parser α) : Prop :=
  ∀ toks, (toks = [] ∨ ∃ l us, toks = ⟨.symbol .rbrace, l⟩ :: us) →
    ∃ part, item toks = failAt part toks

/-- What does not fail at once is an item, and more follow it. -/
theorem untilCloseAll_item {α : Type} {item : Parser α} (hi : ∀ n, Agree 1 n item item)
    (hstop : StopsAtEnd item) (missing : Expectation) {toks : List Located}
    (h : ∀ part, item toks ≠ failAt part toks) :
    untilCloseAll item missing toks = (item >>= fun first => untilCloseAll item missing >>=
      fun others => pure (first :: others)) toks := by
  rcases toks with _ | ⟨⟨token, l⟩, us⟩
  · obtain ⟨part, hp⟩ := hstop [] (.inl rfl)
    exact absurd hp (h part)
  · refine untilCloseAll_of_ne hi missing ?_ us
    rintro rfl
    obtain ⟨part, hp⟩ := hstop _ (.inr ⟨l, us, rfl⟩)
    exact h part hp

theorem untilCloseAll_cons {α : Type} {item : Parser α} (hi : ∀ n, Agree 1 n item item)
    (hstop : StopsAtEnd item) (missing : Expectation) {toks mid rest : List Located} {a : α}
    {as : List α} (h : item toks = .ok a mid) (hs : untilCloseAll item missing mid = .ok as rest) :
    untilCloseAll item missing toks = .ok (a :: as) rest := by
  rw [untilCloseAll_item hi hstop missing fun part hp => failAt_ne_ok (hp.symm.trans h),
    bind_of_ok h, bind_of_ok hs]
  rfl

theorem statement_stopsAtEnd : StopsAtEnd statement := by
  rintro _ (rfl | ⟨l, us, rfl⟩)
  · exact ⟨.statement, by rw [statement_eq]; rfl⟩
  · refine ⟨.expression, ?_⟩
    have he : expression (⟨.symbol .rbrace, l⟩ :: us) =
        failAt .expression (⟨.symbol .rbrace, l⟩ :: us) := by
      rw [expression_eq]
      rfl
    rw [statement_eq]
    show (expression >>= fun e => symbol .semicolon >>= fun _ => pure (Statement.expression e l)) _ = _
    rw [bind_apply, he]
    rfl

theorem method_stopsAtEnd : StopsAtEnd method := by
  rintro _ (rfl | ⟨l, us, rfl⟩)
  · exact ⟨.identifier, rfl⟩
  · exact ⟨.identifier, rfl⟩

/-! ## Whole statements -/

theorem statementOver_of_starts {inner : Parser Statement} {ts : List Located}
    (h : ∃ t us, ts = t :: us ∧ StartsExpression t.token) (rest : List Located) :
    statementOver inner (ts ++ rest) = simpleStatement (ts ++ rest) := by
  obtain ⟨⟨token, l⟩, us, rfl, ht⟩ := h
  cases token with
  | keyword k => cases k <;> first | rfl | exact absurd ht id
  | _ => rfl

theorem statementOver_class {inner : Parser Statement} {ws : List Located} {a : Access}
    (h : Derivation.AccessWord ws a) (l : Nat) (rest : List Located) :
    statementOver inner (ws ++ ⟨.keyword .classKw, l⟩ :: rest) =
      classOver inner (ws ++ ⟨.keyword .classKw, l⟩ :: rest) := by
  cases h <;> rfl

mutual

theorem statement_complete {ts : List Located} {s : Statement} :
    Derivation.Statement ts s → ∀ rest, statement (ts ++ rest) = .ok s rest
  | .importPath h, rest => by
    rw [statement_eq, List.cons_append, List.append_assoc]
    exact importPath_complete h _ _ rest
  | .declareClass hw h, rest => by
    rw [statement_eq, List.append_assoc, List.cons_append, statementOver_class hw,
      List.cons_append, List.cons_append, List.append_assoc]
    exact classOver_complete hw (methods_complete h _ rest)
  | .declareVariable ht hv, rest => by
    rw [statement_eq, List.append_assoc, statementOver_of_starts, List.cons_append,
      List.append_assoc]
    · exact simpleStatement_of_declaration (declaration_complete ht hv _ _ _ rest)
    · cases ht
      exact ⟨_, _, rfl, trivial⟩
  | .expression h, rest => by
    rw [statement_eq, List.append_assoc, statementOver_of_starts (expression_starts h)]
    exact simpleStatement_complete h _ rest

theorem methods_complete {ts : List Located} {ms : List MethodDecl} :
    Derivation.Methods ts ms → ∀ l rest,
      untilCloseAll method .methodOrClose (ts ++ ⟨.symbol .rbrace, l⟩ :: rest) = .ok ms rest
  | .nil, l, rest => untilCloseAll_rbrace _ _ l rest
  | .cons h hs, l, rest => by
    rw [List.append_assoc]
    exact untilCloseAll_cons (fun _ => method_takes) method_stopsAtEnd _ (method_complete h _)
      (methods_complete hs l rest)

theorem method_complete {ts : List Located} {m : MethodDecl} :
    Derivation.Method ts m → ∀ rest, method (ts ++ rest) = .ok m rest
  | .intro hw hs ht hp hd hb, rest => by
    simp only [List.append_assoc, List.cons_append, List.nil_append]
    refine methodOver_complete hw hs ht hp hd ?_
    rw [blockOver_eq]
    exact statements_complete hb _ rest

theorem statements_complete {ts : List Located} {ss : List Statement} :
    Derivation.Statements ts ss → ∀ l rest,
      untilCloseAll statement (.token (.symbol .rbrace)) (ts ++ ⟨.symbol .rbrace, l⟩ :: rest) =
        .ok ss rest
  | .nil, l, rest => untilCloseAll_rbrace _ _ l rest
  | .cons h hs, l, rest => by
    rw [List.append_assoc]
    exact untilCloseAll_cons (fun _ => statement_takes) statement_stopsAtEnd _
      (statement_complete h _) (statements_complete hs l rest)

end

/-! ## Whole programs -/

theorem statementsAll_complete {ts : List Located} {ss : List Statement}
    (h : Derivation.Statements ts ss) : statementsAll ts = .ok (ss ++ [.entry]) [] := by
  induction ss generalizing ts with
  | nil =>
    cases h
    exact statementsAll_nil
  | cons s ss ih =>
    cases h with
    | @cons ts us _ _ h hs =>
      have hstep := statement_complete h us
      have htakes := (statement_takes _ (Nat.lt_succ_self _)).2 _ _ hstep
      -- a statement takes a token, so this is not the end
      cases hts : ts ++ us with
      | nil => rw [hts] at htakes; simp at htakes
      | cons t rest =>
        rw [statementsAll_cons, ← hts, bind_of_ok hstep, bind_of_ok (ih hs)]
        rfl

/-- Tokens that have a tree are read as that program. -/
theorem program_complete {toks : List Located} {p : Program} (h : Derivation.Root toks p) :
    program toks = .ok p [] := by
  cases h with
  | intro h =>
    show (statementsAll >>= fun ss => pure (Program.mk ss)) toks = _
    rw [bind_of_ok (statementsAll_complete h)]
    rfl

end SmallJava.Parser
