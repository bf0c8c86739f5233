/-
Progress of the parsers. A parser that succeeds takes tokens off the front, and every parser inside
another one is asked about fewer tokens than the outer one, so no bound on a number of items or on
a depth is ever met. Main statements: the equations that the parsers satisfy with the bounds left
out (`expression_eq`, `statement_eq` and those of the repetitions).

The two sides of `Agree` are the same production with different bounds and different parsers inside;
`Agree k n` says that they answer alike on fewer than `n` tokens and take at least `k` of them. Each
production has one such lemma, and the depth is an induction on `n`.
-/
import SmallJava.Parser.Statement
import Mathlib.Tactic.Common

namespace SmallJava.Parser

variable {α β : Type}

/-! ## One parser after another -/

theorem bind_eq_ok {p : Parser α} {f : α → Parser β} {toks rest : List Located} {b : β}
    (h : (p >>= f) toks = .ok b rest) : ∃ a mid, p toks = .ok a mid ∧ f a mid = .ok b rest := by
  rw [bind_apply] at h
  split at h
  · rename_i a mid ha; exact ⟨a, mid, ha, h⟩
  · cases h

theorem bind_of_ok {p : Parser α} {toks mid : List Located} {a : α} (h : p toks = .ok a mid)
    (f : α → Parser β) : (p >>= f) toks = f a mid := by
  rw [bind_apply, h]

theorem bind_congr_ok {p : Parser α} {f g : α → Parser β} {toks : List Located}
    (h : ∀ a mid, p toks = .ok a mid → f a mid = g a mid) : (p >>= f) toks = (p >>= g) toks := by
  rw [bind_apply, bind_apply]
  split
  · rename_i a mid ha; exact h a mid ha
  · rfl

theorem map_apply (f : α → β) (p : Parser α) (toks : List Located) :
    (f <$> p) toks = match p toks with
      | .ok a rest => .ok (f a) rest
      | .error e rest => .error e rest := rfl

theorem map_congr {f : α → β} {p q : Parser α} {toks : List Located} (h : p toks = q toks) :
    (f <$> p) toks = (f <$> q) toks := by
  rw [map_apply, map_apply, h]

theorem map_eq_ok {f : α → β} {p : Parser α} {toks rest : List Located} {b : β}
    (h : (f <$> p) toks = .ok b rest) : ∃ a, p toks = .ok a rest ∧ f a = b := by
  rw [map_apply] at h
  split at h
  · rename_i a mid ha; cases h; exact ⟨a, ha, rfl⟩
  · cases h

theorem failAt_ne_ok {part : Expectation} {toks rest : List Located} {a : α} :
    (failAt part toks : Reply α) ≠ .ok a rest := by
  cases toks <;> intro h <;> cases h

/-! ## Agreement -/

/-- The replies are the same, and a success leaves at least `k` fewer than `size` tokens. -/
def Answer (k size : Nat) (r r' : Reply α) : Prop :=
  r = r' ∧ ∀ a rest, r = .ok a rest → rest.length + k ≤ size

/-- The parsers answer alike on fewer than `n` tokens, and take at least `k` tokens where they
succeed. -/
def Agree (k n : Nat) (p q : Parser α) : Prop :=
  ∀ toks, toks.length < n → Answer k toks.length (p toks) (q toks)

theorem answer_ok {k size : Nat} {a : α} {rest : List Located} (h : rest.length + k ≤ size) :
    Answer k size (.ok a rest) (.ok a rest) :=
  ⟨rfl, fun _ _ ha => by cases ha; exact h⟩

theorem answer_failAt {k size : Nat} (part : Expectation) (toks : List Located) :
    Answer k size (failAt part toks : Reply α) (failAt part toks) :=
  ⟨rfl, fun _ _ ha => absurd ha failAt_ne_ok⟩

namespace Agree

variable {j k m n : Nat} {p q : Parser α}

theorem mono (h : Agree k n p q) (hk : j ≤ k) (hn : m ≤ n) : Agree j m p q := by
  intro toks ht
  obtain ⟨h1, h2⟩ := h toks (by omega)
  exact ⟨h1, fun a rest ha => by have := h2 a rest ha; omega⟩

/-- After one token is gone. -/
theorem cons (h : Agree k n p q) {t : Located} {rest : List Located}
    (ht : (t :: rest).length < n + 1) (hj : j ≤ k + 1) :
    Answer j (t :: rest).length (p rest) (q rest) := by
  rw [List.length_cons] at *
  obtain ⟨h1, h2⟩ := h rest (by omega)
  exact ⟨h1, fun a r ha => by have := h2 a r ha; omega⟩

theorem bind {f g : α → Parser β} (h : Agree j n p q) (hf : ∀ a, Agree k (n - j) (f a) (g a)) :
    Agree (j + k) n (p >>= f) (q >>= g) := by
  intro toks ht
  obtain ⟨h1, h2⟩ := h toks ht
  rw [bind_apply, bind_apply, ← h1]
  cases hp : p toks with
  | error e rest => exact ⟨rfl, fun a rest' h => by cases h⟩
  | ok a mid =>
    have hm := h2 a mid hp
    have hpos : mid.length < n - j := by omega
    obtain ⟨h3, h4⟩ := hf a mid hpos
    exact ⟨h3, fun b rest hb => by have := h4 b rest hb; omega⟩

theorem pure (a : α) : Agree 0 n (pure a : Parser α) (pure a) :=
  fun _ _ => answer_ok (Nat.le_refl _)

theorem map {f : α → β} (h : Agree k n p q) : Agree k n (f <$> p) (f <$> q) :=
  h.bind fun a => Agree.pure (f a)

/-- A parser agrees with itself as far as it takes tokens. -/
theorem of_takes (h : ∀ toks a rest, p toks = .ok a rest → rest.length + k ≤ toks.length) :
    Agree k n p p := fun toks _ => ⟨rfl, h toks⟩

theorem onLine {f g : Nat → Parser α} (h : ∀ line, Agree k n (f line) (g line)) :
    Agree k n (onLine f) (onLine g) := by
  intro toks ht
  cases toks with
  | nil => exact h 0 [] ht
  | cons t rest => exact h t.line (t :: rest) ht

end Agree

/-! ## Single tokens -/

theorem expect_eq_ok {token : Token} {toks rest : List Located} {line : Nat}
    (h : expect token toks = .ok line rest) : toks = ⟨token, line⟩ :: rest := by
  unfold expect at h
  split at h
  · cases h
  · rename_i t ts
    obtain ⟨tok, l⟩ := t
    split at h
    · rename_i ht; cases h; cases ht; rfl
    · cases h

theorem nameAs_eq_ok {part : Expectation} {toks rest : List Located} {n : String}
    (h : nameAs part toks = .ok n rest) : ∃ line, toks = ⟨.name n, line⟩ :: rest := by
  unfold nameAs at h
  split at h
  · cases h; exact ⟨_, rfl⟩
  · exact absurd h failAt_ne_ok

theorem agree_expect {n : Nat} (token : Token) : Agree 1 n (expect token) (expect token) :=
  .of_takes fun toks line rest h => by rw [expect_eq_ok h]; exact Nat.le_refl _

theorem agree_nameAs {n : Nat} (part : Expectation) : Agree 1 n (nameAs part) (nameAs part) :=
  .of_takes fun toks name rest h => by
    obtain ⟨line, rfl⟩ := nameAs_eq_ok h
    exact Nat.le_refl _

/-! ## Lists with commas -/

/-- What `separated` does after an item, given what it does after a comma. -/
def afterItem (more : Parser (List α)) (closing : Symbol) (first : α) : Parser (List α)
  | ⟨.symbol s, line⟩ :: rest =>
    if s = .comma then (more >>= fun others => pure (first :: others)) rest
    else if s = closing then .ok [first] rest
    else failAt (.commaOrClose closing) (⟨.symbol s, line⟩ :: rest)
  | toks => failAt (.commaOrClose closing) toks

theorem separated_succ (item : Parser α) (closing : Symbol) (b : Nat) :
    separated item closing (b + 1) =
      item >>= afterItem (separated item closing b) closing := rfl

theorem agree_separated {item item' : Parser α} {n : Nat} (h : Agree 1 n item item')
    (closing : Symbol) : ∀ (b b' : Nat) (toks : List Located), toks.length < n →
      toks.length ≤ b → 1 ≤ b → toks.length ≤ b' → 1 ≤ b' →
      Answer 1 toks.length (separated item closing b toks) (separated item' closing b' toks)
  | 0, _, _, _, _, hb, _, _ => absurd hb (by decide)
  | _ + 1, 0, _, _, _, _, _, hb' => absurd hb' (by decide)
  | b + 1, b' + 1, toks, hn, hb, _, hb', _ => by
    -- after an item and a comma two tokens are gone, so the bounds that are left suffice
    have tail (first : α) : Agree 0 toks.length (afterItem (separated item closing b) closing first)
        (afterItem (separated item' closing b') closing first) := by
      intro mid hmid
      unfold afterItem
      split
      · rename_i s line rest
        split
        · rw [List.length_cons] at hmid
          have more : Agree 1 (rest.length + 1) (separated item closing b)
              (separated item' closing b') := fun ts hts =>
            agree_separated h closing b b' ts (by omega) (by omega) (by omega) (by omega) (by omega)
          exact (more.bind fun _ => Agree.pure _).cons (Nat.lt_succ_self _) (by omega)
        · split
          · exact answer_ok (by simp)
          · exact answer_failAt _ _
      · exact answer_failAt _ _
    have hitem : Agree 1 (toks.length + 1) item item' := h.mono (Nat.le_refl _) hn
    exact hitem.bind (k := 0) tail toks (Nat.lt_succ_self _)

theorem list_cons (item : Parser α) (closing : Symbol) (t : Located) (rest : List Located) :
    list item closing (t :: rest) =
      if t.token = .symbol closing then .ok [] rest
      else separated item closing (rest.length + 1) (t :: rest) := rfl

theorem agree_list {item item' : Parser α} {n : Nat} (h : Agree 1 n item item')
    (closing : Symbol) : Agree 1 n (list item closing) (list item' closing) := by
  intro toks ht
  cases toks with
  | nil => exact agree_separated h closing 1 1 [] ht (by decide) (by decide) (by decide) (by decide)
  | cons t rest =>
    rw [list_cons, list_cons]
    split
    · exact answer_ok (by simp)
    · have hb : (t :: rest).length ≤ rest.length + 1 := Nat.le_refl _
      exact agree_separated h closing _ _ (t :: rest) ht hb (by omega) hb (by omega)

/-! ## Endpoints -/

section Endpoints

variable {inner inner' : Parser Expr} {n : Nat}

theorem agree_grouping (h : Agree 1 n inner inner') :
    Agree 1 n (grouping inner) (grouping inner') :=
  h.bind (k := 0) fun _ => ((agree_expect _).bind fun _ => Agree.pure _).mono (Nat.zero_le _)
    (Nat.le_refl _)

theorem agree_construction : Agree 1 n construction construction :=
  .onLine fun _ => (agree_nameAs _).bind fun _ => Agree.pure _

theorem agree_primary (h : Agree 1 n inner inner') :
    Agree 1 (n + 1) (primary inner) (primary inner') := by
  intro toks ht
  unfold primary
  split
  · exact answer_ok (Nat.le_refl _)
  · exact answer_ok (Nat.le_refl _)
  · exact answer_ok (Nat.le_refl _)
  · exact answer_ok (Nat.le_refl _)
  · exact (agree_grouping h).cons ht (by decide)
  · exact (agree_construction (n := n)).cons ht (by decide)
  · exact answer_failAt _ _

theorem chain_dot (inner : Parser Expr) (b : Nat) (node : Expr) (line : Nat) (rest : List Located) :
    chain inner (b + 1) node (⟨.symbol .dot, line⟩ :: rest) =
      (nameAs .memberName >>= fun member => chain inner b (.access node member line)) rest := rfl

theorem chain_lparen (inner : Parser Expr) (b : Nat) (node : Expr) (line : Nat)
    (rest : List Located) : chain inner (b + 1) node (⟨.symbol .lparen, line⟩ :: rest) =
      (list inner .rparen >>= fun arguments => chain inner b (.call node arguments line)) rest := rfl

theorem chain_of_ne (inner : Parser Expr) (b : Nat) (node : Expr) {t : Located}
    (hd : t.token ≠ .symbol .dot) (hp : t.token ≠ .symbol .lparen) (rest : List Located) :
    chain inner b node (t :: rest) = .ok node (t :: rest) := by
  unfold chain
  split
  · rename_i heq; cases heq; exact absurd rfl hd
  · rename_i heq; cases heq; exact absurd rfl hp
  · rfl

theorem agree_chain (h : Agree 1 n inner inner') :
    ∀ (b b' : Nat) (node : Expr) (toks : List Located), toks.length < n + 1 → toks.length ≤ b →
      toks.length ≤ b' → Answer 0 toks.length (chain inner b node toks) (chain inner' b' node toks)
  | b, b', node, [], _, _, _ => by
    cases b <;> cases b' <;> exact answer_ok (Nat.le_refl _)
  | 0, _, _, _ :: _, _, hb, _ => absurd hb (by simp)
  | _ + 1, 0, _, _ :: _, _, _, hb => absurd hb (by simp)
  | b + 1, b' + 1, node, ⟨token, line⟩ :: rest, ht, hb, hb' => by
    rw [List.length_cons] at hb hb'
    -- a point or a parenthesis is gone, so the bounds that are left suffice
    have next (node' : Expr) : Agree 0 (rest.length + 1 - 1) (chain inner b node')
        (chain inner' b' node') := fun ts hts =>
      agree_chain h b b' node' ts (by rw [List.length_cons] at ht; omega) (by omega) (by omega)
    by_cases hd : token = .symbol .dot
    · subst hd
      rw [chain_dot, chain_dot]
      exact ((agree_nameAs (n := rest.length + 1) _).bind fun _ => next _).cons
        (Nat.lt_succ_self _) (Nat.zero_le _)
    · by_cases hp : token = .symbol .lparen
      · subst hp
        rw [chain_lparen, chain_lparen]
        have hlist : Agree 1 (rest.length + 1) (list inner .rparen) (list inner' .rparen) :=
          (agree_list h .rparen).mono (Nat.le_refl _) (by rw [List.length_cons] at ht; omega)
        exact (hlist.bind fun _ => next _).cons (Nat.lt_succ_self _) (Nat.zero_le _)
      · rw [chain_of_ne _ _ _ hd hp, chain_of_ne _ _ _ hd hp]
        exact answer_ok (Nat.le_refl _)

theorem agree_postfixed (h : Agree 1 n inner inner') :
    Agree 1 (n + 1) (postfixed inner) (postfixed inner') :=
  (agree_primary h).bind (k := 0) fun node toks ht =>
    agree_chain h _ _ node toks (by omega) (Nat.le_refl _) (Nat.le_refl _)

theorem agree_assigned (h : Agree 1 n inner inner') (target : Expr) :
    Agree 0 (n + 1) (assigned inner target) (assigned inner' target) := by
  intro toks ht
  unfold assigned
  split
  · exact (h.bind fun _ => Agree.pure _).cons ht (by decide)
  · exact answer_ok (Nat.le_refl _)

theorem agree_endpoint (h : Agree 1 n inner inner') :
    Agree 1 (n + 1) (endpoint inner) (endpoint inner') :=
  (agree_postfixed h).bind (k := 0) fun target =>
    (agree_assigned h target).mono (Nat.le_refl _) (by omega)

end Endpoints

/-! ## Operations -/

section Operations

variable {operand operand' : Parser Expr} {n : Nat}

theorem agree_operations (operator? : Token → Option Operator) (h : Agree 1 n operand operand') :
    ∀ (b b' : Nat) (left : Expr) (toks : List Located), toks.length < n + 1 → toks.length ≤ b →
      toks.length ≤ b' → Answer 0 toks.length (operations operator? operand b left toks)
        (operations operator? operand' b' left toks)
  | b, b', left, [], _, _, _ => by
    cases b <;> cases b' <;> exact answer_ok (Nat.le_refl _)
  | 0, _, _, _ :: _, _, hb, _ => absurd hb (by simp)
  | _ + 1, 0, _, _ :: _, _, _, hb => absurd hb (by simp)
  | b + 1, b' + 1, left, t :: rest, ht, hb, hb' => by
    rw [List.length_cons] at hb hb'
    -- the operator is gone, so the bounds that are left suffice
    have next (left' : Expr) : Agree 0 (rest.length + 1 - 1) (operations operator? operand b left')
        (operations operator? operand' b' left') := fun ts hts =>
      agree_operations operator? h b b' left' ts (by rw [List.length_cons] at ht; omega) (by omega)
        (by omega)
    have hoperand : Agree 1 (rest.length + 1) operand operand' :=
      h.mono (Nat.le_refl _) (by rw [List.length_cons] at ht; omega)
    unfold operations
    split
    · exact (hoperand.bind fun _ => next _).cons (Nat.lt_succ_self _) (by decide)
    · exact answer_ok (Nat.le_refl _)

theorem agree_joined (operator? : Token → Option Operator) (h : Agree 1 n operand operand') :
    Agree 1 n (joined operator? operand) (joined operator? operand') :=
  h.bind (k := 0) fun first toks ht =>
    agree_operations operator? h _ _ first toks (by omega) (Nat.le_refl _) (Nat.le_refl _)

end Operations

/-! ## Whole expressions -/

theorem agree_additiveOver {inner inner' : Parser Expr} {n : Nat} (h : Agree 1 n inner inner') :
    Agree 1 (n + 1) (additiveOver inner) (additiveOver inner') :=
  agree_joined _ (agree_joined _ (agree_endpoint h))

theorem agree_expressionUpTo : ∀ (n d d' : Nat), n ≤ d → n ≤ d' →
    Agree 1 n (expressionUpTo d) (expressionUpTo d')
  | 0, _, _, _, _ => fun _ ht => absurd ht (Nat.not_lt_zero _)
  | _ + 1, 0, _, hd, _ => absurd hd (by simp)
  | _ + 1, _, 0, _, hd => absurd hd (by simp)
  | n + 1, d + 1, d' + 1, hd, hd' =>
    agree_additiveOver (agree_expressionUpTo n d d' (by omega) (by omega))

theorem agree_expression {n d : Nat} (h : n ≤ d) : Agree 1 n expression (expressionUpTo d) := by
  intro toks ht
  exact agree_expressionUpTo (toks.length + 1) _ _ (Nat.le_refl _) (by omega) toks
    (Nat.lt_succ_self _)

theorem expression_takes {n : Nat} : Agree 1 n expression expression := by
  intro toks ht
  obtain ⟨-, h⟩ := agree_expression (Nat.le_refl n) toks ht
  exact ⟨rfl, h⟩

/-- An expression, without a bound on its depth. -/
theorem expression_eq : expression = additiveOver expression := by
  funext toks
  -- the operands of an expression stand in fewer tokens, and need one level less
  have h : Agree 1 toks.length expression (expressionUpTo toks.length) :=
    agree_expression (Nat.le_refl _)
  exact (agree_additiveOver h toks (Nat.lt_succ_self _)).1.symm

/-- Reads all accesses and calls that follow an expression. -/
def following (node : Expr) : Parser Expr := fun toks => chain expression toks.length node toks

theorem postfixed_eq : postfixed expression = primary expression >>= following := rfl

theorem chain_eq_following {b : Nat} {node : Expr} {toks : List Located} (h : toks.length ≤ b) :
    chain expression b node toks = following node toks :=
  (agree_chain (expression_takes (n := toks.length)) b toks.length node toks (Nat.lt_succ_self _) h
    (Nat.le_refl _)).1

theorem following_dot (node : Expr) (line : Nat) (rest : List Located) :
    following node (⟨.symbol .dot, line⟩ :: rest) =
      (nameAs .memberName >>= fun member => following (.access node member line)) rest := by
  unfold following
  rw [List.length_cons, chain_dot]
  refine bind_congr_ok fun member mid h => chain_eq_following ?_
  obtain ⟨_, rfl⟩ := nameAs_eq_ok h
  simp

theorem following_lparen (node : Expr) (line : Nat) (rest : List Located) :
    following node (⟨.symbol .lparen, line⟩ :: rest) =
      (list expression .rparen >>= fun arguments => following (.call node arguments line)) rest := by
  unfold following
  rw [List.length_cons, chain_lparen]
  refine bind_congr_ok fun arguments mid h => chain_eq_following ?_
  have := (agree_list (expression_takes (n := rest.length + 1)) .rparen rest (by omega)).2 _ _ h
  omega

theorem following_of_ne (node : Expr) {t : Located} (hd : t.token ≠ .symbol .dot)
    (hp : t.token ≠ .symbol .lparen) (rest : List Located) :
    following node (t :: rest) = .ok node (t :: rest) := chain_of_ne _ _ _ hd hp rest

/-- Reads all operators and operands that follow a first operand. -/
def operationsAll (operator? : Token → Option Operator) (operand : Parser Expr) (left : Expr) :
    Parser Expr := fun toks => operations operator? operand toks.length left toks

theorem joined_eq (operator? : Token → Option Operator) (operand : Parser Expr) :
    joined operator? operand = operand >>= operationsAll operator? operand := rfl

theorem operationsAll_of_none {operator? : Token → Option Operator} {t : Located}
    (h : operator? t.token = none) (operand : Parser Expr) (left : Expr) (rest : List Located) :
    operationsAll operator? operand left (t :: rest) = .ok left (t :: rest) := by
  simp only [operationsAll, List.length_cons, operations, h]

theorem operationsAll_of_some {operator? : Token → Option Operator} {t : Located} {op : Operator}
    (h : operator? t.token = some op) {operand : Parser Expr}
    (ho : ∀ n, Agree 1 n operand operand) (left : Expr) (rest : List Located) :
    operationsAll operator? operand left (t :: rest) =
      (operand >>= fun right => operationsAll operator? operand (.binary op left right t.line))
        rest := by
  simp only [operationsAll, List.length_cons, operations, h]
  refine bind_congr_ok fun right mid hr => ?_
  have hmid := (ho (rest.length + 1) rest (Nat.lt_succ_self _)).2 _ _ hr
  exact (agree_operations operator? (ho (mid.length + 1)) rest.length mid.length _ mid (by omega)
    (by omega) (Nat.le_refl _)).1

theorem endpoint_takes {n : Nat} : Agree 1 n (endpoint expression) (endpoint expression) :=
  (agree_endpoint expression_takes).mono (Nat.le_refl _) (Nat.le_succ _)

theorem multiplicative_takes {n : Nat} : Agree 1 n multiplicative multiplicative :=
  agree_joined _ endpoint_takes

/-! ## Repetitions in statements -/

theorem brackets_lbracket (b line : Nat) (rest : List Located) :
    brackets (b + 1) (⟨.symbol .lbracket, line⟩ :: rest) =
      (symbol .rbracket >>= fun _ => (· + 1) <$> brackets b) rest := rfl

theorem brackets_of_ne (b : Nat) {t : Located} (h : t.token ≠ .symbol .lbracket)
    (rest : List Located) : brackets b (t :: rest) = .ok 0 (t :: rest) := by
  unfold brackets
  split
  · rename_i heq; cases heq; exact absurd rfl h
  · rfl

theorem agree_brackets : ∀ (b b' : Nat) (toks : List Located), toks.length ≤ b →
    toks.length ≤ b' → Answer 0 toks.length (brackets b toks) (brackets b' toks)
  | b, b', [], _, _ => by cases b <;> cases b' <;> exact answer_ok (Nat.le_refl _)
  | 0, _, _ :: _, hb, _ => absurd hb (by simp)
  | _ + 1, 0, _ :: _, _, hb => absurd hb (by simp)
  | b + 1, b' + 1, ⟨token, line⟩ :: rest, hb, hb' => by
    rw [List.length_cons] at hb hb'
    have next : Agree 0 (rest.length + 1 - 1) (brackets b) (brackets b') := fun ts hts =>
      agree_brackets b b' ts (by omega) (by omega)
    by_cases h : token = .symbol .lbracket
    · subst h
      rw [brackets_lbracket, brackets_lbracket]
      exact ((agree_expect (n := rest.length + 1) _).bind fun _ => next.map).cons
        (Nat.lt_succ_self _) (Nat.zero_le _)
    · rw [brackets_of_ne _ h, brackets_of_ne _ h]
      exact answer_ok (Nat.le_refl _)

/-- Reads all pairs of brackets. -/
def bracketsAll : Parser Nat := fun toks => brackets toks.length toks

theorem bracketsAll_lbracket (line : Nat) (rest : List Located) :
    bracketsAll (⟨.symbol .lbracket, line⟩ :: rest) =
      (symbol .rbracket >>= fun _ => (· + 1) <$> bracketsAll) rest := by
  unfold bracketsAll
  rw [List.length_cons, brackets_lbracket]
  refine bind_congr_ok fun _ mid h => map_congr ?_
  rw [expect_eq_ok h, List.length_cons]
  exact (agree_brackets _ _ mid (Nat.le_succ _) (Nat.le_refl _)).1

theorem agree_typeName {n : Nat} : Agree 1 n typeName typeName :=
  (agree_nameAs _).bind fun _ => (Agree.bind (j := 0) (k := 0)
    (fun toks _ => agree_brackets _ _ toks (Nat.le_refl _) (Nat.le_refl _)) fun _ => Agree.pure _)

theorem typeName_eq : typeName = identifier >>= fun name =>
    bracketsAll >>= fun dimensions => pure ⟨name, dimensions⟩ := rfl

theorem segments_step (b : Nat) (n : String) (l l' : Nat) (rest : List Located) :
    segments (b + 1) (⟨.name n, l⟩ :: ⟨.symbol .dot, l'⟩ :: rest) =
      ((.name n :: ·) <$> segments b) rest := rfl

theorem segments_star (b l : Nat) (rest : List Located) :
    segments b (⟨.symbol .star, l⟩ :: rest) = .ok [.wildcard] rest := by
  cases b <;> rfl

theorem segments_last (b : Nat) (n : String) (l : Nat) {rest : List Located}
    (h : ∀ l' ts, rest ≠ ⟨.symbol .dot, l'⟩ :: ts) :
    segments b (⟨.name n, l⟩ :: rest) = .ok [.name n] rest := by
  unfold segments
  split
  · rename_i heq; cases heq
  · rename_i heq; cases heq; exact absurd rfl (h _ _)
  · rename_i heq; cases heq; rfl
  · rename_i hn _; exact absurd rfl (hn _ _ _)

theorem segments_failAt (b : Nat) {toks : List Located}
    (hn : ∀ n l ts, toks ≠ ⟨.name n, l⟩ :: ts) (hs : ∀ l ts, toks ≠ ⟨.symbol .star, l⟩ :: ts) :
    segments b toks = failAt .pathSegment toks := by
  unfold segments
  split
  · exact absurd rfl (hs _ _)
  · exact absurd rfl (hn _ _ _)
  · exact absurd rfl (hn _ _ _)
  · rfl

/-- How a path can start. -/
theorem path_cases (toks : List Located) :
    (∃ l ts, toks = ⟨.symbol .star, l⟩ :: ts) ∨
    (∃ n l l' ts, toks = ⟨.name n, l⟩ :: ⟨.symbol .dot, l'⟩ :: ts) ∨
    (∃ n l ts, toks = ⟨.name n, l⟩ :: ts ∧ ∀ l' us, ts ≠ ⟨.symbol .dot, l'⟩ :: us) ∨
    ((∀ n l ts, toks ≠ ⟨.name n, l⟩ :: ts) ∧ ∀ l ts, toks ≠ ⟨.symbol .star, l⟩ :: ts) := by
  by_cases hs : ∃ l ts, toks = ⟨.symbol .star, l⟩ :: ts
  · exact Or.inl hs
  · by_cases hn : ∃ n l ts, toks = ⟨.name n, l⟩ :: ts
    · obtain ⟨n, l, ts, rfl⟩ := hn
      by_cases hd : ∃ l' us, ts = ⟨.symbol .dot, l'⟩ :: us
      · obtain ⟨l', us, rfl⟩ := hd
        exact Or.inr (Or.inl ⟨n, l, l', us, rfl⟩)
      · exact Or.inr (Or.inr (Or.inl ⟨n, l, ts, rfl, fun l' us h => hd ⟨l', us, h⟩⟩))
    · exact Or.inr (Or.inr (Or.inr ⟨fun n l ts h => hn ⟨n, l, ts, h⟩, fun l ts h => hs ⟨l, ts, h⟩⟩))

theorem agree_segments : ∀ (b b' : Nat) (toks : List Located), toks.length ≤ b →
    toks.length ≤ b' → Answer 1 toks.length (segments b toks) (segments b' toks)
  | b, b', toks, hb, hb' => by
    obtain ⟨l, ts, rfl⟩ | ⟨n, l, l', ts, rfl⟩ | ⟨n, l, ts, rfl, h⟩ | ⟨hn, hs⟩ := path_cases toks
    · rw [segments_star, segments_star]
      exact answer_ok (Nat.le_refl _)
    · cases b with
      | zero => exact absurd hb (by simp)
      | succ b =>
        cases b' with
        | zero => exact absurd hb' (by simp)
        | succ b' =>
          rw [List.length_cons, List.length_cons] at hb hb'
          rw [segments_step, segments_step]
          have next : Agree 1 (ts.length + 1) (segments b) (segments b') := fun us hus =>
            agree_segments b b' us (by omega) (by omega)
          obtain ⟨h1, h2⟩ := next.map (f := (Segment.name n :: ·)) ts (Nat.lt_succ_self _)
          exact ⟨h1, fun a r ha => by have := h2 a r ha; simp only [List.length_cons]; omega⟩
    · rw [segments_last _ _ _ h, segments_last _ _ _ h]
      exact answer_ok (Nat.le_refl _)
    · rw [segments_failAt _ hn hs, segments_failAt _ hn hs]
      exact answer_failAt _ _

/-- Reads all steps of a path. -/
def segmentsAll : Parser (List Segment) := fun toks => segments toks.length toks

theorem segmentsAll_step (n : String) (l l' : Nat) (rest : List Located) :
    segmentsAll (⟨.name n, l⟩ :: ⟨.symbol .dot, l'⟩ :: rest) =
      ((.name n :: ·) <$> segmentsAll) rest := by
  unfold segmentsAll
  rw [List.length_cons, segments_step]
  refine map_congr (agree_segments _ _ rest ?_ (Nat.le_refl _)).1
  exact Nat.le_succ _

/-! ## Statements -/

theorem importPath_eq : importPath = keyword .importKw >>= fun line => segmentsAll >>= fun path =>
    symbol .semicolon >>= fun _ => pure (.importPath path line) := rfl

theorem agree_importPath {n : Nat} : Agree 1 n importPath importPath :=
  (agree_expect _).bind (k := 0) fun _ => (Agree.bind (j := 0) (k := 0) (fun toks _ =>
      let ⟨h1, h2⟩ := agree_segments _ _ toks (Nat.le_refl _) (Nat.le_refl _)
      ⟨h1, fun a r ha => by have := h2 a r ha; omega⟩)
    fun _ => ((agree_expect _).bind fun _ => Agree.pure _).mono (Nat.zero_le _) (Nat.le_refl _))

theorem agree_initializer {n : Nat} : Agree 0 n initializer initializer := by
  intro toks _
  unfold initializer
  split
  · exact (expression_takes.map (n := _)).cons (Nat.lt_succ_self _) (Nat.zero_le _)
  · exact answer_ok (Nat.le_refl _)

theorem agree_declaration {n : Nat} : Agree 1 n declaration declaration :=
  .onLine fun _ => agree_typeName.bind (k := 0) fun _ => ((agree_nameAs _).bind fun _ =>
    agree_initializer.bind fun _ => (agree_expect _).bind fun _ => Agree.pure _).mono
      (Nat.zero_le _) (Nat.le_refl _)

theorem agree_expressionStatement {n : Nat} : Agree 1 n expressionStatement expressionStatement :=
  .onLine fun _ => expression_takes.bind (k := 0) fun _ =>
    ((agree_expect _).bind fun _ => Agree.pure _).mono (Nat.zero_le _) (Nat.le_refl _)

theorem agree_simpleStatement {n : Nat} : Agree 1 n simpleStatement simpleStatement := by
  refine .of_takes fun toks a rest h => ?_
  unfold simpleStatement at h
  split at h
  · rename_i ha
    cases h
    exact (agree_declaration toks (Nat.lt_succ_self _)).2 _ _ ha
  · exact (agree_expressionStatement toks (Nat.lt_succ_self _)).2 _ _ h

/-! ## Blocks -/

/-- Reads items up to a closing brace, at most `bound` of them. -/
def untilClose (item : Parser α) (missing : Expectation) : Nat → Parser (List α)
  | _, [] => failAt missing []
  | bound, t :: rest =>
    if t.token = .symbol .rbrace then .ok [] rest
    else
      match bound with
      | 0 => failAt missing (t :: rest)
      | bound + 1 =>
        (item >>= fun first => untilClose item missing bound >>= fun others =>
          pure (first :: others)) (t :: rest)

/-- What stops at a closing brace and at the end, and otherwise reads an item and goes on with one
less, is `untilClose`. -/
theorem eq_untilClose {g : Nat → Parser (List α)} {item : Parser α} {missing : Expectation}
    (hclose : ∀ b l rest, g b (⟨.symbol .rbrace, l⟩ :: rest) = .ok [] rest)
    (hend : ∀ b, g b [] = failAt missing [])
    (hbound : ∀ t rest, t.token ≠ .symbol .rbrace → g 0 (t :: rest) = failAt missing (t :: rest))
    (hstep : ∀ b t rest, t.token ≠ .symbol .rbrace → g (b + 1) (t :: rest) =
      (item >>= fun first => g b >>= fun others => pure (first :: others)) (t :: rest)) (b : Nat) :
    g b = untilClose item missing b := by
  induction b with
  | zero =>
    funext toks
    rcases toks with _ | ⟨t, rest⟩
    · exact hend 0
    · by_cases ht : t.token = .symbol .rbrace
      · obtain ⟨_, l⟩ := t
        cases ht
        exact hclose 0 l rest
      · rw [hbound t rest ht, untilClose, if_neg ht]
  | succ b ih =>
    funext toks
    rcases toks with _ | ⟨t, rest⟩
    · exact hend (b + 1)
    · by_cases ht : t.token = .symbol .rbrace
      · obtain ⟨_, l⟩ := t
        cases ht
        exact hclose (b + 1) l rest
      · rw [hstep b t rest ht, untilClose, if_neg ht, ih]

theorem statementsToClose_eq (inner : Parser Statement) (b : Nat) :
    statementsToClose inner b = untilClose inner (.token (.symbol .rbrace)) b := by
  refine eq_untilClose (fun b _ _ => ?_) (fun b => ?_) (fun t rest ht => ?_) (fun b t rest ht => ?_) b
  · cases b <;> rfl
  · cases b <;> rfl
  · rw [statementsToClose]
    · exact fun l r h => ht (by cases h; rfl)
    · exact fun _ _ _ h => nomatch h
  · rw [statementsToClose]
    exact fun l h => ht (by rw [h])

theorem methodsToClose_eq (inner : Parser Statement) (b : Nat) :
    methodsToClose inner b = untilClose (methodOver inner) .methodOrClose b := by
  refine eq_untilClose (fun b _ _ => ?_) (fun b => ?_) (fun t rest ht => ?_) (fun b t rest ht => ?_) b
  · cases b <;> rfl
  · cases b <;> rfl
  · rw [methodsToClose]
    · exact fun l r h => ht (by cases h; rfl)
    · exact fun _ _ _ h => nomatch h
  · rw [methodsToClose]
    exact fun l h => ht (by rw [h])

theorem agree_untilClose {item item' : Parser α} {n : Nat} (h : Agree 1 n item item')
    (missing : Expectation) : ∀ (b b' : Nat) (toks : List Located), toks.length < n →
      toks.length ≤ b → toks.length ≤ b' →
      Answer 0 toks.length (untilClose item missing b toks) (untilClose item' missing b' toks)
  | b, b', [], _, _, _ => by cases b <;> cases b' <;> exact answer_failAt _ _
  | 0, _, _ :: _, _, hb, _ => absurd hb (by simp)
  | _ + 1, 0, _ :: _, _, _, hb => absurd hb (by simp)
  | b + 1, b' + 1, t :: rest, ht, hb, hb' => by
    rw [untilClose, untilClose]
    split
    · exact answer_ok (Nat.le_succ _)
    · rw [List.length_cons] at hb hb'
      -- an item takes at least one token, so the bounds that are left suffice
      have next : Agree 0 (rest.length + 2 - 1) (untilClose item missing b)
          (untilClose item' missing b') := fun ts hts =>
        agree_untilClose h missing b b' ts (by rw [List.length_cons] at ht; omega) (by omega)
          (by omega)
      have hitem : Agree 1 (rest.length + 2) item item' :=
        h.mono (Nat.le_refl _) (by rw [List.length_cons] at ht; omega)
      exact (hitem.bind fun _ => next.bind fun _ => Agree.pure _).mono (Nat.zero_le _)
        (Nat.le_refl _) _ (Nat.lt_succ_self _)

/-- Reads items up to a closing brace. -/
def untilCloseAll (item : Parser α) (missing : Expectation) : Parser (List α) := fun toks =>
  untilClose item missing toks.length toks

theorem agree_untilCloseAll {item item' : Parser α} {n : Nat} (h : Agree 1 n item item')
    (missing : Expectation) :
    Agree 0 n (untilCloseAll item missing) (untilCloseAll item' missing) := fun toks ht =>
  agree_untilClose h missing _ _ toks ht (Nat.le_refl _) (Nat.le_refl _)

theorem untilCloseAll_rbrace (item : Parser α) (missing : Expectation) (l : Nat)
    (rest : List Located) :
    untilCloseAll item missing (⟨.symbol .rbrace, l⟩ :: rest) = .ok [] rest := rfl

theorem untilCloseAll_of_ne {item : Parser α} (hi : ∀ n, Agree 1 n item item)
    (missing : Expectation) {t : Located} (h : t.token ≠ .symbol .rbrace) (rest : List Located) :
    untilCloseAll item missing (t :: rest) =
      (item >>= fun first => untilCloseAll item missing >>= fun others => pure (first :: others))
        (t :: rest) := by
  rw [untilCloseAll, List.length_cons, untilClose, if_neg h]
  refine bind_congr_ok fun first mid hm => ?_
  have hmid := (hi _ _ (Nat.lt_succ_self _)).2 _ _ hm
  rw [List.length_cons] at hmid
  rw [bind_apply, bind_apply,
    (agree_untilClose (hi (mid.length + 1)) missing rest.length mid.length mid (by omega) (by omega)
      (Nat.le_refl _)).1]
  rfl

/-! ## Classes -/

section Classes

variable {inner inner' : Parser Statement} {n : Nat}

theorem blockOver_eq (inner : Parser Statement) :
    blockOver inner = untilCloseAll inner (.token (.symbol .rbrace)) := by
  funext toks
  rw [blockOver, statementsToClose_eq, untilCloseAll]

theorem agree_access : Agree 0 n access access := by
  refine .of_takes fun toks a rest h => ?_
  unfold access at h
  split at h <;> cases h <;> simp

theorem agree_staticWord : Agree 0 n staticWord staticWord := by
  refine .of_takes fun toks a rest h => ?_
  unfold staticWord at h
  split at h <;> cases h <;> simp

theorem agree_parameter : Agree 1 n parameter parameter :=
  agree_typeName.bind (k := 0) fun _ =>
    ((agree_nameAs _).bind fun _ => Agree.pure _).mono (Nat.zero_le _) (Nat.le_refl _)

theorem agree_distinctParameters (s : Signature) :
    Agree 0 n (distinctParameters s) (distinctParameters s) := by
  refine .of_takes fun toks a rest h => ?_
  unfold distinctParameters at h
  split at h <;> cases h
  exact Nat.le_refl _

theorem agree_signature : Agree 1 n signature signature :=
  .onLine fun _ => (agree_access.bind fun _ => agree_staticWord.bind fun _ =>
    agree_typeName.bind fun _ => (agree_nameAs _).bind fun _ => (agree_expect _).bind fun _ =>
      (agree_list agree_parameter .rparen).bind fun _ => Agree.pure _).mono (by decide)
        (Nat.le_refl _)

theorem agree_methodOver (h : Agree 1 n inner inner') :
    Agree 1 (n + 1) (methodOver inner) (methodOver inner') :=
  (agree_signature.bind fun s => (agree_distinctParameters s).bind fun _ =>
    (agree_expect _).bind fun _ => (blockOver_eq inner ▸ blockOver_eq inner' ▸
      (agree_untilCloseAll h _).mono (Nat.le_refl _) (by omega)).bind
      fun _ => Agree.pure _).mono (by decide) (Nat.le_refl _)

/-- A class with its methods read without a bound. -/
theorem classOver_eq (inner : Parser Statement) : classOver inner = access >>= fun _ =>
    keyword .classKw >>= fun line => identifier >>= fun name => symbol .lbrace >>= fun _ =>
      untilCloseAll (methodOver inner) .methodOrClose >>= fun methods =>
        pure (.declareClass name methods line) := by
  have h : (fun toks => methodsToClose inner toks.length toks : Parser _) =
      untilCloseAll (methodOver inner) .methodOrClose := by
    funext toks
    rw [methodsToClose_eq, untilCloseAll]
  rw [← h]
  rfl

theorem agree_classOver (h : Agree 1 n inner inner') :
    Agree 1 (n + 1) (classOver inner) (classOver inner') := by
  rw [classOver_eq, classOver_eq]
  exact (agree_access.bind fun _ => (agree_expect _).bind fun _ => (agree_nameAs _).bind fun _ =>
    (agree_expect _).bind fun _ => ((agree_untilCloseAll (agree_methodOver h) _).mono
      (Nat.le_refl _) (by omega)).bind fun _ => Agree.pure _).mono (by decide) (Nat.le_refl _)

end Classes

/-! ## Whole statements -/

theorem agree_statementOver {inner inner' : Parser Statement} {n : Nat}
    (h : Agree 1 n inner inner') : Agree 1 (n + 1) (statementOver inner) (statementOver inner') := by
  intro toks ht
  unfold statementOver
  split
  · exact answer_failAt _ _
  · split
    · exact agree_importPath _ ht
    · exact agree_classOver h _ ht
    · exact agree_classOver h _ ht
    · exact agree_classOver h _ ht
    · exact agree_classOver h _ ht
    · exact agree_simpleStatement _ ht

theorem agree_statementUpTo : ∀ (n d d' : Nat), n ≤ d → n ≤ d' →
    Agree 1 n (statementUpTo d) (statementUpTo d')
  | 0, _, _, _, _ => fun _ ht => absurd ht (Nat.not_lt_zero _)
  | _ + 1, 0, _, hd, _ => absurd hd (by simp)
  | _ + 1, _, 0, _, hd => absurd hd (by simp)
  | n + 1, d + 1, d' + 1, hd, hd' =>
    agree_statementOver (agree_statementUpTo n d d' (by omega) (by omega))

theorem agree_statement {n d : Nat} (h : n ≤ d) : Agree 1 n statement (statementUpTo d) := by
  intro toks ht
  exact agree_statementUpTo (toks.length + 1) _ _ (Nat.le_refl _) (by omega) toks
    (Nat.lt_succ_self _)

theorem statement_takes {n : Nat} : Agree 1 n statement statement := by
  intro toks ht
  obtain ⟨-, h⟩ := agree_statement (Nat.le_refl n) toks ht
  exact ⟨rfl, h⟩

/-- A statement, without a bound on its depth. -/
theorem statement_eq : statement = statementOver statement := by
  funext toks
  have h : Agree 1 toks.length statement (statementUpTo toks.length) :=
    agree_statement (Nat.le_refl _)
  exact (agree_statementOver h toks (Nat.lt_succ_self _)).1.symm

theorem method_takes {n : Nat} : Agree 1 n method method :=
  (agree_methodOver statement_takes).mono (Nat.le_refl _) (Nat.le_succ _)

/-! ## Whole programs -/

/-- Reads statements up to the end and adds the start of the program. -/
def statementsAll : Parser (List Statement) := fun toks => statementsToEnd toks.length toks

theorem statementsToEnd_nil (b : Nat) : statementsToEnd b [] = .ok [.entry] [] := by
  cases b <;> rfl

theorem statementsToEnd_cons (b : Nat) (t : Located) (rest : List Located) :
    statementsToEnd (b + 1) (t :: rest) = (statement >>= fun first =>
      statementsToEnd b >>= fun others => pure (first :: others)) (t :: rest) := rfl

theorem statementsToEnd_bound : ∀ (b b' : Nat) (toks : List Located), toks.length ≤ b →
    toks.length ≤ b' → statementsToEnd b toks = statementsToEnd b' toks
  | b, b', [], _, _ => by rw [statementsToEnd_nil, statementsToEnd_nil]
  | 0, _, _ :: _, hb, _ => absurd hb (by simp)
  | _ + 1, 0, _ :: _, _, hb => absurd hb (by simp)
  | b + 1, b' + 1, t :: rest, hb, hb' => by
    rw [List.length_cons] at hb hb'
    rw [statementsToEnd_cons, statementsToEnd_cons]
    refine bind_congr_ok fun first mid hm => ?_
    have hmid := (statement_takes _ (Nat.lt_succ_self _)).2 _ _ hm
    rw [List.length_cons] at hmid
    rw [bind_apply, bind_apply, statementsToEnd_bound b b' mid (by omega) (by omega)]

theorem statementsAll_nil : statementsAll [] = .ok [.entry] [] := rfl

theorem statementsAll_cons (t : Located) (rest : List Located) :
    statementsAll (t :: rest) = (statement >>= fun first =>
      statementsAll >>= fun others => pure (first :: others)) (t :: rest) := by
  rw [statementsAll, List.length_cons, statementsToEnd_cons]
  refine bind_congr_ok fun first mid hm => ?_
  have hmid := (statement_takes _ (Nat.lt_succ_self _)).2 _ _ hm
  rw [List.length_cons] at hmid
  rw [bind_apply, bind_apply, statementsToEnd_bound rest.length mid.length mid (by omega)
    (Nat.le_refl _)]
  rfl

end SmallJava.Parser
