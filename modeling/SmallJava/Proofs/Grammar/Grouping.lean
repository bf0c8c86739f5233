/-
Groupings: the ways to put the chains and signs of an expression together into a tree. Of these one
is the documented one: the value of an assignment reaches as far right as the expression does, its
target is a chain, products bind tighter than sums, and operators of one level go from the left.
Main statement: a documented grouping that goes on with a sign and a chain can be regrouped.
-/
import SmallJava.Proofs.Grammar.Written

namespace SmallJava

/-! ## Levels -/

/-- How tightly a sign binds: assignments least, then sums, then products. -/
def Operator.level : Operator → Nat
  | sum | difference => 1
  | product | quotient | remainder => 2

/-- How tightly a sign binds; an assignment binds least. -/
def Sign.level : Sign → Nat
  | assignment => 0
  | operator op => op.level

theorem Operator.level_eq (op : Operator) : op.level = 1 ∨ op.level = 2 := by
  cases op <;> simp [Operator.level]

/-! ## Groupings -/

/-- A tree over chains, which are given by the expressions they read as. -/
inductive Grouping
  | chain (e : Expr)
  | operation (sign : Sign) (line : Nat) (left right : Grouping)

namespace Grouping

/-- The expression a grouping stands for. -/
def expr : Grouping → Expr
  | chain e => e
  | operation .assignment line left right => .assign left.expr right.expr line
  | operation (.operator op) line left right => .binary op left.expr right.expr line

/-- The level of the last sign applied; a chain binds tightest. -/
def level : Grouping → Nat
  | chain _ => 3
  | operation sign .. => sign.level

/-- Whether an assignment reaches the right end of a grouping. -/
def endsInAssignment : Grouping → Bool
  | chain _ => false
  | operation .assignment .. => true
  | operation (.operator _) _ _ right => right.endsInAssignment

/-- When two groupings are the operands of a sign. -/
structure Fits (sign : Sign) (left right : Grouping) : Prop where
  /-- The value of an assignment on the left would have reached over the sign. -/
  reach : left.endsInAssignment = false
  /-- A target is the chain before its sign. -/
  target : sign = .assignment → ∃ e, left = chain e
  /-- A sum is no operand of a product. -/
  tighter : sign.level = 2 → left.level ≠ 1 ∧ right.level ≠ 1
  /-- Of operators of one level the last one is applied last. -/
  leftward : sign ≠ .assignment → right.level ≠ sign.level

/-- Whether every sign of a grouping has the operands it should. -/
def Documented : Grouping → Prop
  | chain _ => True
  | operation sign _ left right => left.Documented ∧ right.Documented ∧ Fits sign left right

/-! ## One more chain -/

/-- The documented grouping of the same chains and signs with one sign and one chain more. -/
def snoc (sign : Sign) (line : Nat) (c : Expr) : Grouping → Grouping
  | chain e => operation sign line (chain e) (chain c)
  | operation s l left right =>
    if s = .assignment ∨ right.endsInAssignment ∨ sign = .assignment ∨ s.level < sign.level then
      operation s l left (right.snoc sign line c)
    else operation sign line (operation s l left right) (chain c)

theorem endsInAssignment_operator {s : Sign} (h : s ≠ .assignment) (l : Nat)
    (left right : Grouping) :
    (operation s l left right).endsInAssignment = right.endsInAssignment := by
  cases s with
  | assignment => exact absurd rfl h
  | operator op => rfl

theorem level_pos_of_ends {g : Grouping} (h : g.level = 0) : g.endsInAssignment = true := by
  match g with
  | operation .assignment .. => rfl
  | operation (.operator op) .. =>
    rcases op.level_eq with h' | h' <;> rw [level, Sign.level, h'] at h <;> cases h

theorem level_snoc_of_ends {g : Grouping} (h : g.endsInAssignment = true) (sign : Sign)
    (line : Nat) (c : Expr) : (g.snoc sign line c).level = g.level := by
  match g with
  | operation .assignment l left right => rfl
  | operation (.operator op) l left right =>
    have hr : right.endsInAssignment = true := h
    rw [snoc, if_pos (Or.inr (Or.inl hr))]
    rfl

theorem level_snoc (sign : Sign) (line : Nat) (c : Expr) (g : Grouping) :
    (g.snoc sign line c).level = g.level ∨ (g.snoc sign line c).level = sign.level := by
  cases g with
  | chain e => exact Or.inr rfl
  | operation s l left right =>
    rw [snoc]
    split
    · exact Or.inl rfl
    · exact Or.inr rfl

/-- Where the last chain goes into the right operand, its level stays fit for the sign. -/
theorem fits_snoc {s sign : Sign} {line : Nat} {c : Expr} {left right : Grouping}
    (h : Fits s left right) (hc : s = .assignment ∨ right.endsInAssignment = true ∨
      sign = .assignment ∨ s.level < sign.level) : Fits s left (right.snoc sign line c) := by
  have hlevel : s ≠ .assignment → (right.snoc sign line c).level = right.level ∨
      (right.snoc sign line c).level = 0 ∨
      ((right.snoc sign line c).level = 2 ∧ s.level = 1) := by
    intro hs
    rcases hc with hc | hc | rfl | hc
    · exact absurd hc hs
    · exact Or.inl (level_snoc_of_ends hc sign line c)
    · rcases level_snoc .assignment line c right with h' | h'
      · exact Or.inl h'
      · exact Or.inr (Or.inl h')
    · rcases level_snoc sign line c right with h' | h'
      · exact Or.inl h'
      · cases s with
        | assignment => exact absurd rfl hs
        | operator op =>
          cases sign with
          | assignment => cases hc
          | operator op' =>
            simp only [Sign.level] at hc h' ⊢
            rcases op.level_eq with h1 | h1 <;> rcases op'.level_eq with h2 | h2 <;> omega
  refine ⟨h.reach, h.target, fun hs => ⟨(h.tighter hs).1, ?_⟩, fun hs => ?_⟩
  · have hne : s ≠ .assignment := by rintro rfl; cases hs
    have := (h.tighter hs).2
    rcases hlevel hne with h' | h' | ⟨-, h'⟩ <;> omega
  · have := h.leftward hs
    have hpos : s.level ≠ 0 := by
      cases s with
      | assignment => exact absurd rfl hs
      | operator op => rcases op.level_eq with h' | h' <;> simp [Sign.level, h']
    rcases hlevel hs with h' | h' | ⟨h', h''⟩ <;> omega

/-- Chains are operands of every sign. -/
theorem fits_chains (sign : Sign) (e c : Expr) : Fits sign (chain e) (chain c) := by
  refine ⟨rfl, fun _ => ⟨e, rfl⟩, fun _ => ⟨by simp [level], by simp [level]⟩, fun _ => ?_⟩
  cases sign with
  | assignment => simp [level, Sign.level]
  | operator op => rcases op.level_eq with h | h <;> simp [level, Sign.level, h]

theorem documented_snoc (sign : Sign) (line : Nat) (c : Expr) :
    ∀ {g : Grouping}, g.Documented → (g.snoc sign line c).Documented
  | chain e, _ => ⟨trivial, trivial, fits_chains sign e c⟩
  | operation s l left right, ⟨hl, hr, fits⟩ => by
    rw [snoc]
    split
    · rename_i hc
      exact ⟨hl, documented_snoc sign line c hr, fits_snoc fits hc⟩
    · rename_i hc
      simp only [not_or, Bool.not_eq_true, Nat.not_lt] at hc
      obtain ⟨hs, hright, hsign, hle⟩ := hc
      refine ⟨⟨hl, hr, fits⟩, trivial, ?_, fun h => absurd h hsign, fun h => ⟨?_, by simp [level]⟩,
        fun _ => ?_⟩
      · rw [endsInAssignment_operator hs, hright]
      · simp only [level]; omega
      · cases sign with
        | assignment => exact absurd rfl hsign
        | operator op => rcases op.level_eq with h | h <;> simp [level, Sign.level, h]

end Grouping

end SmallJava
