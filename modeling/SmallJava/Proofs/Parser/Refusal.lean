/-
Refusals of the parsers: where a parser fails, what it took can be completed, the failure is about
the next token, and no token behind that one makes the parser go on. Main statement:
`expression_refusesAt`, every failure of the parser of expressions is such a refusal.

A refusal is stated of the lists `L` that the tokens taken are to be completed to, so that a parser
inside another one is asked about lists with the tokens before it in front. The exception is left
open here for statements, where tokens are read twice: there the next token may still start a
declaration.
-/
import SmallJava.Proofs.Grammar.Loose
import SmallJava.Proofs.Parser.Language

namespace SmallJava

open Derivation (words words_append words_cons lineOf)
open Grammar.Loose (StartsDeclaration)

/-- The failure is about the first of the tokens, or about there being none. -/
def ParseError.Describes (rest : List Located) : ParseError → Prop
  | unexpected _ found line => ∃ after, rest = ⟨found, line⟩ :: after
  | endOfInput _ => rest = []
  | duplicateParameter .. => True

namespace Parser

variable {α β : Type}

/-! ## Settled answers and refusals -/

/-- The parser reads the value off these tokens, whatever stands behind the next one. -/
def Settled (p : Parser α) (used : List Located) (a : α) (rest : List Located) : Prop :=
  ∀ us, us.head? = rest.head? → p (used ++ us) = .ok a us

/-- What the parser reads is settled, and one of the given lists. -/
def Settles (I : List Token → Prop) (p : Parser α) : Prop :=
  ∀ toks a mid, p toks = .ok a mid →
    ∃ used, toks = used ++ mid ∧ Settled p used a mid ∧ I (words used)

/-- The parser took these tokens and fails in front of the others. -/
structure Refusal (L : List Token → Prop) (p : Parser α) (e : ParseError)
    (used rest : List Located) : Prop where
  describes : e.Describes rest
  begins : ∃ us, L (words used ++ us)
  ahead : (∀ us, us.head? = rest.head? → p (used ++ us) = .error e us) ∨
    ∃ t after, rest = t :: after ∧ StartsDeclaration L (words used) t.token

/-- A failure on the given tokens is a refusal. -/
def RefusesAt (L : List Token → Prop) (p : Parser α) (toks : List Located) : Prop :=
  ∀ e rest, p toks = .error e rest → ∃ used, toks = used ++ rest ∧ Refusal L p e used rest

/-- A failure on fewer than `N` tokens is a refusal. -/
def Refuses (N : Nat) (L : List Token → Prop) (p : Parser α) : Prop :=
  ∀ toks, toks.length < N → RefusesAt L p toks

theorem head_append {us rest : List Located} (h : us.head? = rest.head?) (used : List Located) :
    (used ++ us).head? = (used ++ rest).head? := by
  rw [List.head?_append, List.head?_append, h]

theorem eq_cons_of_head {us rest : List Located} {t : Located}
    (h : us.head? = (t :: rest).head?) : ∃ vs, us = t :: vs :=
  List.head?_eq_some_iff.1 h

theorem eq_nil_of_head {us : List Located} (h : us.head? = ([] : List Located).head?) : us = [] :=
  List.head?_eq_none_iff.1 h

theorem ne_cons_of_head {us rest : List Located} {t : Token} (hus : us.head? = rest.head?)
    (h : ∀ l ts, rest ≠ ⟨t, l⟩ :: ts) (l : Nat) (vs : List Located) : us ≠ ⟨t, l⟩ :: vs := by
  rintro rfl
  obtain ⟨ts, rfl⟩ := eq_cons_of_head hus.symm
  exact h l ts rfl

theorem eq_of_head {p q : Parser α} {t : Located} {ts : List Located}
    (h : ∀ us, p (t :: us) = q (t :: us)) (us : List Located)
    (hus : us.head? = (t :: ts).head?) : p us = q us := by
  obtain ⟨vs, rfl⟩ := eq_cons_of_head hus
  exact h vs

/-- Whether the next token is the given one. -/
theorem next_cases (t : Token) (toks : List Located) :
    (∃ l ts, toks = ⟨t, l⟩ :: ts) ∨ ∀ l ts, toks ≠ ⟨t, l⟩ :: ts := by
  by_cases h : ∃ l ts, toks = ⟨t, l⟩ :: ts
  · exact .inl h
  · exact .inr fun l ts ht => h ⟨l, ts, ht⟩

theorem failAt_eq_error {part : Expectation} {toks rest : List Located} {e : ParseError}
    (h : (failAt part toks : Reply α) = .error e rest) :
    rest = toks ∧ e.Describes toks ∧
      ∀ us, us.head? = toks.head? → (failAt part us : Reply α) = .error e us := by
  cases toks with
  | nil =>
    cases h
    refine ⟨rfl, rfl, fun us hus => ?_⟩
    rw [eq_nil_of_head hus]
    rfl
  | cons t ts =>
    cases h
    refine ⟨rfl, ⟨ts, rfl⟩, fun us hus => ?_⟩
    obtain ⟨vs, rfl⟩ := eq_cons_of_head hus
    rfl

theorem refuses_zero (L : List Token → Prop) (p : Parser α) : Refuses 0 L p :=
  fun _ ht => absurd ht (Nat.not_lt_zero _)

theorem Refuses.le {M N : Nat} {L : List Token → Prop} {p : Parser α} (h : Refuses N L p)
    (hM : M ≤ N) : Refuses M L p :=
  fun toks ht => h toks (Nat.lt_of_lt_of_le ht hM)

namespace RefusesAt

variable {L M : List Token → Prop} {p : Parser α} {toks mid : List Located}

theorem of_ok {a : α} {rest : List Located} (h : p toks = .ok a rest) : RefusesAt L p toks := by
  intro e rest' he
  rw [h] at he
  cases he

/-- The parser fails at once. -/
theorem here (part : Expectation) (hL : ∃ us, L us)
    (h : ∀ us, us.head? = toks.head? → p us = failAt part us) : RefusesAt L p toks := by
  intro e rest he
  rw [h toks rfl] at he
  obtain ⟨rfl, hd, hf⟩ := failAt_eq_error he
  refine ⟨[], rfl, hd, hL, .inl fun us hus => ?_⟩
  rw [List.nil_append, h us hus, hf us hus]

theorem mono (h : RefusesAt L p toks) (hLM : ∀ us, L us → ∃ vs, M (us ++ vs)) :
    RefusesAt M p toks := by
  intro e rest he
  obtain ⟨used, rfl, hd, ⟨us, hus⟩, ha⟩ := h e rest he
  obtain ⟨vs, hvs⟩ := hLM _ hus
  refine ⟨used, rfl, hd, ⟨us ++ vs, by rwa [← List.append_assoc]⟩, ?_⟩
  exact ha.imp_right fun ⟨t, after, hr, hs⟩ => ⟨t, after, hr, hs.mono hLM⟩

theorem imp (h : RefusesAt L p toks) (hLM : ∀ us, L us → M us) : RefusesAt M p toks :=
  h.mono fun us hus => ⟨[], by rw [List.append_nil]; exact hLM us hus⟩

/-- After the first tokens the parser goes on as another one. -/
theorem after (front : List Located) {q : Parser α} (h : RefusesAt (fun us => L (words front ++ us)) q mid)
    (hp : ∀ us, us.head? = mid.head? → p (front ++ us) = q us) : RefusesAt L p (front ++ mid) := by
  intro e rest he
  rw [hp mid rfl] at he
  obtain ⟨used, rfl, hd, ⟨us, hus⟩, ha⟩ := h e rest he
  refine ⟨front ++ used, (List.append_assoc ..).symm, hd, ⟨us, ?_⟩, ?_⟩
  · rwa [words_append, List.append_assoc]
  · refine ha.imp (fun ha vs hvs => ?_) fun ⟨t, after, hr, hs⟩ => ⟨t, after, hr, ?_⟩
    · rw [List.append_assoc, hp _ (head_append hvs used), ha vs hvs]
    · rw [words_append]
      exact hs.after

/-- After one token the parser goes on as another one. -/
theorem cons {q : Parser α} {t : Located} (h : RefusesAt (fun us => L (t.token :: us)) q mid)
    (hp : ∀ us, p (t :: us) = q us) : RefusesAt L p (t :: mid) :=
  after [t] h fun us _ => hp us

/-- The parser answers as another one wherever the same token comes first. -/
theorem congr {q : Parser α} (h : RefusesAt L q toks)
    (hp : ∀ us, us.head? = toks.head? → p us = q us) : RefusesAt L p toks :=
  after [] h hp

/-- The line is that of the next token. -/
theorem onLine {f : Nat → Parser α} (h : ∀ line, RefusesAt L (f line) toks) :
    RefusesAt L (onLine f) toks :=
  (h (lineOf toks)).congr fun us hus => by rw [onLine_apply, lineOf, lineOf, hus]

theorem bind {I : List Token → Prop} {f : α → Parser β} (hI : Settles I p)
    (hp : RefusesAt L p toks) (hf : ∀ used a mid, toks = used ++ mid → p toks = .ok a mid →
      I (words used) → RefusesAt (fun us => L (words used ++ us)) (f a) mid) :
    RefusesAt L (p >>= f) toks := by
  intro e rest he
  cases ht : p toks with
  | error e' rest' =>
    rw [bind_apply, ht] at he
    cases he
    obtain ⟨used, rfl, hd, hb, ha⟩ := hp e rest ht
    exact ⟨used, rfl, hd, hb, ha.imp_left fun ha us hus => by rw [bind_apply, ha us hus]⟩
  | ok a mid =>
    obtain ⟨used, rfl, hs, hu⟩ := hI toks a mid ht
    exact (hf used a mid rfl ht hu).after used (fun us hus => bind_of_ok (hs us hus) f) e rest he

theorem map {f : α → β} (hp : RefusesAt L p toks) : RefusesAt L (f <$> p) toks := by
  intro e rest he
  rw [map_apply] at he
  split at he
  · cases he
  · rename_i ht
    cases he
    obtain ⟨used, rfl, hd, hb, ha⟩ := hp e rest ht
    exact ⟨used, rfl, hd, hb, ha.imp_left fun ha us hus => by rw [map_apply, ha us hus]⟩

end RefusesAt

/-! ## Single tokens -/

theorem expect_settles (token : Token) : Settles (· = [token]) (expect token) := by
  intro toks line mid h
  exact ⟨[⟨token, line⟩], expect_eq_ok h, fun us _ => expect_self token line us, rfl⟩

theorem nameAs_settles (part : Expectation) :
    Settles (fun ts => ∃ n, ts = [.name n]) (nameAs part) := by
  intro toks n mid h
  obtain ⟨line, hline⟩ := nameAs_eq_ok h
  exact ⟨[⟨.name n, line⟩], hline, fun us _ => rfl, n, rfl⟩

namespace RefusesAt

variable {L : List Token → Prop} {toks : List Located}

theorem expect {token : Token} (hL : ∃ us, L us) : RefusesAt L (expect token) toks := by
  rcases toks with _ | ⟨t, rest⟩
  · exact here _ hL fun us hus => by rw [eq_nil_of_head hus]; rfl
  · by_cases ht : t.token = token
    · exact of_ok (if_pos ht)
    · refine here (.token token) hL fun us hus => ?_
      obtain ⟨vs, rfl⟩ := eq_cons_of_head hus
      exact if_neg ht

theorem expect_bind {token : Token} {f : Nat → Parser β} (hL : ∃ us, L us)
    (hf : ∀ line mid, toks = ⟨token, line⟩ :: mid →
      RefusesAt (fun us => L (token :: us)) (f line) mid) :
    RefusesAt L (Parser.expect token >>= f) toks :=
  .bind (expect_settles token) (expect hL) fun _ line mid _ h hu =>
    hu ▸ hf line mid (expect_eq_ok h)

theorem nameAs {part : Expectation} (hL : ∃ us, L us) : RefusesAt L (nameAs part) toks := by
  by_cases ht : ∃ n l rest, toks = ⟨.name n, l⟩ :: rest
  · obtain ⟨n, l, rest, rfl⟩ := ht
    exact of_ok rfl
  · refine here part hL fun us hus => ?_
    unfold Parser.nameAs
    split
    · rename_i n l rest
      obtain ⟨vs, rfl⟩ := eq_cons_of_head hus.symm
      exact absurd ⟨n, l, vs, rfl⟩ ht
    · rfl

theorem nameAs_bind {part : Expectation} {f : String → Parser β} (hL : ∃ us, L us)
    (hf : ∀ n line mid, toks = ⟨.name n, line⟩ :: mid →
      RefusesAt (fun us => L (.name n :: us)) (f n) mid) :
    RefusesAt L (Parser.nameAs part >>= f) toks :=
  .bind (nameAs_settles part) (nameAs hL) fun used n mid hused h hu => by
    obtain ⟨line, hline⟩ := nameAs_eq_ok h
    rw [hline] at hused
    obtain rfl : [⟨.name n, line⟩] = used := List.append_cancel_right hused
    exact hf n line mid hline

end RefusesAt

/-! ## Lists with commas -/

section Lists

variable {item : Parser α} {closing : Symbol}

/-- Reads at least one item, and all that follow after commas. -/
def separatedAll (item : Parser α) (closing : Symbol) : Parser (List α) := fun toks =>
  separated item closing (toks.length + 1) toks

theorem separatedAll_eq (hi : ∀ n, Agree 1 n item item) :
    separatedAll item closing = item >>= afterItem (separatedAll item closing) closing := by
  funext toks
  rw [separatedAll, separated_succ]
  refine bind_congr_ok fun a mid hm => ?_
  have hmid := (hi _ toks (Nat.lt_succ_self _)).2 _ _ hm
  unfold afterItem
  split
  · rename_i s line rest
    rw [List.length_cons] at hmid
    rw [bind_apply, bind_apply, separatedAll, (agree_separated (hi (rest.length + 1)) closing
      toks.length (rest.length + 1) rest (by omega) (by omega) (by omega) (by omega) (by omega)).1]
  · rfl

theorem list_eq_separatedAll (hi : ∀ n, Agree 1 n item item) {toks : List Located}
    (h : ∀ l rest, toks ≠ ⟨.symbol closing, l⟩ :: rest) :
    list item closing toks = separatedAll item closing toks := by
  rcases toks with _ | ⟨⟨token, l⟩, rest⟩
  · rfl
  · rw [list_cons, if_neg (by rintro rfl; exact h l rest rfl), separatedAll]
    refine (agree_separated (hi (rest.length + 2)) closing _ _ _ ?_ ?_ ?_ ?_ ?_).1 <;> simp

theorem afterItem_comma (more : Parser (List α)) (a : α) (l : Nat) (rest : List Located) :
    afterItem more closing a (⟨.symbol .comma, l⟩ :: rest) = ((a :: ·) <$> more) rest := rfl

theorem afterItem_closing (hc : closing ≠ .comma) (more : Parser (List α)) (a : α) (l : Nat)
    (rest : List Located) : afterItem more closing a (⟨.symbol closing, l⟩ :: rest) = .ok [a] rest := by
  simp only [afterItem, if_neg hc, if_true]

theorem afterItem_of_ne (more : Parser (List α)) (a : α) {us : List Located}
    (hcomma : ∀ l rest, us ≠ ⟨.symbol .comma, l⟩ :: rest)
    (hclosing : ∀ l rest, us ≠ ⟨.symbol closing, l⟩ :: rest) :
    afterItem more closing a us = failAt (.commaOrClose closing) us := by
  unfold afterItem
  split
  · rename_i s l rest
    rw [if_neg (by rintro rfl; exact hcomma l rest rfl),
      if_neg (by rintro rfl; exact hclosing l rest rfl)]
  · rfl

variable {I L : List Token → Prop}

/-- Items after one another can be completed if each item can. -/
theorem refuses_separatedAll (hi : ∀ n, Agree 1 n item item) (hc : closing ≠ .comma)
    (hI : Settles I item) (hsome : ∃ ts, I ts) (hone : ∀ ts, I ts → L (ts ++ [.symbol closing]))
    (hmore : ∀ ts us, I ts → L us → L (ts ++ .symbol .comma :: us)) :
    ∀ {N : Nat}, Refuses N I item → Refuses N L (separatedAll item closing)
  | 0, _ => refuses_zero _ _
  | N + 1, h => by
    intro toks ht
    rw [separatedAll_eq hi]
    refine .bind hI ((h toks ht).mono fun us hus => ⟨_, hone us hus⟩) fun used a mid _ hm hu => ?_
    have htakes := (hi _ toks (Nat.lt_succ_self _)).2 _ _ hm
    obtain ⟨l, rest, rfl⟩ | hcomma := next_cases (.symbol .comma) mid
    · -- an item and a comma are gone, so the others stand in fewer tokens
      rw [List.length_cons] at htakes
      have hothers := refuses_separatedAll hi hc hI hsome hone hmore (h.le (Nat.le_succ N)) rest
        (by omega)
      exact .cons (hothers.imp fun us hus => hmore _ us hu hus).map (afterItem_comma _ a l)
    · obtain ⟨l, rest, rfl⟩ | hclosing := next_cases (.symbol closing) mid
      · exact .of_ok (afterItem_closing hc _ a l rest)
      · exact .here _ ⟨_, hone _ hu⟩ fun us hus =>
          afterItem_of_ne _ a (ne_cons_of_head hus hcomma) (ne_cons_of_head hus hclosing)

theorem refuses_list (hi : ∀ n, Agree 1 n item item) (hc : closing ≠ .comma) (hI : Settles I item)
    (hsome : ∃ ts, I ts) (hone : ∀ ts, I ts → L (ts ++ [.symbol closing]))
    (hmore : ∀ ts us, I ts → L us → L (ts ++ .symbol .comma :: us)) {N : Nat}
    (h : Refuses N I item) : Refuses N L (list item closing) := by
  intro toks ht
  obtain ⟨l, rest, rfl⟩ | hne := next_cases (.symbol closing) toks
  · exact .of_ok (if_pos rfl)
  · exact (refuses_separatedAll hi hc hI hsome hone hmore h toks ht).congr fun us hus =>
      list_eq_separatedAll hi (ne_cons_of_head hus hne)

end Lists

/-! ## Answers of the parsers of expressions -/

theorem Stops.of_head {n : Nat} {us rest : List Located} (h : Stops n rest)
    (hus : us.head? = rest.head?) : Stops n us := by
  rintro t ts rfl
  obtain ⟨vs, rfl⟩ := eq_cons_of_head hus.symm
  exact h t vs rfl

theorem primary_settles : Settles Grammar.Chain (primary expression) := by
  intro toks e mid h
  obtain ⟨used, hused, hu⟩ := primary_sound (expression_reads toks.length) (Nat.lt_succ_self _) h
  exact ⟨used, hused, fun us _ => primary_complete hu us, .primary hu.written⟩

theorem postfixed_settles : Settles Grammar.Chain (postfixed expression) := by
  intro toks e mid h
  obtain ⟨node, mid', hp, hc⟩ := bind_eq_ok h
  obtain ⟨front, rfl, hf⟩ := primary_sound (expression_reads toks.length) (Nat.lt_succ_self _) hp
  obtain ⟨used, rfl, hu, hstop⟩ := chain_sound (expression_reads mid'.length) _ node front mid' e mid
    (Nat.lt_succ_self _) (Nat.le_refl _) (.primary hf) hc
  refine ⟨front ++ used, (List.append_assoc ..).symm, fun us hus => ?_, hu.written⟩
  rw [chain_complete hu]
  rcases us with _ | ⟨t, us⟩
  · rfl
  · obtain ⟨vs, hvs⟩ := eq_cons_of_head hus.symm
    obtain ⟨hd, hl⟩ := hstop t vs hvs
    exact following_of_ne e hd hl us

theorem endpoint_settles : Settles Grammar.Expression (endpoint expression) := by
  intro toks e mid h
  obtain ⟨used, g, hused, hg, hd, rfl, hlevel, hs, ha⟩ :=
    endpoint_sound (expression_reads toks.length) toks e mid (Nat.lt_succ_self _) h
  exact ⟨used, hused, fun us hus => (groups_complete hg hd).endpoint hlevel us (hs.of_head hus)
    fun hend => (ha hend).of_head hus, hg.written⟩

theorem multiplicative_settles : Settles Grammar.Expression multiplicative := by
  intro toks e mid h
  obtain ⟨used, g, hused, hg, hd, rfl, hlevel, hs, ha⟩ := joined_sound picks_factor (by decide)
    (endpoint_sound (expression_reads toks.length)) toks e mid (Nat.lt_succ_self _) h
  refine ⟨used, hused, fun us hus => ?_, hg.written⟩
  have hstop := hs.of_head hus
  rw [(groups_complete hg hd).factor hlevel us (hstop.mono (by decide))
    fun hend => (ha hend).of_head hus, operationsAll_stop picks_factor hstop]

theorem expression_settles : Settles Grammar.Expression expression := by
  intro toks e mid h
  obtain ⟨used, hused, hu, hs⟩ := expression_reads _ toks e mid (Nat.lt_succ_self _) h
  exact ⟨used, hused, fun us hus => expression_complete hu us (hs.of_head hus), hu.written⟩

/-- Lists that the symbol closes. -/
def ClosedBy (s : Symbol) (L : List Token → Prop) (ts : List Token) : Prop :=
  ∃ us, L us ∧ ts = us ++ [.symbol s]

theorem arguments_settles :
    Settles (ClosedBy .rparen Grammar.Arguments) (list expression .rparen) := by
  intro toks es mid h
  obtain ⟨used, l, rfl, hu⟩ := list_sound (fun toks e rest (_ : toks.length < _) he =>
    expression_sound he) (Nat.lt_succ_self _) h
  have ha := arguments_of_listed hu
  refine ⟨used ++ [⟨.symbol .rparen, l⟩], by simp, fun us _ => ?_, _, ha.written, words_append ..⟩
  rw [List.append_assoc]
  exact arguments_complete ha l us

/-! ## Expressions -/

section Expressions

variable {N : Nat}

theorem primary_failAt (inner : Parser Expr) {t : Located} (h : ¬ StartsExpression t.token)
    (rest : List Located) : primary inner (t :: rest) = failAt .expression (t :: rest) := by
  unfold primary
  split <;> first | rfl | (rename_i heq; cases heq; exact absurd trivial h)

theorem refuses_grouping (h : Refuses N Grammar.Expression expression) :
    Refuses N (fun us => Grammar.Primary (.symbol .lparen :: us)) (grouping expression) := by
  intro toks ht
  exact .bind expression_settles ((h toks ht).mono fun us hus => ⟨_, .grouping hus⟩)
    fun used e mid _ _ hu => .expect_bind ⟨_, .grouping hu⟩ fun _ _ _ => .of_ok rfl

theorem refuses_construction :
    Refuses N (fun us => Grammar.Primary (.keyword .newKw :: us)) construction := by
  intro toks _
  exact .onLine fun _ => .nameAs_bind ⟨_, .construction (n := "")⟩ fun _ _ _ _ => .of_ok rfl

theorem refuses_primary (h : Refuses N Grammar.Expression expression) :
    Refuses (N + 1) Grammar.Primary (primary expression) := by
  intro toks ht
  have hsome : ∃ us, Grammar.Primary us := ⟨_, .null⟩
  rcases toks with _ | ⟨⟨token, l⟩, rest⟩
  · exact .here .expression hsome fun us hus => by rw [eq_nil_of_head hus]; rfl
  · have hrest : rest.length < N := Nat.lt_of_succ_lt_succ ht
    by_cases hstart : StartsExpression token
    · match token, hstart with
      | .name _, _ => exact .of_ok rfl
      | .number _, _ => exact .of_ok rfl
      | .text _, _ => exact .of_ok rfl
      | .keyword .nullKw, _ => exact .of_ok rfl
      | .keyword .newKw, _ =>
        exact .cons (refuses_construction rest hrest) fun _ => rfl
      | .symbol .lparen, _ =>
        exact .cons (refuses_grouping h rest hrest) fun _ => rfl
    · refine .here .expression hsome fun us hus => ?_
      obtain ⟨vs, rfl⟩ := eq_cons_of_head hus
      exact primary_failAt _ hstart vs

theorem refuses_arguments (h : Refuses N Grammar.Expression expression) :
    Refuses N (ClosedBy .rparen Grammar.Arguments) (list expression .rparen) := by
  intro toks ht
  have hlist : Refuses N (ClosedBy .rparen Grammar.ArgumentList) (list expression .rparen) :=
    refuses_list (fun _ => expression_takes) (by decide) expression_settles
      ⟨_, .chain (.primary .null)⟩ (fun ts hts => ⟨ts, .one hts, rfl⟩)
      (fun ts us hts ⟨vs, hvs, hus⟩ => ⟨_, .more hts hvs, by rw [hus]; simp⟩) h
  exact (hlist toks ht).imp fun us ⟨vs, hvs, hus⟩ => ⟨vs, .some hvs, hus⟩

/-- The accesses and calls after a chain can be completed to a chain. -/
theorem refuses_following (h : Refuses N Grammar.Expression expression) :
    ∀ (K : Nat) (front : List Token) (node : Expr), K ≤ N + 1 → Grammar.Chain front →
      Refuses K (fun us => Grammar.Chain (front ++ us)) (following node)
  | 0, _, _, _, _ => refuses_zero _ _
  | K + 1, front, node, hK, hf => by
    intro toks ht
    obtain ⟨l, rest, rfl⟩ | hdot := next_cases (.symbol .dot) toks
    · refine .cons ?_ (following_dot node l)
      refine .nameAs_bind ⟨_, hf.access (n := "")⟩ fun n l' mid hmid => ?_
      subst hmid
      have hnext := refuses_following h K _ (.access node n l) (by omega) (hf.access (n := n)) mid
        (by rw [List.length_cons, List.length_cons] at ht; omega)
      exact hnext.imp fun us hus => by simpa using hus
    · obtain ⟨l, rest, rfl⟩ | hparen := next_cases (.symbol .lparen) toks
      · rw [List.length_cons] at ht
        refine .cons ?_ (following_lparen node l)
        have hargs := refuses_arguments h rest (by omega)
        refine .bind arguments_settles (hargs.imp fun us ⟨vs, hvs, hus⟩ => hus ▸ hf.call hvs) ?_
        rintro used es mid rfl - ⟨vs, hvs, hus⟩
        rw [List.length_append] at ht
        have hnext := refuses_following h K _ (.call node es l) (by omega) (hf.call hvs) mid
          (by omega)
        exact hnext.imp fun us hc => by rw [hus]; simpa using hc
      · rcases toks with _ | ⟨⟨token, l⟩, rest⟩
        · exact .of_ok rfl
        · exact .of_ok (following_of_ne node (by rintro rfl; exact hdot l rest rfl)
            (by rintro rfl; exact hparen l rest rfl) rest)

theorem refuses_postfixed (h : Refuses N Grammar.Expression expression) :
    Refuses (N + 1) Grammar.Chain (postfixed expression) := by
  intro toks ht
  rw [postfixed_eq]
  refine .bind primary_settles ((refuses_primary h toks ht).imp fun us => .primary) ?_
  rintro used node mid rfl - hu
  rw [List.length_append] at ht
  exact refuses_following h _ _ node (Nat.le_refl _) hu mid (by omega)

theorem refuses_assigned (h : Refuses N Grammar.Expression expression) {front : List Token}
    (hf : Grammar.Chain front) (target : Expr) :
    Refuses (N + 1) (fun us => Grammar.Expression (front ++ us)) (assigned expression target) := by
  intro toks ht
  obtain ⟨l, rest, rfl⟩ | hne := next_cases (.symbol .equals) toks
  · have hjoin (us : List Token) (hus : Grammar.Expression us) :
        Grammar.Expression (front ++ .symbol .equals :: us) :=
      @Grammar.Expression.join _ _ .assignment (.chain hf) hus
    have hvalue := h rest (Nat.lt_of_succ_lt_succ ht)
    exact .cons (hvalue.imp hjoin).map fun _ => rfl
  · exact .of_ok (assigned_of_ne hne target)

theorem refuses_endpoint (h : Refuses N Grammar.Expression expression) :
    Refuses (N + 1) Grammar.Expression (endpoint expression) := by
  intro toks ht
  refine .bind postfixed_settles ((refuses_postfixed h toks ht).imp fun us => .chain) ?_
  rintro used target mid rfl - hu
  rw [List.length_append] at ht
  exact refuses_assigned h hu target mid (by omega)

/-- The operators and operands after an expression can be completed to an expression. -/
theorem refuses_operationsAll {operator? : Token → Option Operator} {n : Nat}
    (hpick : Picks operator? n) {operand : Parser Expr} (ho : ∀ n, Agree 1 n operand operand)
    (hI : Settles Grammar.Expression operand) :
    ∀ (K : Nat) (front : List Token) (left : Expr), Refuses K Grammar.Expression operand →
      Grammar.Expression front →
      Refuses K (fun us => Grammar.Expression (front ++ us)) (operationsAll operator? operand left)
  | 0, _, _, _, _ => refuses_zero _ _
  | K + 1, front, left, h, hf => by
    intro toks ht
    rcases toks with _ | ⟨⟨token, l⟩, rest⟩
    · exact .of_ok rfl
    · rw [List.length_cons] at ht
      cases hop : operator? token with
      | none => exact .of_ok (operationsAll_of_none hop operand left rest)
      | some op =>
        obtain ⟨rfl, -⟩ := (hpick token op).1 hop
        have hjoin (us : List Token) (hus : Grammar.Expression us) :
            Grammar.Expression (front ++ .symbol op.symbol :: us) :=
          @Grammar.Expression.join _ _ (.operator op) hf hus
        refine .cons ?_ (operationsAll_of_some hop ho left)
        refine .bind hI ((h rest (by omega)).imp hjoin) ?_
        rintro used right mid rfl - hu
        rw [List.length_append] at ht
        have hnext := refuses_operationsAll hpick ho hI K _ (.binary op left right l)
          (h.le (Nat.le_succ K)) (hjoin _ hu) mid (by omega)
        exact hnext.imp fun us hus => by simpa using hus

theorem refuses_joined {operator? : Token → Option Operator} {n : Nat}
    (hpick : Picks operator? n) {operand : Parser Expr} (ho : ∀ n, Agree 1 n operand operand)
    (hI : Settles Grammar.Expression operand) (h : Refuses N Grammar.Expression operand) :
    Refuses N Grammar.Expression (joined operator? operand) := by
  intro toks ht
  rw [joined_eq]
  refine .bind hI (h toks ht) ?_
  rintro used first mid rfl - hu
  rw [List.length_append] at ht
  exact refuses_operationsAll hpick ho hI N _ first h hu mid (by omega)

theorem refuses_expression : ∀ N : Nat, Refuses N Grammar.Expression expression
  | 0 => refuses_zero _ _
  | N + 1 => by
    rw [expression_eq]
    exact refuses_joined picks_term (fun _ => multiplicative_takes) multiplicative_settles
      (refuses_joined picks_factor (fun _ => endpoint_takes) endpoint_settles
        (refuses_endpoint (refuses_expression N)))

theorem expression_refusesAt (toks : List Located) :
    RefusesAt Grammar.Expression expression toks :=
  refuses_expression _ toks (Nat.lt_succ_self _)

end Expressions

/-! ## Items up to a brace -/

/-- Items up to a brace can be completed if each item can. -/
theorem refuses_untilCloseAll {item : Parser α} (hi : ∀ n, Agree 1 n item item)
    (missing : Expectation) {I R : List Token → Prop} (hI : Settles I item) (hnil : R []) (hcons : ∀ ts us, I ts → R us → R (ts ++ us)) :
    ∀ {N : Nat}, Refuses N I item → Refuses N (ClosedBy .rbrace R) (untilCloseAll item missing)
  | 0, _ => refuses_zero _ _
  | N + 1, h => by
    intro toks ht
    rcases toks with _ | ⟨⟨token, l⟩, rest⟩
    · exact .here missing ⟨_, [], hnil, rfl⟩ fun us hus => by rw [eq_nil_of_head hus]; rfl
    · by_cases hne : token = .symbol .rbrace
      · subst hne
        exact .of_ok (untilCloseAll_rbrace item missing l rest)
      · have hone := (h _ ht).mono (M := ClosedBy .rbrace R) fun us hus =>
          ⟨[.symbol .rbrace], us ++ [], hcons us [] hus hnil, by simp⟩
        refine .congr (q := item >>= fun first => untilCloseAll item missing >>= fun others =>
          pure (first :: others)) (.bind hI hone fun used a mid _ hm hu => ?_)
          (eq_of_head (untilCloseAll_of_ne hi missing hne))
        -- the others stand in fewer tokens, since an item takes one at least
        have htakes := (hi _ _ (Nat.lt_succ_self _)).2 _ _ hm
        have hothers := refuses_untilCloseAll hi missing hI hnil hcons (h.le (Nat.le_succ N)) mid
          (by omega)
        refine (hothers.imp fun us ⟨vs, hvs, hus⟩ => ?_).map
        exact ⟨_, hcons _ vs hu hvs, by rw [hus, List.append_assoc]⟩

end Parser

end SmallJava
