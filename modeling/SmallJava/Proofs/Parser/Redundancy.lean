/-
Tokens that leave no trace in a program: the word before a construction and the parentheses around
an expression. Every such word stands with the name after it at a place in the program, every
expression in the program has a place, and what stands at a place can be exchanged. Main statement:
`program_redundancy`.
-/
import SmallJava.Proofs.Parser.Places
import SmallJava.Proofs.Syntax.Parts

namespace SmallJava.Derivation

/-! ## Tokens without constructions -/

/-- No token is the word before a construction. -/
def Free (ts : List Located) : Prop := ∀ t ∈ ts, t.token ≠ .keyword .newKw

@[simp] theorem free_nil : Free [] := fun _ h => by cases h

@[simp] theorem free_cons {t : Located} {ts : List Located} :
    Free (t :: ts) ↔ t.token ≠ .keyword .newKw ∧ Free ts := List.forall_mem_cons

@[simp] theorem free_append {ts us : List Located} : Free (ts ++ us) ↔ Free ts ∧ Free us :=
  List.forall_mem_append

theorem Brackets.free {ts : List Located} {k : Nat} (h : Brackets ts k) : Free ts := by
  induction h with
  | none => simp
  | pair _ ih => simp [ih]

theorem TypeName.free {ts : List Located} {t : SmallJava.TypeName} : TypeName ts t → Free ts
  | .intro h => by simp [h.free]

theorem Parameter.free {ts : List Located} {p : SmallJava.Parameter} : Parameter ts p → Free ts
  | .intro h => by simp [h.free]

theorem parameters_free {ts : List Located} {ps : List SmallJava.Parameter}
    (h : Listed Parameter ts ps) : Free ts := by
  cases h with
  | none => simp
  | some h =>
    induction h with
    | one h => exact h.free
    | more h _ ih => simp [h.free, ih]

theorem AccessWord.free {ts : List Located} {a : Access} (h : AccessWord ts a) : Free ts := by
  cases h <;> simp

theorem StaticWord.free {ts : List Located} {b : Bool} (h : StaticWord ts b) : Free ts := by
  cases h <;> simp

theorem Path.free {ts : List Located} {path : List Segment} (h : Path ts path) : Free ts := by
  induction h with
  | name => simp
  | wildcard => simp
  | step _ ih => simp [ih]

/-! ## A word among tokens -/

theorem append_eq_around {ts us front back : List Located} {t : Located}
    (h : ts ++ us = front ++ t :: back) :
    (∃ b, ts = front ++ t :: b ∧ back = b ++ us) ∨
      ∃ f, front = ts ++ f ∧ us = f ++ t :: back := by
  rcases List.append_eq_append_iff.1 h with ⟨f, hf, hu⟩ | ⟨b, hb, ht⟩
  · exact Or.inr ⟨f, hf, hu⟩
  · cases b with
    | nil => exact Or.inr ⟨[], by simpa using hb.symm, ht.symm⟩
    | cons t' b =>
      cases ht
      exact Or.inl ⟨b, hb, rfl⟩

theorem Free.not_around {ts front back : List Located} {l : Nat} (h : Free ts) :
    ts ≠ front ++ ⟨.keyword .newKw, l⟩ :: back := by
  rintro rfl
  simp at h

/-! ## Nodes laid out on tokens -/

/-- The parts of a node. -/
@[simp] def Node.parts : Node → List Program.Part
  | .expression e => e.parts
  | .grouping g => g.expr.parts
  | .chain e => e.parts
  | .arguments es => Expr.partsOfArguments es
  | .statement s => s.parts
  | .methods ms => partsOfMethods ms
  | .method m => m.parts
  | .statements ss => partsOfBody ss
  | .root p => p.parts

theorem mem_parts_self (e : Expr) : .expression e ∈ e.parts := by
  cases e <;> simp [Expr.parts]

theorem Node.mem_parts {n : Node} {e : Expr} (h : n.expr? = some e) : .expression e ∈ n.parts := by
  cases n with
  | expression e' => cases h; exact mem_parts_self e
  | grouping g => cases h; exact mem_parts_self g.expr
  | chain e' => cases h; exact mem_parts_self e
  | _ => cases h

theorem Under.mem_parts {c : Surroundings} {outer n : Node} {e : Expr} (h : Under c outer n)
    (he : .expression e ∈ n.parts) : .expression e ∈ outer.parts := by
  cases h with
  | @left _ sign => cases sign <;> simp_all [Grouping.expr, Expr.parts]
  | @right _ sign => cases sign <;> simp_all [Grouping.expr, Expr.parts]
  | program => simp_all [Program.parts, partsOfBody_append]
  | _ => simp_all [Grouping.expr, Expr.parts, Expr.partsOfArguments, Statement.parts,
      MethodDecl.parts, partsOfMethods, partsOfBody]

/-- What occurs in a node is one of its parts. -/
theorem Occurs.mem_parts {c : Surroundings} {us : List Located} {e : Expr} {outer : Node} :
    Occurs c us e outer → .expression e ∈ outer.parts := by
  rintro ⟨n, hp, -, he⟩
  induction hp with
  | here n => exact n.mem_parts he
  | under hu _ ih => exact hu.mem_parts (ih he)

/-- The constructions and the expressions of a node have places on its tokens. -/
structure Laid (ts : List Located) (n : Node) : Prop where
  construction : ∀ front l back, ts = front ++ ⟨.keyword .newKw, l⟩ :: back →
    ∃ name l' after, back = ⟨.name name, l'⟩ :: after ∧
      Place ⟨front, after⟩ n (.chain (.name name l'))
  expression : ∀ e, .expression e ∈ n.parts → ∃ c us, c.fill us = ts ∧ Occurs c us e n

theorem Occurs.here {ts : List Located} {n : Node} {e : Expr} (hr : Derives ts n)
    (he : n.expr? = some e) : ∃ c us, c.fill us = ts ∧ Occurs c us e n :=
  ⟨.none, ts, by simp, n, .here n, hr, he⟩

theorem Occurs.under {c d : Surroundings} {us : List Located} {e : Expr} {outer n : Node}
    (hu : Under c outer n) : Occurs d us e n → Occurs (c.around d) us e outer
  | ⟨m, hp, hr, he⟩ => ⟨m, .under hu hp, hr, he⟩

/-- A node that has no constructions and is its only expression. -/
theorem Laid.leaf {ts : List Located} {n : Node} (hr : Derives ts n) (hf : Free ts)
    (hparts : ∀ e, .expression e ∈ n.parts → n.expr? = some e) : Laid ts n := by
  constructor
  case construction =>
    intro front l back h
    exact absurd h hf.not_around
  case expression =>
    intro e he
    exact Occurs.here hr (hparts e he)

/-- A node with one node under it. -/
theorem Laid.one {c : Surroundings} {ts : List Located} {outer n : Node} (hu : Under c outer n)
    (h : Laid ts n) (hr : Derives (c.fill ts) outer) (hbefore : Free c.before)
    (hafter : Free c.after) (hparts : ∀ e, .expression e ∈ outer.parts →
      outer.expr? = some e ∨ .expression e ∈ n.parts) : Laid (c.fill ts) outer := by
  constructor
  case construction =>
    intro front l back heq
    -- the word is neither before nor after the node below
    rcases append_eq_around heq with ⟨b, hb, -⟩ | ⟨f, rfl, hf⟩
    · exact absurd hb hbefore.not_around
    · rcases append_eq_around hf with ⟨b, hb, rfl⟩ | ⟨g, -, hg⟩
      · obtain ⟨name, l', after, rfl, hp⟩ := h.construction f l b hb
        exact ⟨name, l', after ++ c.after, rfl, .under hu hp⟩
      · exact absurd hg hafter.not_around
  case expression =>
    intro e he
    rcases hparts e he with he | he
    · exact Occurs.here hr he
    · obtain ⟨d, us, rfl, ho⟩ := h.expression e he
      exact ⟨c.around d, us, Surroundings.fill_around c d us, ho.under hu⟩

/-- A node with two nodes under it, and words between and after them. -/
theorem Laid.two (mid rest : List Located) {ts us : List Located} {outer n m : Node}
    (hn : Under ⟨[], mid ++ (us ++ rest)⟩ outer n) (hm : Under ⟨ts ++ mid, rest⟩ outer m)
    (h : Laid ts n) (h' : Laid us m) (hr : Derives (ts ++ (mid ++ (us ++ rest))) outer)
    (hmid : Free mid) (hrest : Free rest)
    (hparts : ∀ e, .expression e ∈ outer.parts →
      outer.expr? = some e ∨ .expression e ∈ n.parts ∨ .expression e ∈ m.parts) :
    Laid (ts ++ (mid ++ (us ++ rest))) outer := by
  constructor
  case construction =>
    intro front l back heq
    rcases append_eq_around heq with ⟨b, hb, rfl⟩ | ⟨f, rfl, hf⟩
    · obtain ⟨name, l', after, rfl, hp⟩ := h.construction front l b hb
      exact ⟨name, l', after ++ (mid ++ (us ++ rest)), rfl, .under hn hp⟩
    · rcases append_eq_around hf with ⟨b, hb, -⟩ | ⟨g, rfl, hg⟩
      · exact absurd hb hmid.not_around
      · rcases append_eq_around hg with ⟨b, hb, rfl⟩ | ⟨k, -, hk⟩
        · obtain ⟨name, l', after, rfl, hp⟩ := h'.construction g l b hb
          refine ⟨name, l', after ++ rest, rfl, ?_⟩
          simpa [Surroundings.around] using Place.under hm hp
        · exact absurd hk hrest.not_around
  case expression =>
    intro e he
    rcases hparts e he with he | he | he
    · exact Occurs.here hr he
    · obtain ⟨d, vs, rfl, ho⟩ := h.expression e he
      exact ⟨_, vs, Surroundings.fill_around _ d vs, ho.under hn⟩
    · obtain ⟨d, vs, rfl, ho⟩ := h'.expression e he
      exact ⟨_, vs, by simp, ho.under hm⟩

theorem laid_construction (n : String) (l l' : Nat) :
    Laid [⟨.keyword .newKw, l⟩, ⟨.name n, l'⟩] (.chain (.name n l')) := by
  constructor
  case construction =>
    intro front l₁ back h
    cases front with
    | nil =>
      cases h
      exact ⟨n, l', [], rfl, .here _⟩
    | cons t front =>
      have hfree : Free [⟨.name n, l'⟩] := by simp
      exact absurd (List.cons.inj h).2 hfree.not_around
  case expression =>
    intro e he
    have he' : e = .name n l' := by simpa [Expr.parts] using he
    exact Occurs.here (Chain.primary .construction) (by rw [he']; rfl)

/-! ## Expressions -/

mutual

theorem Expression.laid {ts : List Located} {e : Expr} : Expression ts e → Laid ts (.expression e)
  | .grouped h hd => by
    simpa using Laid.one .grouping (h.laid hd) (by simpa using Expression.grouped h hd)
      free_nil free_nil fun _ => Or.inr

theorem Groups.laid {ts : List Located} {g : Grouping} :
    Groups ts g → g.Documented → Laid ts (.grouping g)
  | .chain h, hd => by
    simpa using Laid.one .chain h.laid (by simpa using ⟨Groups.chain h, hd⟩) free_nil free_nil
      fun _ => Or.inr
  | @Groups.operation _ _ sign l left right hl hr, ⟨dl, dr, hfits⟩ => by
    have hread : Derives _ (.grouping (.operation sign l left right)) :=
      ⟨.operation hl hr, dl, dr, hfits⟩
    simpa using Laid.two [⟨.symbol sign.symbol, l⟩] [] (by simpa using Under.left ⟨hr, dr⟩ hfits)
      (.right ⟨hl, dl⟩ hfits) (hl.laid dl) (hr.laid dr) (by simpa using hread) (by simp) free_nil
      (by cases sign <;> simp [Grouping.expr, Expr.parts, eq_comm])

theorem Chain.laid {ts : List Located} {e : Expr} : Chain ts e → Laid ts (.chain e)
  | .primary h => h.laid
  | .access h =>
    Laid.one .parent h.laid (Chain.access h) free_nil (by simp) (by
      simp [Expr.parts, eq_comm])
  | .call h .none =>
    Laid.one (.callee .none) h.laid (Chain.call h .none) free_nil (by simp) (by
      simp [Expr.parts, Expr.partsOfArguments, eq_comm])
  | @Chain.call _ _ _ _ l l' h (.some ha) =>
    Laid.two [⟨.symbol .lparen, l⟩] [⟨.symbol .rparen, l'⟩] (.callee (.some ha)) (.arguments h)
      h.laid ha.laid (Chain.call h (.some ha)) (by simp) (by simp) (by simp [Expr.parts, eq_comm])

theorem ArgumentList.laid {ts : List Located} {es : List Expr} :
    ArgumentList ts es → Laid ts (.arguments es)
  | .one h => by
    simpa using Laid.one .lastArgument h.laid (by simpa using ArgumentList.one h) free_nil free_nil
      (by simp [Expr.partsOfArguments])
  | @ArgumentList.more _ _ l _ _ h hs => by
    simpa using Laid.two [⟨.symbol .comma, l⟩] [] (by simpa using Under.argument hs)
      (.laterArguments h) h.laid hs.laid (by simpa using ArgumentList.more h hs) (by simp) free_nil
      (by simp [Expr.partsOfArguments])

theorem Primary.laid {ts : List Located} {e : Expr} : Primary ts e → Laid ts (.chain e)
  | .name => .leaf (.primary .name) (by simp) (by simp [Expr.parts])
  | .number => .leaf (.primary .number) (by simp) (by simp [Expr.parts])
  | .text => .leaf (.primary .text) (by simp) (by simp [Expr.parts])
  | .null => .leaf (.primary .null) (by simp) (by simp [Expr.parts])
  | .construction => laid_construction ..
  | .grouping h =>
    Laid.one .parentheses h.laid (Chain.primary (.grouping h)) (by simp) (by simp) fun _ => Or.inr

end

/-! ## Statements -/

theorem not_mem_segment_parts (e : Expr) (s : Segment) : .expression e ∉ s.parts := by
  cases s <;> simp [Segment.parts]

theorem laid_declareVariable {ts us : List Located} {t : SmallJava.TypeName} {n : String}
    {v : Option Expr} {l l' : Nat} (ht : TypeName ts t) (hv : Initializer us v) :
    Laid (ts ++ ⟨.name n, l⟩ :: (us ++ [⟨.symbol .semicolon, l'⟩]))
      (.statement (.declareVariable t n v (lineOf ts))) := by
  have hread : Derives _ (.statement (.declareVariable t n v (lineOf ts))) :=
    @Statement.declareVariable ts us t n v l l' ht hv
  cases hv with
  | none => exact .leaf hread (by simp [ht.free]) (by simp [Statement.parts])
  | some h =>
    simpa using Laid.one (.initializer ht) h.laid (by simpa using hread) (by simp [ht.free])
      (by simp) (by simp [Statement.parts])

mutual

theorem Statement.laid {ts : List Located} {s : SmallJava.Statement} :
    Statement ts s → Laid ts (.statement s)
  | .importPath h =>
    .leaf (Statement.importPath h) (by simp [h.free])
      (by simp [Statement.parts, not_mem_segment_parts])
  | .declareClass hw h => by
    simpa using Laid.one (.members hw) h.laid (by simpa using Statement.declareClass hw h)
      (by simp [hw.free]) (by simp) (by simp [Statement.parts])
  | .declareVariable ht hv => laid_declareVariable ht hv
  | .expression h =>
    Laid.one .value h.laid (Statement.expression h) free_nil (by simp) (by simp [Statement.parts])

theorem Methods.laid {ts : List Located} {ms : List MethodDecl} :
    Methods ts ms → Laid ts (.methods ms)
  | .nil => .leaf Methods.nil free_nil (by simp [partsOfMethods])
  | .cons h hs => by
    simpa using Laid.two [] [] (by simpa using Under.firstMethod hs)
      (by simpa using Under.laterMethods h) h.laid hs.laid (by simpa using Methods.cons h hs)
      free_nil free_nil (by simp [partsOfMethods])

theorem Method.laid {ts : List Located} {m : MethodDecl} : Method ts m → Laid ts (.method m)
  | .intro hw hs ht hp hd hb => by
    simpa using Laid.one (.body hw hs ht hp hd) hb.laid
      (by simpa using Method.intro hw hs ht hp hd hb)
      (by simp [hw.free, hs.free, ht.free, parameters_free hp]) (by simp)
      (by simp [MethodDecl.parts, Signature.parts, Parameter.parts])

theorem Statements.laid {ts : List Located} {ss : List SmallJava.Statement} :
    Statements ts ss → Laid ts (.statements ss)
  | .nil => .leaf Statements.nil free_nil (by simp [partsOfBody])
  | .cons h hs => by
    simpa using Laid.two [] [] (by simpa using Under.firstStatement hs)
      (by simpa using Under.laterStatements h) h.laid hs.laid (by simpa using Statements.cons h hs)
      free_nil free_nil (by simp [partsOfBody])

end

theorem Root.laid {ts : List Located} {p : Program} : Root ts p → Laid ts (.root p)
  | .intro h => by
    simpa using Laid.one .program h.laid (by simpa using Root.intro h) free_nil free_nil
      (by simp [Program.parts, partsOfBody_append, partsOfBody, Statement.parts])

/-! ## Parentheses -/

/-- A node that stands for an expression can have parentheses. -/
theorem Derives.parentheses {ts : List Located} {n : Node} {e : Expr} (h : Derives ts n)
    (he : n.expr? = some e) (l l' : Nat) :
    ∃ n' : Node, n'.Alike n ∧
      Derives (⟨.symbol .lparen, l⟩ :: (ts ++ [⟨.symbol .rparen, l'⟩])) n' := by
  have hc := Chain.primary (@Primary.grouping ts e l l' (h.expression he))
  cases n with
  | expression e' =>
    cases he
    exact ⟨.expression e, .expression rfl, .grouped (.chain hc) trivial⟩
  | grouping g =>
    cases he
    exact ⟨.grouping (.chain g.expr), .grouping ⟨rfl, Or.inl rfl, fun _ => rfl⟩, .chain hc, trivial⟩
  | chain e' =>
    cases he
    exact ⟨.chain e, .chain rfl, hc⟩
  | _ => cases he

end SmallJava.Derivation

namespace SmallJava.Parser

open SmallJava.Derivation

/-! ## Programs -/

/-- What stands at a place of a program can be exchanged for what is alike. -/
theorem program_exchange {c : Surroundings} {us : List Located} {p : Program} {n n' : Node}
    (hp : Place c (.root p) n) (ha : n'.Alike n) (hr : Derives us n') :
    ∃ q, program (c.fill us) = .ok q [] ∧ q.erased = p.erased := by
  obtain ⟨outer, houter, hread⟩ := hp.exchange ha hr
  cases houter with
  | root he => exact ⟨_, program_complete hread, he⟩

/-- A word before a construction can be left out, and the tokens of an expression can have
parentheses: the program is read as the same one up to lines. The expressions in it are those that
occur on its tokens. -/
theorem program_redundancy {toks rest : List Located} {p : Program}
    (h : program toks = .ok p rest) :
    (∀ front l back, toks = front ++ ⟨.keyword .newKw, l⟩ :: back →
      ∃ q, program (front ++ back) = .ok q [] ∧ q.erased = p.erased) ∧
    (∀ c us e, c.fill us = toks → Occurs c us e (.root p) → Expression us e ∧
      ∀ l l', ∃ q, program (c.fill (⟨.symbol .lparen, l⟩ :: (us ++ [⟨.symbol .rparen, l'⟩]))) =
        .ok q [] ∧ q.erased = p.erased) ∧
    ∀ e, .expression e ∈ p.parts ↔ ∃ c us, c.fill us = toks ∧ Occurs c us e (.root p) := by
  obtain ⟨-, hroot⟩ := program_sound h
  have hlaid := hroot.laid
  refine ⟨fun front l back hnew => ?_, fun c us e _ ⟨n, hp, hr, he⟩ => ?_,
    fun e => ⟨hlaid.expression e, fun ⟨_, _, _, ho⟩ => ho.mem_parts⟩⟩
  · obtain ⟨name, l', after, rfl, hp⟩ := hlaid.construction front l back hnew
    -- the name alone is read as the construction with its word
    exact program_exchange hp (.chain rfl) (Chain.primary .name)
  · refine ⟨hr.expression he, fun l l' => ?_⟩
    obtain ⟨n', ha, hr'⟩ := hr.parentheses he l l'
    exact program_exchange hp ha hr'

theorem program_redundancy_product :
    ∃ p q r,
      program [⟨.keyword .newKw, 1⟩, ⟨.name "C", 1⟩, ⟨.symbol .star, 2⟩, ⟨.name "x", 2⟩,
        ⟨.symbol .semicolon, 2⟩] = .ok p [] ∧
      program [⟨.name "C", 1⟩, ⟨.symbol .star, 2⟩, ⟨.name "x", 2⟩, ⟨.symbol .semicolon, 2⟩] =
        .ok q [] ∧ q.erased = p.erased ∧
      program [⟨.symbol .lparen, 3⟩, ⟨.keyword .newKw, 1⟩, ⟨.name "C", 1⟩, ⟨.symbol .rparen, 4⟩,
        ⟨.symbol .star, 2⟩, ⟨.name "x", 2⟩, ⟨.symbol .semicolon, 2⟩] = .ok r [] ∧
      r.erased = p.erased := by
  have h : program [⟨.keyword .newKw, 1⟩, ⟨.name "C", 1⟩, ⟨.symbol .star, 2⟩, ⟨.name "x", 2⟩,
      ⟨.symbol .semicolon, 2⟩] =
        .ok ⟨[.expression (.binary .product (.name "C" 1) (.name "x" 2) 2) 1, .entry]⟩ [] := rfl
  have hleft : Derives [⟨.keyword .newKw, 1⟩, ⟨.name "C", 1⟩] (.grouping (.chain (.name "C" 1))) :=
    ⟨.chain (.primary .construction), trivial⟩
  have hright : Derives [⟨.name "x", 2⟩] (.grouping (.chain (.name "x" 2))) :=
    ⟨.chain (.primary .name), trivial⟩
  -- the construction is the left factor of a statement
  have hplace := Place.under .program (.under (.firstStatement .nil) (.under (@Under.value _ 2 1)
    (.under .grouping (.under (@Under.left _ (.operator .product) 2 _ _ hright
      (Grouping.fits_chains _ _ _)) (.here (.grouping (.chain (.name "C" 1))))))))
  obtain ⟨hnew, hparentheses, -⟩ := program_redundancy h
  obtain ⟨q, hq, hqp⟩ := hnew [] 1 _ rfl
  obtain ⟨r, hr, hrp⟩ := (hparentheses _ _ _ rfl ⟨_, hplace, hleft, rfl⟩).2 3 4
  exact ⟨_, q, r, h, hq, hqp, hr, hrp⟩

end SmallJava.Parser
