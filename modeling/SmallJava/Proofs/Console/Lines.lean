/-
Lines. Calls of scanners take the lines of the input in order, or what a word has left of its line;
of every line they drop all carriage returns at its end, where its terminator has one at most. Main
statement: `scannerCalls_byLine`, for every valid input and every sequence of calls.
-/
import SmallJava.Proofs.Console.Scanner

namespace SmallJava

open Console (dropLineEnd isLineEnd firstLine)

namespace Text

variable {cs l before w after : List Char}

/-! ## Lines of a text -/

/-- The lines of a text, each with the line feed that ends it. -/
def lines : List Char → List (List Char)
  | [] => []
  | c :: cs =>
    if c = '\n' then [c] :: lines cs
    else
      match lines cs with
      | [] => [[c]]
      | l :: ls => (c :: l) :: ls

/-- A line without its terminator: one line feed, and one carriage return directly before it. -/
def dropTerminator (l : List Char) : List Char :=
  if l.getLast? = some '\n' then
    if l.dropLast.getLast? = some '\r' then l.dropLast.dropLast else l.dropLast
  else l

theorem lines_of_ne_nil (h : cs ≠ []) :
    lines cs = (firstLine cs).1 :: lines (firstLine cs).2 := by
  induction cs with
  | nil => exact absurd rfl h
  | cons c cs ih =>
    rw [lines, firstLine]
    by_cases hc : c = '\n'
    · rw [if_pos hc, if_pos hc]
    · rw [if_neg hc, if_neg hc]
      cases cs with
      | nil => rfl
      | cons d cs => rw [ih (List.cons_ne_nil d cs)]

theorem flatten_lines (cs : List Char) : (lines cs).flatten = cs := by
  induction cs with
  | nil => rfl
  | cons c cs ih =>
    rw [lines]
    by_cases hc : c = '\n'
    · rw [if_pos hc, List.flatten_cons, ih]
      rfl
    · rw [if_neg hc]
      cases hls : lines cs with
      | nil => rw [← ih, hls]; rfl
      | cons l ls => rw [← ih, hls]; rfl

/-- No line has a line feed but at its end. -/
theorem exists_of_mem_lines (h : l ∈ lines cs) :
    ∃ body, '\n' ∉ body ∧ (l = body ∨ l = body ++ ['\n']) := by
  induction cs generalizing l with
  | nil => cases h
  | cons c cs ih =>
    rw [lines] at h
    split at h
    · rename_i hc
      rcases List.mem_cons.1 h with rfl | h
      · exact ⟨[], List.not_mem_nil, Or.inr (by rw [hc]; rfl)⟩
      · exact ih h
    · rename_i hc
      have hlonger {first : List Char} (hfirst : ∃ body, '\n' ∉ body ∧
          (first = body ∨ first = body ++ ['\n'])) :
          ∃ body, '\n' ∉ body ∧ (c :: first = body ∨ c :: first = body ++ ['\n']) := by
        obtain ⟨body, hbody, hfirst⟩ := hfirst
        refine ⟨c :: body, ?_, ?_⟩
        · simpa [Ne.symm hc] using hbody
        · rcases hfirst with rfl | rfl
          · exact Or.inl rfl
          · exact Or.inr rfl
      split at h
      · rw [List.mem_singleton.1 h]
        exact hlonger ⟨[], List.not_mem_nil, Or.inl rfl⟩
      · rename_i first others hls
        rcases List.mem_cons.1 h with rfl | h
        · exact hlonger (ih (by rw [hls]; exact List.mem_cons_self))
        · exact ih (by rw [hls]; exact List.mem_cons_of_mem _ h)

/-! ## Ends of lines -/

/-- What is left of a line does not end in a line feed or carriage return. -/
theorem not_isLineEnd_getLast?_dropLineEnd {c : Char} (h : (dropLineEnd l).getLast? = some c) :
    isLineEnd c = false := by
  rw [dropLineEnd, List.getLast?_reverse] at h
  have hhead := List.head?_dropWhile_not isLineEnd l.reverse
  rw [h] at hhead
  simpa using hhead

/-- Before the line feed at the end of a line there are only carriage returns to drop. -/
theorem exists_replicate (h : '\n' ∉ l) : ∃ k, l = dropLineEnd l ++ List.replicate k '\r' := by
  obtain ⟨ending, hending, hl⟩ := Console.exists_dropLineEnd l
  refine ⟨ending.length, ?_⟩
  have hall : ∀ c ∈ ending, c = '\r' := by
    intro c hc
    have hne : c ≠ '\n' := fun heq => h (by rw [hl, ← heq]; exact List.mem_append_right _ hc)
    simpa [isLineEnd, hne] using hending c hc
  rwa [← List.eq_replicate_of_mem hall]

theorem dropLineEnd_concat (body : List Char) :
    dropLineEnd (body ++ ['\n']) = dropLineEnd body := by
  rw [dropLineEnd, List.reverse_append, List.reverse_singleton, List.singleton_append,
    List.dropWhile_cons_of_pos rfl, dropLineEnd]

/-- Of a line the terminator has no more than what is dropped; the difference are carriage
returns. -/
theorem dropTerminator_eq (h : l ∈ lines cs) :
    ∃ k, dropTerminator l = dropLineEnd l ++ List.replicate k '\r' := by
  obtain ⟨body, hbody, rfl | rfl⟩ := exists_of_mem_lines h
  · obtain ⟨k, hk⟩ := exists_replicate hbody
    refine ⟨k, ?_⟩
    rw [← hk, dropTerminator, if_neg fun hlast => hbody (List.mem_of_getLast? hlast)]
  · obtain ⟨k, hk⟩ := exists_replicate hbody
    rw [dropTerminator, if_pos (by simp), List.dropLast_concat, dropLineEnd_concat]
    cases k with
    | zero =>
      rw [List.replicate_zero, List.append_nil] at hk
      rw [if_neg fun hlast => ?_]
      · exact ⟨0, by simpa using hk⟩
      · rw [hk] at hlast
        exact absurd (not_isLineEnd_getLast?_dropLineEnd hlast) (by decide)
    | succ k =>
      refine ⟨k, ?_⟩
      rw [List.replicate_succ', ← List.append_assoc] at hk
      rw [if_pos (by rw [hk]; simp), hk, List.dropLast_concat, ← hk]

/-- A line whose terminator leaves no carriage return at its end loses nothing but its terminator. -/
theorem dropTerminator_eq_dropLineEnd (h : l ∈ lines cs)
    (hend : (dropTerminator l).getLast? ≠ some '\r') : dropTerminator l = dropLineEnd l := by
  obtain ⟨k, hk⟩ := dropTerminator_eq h
  cases k with
  | zero => rw [hk, List.replicate_zero, List.append_nil]
  | succ k =>
    rw [hk, List.replicate_succ', ← List.append_assoc] at hend
    exact absurd (by simp) hend

/-! ## Words in lines -/

/-- A word does not end in a line feed or carriage return. -/
theorem IsWord.not_isLineEnd (h : IsWord before w after) {c : Char}
    (hc : (before ++ w).getLast? = some c) : isLineEnd c = false := by
  rw [List.getLast?_append, List.getLast?_eq_some_getLast h.nonempty, Option.some_or] at hc
  have hinked := h.inked c (Option.some.inj hc ▸ List.getLast_mem h.nonempty)
  cases hend : isLineEnd c with
  | false => rfl
  | true => rw [Console.isBlank_of_isLineEnd hend] at hinked; cases hinked

theorem dropLineEnd_append {head : List Char}
    (h : ∀ c, head.getLast? = some c → isLineEnd c = false) (rest : List Char) :
    dropLineEnd (head ++ rest) = head ++ dropLineEnd rest := by
  have hhead : head.reverse.dropWhile isLineEnd = head.reverse := by
    cases hrev : head.reverse with
    | nil => rfl
    | cons c cs =>
      have hc := h c (by rw [← List.head?_reverse, hrev]; rfl)
      rw [List.dropWhile_cons_of_neg (by simp [hc])]
  rw [dropLineEnd, dropLineEnd, List.reverse_append, List.dropWhile_append, hhead]
  split
  · rename_i hempty
    rw [List.isEmpty_iff.1 hempty]
    simp
  · simp

theorem dropTerminator_append {head : List Char}
    (h : ∀ c, head.getLast? = some c → isLineEnd c = false) (rest : List Char) :
    dropTerminator (head ++ rest) = head ++ dropTerminator rest := by
  have hlast {c : Char} (hc : isLineEnd c = true) : head.getLast? ≠ some c := fun heq => by
    rw [h c heq] at hc
    cases hc
  rcases List.eq_nil_or_concat rest with rfl | ⟨front, c, rfl⟩
  · rw [List.append_nil, dropTerminator, if_neg (hlast rfl)]
    exact (List.append_nil head).symm
  · rw [List.concat_eq_append, ← List.append_assoc, dropTerminator, dropTerminator,
      List.getLast?_concat, List.getLast?_concat, List.dropLast_concat, List.dropLast_concat]
    by_cases hc : some c = some '\n'
    · rw [if_pos hc, if_pos hc]
      rcases List.eq_nil_or_concat front with rfl | ⟨front, d, rfl⟩
      · rw [List.append_nil, if_neg (hlast rfl), if_neg (by simp), List.append_nil]
      · rw [List.concat_eq_append, ← List.append_assoc, List.getLast?_concat, List.getLast?_concat,
          List.dropLast_concat, List.dropLast_concat]
        split
        · rfl
        · rw [List.append_assoc]
    · rw [if_neg hc, if_neg hc, List.append_assoc]

end Text

open Text

/-! ## What is left of the input -/

namespace Console

/-- The rows that are left: what a word has left of its line, if one is held, and the lines that are
unread. -/
def Rows (c : Console) (rows : List (List Char)) : Prop :=
  ∃ rest, c.unread = bytesOf rest ∧
    match c.held with
    | none => rows = lines rest
    | some cs => ∃ row, cs = dropLineEnd row ∧ rows = row :: lines rest

theorem rows_start (text : String) (limit : Option Nat) :
    (Console.start text.toUTF8 limit).Rows (lines text.toList) :=
  ⟨text.toList, toList_toUTF8 text, rfl⟩

/-- A line is the first row without its end. -/
theorem Rows.nextLine {c : Console} {rows : List (List Char)} (h : c.Rows rows) :
    (c.nextLine = (.ended, c) ∧ rows = []) ∨ ∃ row later d, rows = row :: later ∧
      c.nextLine = (.chars (dropLineEnd row), d) ∧ d.Rows later ∧ d.held = none := by
  obtain ⟨rest, hrest, hrows⟩ := h
  unfold Console.nextLine
  cases hheld : c.held with
  | some cs =>
    rw [hheld] at hrows
    obtain ⟨row, rfl, rfl⟩ := hrows
    exact Or.inr ⟨row, lines rest, _, rfl, rfl, ⟨rest, hrest, rfl⟩, rfl⟩
  | none =>
    rw [hheld] at hrows
    subst hrows
    dsimp only
    rw [takeLine_of_text hrest]
    by_cases hne : rest = []
    · subst hne
      exact Or.inl ⟨if_pos rfl, rfl⟩
    · rw [if_neg hne, lines_of_ne_nil hne]
      refine Or.inr ⟨_, _, _, rfl, rfl, ⟨_, rfl, ?_⟩, hheld⟩
      rw [hheld]

/-- A row is blank, or starts with the word that is taken from it. -/
theorem words_or_isWord (row : List Char) :
    (trimStart (dropLineEnd row) = [] ∧ words row = []) ∨
      ∃ first others before after, trimStart (dropLineEnd row) = first :: others ∧
        row = before ++ (splitWord (first :: others)).1 ++ after ∧
        IsWord before (splitWord (first :: others)).1 after ∧ words before = [] ∧
        (splitWord (first :: others)).2 = dropLineEnd after := by
  obtain ⟨ending, hending, hrow⟩ := exists_dropLineEnd row
  have hending : ∀ c ∈ ending, isBlank c = true := fun c hc => isBlank_of_isLineEnd (hending c hc)
  obtain ⟨blanks, hblanks, hline⟩ := exists_trimStart (dropLineEnd row)
  cases htrim : trimStart (dropLineEnd row) with
  | nil =>
    refine Or.inl ⟨rfl, ?_⟩
    rw [hrow, words_append_blank hending, ← words_trimStart, htrim, words_nil]
  | cons first others =>
    have hsplit := isWord_splitWord htrim
    rw [htrim, ← splitWord_append (first :: others), ← List.append_assoc] at hline
    refine Or.inr ⟨first, others, blanks, ?_⟩
    generalize splitWord (first :: others) = parts at hsplit hline ⊢
    obtain ⟨w, after⟩ := parts
    dsimp only at hsplit hline ⊢
    have hword : IsWord blanks w (after ++ ending) := by
      refine ⟨hsplit.nonempty, hsplit.inked, endsBlank_of_blank hblanks, fun c hc => ?_⟩
      rw [List.head?_append] at hc
      cases hafter : after.head? with
      | none => exact hending c (List.mem_of_head? (by simpa [hafter] using hc))
      | some d => exact hsplit.ends c (by simpa [hafter] using hc)
    refine ⟨after ++ ending, rfl, ?_, hword, words_of_blank hblanks, ?_⟩
    · conv_lhs => rw [hrow, hline]
      simp only [List.append_assoc]
    · have hdrop := hline
      rw [hrow, hline, List.append_assoc, dropLineEnd_append fun c => hword.not_isLineEnd] at hdrop
      exact (List.append_cancel_left hdrop).symm

/-- A word is the first one of the first row that has one. -/
theorem Rows.nextWord {c : Console} {rows : List (List Char)} (h : c.Rows rows) :
    (∃ d, c.nextWord = (.ended, d) ∧ d.Rows [] ∧ ∀ row ∈ rows, words row = []) ∨
      ∃ blanks before w after later d, rows = blanks ++ (before ++ w ++ after) :: later ∧
        (∀ row ∈ blanks, words row = []) ∧ words before = [] ∧ IsWord before w after ∧
        c.nextWord = (.chars w, d) ∧ d.Rows (after :: later) := by
  -- over the rows that are blank
  induction hn : c.size using Nat.strong_induction_on generalizing c rows with
  | _ n ih =>
    have hsize := size_nextLine (c := c)
    rw [nextWord_eq]
    rcases h.nextLine with ⟨hline, rfl⟩ | ⟨row, later, d, rfl, hline, hd, hheld⟩
    · rw [hline]
      exact Or.inl ⟨c, rfl, h, fun _ h => by cases h⟩
    · rw [hline] at hsize ⊢
      dsimp only
      rcases words_or_isWord row with ⟨htrim, hblank⟩ |
        ⟨first, others, before, after, htrim, hrow, hword, hbefore, hafter⟩
      · rw [htrim]
        rcases ih d.size (hn ▸ hsize fun h => by cases h) hd rfl with
          ⟨e, hnext, he, hall⟩ | ⟨blanks, before, w, after, rest, e, rfl, hblanks, hrest⟩
        · exact Or.inl ⟨e, hnext, he, List.forall_mem_cons.2 ⟨hblank, hall⟩⟩
        · exact Or.inr ⟨row :: blanks, before, w, after, rest, e, rfl,
            List.forall_mem_cons.2 ⟨hblank, hblanks⟩, hrest⟩
      · rw [htrim]
        obtain ⟨rest, hrest, hlater⟩ := hd
        rw [hheld] at hlater
        refine Or.inr ⟨[], before, _, after, later, _, by rw [hrow]; rfl, fun _ h => (by cases h),
          hbefore, hword, rfl, rest, hrest, after, hafter, ?_⟩
        rw [hlater]

end Console

/-! ## Readings -/

namespace Reading

/-- Readings take the rows of an input in order: a line takes the first, but for what is stripped of
it, and a word is the first one of the first row that has one, and leaves the rest of its row. Nothing
is taken only where no row is left, or none with a word. -/
inductive ByLine (strip : List Char → List Char) : List (List Char) → List Reading → Prop
  | done {rows : List (List Char)} : ByLine strip rows []
  | line {r : Reading} {row : List Char} {rows : List (List Char)} {readings : List Reading} :
      r.call.method = .line → r.taken = some (strip row) → ByLine strip rows readings →
      ByLine strip (row :: rows) (r :: readings)
  | lineEnded {r : Reading} {readings : List Reading} :
      r.call.method = .line → r.taken = none → ByLine strip [] readings →
      ByLine strip [] (r :: readings)
  | word {r : Reading} {blanks rows : List (List Char)} {before w after : List Char}
      {readings : List Reading} :
      r.call.method ≠ .line → r.taken = some w → (∀ row ∈ blanks, Text.words row = []) →
      Text.words before = [] → IsWord before w after → ByLine strip (after :: rows) readings →
      ByLine strip (blanks ++ (before ++ w ++ after) :: rows) (r :: readings)
  | wordEnded {r : Reading} {rows : List (List Char)} {readings : List Reading} :
      r.call.method ≠ .line → r.taken = none → (∀ row ∈ rows, Text.words row = []) →
      ByLine strip [] readings → ByLine strip rows (r :: readings)

variable {strip : List Char → List Char} {rows : List (List Char)} {readings : List Reading}

/-- Where no row loses more than its terminator, only terminators are dropped. -/
theorem ByLine.dropTerminator (h : ByLine dropLineEnd rows readings)
    (hrows : ∀ row ∈ rows, dropTerminator row = dropLineEnd row) :
    ByLine dropTerminator rows readings := by
  induction h with
  | done => exact .done
  | line hm htaken _ ih =>
    obtain ⟨hrow, hrows⟩ := List.forall_mem_cons.1 hrows
    exact .line hm (by rw [htaken, hrow]) (ih hrows)
  | lineEnded hm htaken _ ih => exact .lineEnded hm htaken (ih hrows)
  | @word r blanks rows before w after readings hm htaken hblanks hbefore hword _ ih =>
    refine .word hm htaken hblanks hbefore hword (ih ?_)
    obtain ⟨-, hrows⟩ := List.forall_mem_append.1 hrows
    obtain ⟨hrow, hrows⟩ := List.forall_mem_cons.1 hrows
    -- both leave the word and what is before it alone
    rw [dropTerminator_append fun c => hword.not_isLineEnd,
      dropLineEnd_append fun c => hword.not_isLineEnd] at hrow
    exact List.forall_mem_cons.2 ⟨List.append_cancel_left hrow, hrows⟩
  | wordEnded hm htaken hblank _ ih =>
    exact .wordEnded hm htaken hblank (ih fun _ h => by cases h)

/-- Calls for lines take the rows one by one, and then nothing. -/
theorem ByLine.lines (h : ByLine strip rows readings)
    (hline : ∀ r ∈ readings, r.call.method = .line) : readings.map (·.taken) =
      ((rows.take readings.length).map fun row => some (strip row)) ++
        List.replicate (readings.length - rows.length) none := by
  induction h with
  | done => simp
  | line _ htaken _ ih =>
    rw [List.map_cons, htaken, ih fun r hr => hline r (List.mem_cons_of_mem _ hr)]
    simp
  | lineEnded _ htaken _ ih =>
    rw [List.map_cons, htaken, ih fun r hr => hline r (List.mem_cons_of_mem _ hr)]
    simp [List.replicate_succ]
  | word hm _ _ _ _ _ _ => exact absurd (hline _ List.mem_cons_self) hm
  | wordEnded hm _ _ _ _ => exact absurd (hline _ List.mem_cons_self) hm

end Reading

/-! ## Runs of calls -/

/-- One call takes what is left first. -/
theorem ScannerCall.reads_byLine (call : ScannerCall) {c : Console} {rows : List (List Char)}
    (h : c.Rows rows) : ∃ taken d later, call.method.read c = (taken.elim .ended .chars, d) ∧
      d.Rows later ∧ ∀ readings, Reading.ByLine dropLineEnd later readings →
        Reading.ByLine dropLineEnd rows (⟨call, taken⟩ :: readings) := by
  by_cases hm : call.method = .line
  · rw [hm]
    rcases h.nextLine with ⟨hread, rfl⟩ | ⟨row, later, d, rfl, hread, hd, -⟩
    · exact ⟨none, c, [], hread, h, fun _ => .lineEnded hm rfl⟩
    · exact ⟨some (dropLineEnd row), d, later, hread, hd, fun _ => .line hm rfl⟩
  · have hread : call.method.read = Console.nextWord := by
      cases hmethod : call.method <;> first | rfl | exact absurd hmethod hm
    rw [hread]
    rcases h.nextWord with ⟨d, hread, hd, hblank⟩ |
      ⟨blanks, before, w, after, later, d, rfl, hblanks, hbefore, hword, hread, hd⟩
    · exact ⟨none, d, [], hread, hd, fun _ => .wordEnded hm rfl hblank⟩
    · exact ⟨some w, d, after :: later, hread, hd, fun _ => .word hm rfl hblanks hbefore hword⟩

/-- Calls one after another take the rows that are left. -/
theorem ScannerCall.performAll_byLine (depth : Nat) (calls : List ScannerCall) {c : Console}
    {rows : List (List Char)} (h : c.Rows rows) : ∃ readings d,
      performAll depth calls c = (readings.map Reading.outcome, d) ∧
        readings.map (·.call) = calls ∧ Reading.ByLine dropLineEnd rows readings := by
  refine performAll_induction (P := fun rows readings _ => Reading.ByLine dropLineEnd rows readings)
    (fun _ _ _ => .done) (fun call c rows h => ?_) depth calls h
  obtain ⟨taken, d, later, hread, hd, htake⟩ := call.reads_byLine h
  exact ⟨taken, d, later, hread, hd, fun readings _ => htake readings⟩

/-- For every valid input and every sequence of calls of any scanners, lines take the lines of the
input in order, or what the word before them has left of its line, without the line feeds and
carriage returns at their ends. That is more than their terminators only if a carriage return stands
before a terminator or at the end of the input; if none does, terminators are all that is dropped.
Calls for lines alone take the lines of the input, one each, and then nothing. -/
theorem scannerCalls_byLine (text : String) (limit : Option Nat) (depth : Nat)
    (calls : List ScannerCall) :
    (lines text.toList).flatten = text.toList ∧
    (∀ l ∈ lines text.toList, ∃ k, dropTerminator l = dropLineEnd l ++ List.replicate k '\r') ∧
    ∃ readings c, ScannerCall.performAll depth calls (.start text.toUTF8 limit) =
        (readings.map Reading.outcome, c) ∧
      readings.map (·.call) = calls ∧
      Reading.ByLine dropLineEnd (lines text.toList) readings ∧
      ((∀ l ∈ lines text.toList, (dropTerminator l).getLast? ≠ some '\r') →
        Reading.ByLine dropTerminator (lines text.toList) readings) ∧
      ((∀ call ∈ calls, call.method = .line) → readings.map (·.taken) =
        (((lines text.toList).take calls.length).map fun l => some (dropLineEnd l)) ++
          List.replicate (calls.length - (lines text.toList).length) none) := by
  obtain ⟨readings, c, hperform, hcalls, hlines⟩ :=
    ScannerCall.performAll_byLine depth calls (Console.rows_start text limit)
  refine ⟨flatten_lines text.toList, fun l hl => dropTerminator_eq hl, readings, c, hperform, hcalls,
    hlines, fun hend => ?_, fun hcall => ?_⟩
  · exact hlines.dropTerminator fun l hl => dropTerminator_eq_dropLineEnd hl (hend l hl)
  · have hlength : readings.length = calls.length := by rw [← hcalls, List.length_map]
    rw [← hlength]
    refine hlines.lines fun r hr => hcall r.call ?_
    rw [← hcalls]
    exact List.mem_map_of_mem hr

/-- Where no carriage return stands before a terminator, lines are read without their terminators. -/
theorem scannerCalls_byLine_three :
    (∀ l ∈ lines "a b\r\n\nc".toList, (dropTerminator l).getLast? ≠ some '\r') ∧
      ∀ calls, ∃ readings c, ScannerCall.performAll 0 calls (.start "a b\r\n\nc".toUTF8 none) =
          (readings.map Reading.outcome, c) ∧
        readings.map (·.call) = calls ∧
        Reading.ByLine dropTerminator ["a b\r\n".toList, "\n".toList, "c".toList] readings := by
  have hend : ∀ l ∈ lines "a b\r\n\nc".toList, (dropTerminator l).getLast? ≠ some '\r' := by decide
  refine ⟨hend, fun calls => ?_⟩
  obtain ⟨-, -, readings, c, hperform, hcalls, -, hlines, -⟩ :=
    scannerCalls_byLine "a b\r\n\nc" none 0 calls
  exact ⟨readings, c, hperform, hcalls, hlines hend⟩

theorem Library.exists_isScanner : ∃ (s : Store) (i : InstanceId), s.IsScanner i :=
  ⟨_, _, Store.isScanner_newInstance List.prefix_rfl List.prefix_rfl⟩

/-- A carriage return before a terminator is dropped with it, so lines are not read without their
terminators only. -/
theorem scannerCalls_drop_carriageReturn :
    ¬ ∀ (text : String) (limit : Option Nat) (depth : Nat) (calls : List ScannerCall),
      ∃ readings c, ScannerCall.performAll depth calls (.start text.toUTF8 limit) =
          (readings.map Reading.outcome, c) ∧
        readings.map (·.call) = calls ∧
        Reading.ByLine dropTerminator (lines text.toList) readings := by
  intro h
  obtain ⟨s, i, hscanner⟩ := Library.exists_isScanner
  -- one call for a line, which is asked for what it came to in two ways
  let call : ScannerCall := ⟨s, i, hscanner, .line, 1⟩
  have htaken {strip : List Char → List Char} {readings : List Reading}
      (hcalls : readings.map (·.call) = [call])
      (hlines : Reading.ByLine strip (lines "a\r\r\n".toList) readings) :
      readings.map Reading.outcome = [.done (.text (.ofList (strip "a\r\r\n".toList)))] := by
    obtain ⟨r, rfl, hr⟩ := List.map_eq_singleton_iff.1 hcalls
    have hline := hlines.lines fun r' hr' => by rw [List.mem_singleton.1 hr', hr]
    have hlist : lines "a\r\r\n".toList = ["a\r\r\n".toList] := by decide
    rw [hlist] at hline
    have htaken : r.taken = some (strip "a\r\r\n".toList) := by simpa using hline
    simp [Reading.outcome, hr, htaken, call, ScannerMethod.outcome]
  obtain ⟨readings, c, hperform, hcalls, hclaimed⟩ := h "a\r\r\n" none 0 [call]
  obtain ⟨readings', c', hperform', hcalls', hlines⟩ :=
    ScannerCall.performAll_byLine 0 [call] (Console.rows_start "a\r\r\n" none)
  have houtcomes := congrArg Prod.fst (hperform.symm.trans hperform')
  rw [htaken hcalls hclaimed, htaken hcalls' hlines] at houtcomes
  have htexts := Value.text.inj (Outcome.done.inj (List.singleton_inj.1 houtcomes))
  exact absurd htexts (by decide)

end SmallJava
