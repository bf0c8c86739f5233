/-
Scanners. All scanners read the one console, so what they deliver does not depend on which of them
is called. Calls take the words of the input off it in order, a line with all that are left on it or
a word at a time, and none is lost, repeated or split. Main statement: `scannerCalls_divide`, for
every valid input and every sequence of calls.
-/
import SmallJava.Proofs.Console.Input
import SmallJava.Proofs.Eval.Isolation

namespace SmallJava

open Text

/-! ## Methods of scanners -/

/-- The methods of scanners. -/
inductive ScannerMethod
  | line | word | integer | decimal
deriving DecidableEq

namespace ScannerMethod

/-- The name a method has among the members of a scanner. -/
def name : ScannerMethod → String
  | line => "nextLine"
  | word => "next"
  | integer => "nextInt"
  | decimal => "nextDouble"

/-- What a method performs. -/
def op : ScannerMethod → HostOp
  | line => .nextLine
  | word => .nextWord
  | integer => .nextInteger
  | decimal => .nextDecimal

/-- What a method takes off the console. -/
def read : ScannerMethod → Console → Console.Taken × Console
  | line => Console.nextLine
  | _ => Console.nextWord

/-- What a call on the given line comes to if it took the given characters, or nothing because the
input had ended. -/
def outcome (m : ScannerMethod) (line : Nat) : Option (List Char) → Outcome Value
  | none => .fault (.inputExhausted line)
  | some cs =>
    match m with
    | .line | .word => .done (.text (.ofList cs))
    | .integer =>
      match Double.integerOfText? cs with
      | some x => .done (.number x)
      | none => .fault (.invalidArgument (.notInteger (.ofList cs)) line)
    | .decimal =>
      match Double.ofText? cs with
      | some x => .done (.number x)
      | none => .fault (.invalidArgument (.notDecimal "Scanner.nextDouble" (.ofList cs)) line)

/-- What a method makes of the characters it took. -/
def answer (m : ScannerMethod) (line : Nat) (cs : List Char) : Action Value :=
  match m with
  | .line | .word => pure (.text (.ofList cs))
  | .integer => .integer cs line
  | .decimal => .decimal cs "Scanner.nextDouble" line

theorem answer_apply (m : ScannerMethod) (line : Nat) (cs : List Char) (w : World) :
    m.answer line cs w = (m.outcome line (some cs), w) := by
  cases m with
  | line => rfl
  | word => rfl
  | integer =>
    simp only [answer, outcome, Action.integer]
    cases Double.integerOfText? cs <;> rfl
  | decimal =>
    simp only [answer, outcome, Action.decimal]
    cases Double.ofText? cs <;> rfl

theorem perform_op (m : ScannerMethod) (line : Nat) :
    m.op.perform [] line = Action.take m.read line >>= m.answer line := by
  cases m <;> rfl

/-- A method comes to what it takes, and leaves the store alone. -/
theorem perform_apply {m : ScannerMethod} {w : World} {taken : Option (List Char)} {d : Console}
    (h : m.read w.console = (taken.elim .ended .chars, d)) (line : Nat) :
    m.op.perform [] line w = (m.outcome line taken, ⟨w.store, d⟩) := by
  rw [perform_op, Action.bind_apply, Action.take, h]
  cases taken with
  | none => rfl
  | some cs => exact m.answer_apply line cs _

end ScannerMethod

/-- The method performs an operation and takes no arguments. -/
def Method.performs (m : Method) (op : HostOp) : Bool :=
  m.params = [] && !m.variadic && match m.body with | .host o => o = op | .declared .. => false

theorem Method.call_of_performs {m : Method} {op : HostOp} (h : m.performs op = true)
    (run : Runner) (line : Nat) : m.call run [] line = op.perform [] line := by
  simp only [performs, Bool.and_eq_true, decide_eq_true_eq, Bool.not_eq_true'] at h
  obtain ⟨⟨hparams, hvariadic⟩, hbody⟩ := h
  rw [Method.call, hparams, hvariadic, if_neg (by simp)]
  cases hm : m.body with
  | declared first statements => rw [hm] at hbody; cases hbody
  | host o =>
    rw [hm] at hbody
    rw [show o = op by simpa using hbody]

/-! ## Scanners of a store -/

/-- The class of scanners in the library, which is what `java.util.Scanner` leads to
(`Library.follow_scanner`). -/
def Library.scanner : ClassId := ⟨6⟩

theorem Library.follow_scanner : Library.store.follow Store.globals
    [.name "java", .name "util", .name "Scanner"] = .ok [("Scanner", .ofClass scanner)] := by
  decide +kernel

/-- An instance of the library's class of scanners, in a store that holds the library. A call of the
class makes one (`isScanner_of_call`), and it stays one (`IsScanner.keeps`). -/
structure Store.IsScanner (s : Store) (i : InstanceId) : Prop where
  classes : Library.store.classes.toList <+: s.classes.toList
  methods : Library.store.methods.toList <+: s.methods.toList
  made : s.instances[i.index]? = some Library.scanner

theorem Library.scanner_members (m : ScannerMethod) :
    (Library.store.classes[scanner.index]?.bind fun c => c.members.get? m.name).any (fun v =>
      match v with
      | .method id => Library.store.methods[id.index]?.any (·.performs m.op)
      | _ => false) = true := by
  cases m <;> decide +kernel

namespace Store

variable {s t : Store} {i : InstanceId}

/-- A scanner has its methods. -/
theorem IsScanner.member (h : s.IsScanner i) (m : ScannerMethod) (line : Nat) :
    ∃ id method, s.member (.object i) m.name line = .done (.method id) ∧
      s.methods[id.index]? = some method ∧ method.performs m.op = true := by
  obtain ⟨v, hv, hm⟩ := (Option.any_eq_true _ _).1 (Library.scanner_members m)
  obtain ⟨c, hc, hget⟩ := Option.bind_eq_some_iff.1 hv
  cases v with
  | method id =>
    obtain ⟨method, hmethod, hperforms⟩ := (Option.any_eq_true _ _).1 hm
    refine ⟨id, method, ?_, getElem?_of_isPrefix h.methods hmethod, hperforms⟩
    simp only [Store.member, h.made, getElem?_of_isPrefix h.classes hc, instanceMember?, hget,
      foundMember]
  | _ => cases hm

theorem isScanner_newInstance (hc : Library.store.classes.toList <+: s.classes.toList)
    (hm : Library.store.methods.toList <+: s.methods.toList) :
    (s.newInstance Library.scanner).2.IsScanner (s.newInstance Library.scanner).1 :=
  ⟨hc, hm, by simp [newInstance]⟩

/-- What a call of the class of scanners makes is a scanner, whatever it is made from. -/
theorem isScanner_of_call (depth : Nat) (arguments : List Value) (line : Nat) (w : World)
    (hc : Library.store.classes.toList <+: w.store.classes.toList)
    (hm : Library.store.methods.toList <+: w.store.methods.toList) :
    ∃ i t, callWithin depth (.ofClass Library.scanner) arguments line w =
      (.done (.object i), ⟨t, w.console⟩) ∧ t.IsScanner i := by
  refine ⟨(w.store.newInstance Library.scanner).1, (w.store.newInstance Library.scanner).2, ?_,
    isScanner_newInstance hc hm⟩
  cases depth <;> rfl

/-- A scanner remains one, whatever is evaluated. -/
theorem IsScanner.keeps {writable : Option ScopeId} {names : List String} (h : s.IsScanner i)
    (hk : s.Keeps writable names t) : t.IsScanner i :=
  ⟨h.classes.trans hk.classes, h.methods.trans hk.methods, getElem?_of_isPrefix hk.instances h.made⟩

end Store

/-! ## Calls -/

/-- A call of a method of a scanner, in the store there is when it is made. -/
structure ScannerCall where
  store : Store
  scanner : InstanceId
  isScanner : store.IsScanner scanner
  method : ScannerMethod
  line : Nat

namespace ScannerCall

/-- Looks the method up in the scanner and calls it. -/
def action (depth : Nat) (call : ScannerCall) : Action Value := do
  let m ← Action.member (.object call.scanner) call.method.name call.line
  callWithin depth m [] call.line

/-- What calls come to that are made one after another, whether they fail or not, and the console
after them. -/
def performAll (depth : Nat) : List ScannerCall → Console → List (Outcome Value) × Console
  | [], c => ([], c)
  | call :: calls, c =>
    let (outcome, w) := call.action depth ⟨call.store, c⟩
    let (outcomes, d) := performAll depth calls w.console
    (outcome :: outcomes, d)

theorem action_apply (depth : Nat) (call : ScannerCall) (c : Console) :
    call.action depth ⟨call.store, c⟩ =
      call.method.op.perform [] call.line ⟨call.store, c⟩ := by
  obtain ⟨id, method, hmember, hmethod, hperforms⟩ :=
    call.isScanner.member call.method call.line
  have hrun (run : Runner) : Value.call run (.method id) [] call.line ⟨call.store, c⟩ =
      call.method.op.perform [] call.line ⟨call.store, c⟩ := by
    simp only [Value.call, Action.bind_apply, Action.ask, hmethod, Action.required,
      Action.pure_apply]
    exact congrFun (Method.call_of_performs hperforms run call.line) _
  have hcall : callWithin depth (.method id) [] call.line ⟨call.store, c⟩ =
      call.method.op.perform [] call.line ⟨call.store, c⟩ := by
    cases depth with
    | zero => exact hrun _
    | succ depth => exact hrun _
  rw [action, Action.bind_apply, Action.member, Action.demand, hmember]
  exact hcall

end ScannerCall

/-! ## Readings -/

/-- What a call took off the input, nothing if the input had ended. -/
structure Reading where
  call : ScannerCall
  taken : Option (List Char)

namespace Reading

/-- The characters that were taken. -/
def chars (r : Reading) : List Char := r.taken.getD []

/-- What the call came to. -/
def outcome (r : Reading) : Outcome Value := r.call.method.outcome r.call.line r.taken

/-- The words that were taken. -/
def words (r : Reading) : List (List Char) := Text.words r.chars

/-- Readings take words off a list of words in order: lines take any number of them, the other
methods one, and nothing is taken only where none are left. -/
inductive Take : List (List Char) → List Reading → List (List Char) → Prop
  | done {ws : List (List Char)} : Take ws [] ws
  | line {r : Reading} {cs : List Char} {readings : List Reading} {ws later : List (List Char)} :
      r.call.method = .line → r.taken = some cs → Take ws readings later →
      Take (Text.words cs ++ ws) (r :: readings) later
  | word {r : Reading} {w : List Char} {readings : List Reading} {ws later : List (List Char)} :
      r.call.method ≠ .line → r.taken = some w → Text.words w = [w] → Take ws readings later →
      Take (w :: ws) (r :: readings) later
  | ended {r : Reading} {readings : List Reading} {later : List (List Char)} :
      r.taken = none → Take [] readings later → Take [] (r :: readings) later

variable {ws later : List (List Char)} {readings : List Reading}

theorem Take.words_eq (h : Take ws readings later) : ws = readings.flatMap words ++ later := by
  induction h with
  | done => rfl
  | @line r cs readings ws later _ htaken _ ih =>
    rw [List.flatMap_cons, words, chars, htaken, Option.getD_some, List.append_assoc, ← ih]
  | @word r w readings ws later _ htaken hw _ ih =>
    rw [List.flatMap_cons, words, chars, htaken, Option.getD_some, hw, List.append_assoc, ← ih]
    rfl
  | @ended r readings later htaken _ ih =>
    rw [List.flatMap_cons, words, chars, htaken]
    exact ih

/-- What readings have taken lies before what is taken after them. -/
theorem Take.split {earlier : List Reading} :
    ∀ {ws : List (List Char)}, Take ws (earlier ++ readings) later →
      ∃ middle, Take ws earlier middle ∧ Take middle readings later := by
  induction earlier with
  | nil => exact fun h => ⟨_, .done, h⟩
  | cons r earlier ih =>
    intro ws h
    cases h with
    | line hm ht h =>
      obtain ⟨middle, h₁, h₂⟩ := ih h
      exact ⟨middle, .line hm ht h₁, h₂⟩
    | word hm ht hw h =>
      obtain ⟨middle, h₁, h₂⟩ := ih h
      exact ⟨middle, .word hm ht hw h₁, h₂⟩
    | ended ht h =>
      obtain ⟨middle, h₁, h₂⟩ := ih h
      exact ⟨middle, .ended ht h₁, h₂⟩

/-- Calls for words take the words one by one, and then nothing. -/
theorem Take.next (h : Take ws readings later) (hword : ∀ r ∈ readings, r.call.method ≠ .line) :
    readings.map (·.taken) =
      (ws.take readings.length).map some ++ List.replicate (readings.length - ws.length) none := by
  induction h with
  | done => simp
  | line hm _ _ _ => exact absurd hm (hword _ List.mem_cons_self)
  | @word r w readings ws later _ htaken _ _ ih =>
    rw [List.map_cons, htaken, ih fun r hr => hword r (List.mem_cons_of_mem _ hr)]
    simp
  | @ended r readings later htaken _ ih =>
    rw [List.map_cons, htaken, ih fun r hr => hword r (List.mem_cons_of_mem _ hr)]
    simp [List.replicate_succ]

end Reading

/-! ## Runs of calls -/

/-- One call takes off the console what is left there first. -/
theorem ScannerCall.reads (call : ScannerCall) {c : Console} {ws : List (List Char)}
    (h : c.Left ws) : ∃ taken d middle, call.method.read c = (taken.elim .ended .chars, d) ∧
      d.Left middle ∧ ∀ readings later, Reading.Take middle readings later →
        Reading.Take ws (⟨call, taken⟩ :: readings) later := by
  by_cases hm : call.method = .line
  · rw [hm]
    rcases h.nextLine with ⟨hread, rfl⟩ | ⟨cs, d, middle, hread, hd, -, rfl⟩
    · exact ⟨none, c, [], hread, h, fun _ _ => .ended rfl⟩
    · exact ⟨some cs, d, middle, hread, hd, fun _ _ => .line hm rfl⟩
  · have hread : call.method.read = Console.nextWord := by
      cases hmethod : call.method <;> first | rfl | exact absurd hmethod hm
    rw [hread]
    rcases h.nextWord with ⟨d, hread, hd, rfl⟩ | ⟨w, d, middle, hread, hd, rfl, hw⟩
    · exact ⟨none, d, [], hread, hd, fun _ _ => .ended rfl⟩
    · exact ⟨some w, d, middle, hread, hd, fun _ _ => .word hm rfl hw⟩

/-- What holds of no calls, and of one more call than it holds of, holds of all calls. The invariant
says what is left on a console. -/
theorem ScannerCall.performAll_induction {σ : Type} {Inv : Console → σ → Prop}
    {P : σ → List Reading → Console → Prop} (hdone : ∀ c a, Inv c a → P a [] c)
    (hstep : ∀ (call : ScannerCall) c a, Inv c a → ∃ taken d b,
      call.method.read c = (taken.elim .ended .chars, d) ∧ Inv d b ∧
        ∀ readings e, P b readings e → P a (⟨call, taken⟩ :: readings) e)
    (depth : Nat) (calls : List ScannerCall) : ∀ {c : Console} {a : σ}, Inv c a →
      ∃ readings d, performAll depth calls c = (readings.map Reading.outcome, d) ∧
        readings.map (·.call) = calls ∧ P a readings d := by
  induction calls with
  | nil => exact fun {c a} h => ⟨[], c, rfl, rfl, hdone c a h⟩
  | cons call calls ih =>
    intro c a h
    obtain ⟨taken, d, b, hread, hd, hone⟩ := hstep call c a h
    obtain ⟨readings, e, hperform, hcalls, hrest⟩ := ih hd
    refine ⟨⟨call, taken⟩ :: readings, e, ?_, by rw [List.map_cons, hcalls],
      hone readings e hrest⟩
    have hfirst := call.method.perform_apply (w := ⟨call.store, c⟩) hread call.line
    rw [performAll, call.action_apply, hfirst]
    dsimp only
    rw [hperform]
    rfl

/-- Calls one after another take what is left one after another. -/
theorem ScannerCall.performAll_reads (depth : Nat) (calls : List ScannerCall) {c : Console}
    {ws : List (List Char)} (h : c.Left ws) : ∃ readings d,
      performAll depth calls c = (readings.map Reading.outcome, d) ∧
        readings.map (·.call) = calls ∧ ∃ later, d.Left later ∧ Reading.Take ws readings later := by
  refine performAll_induction
    (P := fun ws readings d => ∃ later, d.Left later ∧ Reading.Take ws readings later)
    (fun c ws h => ⟨ws, h, .done⟩) (fun call c ws h => ?_) depth calls h
  obtain ⟨taken, d, middle, hread, hd, htake⟩ := call.reads h
  exact ⟨taken, d, middle, hread, hd, fun readings e ⟨later, he, hlater⟩ =>
    ⟨later, he, htake readings later hlater⟩⟩

/-- How calls of scanners divide a text. What they have taken, what is held and what is unread are
the words and the inked characters of the text, in order; a word that was taken is a whole one and
stands in the text after what was taken before it; nothing was taken only where all had been; and
calls for words alone took the words of the text, one each, and then nothing. -/
structure Divides (text : List Char) (readings : List Reading) (c : Console) : Prop where
  conserved : ∃ rest, c.unread = Console.bytesOf rest ∧
    readings.flatMap Reading.words ++ words (c.held.getD []) ++ words rest = words text ∧
      ink (readings.flatMap Reading.chars) ++ ink (c.held.getD []) ++ ink rest = ink text
  whole : ∀ earlier r later w, readings = earlier ++ r :: later → r.call.method ≠ .line →
    r.taken = some w → ∃ before after, text = before ++ w ++ after ∧ IsWord before w after ∧
      ink before = ink (earlier.flatMap Reading.chars)
  ended : ∀ earlier r later, readings = earlier ++ r :: later → r.taken = none →
    ink (earlier.flatMap Reading.chars) = ink text
  next : (∀ r ∈ readings, r.call.method = .word) → readings.map (·.taken) =
    ((words text).take readings.length).map some ++
      List.replicate (readings.length - (words text).length) none

theorem ink_flatMap_chars (readings : List Reading) :
    ink (readings.flatMap Reading.chars) = (readings.flatMap Reading.words).flatten := by
  induction readings with
  | nil => rfl
  | cons r readings ih =>
    rw [List.flatMap_cons, List.flatMap_cons, List.flatten_append, ← ih, Reading.words,
      flatten_words, ink, ink, List.filter_append]
    rfl

/-- For every valid input and every sequence of calls of any scanners, every call comes to what it
took, and the words of the input are divided between what was taken, what is held and what is
unread, in order. -/
theorem scannerCalls_divide (text : String) (limit : Option Nat) (depth : Nat)
    (calls : List ScannerCall) : ∃ readings c,
      ScannerCall.performAll depth calls (.start text.toUTF8 limit) =
        (readings.map Reading.outcome, c) ∧
      readings.map (·.call) = calls ∧ Divides text.toList readings c := by
  have hstart : (Console.start text.toUTF8 limit).Left (words text.toList) :=
    ⟨text.toList, Console.toList_toUTF8 text, rfl⟩
  obtain ⟨readings, c, hperform, hcalls, left, hleft, htake⟩ :=
    ScannerCall.performAll_reads depth calls hstart
  refine ⟨readings, c, hperform, hcalls, ⟨?_, ?_, ?_, ?_⟩⟩
  · obtain ⟨rest, hrest, rfl⟩ := hleft
    have hwords : readings.flatMap Reading.words ++ words (c.held.getD []) ++ words rest =
        words text.toList := by rw [List.append_assoc, ← htake.words_eq]
    refine ⟨rest, hrest, hwords, ?_⟩
    rw [← flatten_words text.toList, ← hwords, List.flatten_append, List.flatten_append,
      ← ink_flatMap_chars, flatten_words, flatten_words]
  · rintro earlier r later w rfl hm hw
    obtain ⟨middle, hbefore, hafter⟩ := htake.split
    cases hafter with
    | line h _ _ => exact absurd h hm
    | ended h _ => rw [h] at hw; cases hw
    | @word _ v _ ws _ _ hv _ _ =>
      obtain rfl : v = w := Option.some.inj (hv.symm.trans hw)
      obtain ⟨before, after, htext, hword, hb, -⟩ := exists_of_words hbefore.words_eq
      refine ⟨before, after, htext, hword, ?_⟩
      rw [← flatten_words, hb, ink_flatMap_chars]
  · rintro earlier r later rfl hnone
    obtain ⟨middle, hbefore, hafter⟩ := htake.split
    cases hafter with
    | line _ h _ => rw [h] at hnone; cases hnone
    | word _ h _ _ => rw [h] at hnone; cases hnone
    | ended _ _ =>
      rw [ink_flatMap_chars, ← flatten_words text.toList, hbefore.words_eq, List.append_nil]
  · intro hword
    exact htake.next fun r hr h => by rw [hword r hr] at h; cases h

end SmallJava
