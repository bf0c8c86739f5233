/-
Output that is full. A run whose output takes a number of bytes in all prints what the run with
unlimited output prints, up to that byte, and ends the same way if nothing is missing; or else it
ends in a fault at the first text that does not fit. Main statement: `runSource_limited`, for every
source text, input and limit.
-/
import SmallJava.Proofs.Eval.Closed
import Mathlib.Tactic.Common

namespace SmallJava

/-! ## Reading -/

namespace Console

/-- The console with other output. -/
def withOutput (printed : ByteArray) (limit : Option Nat) (c : Console) : Console :=
  { c with printed, limit }

/-- The same input is read whatever the output is. -/
def ReadsOnly (read : Console → Taken × Console) : Prop :=
  ∀ c printed limit, read (c.withOutput printed limit) =
    ((read c).1, (read c).2.withOutput printed limit)

theorem ReadsOnly.printed {read : Console → Taken × Console} (h : ReadsOnly read) (c : Console) :
    (read c).2.printed = c.printed :=
  congrArg (fun r => r.2.printed) (h c c.printed c.limit)

theorem ReadsOnly.limit {read : Console → Taken × Console} (h : ReadsOnly read) (c : Console) :
    (read c).2.limit = c.limit :=
  congrArg (fun r => r.2.limit) (h c c.printed c.limit)

theorem readsOnly_takeLine : ReadsOnly takeLine := by
  intro c printed limit
  unfold takeLine withOutput
  split <;> rfl

theorem readsOnly_nextLine : ReadsOnly nextLine := by
  intro c printed limit
  obtain ⟨unread, held, printed₀, limit₀⟩ := c
  cases held with
  | none => exact readsOnly_takeLine _ printed limit
  | some cs => rfl

theorem readsOnly_nextWordWithin (bound : Nat) : ReadsOnly (nextWordWithin bound) := by
  induction bound with
  | zero => exact fun _ _ _ => rfl
  | succ bound ih =>
    intro c printed limit
    rw [nextWordWithin, nextWordWithin, readsOnly_nextLine c printed limit]
    obtain ⟨taken, d⟩ := nextLine c
    cases taken with
    | chars cs =>
      dsimp only
      cases Text.trimStart cs with
      | nil => exact ih d printed limit
      | cons first others => rfl
    | invalid => rfl
    | ended => rfl

theorem readsOnly_nextWord : ReadsOnly nextWord := fun c =>
  readsOnly_nextWordWithin (c.unread.length + 2) c

end Console

/-! ## Printing -/

theorem extract_append_of_le {a b : ByteArray} {n : Nat} (h : n ≤ a.size) :
    (a ++ b).extract 0 n = a.extract 0 n := by
  have hb : b.extract (0 - a.size) 0 = .empty := by simp
  rw [ByteArray.extract_append, Nat.sub_eq_zero_of_le h, hb, ByteArray.append_empty]

theorem extract_of_size_le {a : ByteArray} {n : Nat} (h : a.size ≤ n) : a.extract 0 n = a := by
  have hdata : a.data.extract 0 n = a.data := by
    rw [Array.extract_eq_self_iff]
    exact Or.inr ⟨rfl, h⟩
  exact ByteArray.ext (by rw [ByteArray.data_extract, hdata])

namespace Console

variable {c : Console} {text : String} {limit : Nat}

theorem print_of_none (c : Console) (h : c.limit = none) (text : String) :
    c.print text = (true, { c with printed := c.printed ++ text.toUTF8 }) := by
  obtain ⟨unread, held, printed, _⟩ := c
  cases h
  rfl

/-- A text that fits is printed. -/
theorem print_of_le (h : c.limit = some limit)
    (hfits : (c.printed ++ text.toUTF8).size ≤ limit) :
    c.print text = (true, { c with printed := c.printed ++ text.toUTF8 }) := by
  obtain ⟨unread, held, printed, _⟩ := c
  cases h
  rw [ByteArray.size_append] at hfits
  have hroom : text.toUTF8.size ≤ limit - printed.size := by dsimp only at hfits; omega
  simp only [print, if_pos hroom]

/-- Of a text that does not fit the output takes what there is room for. -/
theorem print_of_lt (h : c.limit = some limit) (hc : c.printed.size ≤ limit)
    (hfull : limit < (c.printed ++ text.toUTF8).size) :
    c.print text = (false, { c with printed := (c.printed ++ text.toUTF8).extract 0 limit }) := by
  obtain ⟨unread, held, printed, _⟩ := c
  cases h
  rw [ByteArray.size_append] at hfull
  have hroom : ¬ text.toUTF8.size ≤ limit - printed.size := by dsimp only at hfull hc; omega
  simp only [print, if_neg hroom, ByteArray.extract_append, extract_of_size_le hc, Nat.zero_sub]

/-- Three bytes of a text, where the output takes no more. -/
example : ((start .empty (some 3)).print "println").2.printed = "pri".toUTF8 := by decide +kernel

end Console

/-! ## Runs with limited output -/

/-- The world with output that takes the given number of bytes in all. -/
def World.limited (limit : Nat) (w : World) : World :=
  { w with console := w.console.withOutput w.console.printed (some limit) }

/-- How something that comes to `free` ends where the output takes `limit` bytes in all: the same
way if it has printed no more than that, or else in a fault with the output full. -/
structure Action.Ends {α : Type} (limit : Nat) (free cut : Outcome α × World) : Prop where
  fits : free.2.console.printed.size ≤ limit → cut = (free.1, free.2.limited limit)
  full : limit < free.2.console.printed.size →
    (∃ line, cut.1 = .fault (.stream .outputFull line)) ∧
      cut.2.console.printed = free.2.console.printed.extract 0 limit

/-- The action prints after what is printed already and, where the output is limited, ends as it
does without a limit or with the output full. -/
structure Action.Truncates {α : Type} (x : Action α) : Prop where
  unlimited : ∀ w : World, w.console.limit = none → (x w).2.console.limit = none
  appends : ∀ w : World, w.console.limit = none →
    ∃ more, (x w).2.console.printed = w.console.printed ++ more
  ends : ∀ (limit : Nat) (w : World), w.console.limit = none →
    w.console.printed.size ≤ limit → Ends limit (x w) (x (w.limited limit))

namespace Action

variable {α β : Type}

/-- Where nothing is printed, nothing is cut. -/
theorem ends_of_printed {limit : Nat} {w : World} {free cut : Outcome α × World}
    (hw : w.console.printed.size ≤ limit) (hp : free.2.console.printed = w.console.printed)
    (h : cut = (free.1, free.2.limited limit)) : Ends limit free cut where
  fits _ := h
  full hl := by rw [hp] at hl; omega

theorem truncates_demand (question : Store → Outcome α) : (demand question).Truncates where
  unlimited _ h := h
  appends _ _ := ⟨.empty, ByteArray.append_empty.symm⟩
  ends _ _ _ hw := ends_of_printed hw rfl rfl

theorem truncates_make (f : Store → α × Store) : (make f).Truncates where
  unlimited _ h := h
  appends _ _ := ⟨.empty, ByteArray.append_empty.symm⟩
  ends _ _ _ hw := ends_of_printed hw rfl rfl

theorem truncates_take {read : Console → Console.Taken × Console} (h : Console.ReadsOnly read)
    (line : Nat) : (take read line).Truncates := by
  -- whatever is read, the console is the one that reading leaves
  have hconsole (w : World) : (take read line w).2.console = (read w.console).2 := by
    unfold take
    split <;> simp_all
  refine ⟨fun w hw => ?_, fun w _ => ⟨.empty, ?_⟩, fun limit w _ hp => ?_⟩
  · rw [hconsole, h.limit, hw]
  · rw [hconsole, h.printed, ByteArray.append_empty]
  · refine ends_of_printed hp (by rw [hconsole, h.printed]) ?_
    unfold take World.limited
    dsimp only
    rw [h w.console, ← h.printed]
    obtain ⟨taken, c⟩ := read w.console
    cases taken <;> rfl

theorem print_of_true {w : World} {text : String} {c : Console}
    (h : w.console.print text = (true, c)) (line : Nat) :
    print text line w = (.done (), { w with console := c }) := by
  unfold print
  rw [h]

theorem print_of_false {w : World} {text : String} {c : Console}
    (h : w.console.print text = (false, c)) (line : Nat) :
    print text line w = (.fault (.stream .outputFull line), { w with console := c }) := by
  unfold print
  rw [h]

/-- The first text that does not fit is printed as far as it fits. -/
theorem truncates_print (text : String) (line : Nat) : (print text line).Truncates where
  unlimited w hw := by rw [print_of_true (w.console.print_of_none hw text)]; exact hw
  appends w hw := ⟨text.toUTF8, by rw [print_of_true (w.console.print_of_none hw text)]⟩
  ends limit w hw hp := by
    have hlimit : (w.limited limit).console.limit = some limit := rfl
    rw [print_of_true (w.console.print_of_none hw text)]
    constructor
    · intro hfits
      exact print_of_true (Console.print_of_le hlimit hfits) line
    · intro hfull
      rw [print_of_false (Console.print_of_lt hlimit hp hfull)]
      exact ⟨⟨line, rfl⟩, rfl⟩

theorem Truncates.bind {x : Action α} {f : α → Action β} (hx : x.Truncates)
    (hf : ∀ a, (f a).Truncates) : (x >>= f).Truncates where
  unlimited w hw := by
    rcases bind_snd x f w with h | ⟨a, h⟩
    · rw [h]
      exact hx.unlimited w hw
    · rw [h]
      exact (hf a).unlimited _ (hx.unlimited w hw)
  appends w hw := by
    obtain ⟨more, hmore⟩ := hx.appends w hw
    rcases bind_snd x f w with h | ⟨a, h⟩
    · exact ⟨more, by rw [h, hmore]⟩
    · obtain ⟨rest, hrest⟩ := (hf a).appends _ (hx.unlimited w hw)
      exact ⟨more ++ rest, by rw [h, hrest, hmore, ByteArray.append_assoc]⟩
  ends limit w hw hp := by
    have hv := hx.unlimited w hw
    have h := hx.ends limit w hw hp
    rw [bind_apply, bind_apply]
    generalize x w = r at h hv
    generalize x (w.limited limit) = s at h
    obtain ⟨outcome, v⟩ := r
    by_cases hfits : v.console.printed.size ≤ limit
    · -- the first action ends as without a limit, so the second starts as without one
      rw [h.fits hfits]
      cases outcome with
      | done a => exact (hf a).ends limit v hv hfits
      | _ => exact ends_of_printed hfits rfl rfl
    · -- the first action ends with the output full, so the second never starts
      obtain ⟨⟨line, hs⟩, hprinted⟩ := h.full (Nat.not_le.1 hfits)
      obtain ⟨cut, u⟩ := s
      obtain rfl : cut = _ := hs
      have hfull (v' : World) (more : ByteArray)
          (h' : v'.console.printed = v.console.printed ++ more) (o : Outcome β) :
          Ends limit (o, v') ((.fault (.stream .outputFull line), u) : Outcome β × World) := by
        have hsize : v.console.printed.size ≤ v'.console.printed.size := by
          rw [h', ByteArray.size_append]
          omega
        refine ⟨fun hle => absurd (Nat.le_trans hsize hle) hfits, fun _ => ⟨⟨line, rfl⟩, ?_⟩⟩
        rw [h', extract_append_of_le (Nat.le_of_not_le hfits)]
        exact hprinted
      cases outcome with
      | done a =>
        obtain ⟨more, h'⟩ := (hf a).appends v hv
        exact hfull _ more h' _
      | _ => exact hfull v .empty ByteArray.append_empty.symm _

/-- How a limited run ends, as its result and what it has printed. -/
theorem Ends.toExcept {limit : Nat} {free cut : Outcome α × World} (h : Ends limit free cut) :
    cut.2.console.printed = free.2.console.printed.extract 0 limit ∧
      (free.2.console.printed.size ≤ limit →
        (cut.1.toExcept, cut.2) = (free.1.toExcept, free.2.limited limit)) ∧
      (limit < free.2.console.printed.size →
        ∃ line, cut.1.toExcept = .error (.fault (.stream .outputFull line))) := by
  refine ⟨?_, fun hfits => by rw [h.fits hfits], fun hfull => ?_⟩
  · by_cases hfits : free.2.console.printed.size ≤ limit
    · rw [h.fits hfits, extract_of_size_le hfits]
      rfl
    · exact (h.full (Nat.not_le.1 hfits)).2
  · obtain ⟨⟨line, hline⟩, -⟩ := h.full hfull
    exact ⟨line, by rw [hline]; rfl⟩

theorem closed_truncates : Closed Truncates where
  bind := Truncates.bind
  demand := truncates_demand
  make := truncates_make
  print := truncates_print
  nextLine := truncates_take Console.readsOnly_nextLine
  nextWord := truncates_take Console.readsOnly_nextWord

end Action

/-- A source text run with output that takes `limit` bytes in all prints the first bytes of what it
prints with unlimited output. If that is all, it leaves the same world and ends the same way, and
otherwise it fails with the output full. -/
theorem runSource_limited (depth : Nat) (source : String) (input : ByteArray) (limit : Nat) :
    let free := runSource depth source (.start input none)
    let cut := runSource depth source (.start input (some limit))
    cut.2.console.printed = free.2.console.printed.extract 0 limit ∧
      (free.2.console.printed.size ≤ limit → cut = (free.1, free.2.limited limit)) ∧
      (limit < free.2.console.printed.size →
        ∃ line, cut.1 = .error (.fault (.stream .outputFull line))) := by
  unfold runSource
  -- what the library holds plays no part
  generalize Library.store = store
  cases Program.ofSource source with
  | error e =>
    -- nothing runs, so nothing is printed
    exact ⟨(extract_of_size_le (Nat.zero_le limit)).symm, fun _ => rfl,
      fun h => absurd h (Nat.not_lt_zero limit)⟩
  | ok p =>
    have h := (Action.closed_truncates.program depth p).ends limit ⟨store, .start input none⟩ rfl
      (Nat.zero_le limit)
    exact h.toExcept

end SmallJava
