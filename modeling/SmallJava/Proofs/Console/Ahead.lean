/-
Input that is not read ahead. Reading takes the input line by line, so where the input ends with a
line, what stands behind it is not looked at before a program asks for more than the input has. Main
statement: `runSource_followedBy`, a run that is not stopped by the end of its input goes the same way
with more input behind, and leaves that unread.
-/
import SmallJava.Proofs.Console.Input
import SmallJava.Proofs.Eval.Closed

namespace SmallJava

/-! ## Lines of the input -/

namespace Console

/-- The bytes are lines, the last of them with its line feed. -/
def WholeLines (bytes : List UInt8) : Prop := ∀ b, bytes.getLast? = some b → b = 10

/-- The console with more input behind what is unread. -/
def followedBy (more : List UInt8) (c : Console) : Console := { c with unread := c.unread ++ more }

variable {bytes : List UInt8} {c : Console}

theorem WholeLines.ten_mem (h : WholeLines bytes) (hne : bytes ≠ []) : 10 ∈ bytes := by
  have hlast := List.getLast?_eq_some_getLast hne
  have hmem := List.getLast_mem hne
  rwa [h _ hlast] at hmem

/-- What stands behind a line feed is not part of the first line. -/
theorem splitLine_append_of_mem (h : 10 ∈ bytes) (more : List UInt8) :
    splitLine (bytes ++ more) = ((splitLine bytes).1, (splitLine bytes).2 ++ more) := by
  induction bytes with
  | nil => cases h
  | cons b bs ih =>
    rw [List.cons_append, splitLine, splitLine]
    by_cases hb : b = 10
    · rw [if_pos hb, if_pos hb]
    · have hbs : 10 ∈ bs := (List.mem_cons.1 h).resolve_left (Ne.symm hb)
      rw [if_neg hb, if_neg hb, ih hbs]

theorem splitLine_suffix (bytes : List UInt8) : (splitLine bytes).2 <:+ bytes := by
  induction bytes with
  | nil => exact List.suffix_rfl
  | cons b bs ih =>
    rw [splitLine]
    split
    · exact List.suffix_cons b bs
    · exact ih.trans (List.suffix_cons b bs)

/-- Whole lines after the first are whole lines. -/
theorem WholeLines.splitLine (h : WholeLines bytes) : WholeLines (Console.splitLine bytes).2 := by
  intro b hb
  obtain ⟨first, hfirst⟩ := splitLine_suffix bytes
  refine h b ?_
  rw [← hfirst, List.getLast?_append, hb]
  rfl

/-! ## Reading -/

/-- Where the unread bytes are whole lines, reading leaves whole lines, and unless it finds the input
ended it does not see what stands behind them. -/
structure KeepsToLines (read : Console → Taken × Console) : Prop where
  whole : ∀ c, WholeLines c.unread → WholeLines (read c).2.unread
  ahead : ∀ c more, WholeLines c.unread → (read c).1 ≠ .ended →
    read (c.followedBy more) = ((read c).1, (read c).2.followedBy more)

theorem keepsToLines_takeLine : KeepsToLines takeLine where
  whole c h := by
    unfold takeLine
    split
    · exact h
    · exact h.splitLine
  ahead c more h hread := by
    by_cases hne : c.unread = []
    · rw [takeLine, if_pos hne] at hread
      exact absurd rfl hread
    · have hmore : (c.followedBy more).unread ≠ [] := List.append_ne_nil_of_left_ne_nil hne more
      rw [takeLine, if_neg hmore, takeLine, if_neg hne, followedBy,
        splitLine_append_of_mem (h.ten_mem hne)]
      rfl

theorem keepsToLines_nextLine : KeepsToLines nextLine where
  whole c h := by
    unfold nextLine
    cases c.held with
    | none => exact keepsToLines_takeLine.whole c h
    | some cs => exact h
  ahead c more h hread := by
    obtain ⟨unread, held, printed, limit⟩ := c
    cases held with
    | none => exact keepsToLines_takeLine.ahead _ more h hread
    | some cs => rfl

theorem keepsToLines_nextWordWithin (bound : Nat) : KeepsToLines (nextWordWithin bound) := by
  induction bound with
  | zero => exact ⟨fun _ h => h, fun _ _ _ hread => absurd rfl hread⟩
  | succ bound ih =>
    constructor
    · intro c h
      have hline := keepsToLines_nextLine.whole c h
      rw [nextWordWithin]
      generalize nextLine c = r at hline
      obtain ⟨taken, d⟩ := r
      cases taken with
      | chars cs =>
        dsimp only
        split
        · exact ih.whole d hline
        · exact hline
      | _ => exact hline
    · intro c more h hread
      have hwhole := keepsToLines_nextLine.whole c h
      have hline := keepsToLines_nextLine.ahead c more h
      rw [nextWordWithin] at hread ⊢
      rw [nextWordWithin]
      generalize nextLine c = r at hwhole hline hread
      obtain ⟨taken, d⟩ := r
      cases taken with
      | chars cs =>
        rw [hline (by simp)]
        dsimp only at hread ⊢
        split
        · rename_i hblank
          rw [hblank] at hread
          exact ih.ahead d more hwhole hread
        · rfl
      | invalid => rw [hline (by simp)]
      | ended => exact absurd rfl hread

theorem keepsToLines_nextWord : KeepsToLines nextWord where
  whole c h := (keepsToLines_nextWordWithin _).whole c h
  ahead c more h hread := by
    -- the bound that fits the longer input fits the shorter one as well
    have hsize : c.size ≤ c.unread.length + 1 := by
      unfold size
      cases c.held <;> simp
    have hbound : nextWord c = nextWordWithin ((c.followedBy more).unread.length + 2) c := by
      refine nextWordWithin_eq (by omega) ?_
      rw [followedBy, List.length_append]
      omega
    rw [hbound] at hread ⊢
    exact (keepsToLines_nextWordWithin _).ahead c more h hread

/-! ## Printing -/

theorem unread_print (c : Console) (text : String) : (c.print text).2.unread = c.unread := by
  unfold print
  cases c.limit with
  | none => rfl
  | some limit => dsimp only; split <;> rfl

theorem print_followedBy (c : Console) (more : List UInt8) (text : String) :
    (c.followedBy more).print text = ((c.print text).1, (c.print text).2.followedBy more) := by
  unfold print followedBy
  cases c.limit with
  | none => rfl
  | some limit => dsimp only; split <;> rfl

end Console

/-! ## Runs -/

/-- The world with more input behind what is unread. -/
def World.followedBy (more : List UInt8) (w : World) : World :=
  { w with console := w.console.followedBy more }

/-- Where the unread bytes are whole lines, the action leaves whole lines, and unless it is stopped by
the end of the input it does the same with more input behind. -/
structure Action.KeepsToLines {α : Type} (x : Action α) : Prop where
  whole : ∀ w : World, Console.WholeLines w.console.unread →
    Console.WholeLines (x w).2.console.unread
  ahead : ∀ (w : World) (more : List UInt8), Console.WholeLines w.console.unread →
    (∀ line, (x w).1 ≠ .fault (.inputExhausted line)) →
    x (w.followedBy more) = ((x w).1, (x w).2.followedBy more)

namespace Action

variable {α β : Type}

theorem keepsToLines_demand (question : Store → Outcome α) : (demand question).KeepsToLines :=
  ⟨fun _ h => h, fun _ _ _ _ => rfl⟩

theorem keepsToLines_make (f : Store → α × Store) : (make f).KeepsToLines :=
  ⟨fun _ h => h, fun _ _ _ _ => rfl⟩

theorem keepsToLines_print (text : String) (line : Nat) : (print text line).KeepsToLines where
  whole w h := by
    have hunread := w.console.unread_print text
    unfold print
    generalize w.console.print text = r at hunread
    obtain ⟨fits, console⟩ := r
    cases fits <;> exact hunread ▸ h
  ahead w more _ _ := by
    unfold print World.followedBy
    rw [Console.print_followedBy]
    generalize w.console.print text = r
    obtain ⟨fits, console⟩ := r
    cases fits <;> rfl

theorem keepsToLines_take {read : Console → Console.Taken × Console} (h : Console.KeepsToLines read)
    (line : Nat) : (take read line).KeepsToLines where
  whole w hw := by
    have hread := h.whole w.console hw
    unfold take
    generalize read w.console = r at hread
    obtain ⟨taken, console⟩ := r
    cases taken <;> exact hread
  ahead w more hw hrun := by
    have hread := h.ahead w.console more hw
    unfold take at hrun ⊢
    unfold World.followedBy
    generalize read w.console = r at hread hrun
    obtain ⟨taken, console⟩ := r
    cases taken with
    | ended => exact absurd rfl (hrun line)
    | _ => rw [hread (by simp)]

theorem KeepsToLines.bind {x : Action α} {f : α → Action β} (hx : x.KeepsToLines)
    (hf : ∀ a, (f a).KeepsToLines) : (x >>= f).KeepsToLines where
  whole w hw := by
    rcases bind_snd x f w with h | ⟨a, h⟩
    · rw [h]
      exact hx.whole w hw
    · rw [h]
      exact (hf a).whole _ (hx.whole w hw)
  ahead w more hw hrun := by
    have hfirst := hx.whole w hw
    have hahead := hx.ahead w more hw
    rw [bind_apply] at hrun ⊢
    rw [bind_apply]
    generalize x w = r at hfirst hahead hrun
    obtain ⟨outcome, v⟩ := r
    cases outcome with
    | done a =>
      rw [hahead (fun line h => by cases h)]
      exact (hf a).ahead v more hfirst hrun
    | fault e => rw [hahead fun line h => hrun line (by cases h; rfl)]
    | tooDeep => rw [hahead fun line h => by cases h]
    | stuck => rw [hahead fun line h => by cases h]

theorem closed_keepsToLines : Closed KeepsToLines where
  bind := KeepsToLines.bind
  demand := keepsToLines_demand
  make := keepsToLines_make
  print := keepsToLines_print
  nextLine := keepsToLines_take Console.keepsToLines_nextLine
  nextWord := keepsToLines_take Console.keepsToLines_nextWord

end Action

theorem Console.start_append (input more : ByteArray) (limit : Option Nat) :
    Console.start (input ++ more) limit = (Console.start input limit).followedBy more.toList := by
  simp [start, followedBy, toList_eq_data, ByteArray.data_append]

/-- Input of whole lines that does not run out is all that matters of the input: with more behind it,
a source text ends the same way and leaves the same world, but that the rest of the input is unread
as well. -/
theorem runSource_followedBy (depth : Nat) (source : String) {input : ByteArray}
    (hinput : Console.WholeLines input.toList) (limit : Option Nat)
    (hrun : ∀ line, (runSource depth source (.start input limit)).1 ≠
      .error (.fault (.inputExhausted line))) (more : ByteArray) :
    runSource depth source (.start (input ++ more) limit) =
      ((runSource depth source (.start input limit)).1,
        (runSource depth source (.start input limit)).2.followedBy more.toList) := by
  rw [Console.start_append]
  unfold runSource at hrun ⊢
  -- what the library holds plays no part
  generalize Library.store = store at hrun ⊢
  cases hp : Program.ofSource source with
  | error e => rfl
  | ok p =>
    rw [hp] at hrun
    have h := (Action.closed_keepsToLines.program depth p).ahead ⟨store, .start input limit⟩
      more.toList hinput fun line hline => hrun line (by simp only [hline]; rfl)
    have hworld : (⟨store, (Console.start input limit).followedBy more.toList⟩ : World) =
        World.followedBy more.toList ⟨store, .start input limit⟩ := rfl
    simp only [hworld, h]

theorem runSource_followedBy_invalid_bytes :
    ∃ source, source = "import java.util.Scanner; class A \x7b static void main(String s) \x7b
        Scanner a = new Scanner(System.in); System.out.println(a.next() + a.nextLine()); \x7d \x7d" ∧
      Console.WholeLines "\n7 b\nc d\n".toUTF8.toList ∧
      ∃ w, runSource 1 source (.start ("\n7 b\nc d\n".toUTF8 ++ ⟨#[255]⟩) none) = (.ok (), w) ∧
        w.console.printed = "7 b\n".toUTF8 ∧ w.console.unread = [99, 32, 100, 10, 255] := by
  obtain ⟨source, hs⟩ : ∃ source, source =
      "import java.util.Scanner; class A \x7b static void main(String s) \x7b
        Scanner a = new Scanner(System.in); System.out.println(a.next() + a.nextLine()); \x7d \x7d" :=
    ⟨_, rfl⟩
  have hinput : Console.WholeLines "\n7 b\nc d\n".toUTF8.toList := by
    have hlast : "\n7 b\nc d\n".toUTF8.toList.getLast? = some 10 := by decide +kernel
    intro b hb
    rw [hlast] at hb
    exact (Option.some.inj hb).symm
  obtain ⟨r, hr⟩ : ∃ r, r = runSource 1 source (.start "\n7 b\nc d\n".toUTF8 none) := ⟨_, rfl⟩
  have hend : (r.1.toOption, r.2.console.printed, r.2.console.unread) =
      (some (), "7 b\n".toUTF8, [99, 32, 100, 10]) := by rw [hr, hs]; decide +kernel
  obtain ⟨result, w⟩ := r
  cases result with
  | error e => cases hend
  | ok _ =>
    obtain ⟨-, hend⟩ := Prod.mk.inj hend
    obtain ⟨hprinted, hunread⟩ := Prod.mk.inj hend
    have h := runSource_followedBy 1 source hinput none (fun line => by rw [← hr]; intro he; cases he)
      ⟨#[255]⟩
    rw [← hr] at h
    refine ⟨source, hs, hinput, _, h, hprinted, ?_⟩
    show w.console.unread ++ _ = _
    rw [hunread]
    decide +kernel

end SmallJava
