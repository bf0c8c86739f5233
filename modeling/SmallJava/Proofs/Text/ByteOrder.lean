/-
The order of texts. Texts are compared character by character, and their encodings byte by byte: the
two orders are one. Main statement: `toUTF8_lt_toUTF8`.
-/
import SmallJava.Proofs.Console.Input
import SmallJava.Table

namespace SmallJava.Text

open Console (bytesOf bytesOf_nil bytesOf_cons bytesOf_eq_nil toList_toUTF8)

/-- The encoding of a smaller character is smaller, whatever follows it: at the first byte that
differs the smaller character has the smaller one. -/
theorem utf8EncodeChar_append_lt {c d : Char} (h : c < d) (xs ys : List UInt8) :
    String.utf8EncodeChar c ++ xs < String.utf8EncodeChar d ++ ys := by
  have hlt : c.val.toNat < d.val.toNat := h
  have hd : d.val.toNat < 1114112 := by rcases d.valid with h | h <;> omega
  -- quotients by a power of 64 are taken one place at a time
  have htwo (k : Nat) : k / 4096 = k / 64 / 64 := by omega
  have hthree (k : Nat) : k / 262144 = k / 64 / 64 / 64 := by omega
  unfold String.utf8EncodeChar
  dsimp only
  generalize c.val.toNat = m at hlt
  generalize d.val.toNat = n at hlt hd
  repeat' split
  all_goals
    simp only [List.cons_append, List.cons_lt_cons_iff, UInt8.lt_iff_toNat_lt, ← UInt8.toNat_inj,
      UInt8.toNat_ofNat', htwo, hthree]
    omega

theorem bytesOf_lt {as bs : List Char} (h : as < bs) : bytesOf as < bytesOf bs := by
  induction as generalizing bs with
  | nil =>
    cases bs with
    | nil => exact absurd h (List.lt_irrefl [])
    | cons b bs =>
      obtain ⟨first, rest, hbytes⟩ := List.exists_cons_of_ne_nil
        (mt bytesOf_eq_nil.1 (List.cons_ne_nil b bs))
      rw [hbytes, bytesOf_nil]
      exact List.nil_lt_cons first rest
  | cons a as ih =>
    cases bs with
    | nil => exact absurd h (List.not_lt_nil _)
    | cons b bs =>
      rw [bytesOf_cons, bytesOf_cons]
      rcases List.cons_lt_cons_iff.1 h with hab | ⟨rfl, hrest⟩
      · exact utf8EncodeChar_append_lt hab _ _
      · exact List.append_left_lt (ih hrest)

/-- Texts are ordered as their bytes are. -/
theorem toUTF8_lt_toUTF8 {a b : String} : a.toUTF8.toList < b.toUTF8.toList ↔ a < b := by
  have hmono {a b : String} (h : a < b) : a.toUTF8.toList < b.toUTF8.toList := by
    rw [toList_toUTF8, toList_toUTF8]
    exact bytesOf_lt (String.lt_iff.1 h)
  refine ⟨fun h => Decidable.byContradiction fun hab => ?_, hmono⟩
  by_cases heq : a = b
  · exact List.lt_irrefl _ (heq ▸ h)
  · exact List.lt_asymm h (hmono (lt_of_not_lt_of_ne hab heq))

end SmallJava.Text
