import LoadOrder.Text.Utf8
import Mathlib.Data.String.Basic
import Mathlib.Tactic.SplitIfs

/-!
# Names in the order of their bytes

Names are compared character by character.  Comparing their bytes gives the same order
(`Utf8.encode_lt_encode_iff`): a character with a larger number has a larger first byte, or the
same number of bytes and a larger byte at the first place where the two differ.
-/

namespace LoadOrder.Utf8

theorem cons_lt_cons_of_le {m n : ℕ} {xs ys : List UInt8} (hn : n < 256) (hle : m ≤ n)
    (h : m = n → xs < ys) : UInt8.ofNat m :: xs < UInt8.ofNat n :: ys := by
  rw [List.cons_lt_cons_iff]
  rcases Nat.lt_or_eq_of_le hle with hlt | heq
  · rw [UInt8.lt_iff_toNat_lt, UInt8.toNat_ofNat_of_lt' (Nat.lt_trans hlt hn),
      UInt8.toNat_ofNat_of_lt' hn]
    exact Or.inl hlt
  · exact Or.inr ⟨by rw [heq], h heq⟩

/-- **The bytes of a larger character are larger**, whatever follows. -/
theorem encodeChar_append_lt {c d : Char} (h : c < d) (xs ys : List UInt8) :
    encodeChar c ++ xs < encodeChar d ++ ys := by
  have hlt : c.toNat < d.toNat := h
  have hd : d.toNat < 0x110000 := by
    have hvalid := d.valid
    have hval : d.val.toNat = d.toNat := rfl
    simp only [UInt32.isValidChar, Nat.isValidChar, hval] at hvalid
    omega
  unfold encodeChar
  generalize c.toNat = m at hlt
  generalize d.toNat = n at hlt hd
  dsimp only
  -- where the numbers of bytes differ the first bytes decide, and else the first digits to base 64
  -- that differ
  by_cases h4 : 0x10000 ≤ m
  · rw [if_neg (by omega), if_neg (by omega), if_neg (by omega), if_neg (by omega),
      if_neg (by omega), if_neg (by omega)]
    refine cons_lt_cons_of_le (by omega) (by omega) fun _ => ?_
    refine cons_lt_cons_of_le (by omega) (by omega) fun _ => ?_
    refine cons_lt_cons_of_le (by omega) (by omega) fun _ => ?_
    exact cons_lt_cons_of_le (by omega) (by omega) fun _ => by omega
  by_cases h3 : 0x800 ≤ m
  · rw [if_neg (by omega), if_neg (by omega), if_pos (by omega), if_neg (by omega),
      if_neg (by omega)]
    split_ifs
    · refine cons_lt_cons_of_le (by omega) (by omega) fun _ => ?_
      refine cons_lt_cons_of_le (by omega) (by omega) fun _ => ?_
      exact cons_lt_cons_of_le (by omega) (by omega) fun _ => by omega
    · exact cons_lt_cons_of_le (by omega) (by omega) fun _ => by omega
  by_cases h2 : 0x80 ≤ m
  · rw [if_neg (by omega), if_pos (by omega), if_neg (by omega)]
    split_ifs
    · refine cons_lt_cons_of_le (by omega) (by omega) fun _ => ?_
      exact cons_lt_cons_of_le (by omega) (by omega) fun _ => by omega
    all_goals exact cons_lt_cons_of_le (by omega) (by omega) fun _ => by omega
  · rw [if_pos (by omega)]
    split_ifs <;> exact cons_lt_cons_of_le (by omega) (by omega) fun _ => by omega

theorem encodeChar_ne_nil (c : Char) : encodeChar c ≠ [] := by
  unfold encodeChar
  dsimp only
  split_ifs <;> exact List.cons_ne_nil _ _

theorem flatMap_encodeChar_lt {cs ds : List Char} (h : cs < ds) :
    cs.flatMap encodeChar < ds.flatMap encodeChar := by
  induction h with
  | nil =>
    obtain ⟨b, bs, hb⟩ := List.exists_cons_of_ne_nil (encodeChar_ne_nil _)
    rw [List.flatMap_nil, List.flatMap_cons, hb]
    exact List.nil_lt_cons _ _
  | rel h => exact encodeChar_append_lt h _ _
  | cons _ ih => exact List.append_left_lt ih

/-- **The order of names is the order of their bytes.** -/
theorem encode_lt_encode_iff {a b : String} : encode a < encode b ↔ a < b := by
  have mono : ∀ {a b : String}, a < b → encode a < encode b := fun h =>
    flatMap_encodeChar_lt (String.lt_iff_toList_lt.1 h)
  refine ⟨fun h => ?_, mono⟩
  rcases lt_trichotomy a b with hab | rfl | hba
  · exact hab
  · exact absurd h (List.lt_irrefl _)
  · exact absurd (mono hba) (List.lt_asymm h)

theorem encode_le_encode_iff {a b : String} : encode a ≤ encode b ↔ a ≤ b := by
  rw [← List.not_lt, encode_lt_encode_iff, String.not_lt]

end LoadOrder.Utf8
