import Rollout.Text.Utf8
import Mathlib.Tactic.SplitIfs

/-!
# The order of texts is the order of their bytes

UTF-8 keeps the order of characters: of two characters the smaller one has the smaller bytes,
whatever follows them. So keys in the order of strings are in the order of their encodings.
-/

namespace Rollout.Utf8

/-- The first byte of a scalar value, which also tells how many follow. -/
private def lead (n : Nat) : Nat :=
  if n ≤ 0x7F then n
  else if n ≤ 0x7FF then n / 64 + 0xC0
  else if n ≤ 0xFFFF then n / 4096 + 0xE0
  else n / 262144 + 0xF0

/-- The bytes after the first, six bits to a byte. -/
private def tail (n : Nat) : Bytes :=
  let last := UInt8.ofNat (n % 64 + 0x80)
  let middle := UInt8.ofNat (n / 64 % 64 + 0x80)
  if n ≤ 0x7F then []
  else if n ≤ 0x7FF then [last]
  else if n ≤ 0xFFFF then [middle, last]
  else [UInt8.ofNat (n / 4096 % 64 + 0x80), middle, last]

variable {m n : Nat} {xs ys : Bytes}

private theorem utf8EncodeChar_eq {c : Char} (h : c.toNat = n) (hn : n < 0x110000) :
    String.utf8EncodeChar c = UInt8.ofNat (lead n) :: tail n := by
  have hv : c.val.toNat = n := h
  simp only [String.utf8EncodeChar, hv, lead, tail]
  by_cases h1 : n ≤ 0x7F
  · simp only [if_pos h1]
  by_cases h2 : n ≤ 0x7FF
  · have hlead : n / 64 % 32 = n / 64 := by omega
    simp only [if_neg h1, if_pos h2, hlead]
  by_cases h3 : n ≤ 0xFFFF
  · have hlead : n / 4096 % 16 = n / 4096 := by omega
    simp only [if_neg h1, if_neg h2, if_pos h3, hlead]
  · have hlead : n / 262144 % 8 = n / 262144 := by omega
    simp only [if_neg h1, if_neg h2, if_neg h3, hlead]

private theorem lead_lt (hn : n < 0x110000) : lead n < 256 := by
  unfold lead
  split_ifs <;> omega

private theorem lead_le (h : m < n) (hn : n < 0x110000) : lead m ≤ lead n := by
  unfold lead
  split_ifs <;> omega

private theorem cons_ofNat_lt (hn : n < 256) (h : m < n ∨ m = n ∧ xs < ys) :
    UInt8.ofNat m :: xs < UInt8.ofNat n :: ys := by
  rw [List.cons_lt_cons_iff]
  rcases h with h | ⟨rfl, h⟩
  · refine .inl ?_
    rw [UInt8.lt_iff_toNat_lt, UInt8.toNat_ofNat', UInt8.toNat_ofNat', Nat.mod_eq_of_lt hn,
      Nat.mod_eq_of_lt (by omega)]
    exact h
  · exact .inr ⟨rfl, h⟩

private theorem last_lt (h : m % 64 < n % 64) :
    UInt8.ofNat (m % 64 + 0x80) :: xs < UInt8.ofNat (n % 64 + 0x80) :: ys :=
  cons_ofNat_lt (by omega) (.inl (by omega))

private theorem last_two_lt (h : m % 4096 < n % 4096) :
    UInt8.ofNat (m / 64 % 64 + 0x80) :: UInt8.ofNat (m % 64 + 0x80) :: xs <
      UInt8.ofNat (n / 64 % 64 + 0x80) :: UInt8.ofNat (n % 64 + 0x80) :: ys := by
  apply cons_ofNat_lt (by omega)
  rcases Nat.lt_or_ge (m / 64 % 64) (n / 64 % 64) with hlt | hge
  · exact .inl (by omega)
  · exact .inr ⟨by omega, last_lt (by omega)⟩

private theorem last_three_lt (h : m % 262144 < n % 262144) :
    UInt8.ofNat (m / 4096 % 64 + 0x80) :: UInt8.ofNat (m / 64 % 64 + 0x80) ::
        UInt8.ofNat (m % 64 + 0x80) :: xs <
      UInt8.ofNat (n / 4096 % 64 + 0x80) :: UInt8.ofNat (n / 64 % 64 + 0x80) ::
        UInt8.ofNat (n % 64 + 0x80) :: ys := by
  apply cons_ofNat_lt (by omega)
  rcases Nat.lt_or_ge (m / 4096 % 64) (n / 4096 % 64) with hlt | hge
  · exact .inl (by omega)
  · exact .inr ⟨by omega, last_two_lt (by omega)⟩

/-- With one lead byte there are equally many bytes after it, and these are in order. -/
private theorem tail_lt (h : m < n) (hlead : lead m = lead n) (hn : n < 0x110000) :
    tail m ++ xs < tail n ++ ys := by
  simp only [lead] at hlead
  simp only [tail]
  by_cases h1 : n ≤ 0x7F
  · rw [if_pos h1, if_pos (by omega)] at hlead
    omega
  by_cases h2 : n ≤ 0x7FF
  · have hm1 : ¬ m ≤ 0x7F := by split_ifs at hlead <;> omega
    simp only [if_neg h1, if_neg hm1, if_pos h2, if_pos (show m ≤ 0x7FF by omega)] at hlead ⊢
    exact last_lt (by omega)
  by_cases h3 : n ≤ 0xFFFF
  · have hm2 : ¬ m ≤ 0x7FF := by split_ifs at hlead <;> omega
    simp only [if_neg h1, if_neg (show ¬ m ≤ 0x7F by omega), if_neg h2, if_neg hm2, if_pos h3,
      if_pos (show m ≤ 0xFFFF by omega)] at hlead ⊢
    exact last_two_lt (by omega)
  · have hm3 : ¬ m ≤ 0xFFFF := by split_ifs at hlead <;> omega
    simp only [if_neg h1, if_neg (show ¬ m ≤ 0x7F by omega), if_neg h2,
      if_neg (show ¬ m ≤ 0x7FF by omega), if_neg h3, if_neg hm3] at hlead ⊢
    exact last_three_lt (by omega)

theorem utf8EncodeChar_append_lt {c d : Char} (h : c < d) (xs ys : Bytes) :
    String.utf8EncodeChar c ++ xs < String.utf8EncodeChar d ++ ys := by
  have hlt : c.toNat < d.toNat := h
  have hd : d.toNat < 0x110000 := by
    have hvalid : d.toNat.isValidChar := d.valid
    simp only [Nat.isValidChar] at hvalid
    omega
  rw [utf8EncodeChar_eq rfl (by omega : c.toNat < 0x110000), utf8EncodeChar_eq rfl hd]
  apply cons_ofNat_lt (lead_lt hd)
  rcases Nat.lt_or_eq_of_le (lead_le hlt hd) with hlead | hlead
  · exact .inl hlead
  · exact .inr ⟨hlead, tail_lt hlt hlead hd⟩

theorem encodeChars_lt {cs ds : List Char} (h : cs < ds) : encodeChars cs < encodeChars ds := by
  induction ds generalizing cs with
  | nil => cases h
  | cons d ds ih =>
      change _ < String.utf8EncodeChar d ++ encodeChars ds
      cases cs with
      | nil =>
          obtain ⟨b, bs, hb⟩ := List.exists_cons_of_ne_nil (String.utf8EncodeChar_ne_nil (c := d))
          rw [hb]
          exact List.nil_lt_cons _ _
      | cons c cs =>
          rcases List.cons_lt_cons_iff.mp h with hlt | ⟨rfl, hrest⟩
          · exact utf8EncodeChar_append_lt hlt _ _
          · exact List.append_left_lt (ih hrest)

theorem encode_lt {s t : String} (h : s < t) : encode s < encode t := encodeChars_lt h

end Rollout.Utf8
