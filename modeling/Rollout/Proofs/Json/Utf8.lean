import Rollout.Text.Utf8

/-!
# Reading what UTF-8 writes

The bytes of a character are read as that character, whatever bytes follow, so encoded text is
read back without a stray byte.
-/

namespace Rollout.Utf8

private theorem toNat_ofNat {n : Nat} (h : n < 256) : (UInt8.ofNat n).toNat = n := by
  rw [UInt8.toNat_ofNat']
  exact Nat.mod_eq_of_lt h

private theorem tail?_ofNat {n : Nat} (h : n < 64) : tail? (UInt8.ofNat (n + 0x80)) = some n := by
  have hb : (UInt8.ofNat (n + 0x80)).toNat = n + 0x80 := toNat_ofNat (by omega)
  rw [tail?, hb, if_pos (by omega), Nat.add_sub_cancel]

theorem scalar?_toNat (c : Char) : scalar? c.toNat = some c := by
  have hc : c.toNat.isValidChar := c.valid
  rw [scalar?, dif_pos hc]
  exact congrArg some (Char.ext rfl)

private theorem toNat_lt_planes (c : Char) : c.toNat < 0x110000 := by
  have hc : c.toNat.isValidChar := c.valid
  simp only [Nat.isValidChar] at hc
  omega

private theorem spelled?_two {n : Nat} (rest : Bytes) (hlo : 0x7F < n) (hhi : n ≤ 0x7FF) :
    spelled? (UInt8.ofNat (n / 64 % 0x20 + 0xC0)) (UInt8.ofNat (n % 0x40 + 0x80) :: rest) =
      some (n, 1) := by
  have ha : (UInt8.ofNat (n / 64 % 0x20 + 0xC0)).toNat = n / 64 + 0xC0 := by
    rw [toNat_ofNat (by omega)]
    omega
  simp only [spelled?, ha]
  rw [if_neg (by omega), if_neg (by omega), if_pos (by omega)]
  simp only [tail?_ofNat (show n % 0x40 < 64 by omega), Option.bind_eq_bind, Option.bind_some,
    Option.some.injEq, Prod.mk.injEq, and_true]
  omega

private theorem spelled?_three {n : Nat} (rest : Bytes) (hlo : 0x7FF < n) (hhi : n ≤ 0xFFFF) :
    spelled? (UInt8.ofNat (n / 4096 % 0x10 + 0xE0))
      (UInt8.ofNat (n / 64 % 0x40 + 0x80) :: UInt8.ofNat (n % 0x40 + 0x80) :: rest) =
      some (n, 2) := by
  have ha : (UInt8.ofNat (n / 4096 % 0x10 + 0xE0)).toNat = n / 4096 + 0xE0 := by
    rw [toNat_ofNat (by omega)]
    omega
  have hn : ((n / 4096 + 0xE0 - 0xE0) * 64 + n / 64 % 0x40) * 64 + n % 0x40 = n := by omega
  simp only [spelled?, ha]
  rw [if_neg (by omega), if_neg (by omega), if_neg (by omega), if_pos (by omega)]
  simp only [tail?_ofNat (show n / 64 % 0x40 < 64 by omega),
    tail?_ofNat (show n % 0x40 < 64 by omega), Option.bind_eq_bind, Option.bind_some, hn]
  rw [if_neg (by omega)]

private theorem spelled?_four {n : Nat} (rest : Bytes) (hlo : 0xFFFF < n) (hhi : n < 0x110000) :
    spelled? (UInt8.ofNat (n / 262144 % 0x08 + 0xF0))
      (UInt8.ofNat (n / 4096 % 0x40 + 0x80) :: UInt8.ofNat (n / 64 % 0x40 + 0x80) ::
        UInt8.ofNat (n % 0x40 + 0x80) :: rest) =
      some (n, 3) := by
  have ha : (UInt8.ofNat (n / 262144 % 0x08 + 0xF0)).toNat = n / 262144 + 0xF0 := by
    rw [toNat_ofNat (by omega)]
    omega
  have hn : (((n / 262144 + 0xF0 - 0xF0) * 64 + n / 4096 % 0x40) * 64 + n / 64 % 0x40) * 64 +
      n % 0x40 = n := by omega
  simp only [spelled?, ha]
  rw [if_neg (by omega), if_neg (by omega), if_neg (by omega), if_neg (by omega),
    if_pos (by omega)]
  simp only [tail?_ofNat (show n / 4096 % 0x40 < 64 by omega),
    tail?_ofNat (show n / 64 % 0x40 < 64 by omega),
    tail?_ofNat (show n % 0x40 < 64 by omega), Option.bind_eq_bind, Option.bind_some, hn]
  rw [if_neg (by omega)]

private theorem spelled?_utf8EncodeChar (c : Char) (rest : Bytes) :
    ∃ lead more, String.utf8EncodeChar c = lead :: more ∧
      spelled? lead (more ++ rest) = some (c.toNat, more.length) := by
  have hc := toNat_lt_planes c
  have hv : c.val.toNat = c.toNat := rfl
  simp only [String.utf8EncodeChar, hv]
  by_cases h1 : c.toNat ≤ 0x7F
  · rw [if_pos h1]
    refine ⟨_, _, rfl, ?_⟩
    have ha : (UInt8.ofNat c.toNat).toNat = c.toNat := toNat_ofNat (by omega)
    simp only [spelled?, ha]
    rw [if_pos (by omega)]
    rfl
  rw [if_neg h1]
  by_cases h2 : c.toNat ≤ 0x7FF
  · rw [if_pos h2]
    exact ⟨_, _, rfl, spelled?_two rest (by omega) h2⟩
  rw [if_neg h2]
  by_cases h3 : c.toNat ≤ 0xFFFF
  · rw [if_pos h3]
    exact ⟨_, _, rfl, spelled?_three rest (by omega) h3⟩
  rw [if_neg h3]
  exact ⟨_, _, rfl, spelled?_four rest (by omega) hc⟩

theorem decodeFrom_utf8EncodeChar (c : Char) (rest : Bytes) :
    decodeFrom 0 (String.utf8EncodeChar c ++ rest) = .char c :: decodeFrom 0 rest := by
  obtain ⟨lead, more, hc, hs⟩ := spelled?_utf8EncodeChar c rest
  have hr : read? lead (more ++ rest) = some (c, more.length) := by
    simp [read?, hs, scalar?_toNat]
  rw [hc, List.cons_append, decodeFrom, hr]
  simp only [decodeFrom_append]

theorem decode_encodeChars (cs : List Char) : decode (encodeChars cs) = cs.map .char := by
  unfold decode
  induction cs with
  | nil => rfl
  | cons c cs ih =>
      change decodeFrom 0 (String.utf8EncodeChar c ++ encodeChars cs) = _
      rw [decodeFrom_utf8EncodeChar, ih]
      rfl

end Rollout.Utf8
