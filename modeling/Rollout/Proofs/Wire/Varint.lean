import Rollout.Wire.Varint

/-!
# Integers on the wire are read back

A number of 64 bits is read back from its bytes, whatever follows them, and has at most ten of
them.
-/

namespace Rollout.Wire.Varint

private theorem toNat_ofNat {n : Nat} (h : n < 256) : (UInt8.ofNat n).toNat = n := by
  rw [UInt8.toNat_ofNat', Nat.mod_eq_of_lt h]

private theorem shift_split (n place : Nat) :
    n <<< (7 * place) = (n % 128) <<< (7 * place) + (n / 128) <<< (7 * (place + 1)) := by
  rw [Nat.shiftLeft_eq, Nat.shiftLeft_eq, Nat.shiftLeft_eq, Nat.mul_add 7 place 1, Nat.pow_add]
  generalize 2 ^ (7 * place) = weight
  rw [Nat.mul_comm weight, ← Nat.mul_assoc, ← Nat.add_mul]
  congr 1
  omega

private theorem shift_next_lt {n place : Nat} (hn : n <<< (7 * place) < UInt64.size) :
    (n / 128) <<< (7 * (place + 1)) < UInt64.size := by
  rw [shift_split] at hn
  exact Nat.lt_of_le_of_lt (Nat.le_add_left _ _) hn

private theorem lt_two_of_last {n : Nat} (hn : n <<< (7 * 9) < UInt64.size) : n < 2 := by
  rw [Nat.shiftLeft_eq] at hn
  simp only [UInt64.size] at hn
  omega

/-- The bytes of a number are read at every place at which the number fits in 64 bits. -/
private theorem readFrom_write {n : Nat} (place value : Nat) (rest : Bytes) (hplace : place ≤ 9)
    (hn : n <<< (7 * place) < UInt64.size) :
    readFrom place value (write n ++ rest) = some (value + n <<< (7 * place), rest) := by
  induction n using write.induct generalizing place value with
  | case1 n hsmall =>
      have hlast : ¬ (place = 9 ∧ 2 ≤ n) := by
        rintro ⟨rfl, htwo⟩
        have := lt_two_of_last hn
        omega
      rw [write, if_pos hsmall, List.cons_append, readFrom, toNat_ofNat (by omega), if_neg hlast,
        Nat.mod_eq_of_lt hsmall]
      simp only [if_pos hsmall, List.nil_append]
  | case2 n hbig ih =>
      have hlast : ¬ (place = 9 ∧ 2 ≤ n % 128 + 128) := by
        rintro ⟨rfl, -⟩
        have := lt_two_of_last hn
        omega
      have hbyte : (UInt8.ofNat (n % 128 + 128)).toNat = n % 128 + 128 := toNat_ofNat (by omega)
      rw [write, if_neg hbig, List.cons_append, readFrom, hbyte, if_neg hlast]
      simp only [show ¬ n % 128 + 128 < 128 by omega, if_false, Nat.add_mod_right, Nat.mod_mod]
      rw [ih (place + 1) _ (by omega) (shift_next_lt hn), Nat.add_assoc, ← shift_split]

theorem read?_write {n : Nat} (hn : n < UInt64.size) (rest : Bytes) :
    read? (write n ++ rest) = some (n, rest) := by
  rw [read?, readFrom_write 0 0 rest (by omega) hn, Nat.zero_add]
  rfl

private theorem length_write_of_lt {n : Nat} (place : Nat) (hplace : place ≤ 9)
    (hn : n <<< (7 * place) < UInt64.size) : place + (write n).length ≤ 10 := by
  induction n using write.induct generalizing place with
  | case1 n hsmall =>
      rw [write, if_pos hsmall, List.length_singleton]
      omega
  | case2 n hbig ih =>
      have hlast : place ≠ 9 := by
        rintro rfl
        have := lt_two_of_last hn
        omega
      have hnext := ih (place + 1) (by omega) (shift_next_lt hn)
      rw [write, if_neg hbig, List.length_cons]
      omega

theorem length_write_le {n : Nat} (hn : n < UInt64.size) : (write n).length ≤ 10 := by
  have h := length_write_of_lt 0 (by omega) hn
  omega

end Rollout.Wire.Varint
