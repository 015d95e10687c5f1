import Rollout.Proofs.Json.Utf8

/-!
# Bytes spell at most one text

Overlong spellings and surrogates are refused, so what is read as a character is the encoding of
that character. Bytes that are read as a text without stray bytes are the encoding of the text.
-/

namespace Rollout.Utf8

variable {a x y z : Nat} {c : Char}

private theorem utf8EncodeChar_one (ha : a < 0x80) (hc : a = c.toNat) :
    String.utf8EncodeChar c = [UInt8.ofNat a] := by
  have hv : c.val.toNat = a := hc.symm
  simp only [String.utf8EncodeChar, hv]
  rw [if_pos (by omega)]

private theorem utf8EncodeChar_two (hlo : ¬ a < 0xC2) (hhi : a < 0xE0) (hx : x < 64)
    (hc : (a - 0xC0) * 64 + x = c.toNat) :
    String.utf8EncodeChar c = [UInt8.ofNat a, UInt8.ofNat (x + 0x80)] := by
  have hv : c.val.toNat = (a - 0xC0) * 64 + x := hc.symm
  have hlead : ((a - 0xC0) * 64 + x) / 64 % 32 + 192 = a := by omega
  have hlast : ((a - 0xC0) * 64 + x) % 64 = x := by omega
  simp only [String.utf8EncodeChar, hv, hlead, hlast]
  rw [if_neg (by omega), if_pos (by omega)]

private theorem utf8EncodeChar_three (hlo : ¬ a < 0xE0) (hhi : a < 0xF0) (hx : x < 64)
    (hy : y < 64) (hlong : ¬ ((a - 0xE0) * 64 + x) * 64 + y < 0x800)
    (hc : ((a - 0xE0) * 64 + x) * 64 + y = c.toNat) :
    String.utf8EncodeChar c = [UInt8.ofNat a, UInt8.ofNat (x + 0x80), UInt8.ofNat (y + 0x80)] := by
  have hv : c.val.toNat = ((a - 0xE0) * 64 + x) * 64 + y := hc.symm
  have hlead : (((a - 0xE0) * 64 + x) * 64 + y) / 4096 % 16 + 224 = a := by omega
  have hmiddle : (((a - 0xE0) * 64 + x) * 64 + y) / 64 % 64 = x := by omega
  have hlast : (((a - 0xE0) * 64 + x) * 64 + y) % 64 = y := by omega
  simp only [String.utf8EncodeChar, hv, hlead, hmiddle, hlast]
  rw [if_neg (by omega), if_neg (by omega), if_pos (by omega)]

private theorem utf8EncodeChar_four (hlo : ¬ a < 0xF0) (hhi : a < 0xF5) (hx : x < 64)
    (hy : y < 64) (hz : z < 64) (hlong : ¬ (((a - 0xF0) * 64 + x) * 64 + y) * 64 + z < 0x10000)
    (hc : (((a - 0xF0) * 64 + x) * 64 + y) * 64 + z = c.toNat) :
    String.utf8EncodeChar c =
      [UInt8.ofNat a, UInt8.ofNat (x + 0x80), UInt8.ofNat (y + 0x80), UInt8.ofNat (z + 0x80)] := by
  have hv : c.val.toNat = (((a - 0xF0) * 64 + x) * 64 + y) * 64 + z := hc.symm
  have hlead : ((((a - 0xF0) * 64 + x) * 64 + y) * 64 + z) / 262144 % 8 + 240 = a := by omega
  have hsecond : ((((a - 0xF0) * 64 + x) * 64 + y) * 64 + z) / 4096 % 64 = x := by omega
  have hmiddle : ((((a - 0xF0) * 64 + x) * 64 + y) * 64 + z) / 64 % 64 = y := by omega
  have hlast : ((((a - 0xF0) * 64 + x) * 64 + y) * 64 + z) % 64 = z := by omega
  simp only [String.utf8EncodeChar, hv, hlead, hsecond, hmiddle, hlast]
  rw [if_neg (by omega), if_neg (by omega), if_neg (by omega)]

private theorem tail?_eq_some {b : UInt8} {n : Nat} (h : tail? b = some n) :
    n < 64 ∧ b = UInt8.ofNat (n + 0x80) := by
  rw [tail?] at h
  split at h
  next hb =>
    obtain rfl := Option.some.inj h
    refine ⟨by omega, ?_⟩
    rw [Nat.sub_add_cancel hb.1, UInt8.ofNat_toNat]
  · cases h

/-- Bytes that spell a character are its encoding and what follows it. -/
private theorem utf8EncodeChar_of_spelled? {first : UInt8} {rest : Bytes} {more : Nat}
    (h : spelled? first rest = some (c.toNat, more)) :
    String.utf8EncodeChar c ++ rest.drop more = first :: rest := by
  have hfirst : UInt8.ofNat first.toNat = first := UInt8.ofNat_toNat
  simp only [spelled?] at h
  split at h
  next ha =>
    obtain ⟨hc, rfl⟩ := Prod.mk.inj (Option.some.inj h)
    rw [utf8EncodeChar_one ha hc, hfirst]
    rfl
  split at h
  · cases h
  next hlo =>
  split at h
  next hhi =>
    split at h
    next b rest =>
      simp only [Option.bind_eq_bind, Option.bind_eq_some_iff] at h
      obtain ⟨x, hb, h⟩ := h
      obtain ⟨hx, rfl⟩ := tail?_eq_some hb
      obtain ⟨hc, rfl⟩ := Prod.mk.inj (Option.some.inj h)
      rw [utf8EncodeChar_two hlo hhi hx hc, hfirst]
      rfl
    · cases h
  next hlo =>
  split at h
  next hhi =>
    split at h
    next b b' rest =>
      simp only [Option.bind_eq_bind, Option.bind_eq_some_iff] at h
      obtain ⟨x, hb, y, hb', h⟩ := h
      obtain ⟨hx, rfl⟩ := tail?_eq_some hb
      obtain ⟨hy, rfl⟩ := tail?_eq_some hb'
      split at h
      · cases h
      next hlong =>
        obtain ⟨hc, rfl⟩ := Prod.mk.inj (Option.some.inj h)
        rw [utf8EncodeChar_three hlo hhi hx hy hlong hc, hfirst]
        rfl
    · cases h
  next hlo =>
  split at h
  next hhi =>
    split at h
    next b b' b'' rest =>
      simp only [Option.bind_eq_bind, Option.bind_eq_some_iff] at h
      obtain ⟨x, hb, y, hb', z, hb'', h⟩ := h
      obtain ⟨hx, rfl⟩ := tail?_eq_some hb
      obtain ⟨hy, rfl⟩ := tail?_eq_some hb'
      obtain ⟨hz, rfl⟩ := tail?_eq_some hb''
      split at h
      · cases h
      next hlong =>
        obtain ⟨hc, rfl⟩ := Prod.mk.inj (Option.some.inj h)
        rw [utf8EncodeChar_four hlo hhi hx hy hz hlong hc, hfirst]
        rfl
    · cases h
  · cases h

private theorem toNat_of_scalar? {n : Nat} (h : scalar? n = some c) : c.toNat = n := by
  rw [scalar?, Option.dite_none_right_eq_some] at h
  obtain ⟨hvalid, heq⟩ := h
  obtain rfl := Option.some.inj heq
  rfl

private theorem utf8EncodeChar_of_read? {first : UInt8} {rest : Bytes} {more : Nat}
    (h : read? first rest = some (c, more)) :
    String.utf8EncodeChar c ++ rest.drop more = first :: rest := by
  simp only [read?, Option.bind_eq_bind, Option.bind_eq_some_iff, Option.some.injEq,
    Prod.mk.injEq] at h
  obtain ⟨⟨n, k⟩, hs, c', hc, rfl, rfl⟩ := h
  obtain rfl : c'.toNat = n := toNat_of_scalar? hc
  exact utf8EncodeChar_of_spelled? hs

private theorem decodeFrom_eq_drop (skip : Nat) (bytes : Bytes) :
    decodeFrom skip bytes = decode (bytes.drop skip) := by
  induction skip generalizing bytes with
  | zero => rfl
  | succ skip ih =>
      cases bytes with
      | nil => rfl
      | cons b rest => exact ih rest

private theorem encodeChars_of_chars? {cs : List Char} {bytes : Bytes}
    (h : chars? (decode bytes) = some cs) : encodeChars cs = bytes := by
  induction cs generalizing bytes with
  | nil =>
      cases bytes with
      | nil => rfl
      | cons b rest =>
          rw [decode, decodeFrom] at h
          split at h
          · simp [chars?] at h
          · cases h
  | cons c cs ih =>
      cases bytes with
      | nil => cases h
      | cons b rest =>
          rw [decode, decodeFrom] at h
          split at h
          next c' more hread =>
            obtain ⟨ds, hds, hcs⟩ := Option.map_eq_some_iff.mp h
            obtain ⟨rfl, rfl⟩ := List.cons.inj hcs
            rw [decodeFrom_eq_drop] at hds
            change String.utf8EncodeChar c' ++ encodeChars ds = _
            rw [ih hds, utf8EncodeChar_of_read? hread]
          · cases h

theorem string?_eq_some_iff {bytes : Bytes} {s : String} :
    string? bytes = some s ↔ bytes = encode s := by
  constructor
  · intro h
    obtain ⟨cs, hcs, rfl⟩ := Option.map_eq_some_iff.mp h
    rw [encode, String.toList_ofList, encodeChars_of_chars? hcs]
  · rintro rfl
    rw [string?, encode, decode_encodeChars, chars?_map, Option.map_some, String.ofList_toList]

end Rollout.Utf8
