import Rollout.Json.Printer
import Rollout.Proofs.Json.Utf8
import Mathlib.Data.List.TakeWhile

/-!
# Numbers and strings of written JSON

A spelled natural is a well-formed lexeme that counts what it spells. A written string means the
text it was written for, and the scanner passes over it without leaving the string.
-/

namespace Rollout.Json

namespace Number

private theorem isDigit_eq (c : Char) : isDigit c = c.isDigit := rfl

theorem isDigit_spell {n : Nat} {c : Char} (hc : c ∈ spell n) : isDigit c = true := by
  rw [isDigit_eq]
  exact Nat.isDigit_of_mem_toDigits (by decide) (by decide) hc

private theorem all_isDigit_spell (n : Nat) : (spell n).all isDigit = true :=
  List.all_eq_true.mpr fun _ hc => isDigit_spell hc

private theorem valueOf_spell (n : Nat) : valueOf (spell n) = n :=
  Nat.ofDigitChars_ten_toDigits

private theorem digitChar_ne_zero {n : Nat} (hpos : 0 < n) (h : n < 10) : n.digitChar ≠ '0' := by
  have hall : ∀ m < 10, 0 < m → m.digitChar ≠ '0' := by decide
  exact hall n h hpos

private theorem spell_head (n : Nat) (hn : 0 < n) :
    ∃ d ds, spell n = d :: ds ∧ d ≠ '0' := by
  induction n using Nat.strongRecOn with
  | ind n ih =>
      by_cases h : n < 10
      · exact ⟨n.digitChar, [], Nat.toDigits_of_lt_base h, digitChar_ne_zero hn h⟩
      · obtain ⟨d, ds, hd, hne⟩ := ih (n / 10) (by omega) (by omega)
        refine ⟨d, ds ++ [(n % 10).digitChar], ?_, hne⟩
        rw [spell, Nat.toDigits_of_base_le (by decide) (by omega)]
        change spell (n / 10) ++ _ = _
        rw [hd, List.cons_append]

private theorem dropWhile_isDigit {ds : List Char} (h : ds.all isDigit = true) :
    ds.dropWhile isDigit = [] := by
  apply List.dropWhile_eq_nil_iff.mpr
  exact List.all_eq_true.mp h

theorem wellFormed_spell (n : Nat) : wellFormed (spell n) = true := by
  rcases Nat.eq_zero_or_pos n with rfl | hn
  · rfl
  · obtain ⟨d, ds, hd, hne⟩ := spell_head n hn
    have hall := all_isDigit_spell n
    rw [hd, List.all_cons, Bool.and_eq_true] at hall
    have hminus : d ≠ '-' := by
      rintro rfl
      exact absurd hall.1 (by decide)
    rw [hd]
    simp [wellFormed, whole, hminus, hall.1, dropWhile_isDigit hall.2, fraction, exponent]

theorem natural?_spell (n : Nat) : natural? (spell n) = some n := by
  rw [natural?, wellFormed_spell, all_isDigit_spell, valueOf_spell]
  rfl

end Number

private theorem hexDigit_facts : ∀ n < 16, Token.isHexDigit (hexDigit n) = true ∧
    hexValue (hexDigit n) = n := by decide

private theorem codeUnit?_control {n : Nat} (h : n < 0x20) :
    codeUnit? [.char '0', .char '0', .char (hexDigit (n / 16)), .char (hexDigit (n % 16))] =
      some n := by
  obtain ⟨hd, hv⟩ := hexDigit_facts (n / 16) (by omega)
  obtain ⟨hd', hv'⟩ := hexDigit_facts (n % 16) (by omega)
  have hz : Token.isHexDigit '0' = true := rfl
  have hzv : hexValue '0' = 0 := rfl
  simp only [codeUnit?, hd, hd', hz, hv, hv', hzv, Bool.and_self, ↓reduceIte, Option.some.injEq]
  omega

private theorem meaningFrom_writeChar (c : Char) (rest : List Symbol) :
    meaningFrom .none ((writeChar c).map .char ++ rest) =
      (meaningFrom .none rest).map (c :: ·) := by
  have short {e : Char} (hu : e ≠ 'u') (he : shortEscape? e = some c) :
      meaningFrom .none (.char '\\' :: .char e :: rest) =
        (meaningFrom .none rest).map (c :: ·) := by
    simp [meaningFrom, hu, he]
  unfold writeChar
  by_cases h1 : c = '"'
  · subst h1; exact short (by decide) rfl
  by_cases h2 : c = '\\'
  · subst h2; exact short (by decide) rfl
  by_cases h3 : c = '\x08'
  · subst h3; exact short (by decide) rfl
  by_cases h4 : c = '\t'
  · subst h4; exact short (by decide) rfl
  by_cases h5 : c = '\n'
  · subst h5; exact short (by decide) rfl
  by_cases h6 : c = '\x0c'
  · subst h6; exact short (by decide) rfl
  by_cases h7 : c = '\r'
  · subst h7; exact short (by decide) rfl
  simp only [beq_iff_eq, h1, h2, h3, h4, h5, h6, h7, ↓reduceIte]
  by_cases h8 : c.toNat < 0x20
  · have hu := codeUnit?_control h8
    have hh : isHighHalf c.toNat = false := by
      simp only [isHighHalf, Bool.and_eq_false_iff, decide_eq_false_iff_not]
      omega
    simp [h8, meaningFrom, hu, hh, Utf8.scalar?_toNat]
  · rw [if_neg h8]
    exact meaningFrom_writeChar_plain h2 rest

private theorem meaningFrom_writeChars (cs : List Char) :
    meaningFrom .none ((writeChars cs).map .char) = some cs := by
  induction cs with
  | nil => rfl
  | cons c cs ih =>
      rw [writeChars, List.flatMap_cons, List.map_append, meaningFrom_writeChar]
      change (meaningFrom .none ((writeChars cs).map .char)).map _ = _
      rw [ih]
      rfl

@[simp] theorem meaning?_writeChars (s : String) :
    meaning? ((writeChars s.toList).map .char) = some s := by
  rw [meaning?, meaningFrom_writeChars, Option.map_some, String.ofList_toList]

namespace Token

/-- The scanner passes over these symbols without leaving the string they stand in. -/
def Unbroken (raw : List Symbol) : Prop :=
  ∀ read rest, scanFrom (.string read) (raw ++ rest) = scanFrom (.string (raw.reverse ++ read)) rest

theorem Unbroken.append {xs ys : List Symbol} (hx : Unbroken xs) (hy : Unbroken ys) :
    Unbroken (xs ++ ys) := by
  intro read rest
  rw [List.append_assoc, hx, hy, List.reverse_append, List.append_assoc]

private theorem unbroken_writeChar (c : Char) : Unbroken ((writeChar c).map .char) := by
  intro read rest
  have short {e : Char} (he : isShortEscape e = true) :
      scanFrom (.string read) (.char '\\' :: .char e :: rest) =
        scanFrom (.string (.char e :: .char '\\' :: read)) rest := by
    simp [scanFrom, advanceSymbol, advance, he]
  unfold writeChar
  by_cases h1 : c = '"'
  · subst h1; exact short rfl
  by_cases h2 : c = '\\'
  · subst h2; exact short rfl
  by_cases h3 : c = '\x08'
  · subst h3; exact short rfl
  by_cases h4 : c = '\t'
  · subst h4; exact short rfl
  by_cases h5 : c = '\n'
  · subst h5; exact short rfl
  by_cases h6 : c = '\x0c'
  · subst h6; exact short rfl
  by_cases h7 : c = '\r'
  · subst h7; exact short rfl
  simp only [beq_iff_eq, h1, h2, h3, h4, h5, h6, h7, ↓reduceIte]
  by_cases h8 : c.toNat < 0x20
  · have hd := (hexDigit_facts (c.toNat / 16) (by omega)).1
    have hd' := (hexDigit_facts (c.toNat % 16) (by omega)).1
    have hz : isHexDigit '0' = true := rfl
    have hu : isShortEscape 'u' = false := rfl
    simp [h8, scanFrom, advanceSymbol, advance, hd, hd', hz, hu]
  · simp [h8, h1, h2, scanFrom, advanceSymbol, advance]

theorem unbroken_writeChars (cs : List Char) : Unbroken ((writeChars cs).map .char) := by
  induction cs with
  | nil =>
      intro read rest
      rfl
  | cons c cs ih =>
      rw [writeChars, List.flatMap_cons, List.map_append]
      exact (unbroken_writeChar c).append ih

end Token
end Rollout.Json
