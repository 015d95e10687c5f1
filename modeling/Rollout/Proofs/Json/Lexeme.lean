import Rollout.Proofs.Json.Leaf
import Mathlib.Data.List.Induction

/-!
# Lexemes of JSON

What a number and a string may look like, said by their parts and without a scanner. A number is
well formed exactly if it has this shape, its natural is spelled in one way only, and the scanner
passes over the inside of a quoted string without leaving it.
-/

namespace Rollout.Json

namespace Number

/-- One digit or more. -/
def Digits (cs : List Char) : Prop := cs ≠ [] ∧ cs.all isDigit = true

/-- A lone zero, or digits of which the first is not zero. -/
def IsWhole (cs : List Char) : Prop := cs = ['0'] ∨ Digits cs ∧ cs.head? ≠ some '0'

/-- Nothing, or a point and digits. -/
def IsFraction (cs : List Char) : Prop := cs = [] ∨ ∃ ds, Digits ds ∧ cs = '.' :: ds

/-- Nothing, or the letter of an exponent, perhaps a sign, and digits. -/
def IsExponent (cs : List Char) : Prop :=
  cs = [] ∨ ∃ e ds, (e = 'e' ∨ e = 'E') ∧ Digits ds ∧
    (cs = e :: ds ∨ cs = e :: '+' :: ds ∨ cs = e :: '-' :: ds)

/-- The shape of a number: its whole part, perhaps behind a minus sign, a fraction, an exponent. -/
inductive Shape : List Char → Prop where
  | intro {sign before after power : List Char} (hsign : sign = [] ∨ sign = ['-'])
      (hwhole : IsWhole before) (hfraction : IsFraction after) (hexponent : IsExponent power) :
      Shape (sign ++ (before ++ (after ++ power)))

private theorem digits_cons {d : Char} {ds : List Char} :
    Digits (d :: ds) ↔ isDigit d = true ∧ ds.all isDigit = true := by
  simp [Digits]

private theorem exists_of_digits {ds : List Char} (h : Digits ds) :
    ∃ d more, ds = d :: more ∧ isDigit d = true ∧ more.all isDigit = true := by
  obtain ⟨d, more, rfl⟩ := List.exists_cons_of_ne_nil h.1
  exact ⟨d, more, rfl, digits_cons.mp h⟩

private theorem not_sign_of_isDigit {d : Char} (h : isDigit d = true) :
    (d == '+' || d == '-') = false := by
  rw [Bool.or_eq_false_iff, beq_eq_false_iff_ne, beq_eq_false_iff_ne]
  constructor <;> rintro rfl <;> cases h

private theorem exponent_iff {cs : List Char} : exponent cs = true ↔ IsExponent cs := by
  constructor
  · intro h
    match cs with
    | [] => exact .inl rfl
    | [e] => simp [exponent] at h
    | [e, d] =>
        simp only [exponent, Bool.and_eq_true, Bool.or_eq_true, beq_iff_eq] at h
        exact .inr ⟨e, [d], h.1, digits_cons.mpr ⟨h.2, rfl⟩, .inl rfl⟩
    | e :: sign :: d :: more =>
        simp only [exponent, Bool.and_eq_true, Bool.or_eq_true, beq_iff_eq] at h
        obtain ⟨he, h⟩ := h
        split_ifs at h with hsign
        · have hds : Digits (d :: more) := digits_cons.mpr (by simpa using h)
          refine .inr ⟨e, d :: more, he, hds, .inr ?_⟩
          rcases hsign with rfl | rfl
          · exact .inl rfl
          · exact .inr rfl
        · have hds : Digits (sign :: d :: more) := digits_cons.mpr (by simpa using h)
          exact .inr ⟨e, _, he, hds, .inl rfl⟩
  · rintro (rfl | ⟨e, ds, he, hds, hcs⟩)
    · rfl
    · obtain ⟨d, more, rfl, hd, hmore⟩ := exists_of_digits hds
      have hletter : (e == 'e' || e == 'E') = true := by simpa using he
      rcases hcs with rfl | rfl | rfl
      · cases more with
        | nil => simp [exponent, hletter, hd]
        | cons d' more => simpa [exponent, hletter, hd, not_sign_of_isDigit hd] using hmore
      · simpa [exponent, hletter, hd] using hmore
      · simpa [exponent, hletter, hd] using hmore

private theorem dropWhile_append {ds rest : List Char} (hds : ds.all isDigit = true)
    (hrest : ∀ c ∈ rest.head?, isDigit c = false) : (ds ++ rest).dropWhile isDigit = rest := by
  rw [List.dropWhile_append_of_pos (List.all_eq_true.mp hds)]
  cases rest with
  | nil => rfl
  | cons c rest => exact List.dropWhile_cons_of_neg (by simp [hrest c rfl])

private theorem IsExponent.head {power : List Char} (h : IsExponent power) :
    ∀ c ∈ power.head?, isDigit c = false ∧ c ≠ '.' := by
  rcases h with rfl | ⟨e, ds, he, -, hcs⟩
  · simp
  · rcases hcs with rfl | rfl | rfl <;> rcases he with rfl | rfl <;> simp [isDigit]

private theorem IsFraction.head {after power : List Char} (h : IsFraction after)
    (hpower : IsExponent power) : ∀ c ∈ (after ++ power).head?, isDigit c = false := by
  rcases h with rfl | ⟨ds, -, rfl⟩
  · exact fun c hc => (hpower.head c hc).1
  · simp [isDigit]

private theorem fraction_iff {cs : List Char} : fraction cs = true ↔
    ∃ after power, cs = after ++ power ∧ IsFraction after ∧ IsExponent power := by
  constructor
  · intro h
    rw [fraction.eq_def] at h
    split at h
    next d rest =>
      rw [Bool.and_eq_true, exponent_iff] at h
      have hds : Digits (d :: rest.takeWhile isDigit) :=
        digits_cons.mpr ⟨h.1, List.all_takeWhile⟩
      refine ⟨'.' :: d :: rest.takeWhile isDigit, rest.dropWhile isDigit, ?_, .inr ⟨_, hds, rfl⟩,
        h.2⟩
      rw [List.cons_append, List.cons_append, List.takeWhile_append_dropWhile]
    · cases h
    · exact ⟨[], cs, rfl, .inl rfl, exponent_iff.mp h⟩
  · rintro ⟨after, power, rfl, hafter, hpower⟩
    rcases hafter with rfl | ⟨ds, hds, rfl⟩
    · have hpoint := hpower.head
      rw [← exponent_iff] at hpower
      rw [List.nil_append, fraction.eq_def]
      split
      · exact absurd rfl (hpoint _ rfl).2
      · exact absurd rfl (hpoint _ rfl).2
      · exact hpower
    · obtain ⟨d, more, rfl, hd, hmore⟩ := exists_of_digits hds
      rw [List.cons_append, List.cons_append, fraction, Bool.and_eq_true, exponent_iff,
        dropWhile_append hmore fun c hc => (hpower.head c hc).1]
      exact ⟨hd, hpower⟩

private theorem whole_iff {cs : List Char} : whole cs = true ↔
    ∃ before after power, cs = before ++ (after ++ power) ∧ IsWhole before ∧ IsFraction after ∧
      IsExponent power := by
  constructor
  · intro h
    rw [whole.eq_def] at h
    split at h
    next rest =>
      obtain ⟨after, power, rfl, hafter, hpower⟩ := fraction_iff.mp h
      exact ⟨['0'], after, power, rfl, .inl rfl, hafter, hpower⟩
    next d rest hzero =>
      rw [Bool.and_eq_true] at h
      obtain ⟨after, power, hrest, hafter, hpower⟩ := fraction_iff.mp h.2
      have hds : Digits (d :: rest.takeWhile isDigit) :=
        digits_cons.mpr ⟨h.1, List.all_takeWhile⟩
      refine ⟨d :: rest.takeWhile isDigit, after, power, ?_, .inr ⟨hds, ?_⟩, hafter, hpower⟩
      · rw [← hrest, List.cons_append, List.takeWhile_append_dropWhile]
      · simpa using hzero
    · cases h
  · rintro ⟨before, after, power, rfl, hbefore, hafter, hpower⟩
    have hfraction : fraction (after ++ power) = true :=
      fraction_iff.mpr ⟨after, power, rfl, hafter, hpower⟩
    rcases hbefore with rfl | ⟨hds, hzero⟩
    · exact hfraction
    · obtain ⟨d, more, rfl, hd, hmore⟩ := exists_of_digits hds
      have hne : d ≠ '0' := by simpa using hzero
      rw [List.cons_append, whole, Bool.and_eq_true, dropWhile_append hmore (hafter.head hpower)]
      · exact ⟨hd, hfraction⟩
      · exact hne

theorem wellFormed_iff {cs : List Char} : wellFormed cs = true ↔ Shape cs := by
  constructor
  · intro h
    rw [wellFormed.eq_def] at h
    split at h
    all_goals obtain ⟨before, after, power, rfl, hwhole, hafter, hpower⟩ := whole_iff.mp h
    · exact .intro (.inr rfl) hwhole hafter hpower
    · exact .intro (.inl rfl) hwhole hafter hpower
  · rintro ⟨hsign, hwhole, hafter, hpower⟩
    have h := whole_iff.mpr ⟨_, _, _, rfl, hwhole, hafter, hpower⟩
    rcases hsign with rfl | rfl
    · rw [List.nil_append, wellFormed]
      · exact h
      · rintro rest hrest
        rw [hrest] at h
        cases h
    · exact h

private theorem isWhole_of_shape {cs : List Char} (h : Shape cs) (hcs : cs.all isDigit = true) :
    IsWhole cs := by
  obtain ⟨hsign, hwhole, hafter, hpower⟩ := h
  simp only [List.all_append, Bool.and_eq_true] at hcs
  obtain ⟨hcsign, -, hcafter, hcpower⟩ := hcs
  rcases hsign with rfl | rfl
  · rcases hafter with rfl | ⟨ds, -, rfl⟩
    · rcases hpower with rfl | ⟨e, ds, he, -, hpower⟩
      · simpa using hwhole
      · rcases hpower with rfl | rfl | rfl <;> rcases he with rfl | rfl <;>
          simp [isDigit] at hcpower
    · simp [isDigit] at hcafter
  · simp [isDigit] at hcsign

private theorem isDigit_iff {d : Char} : isDigit d = true ↔ 0x30 ≤ d.toNat ∧ d.toNat ≤ 0x39 := by
  simp [isDigit, Char.le_def, UInt32.le_iff_toNat_le]

private theorem digitChar_digitValue {d : Char} (h : isDigit d = true) :
    (digitValue d).digitChar = d ∧ digitValue d < 10 := by
  have hrange := isDigit_iff.mp h
  have hvalue : digitValue d < 10 := by
    change d.toNat - 0x30 < 10
    omega
  have hall : ∀ n < 10, n.digitChar.toNat = n + 0x30 := by decide
  refine ⟨Char.toNat_inj.mp ?_, hvalue⟩
  rw [hall _ hvalue]
  change d.toNat - 0x30 + 0x30 = d.toNat
  omega

private theorem valueOf_concat (ds : List Char) (d : Char) :
    valueOf (ds ++ [d]) = 10 * valueOf ds + digitValue d := by
  rw [valueOf, List.foldl_append]
  rfl

private theorem spell_valueOf {ds : List Char} (hne : ds ≠ []) (hds : ds.all isDigit = true)
    (hzero : ds.head? ≠ some '0') : spell (valueOf ds) = ds ∧ 0 < valueOf ds := by
  induction ds using List.reverseRecOn with
  | nil => exact absurd rfl hne
  | append_singleton ds d ih =>
      rw [List.all_append, Bool.and_eq_true] at hds
      obtain ⟨hchar, hvalue⟩ := digitChar_digitValue (d := d) (by simpa using hds.2)
      rw [valueOf_concat]
      by_cases hfirst : ds = []
      · subst hfirst
        have hpos : digitValue d ≠ 0 := by
          intro h
          rw [h] at hchar
          exact hzero (congrArg some hchar.symm)
        change spell (10 * 0 + digitValue d) = [d] ∧ _
        rw [Nat.mul_zero, Nat.zero_add, spell, Nat.toDigits_of_lt_base hvalue, hchar]
        refine ⟨rfl, ?_⟩
        change 0 < 10 * 0 + digitValue d
        omega
      · have hhead : (ds ++ [d]).head? = ds.head? := by
          cases ds with
          | nil => exact absurd rfl hfirst
          | cons d' more => rfl
        rw [hhead] at hzero
        obtain ⟨hspell, hpos⟩ := ih hfirst hds.1 hzero
        refine ⟨?_, by omega⟩
        have hdiv : (10 * valueOf ds + digitValue d) / 10 = valueOf ds := by omega
        have hmod : (10 * valueOf ds + digitValue d) % 10 = digitValue d := by omega
        rw [spell, Nat.toDigits_of_base_le (by decide) (by omega), hdiv, hmod, hchar]
        change spell (valueOf ds) ++ [d] = _
        rw [hspell]

/-- A natural is spelled in one way. -/
theorem natural?_eq_some_iff {lexeme : List Char} {n : Nat} :
    natural? lexeme = some n ↔ lexeme = spell n := by
  constructor
  · intro h
    simp only [natural?, Option.ite_none_right_eq_some, Bool.and_eq_true, Option.some.injEq] at h
    obtain ⟨⟨hwell, hall⟩, rfl⟩ := h
    rcases isWhole_of_shape (wellFormed_iff.mp hwell) hall with rfl | ⟨hds, hzero⟩
    · rfl
    · exact (spell_valueOf hds.1 hds.2 hzero).1.symm
  · rintro rfl
    exact natural?_spell n

theorem Shape.isNumberChar {cs : List Char} (h : Shape cs) :
    cs.all Token.isNumberChar = true := by
  have hdigits : ∀ {ds : List Char}, ds.all isDigit = true →
      ds.all Token.isNumberChar = true := by
    intro ds hds
    rw [List.all_eq_true] at hds ⊢
    exact fun d hd => by simp [Token.isNumberChar, hds d hd]
  obtain ⟨hsign, hwhole, hafter, hpower⟩ := h
  simp only [List.all_append, Bool.and_eq_true]
  refine ⟨?_, ?_, ?_, ?_⟩
  · rcases hsign with rfl | rfl <;> rfl
  · rcases hwhole with rfl | ⟨hds, -⟩
    · rfl
    · exact hdigits hds.2
  · rcases hafter with rfl | ⟨ds, hds, rfl⟩
    · rfl
    · rw [List.all_cons, hdigits hds.2]
      rfl
  · rcases hpower with rfl | ⟨e, ds, he, hds, hpower⟩
    · rfl
    · rcases he with rfl | rfl <;> rcases hpower with rfl | rfl | rfl <;>
        simp only [List.all_cons, hdigits hds.2] <;> rfl

end Number

/-- What may stand between quotes: characters that need no escape, stray bytes, and escapes. -/
inductive Quoted : List Symbol → Prop where
  | nil : Quoted []
  | plain {c : Char} {rest : List Symbol} (hquote : c ≠ '"') (hslash : c ≠ '\\')
      (hcontrol : 0x20 ≤ c.toNat) (h : Quoted rest) : Quoted (.char c :: rest)
  | stray (b : UInt8) {rest : List Symbol} (h : Quoted rest) : Quoted (.stray b :: rest)
  | escape {c : Char} {rest : List Symbol} (hc : Token.isShortEscape c = true) (h : Quoted rest) :
      Quoted (.char '\\' :: .char c :: rest)
  | unit {a b c d : Char} {rest : List Symbol} (ha : Token.isHexDigit a = true)
      (hb : Token.isHexDigit b = true) (hc : Token.isHexDigit c = true)
      (hd : Token.isHexDigit d = true) (h : Quoted rest) :
      Quoted (.char '\\' :: .char 'u' :: .char a :: .char b :: .char c :: .char d :: rest)

theorem Quoted.unbroken {raw : List Symbol} (h : Quoted raw) : Token.Unbroken raw := by
  induction h with
  | nil => exact fun _ _ => rfl
  | plain hquote hslash hcontrol _ ih =>
      intro read rest
      simp [Token.scanFrom, Token.advanceSymbol, Token.advance, hquote, hslash,
        Nat.not_lt.mpr hcontrol, ih _ rest]
  | stray b _ ih =>
      intro read rest
      simp [Token.scanFrom, Token.advanceSymbol, ih _ rest]
  | escape hc _ ih =>
      intro read rest
      simp [Token.scanFrom, Token.advanceSymbol, Token.advance, hc, ih _ rest]
  | unit ha hb hc hd _ ih =>
      intro read rest
      have hu : Token.isShortEscape 'u' = false := rfl
      simp [Token.scanFrom, Token.advanceSymbol, Token.advance, ha, hb, hc, hd, hu, ih _ rest]

theorem quoted_digits {ds : List Char} (h : ∀ d ∈ ds, Number.isDigit d = true) :
    Quoted (ds.map .char) := by
  induction ds with
  | nil => exact .nil
  | cons d ds ih =>
      obtain ⟨hd, hds⟩ := List.forall_mem_cons.mp h
      have hbounds := Number.isDigit_iff.mp hd
      refine .plain ?_ ?_ (by omega) (ih hds)
      · rintro rfl
        simp at hbounds
      · rintro rfl
        simp at hbounds

end Rollout.Json
