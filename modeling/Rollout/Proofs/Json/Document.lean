import Rollout.Proofs.Json.Utf8
import Rollout.Proofs.Json.Leaf
import Rollout.Json.Field

/-!
# Reading what the printer writes

A document whose leaves are lexemes is read back from its compact form. The scanner turns the form
into the tokens of the document, and the machine with a stack builds the document from them.
-/

namespace Rollout.Json

/-- Symbols without a stray byte. -/
def Textual (xs : List Symbol) : Prop := ∃ cs : List Char, xs = cs.map .char

/-- What may stand between quotes. -/
def Quotable (raw : List Symbol) : Prop := Token.Unbroken raw ∧ Textual raw

mutual

/-- Whether the leaves of a document are lexemes of their kind. -/
def Lexical : Json → Prop
  | .null => True
  | .bool _ => True
  | .number lexeme => Number.wellFormed lexeme = true ∧ lexeme.all Token.isNumberChar = true
  | .string raw => Quotable raw
  | .array vs => LexicalElements vs
  | .object members => LexicalMembers members

def LexicalElements : List Json → Prop
  | [] => True
  | v :: rest => Lexical v ∧ LexicalElements rest

def LexicalMembers : List (List Symbol × Json) → Prop
  | [] => True
  | (k, v) :: rest => Quotable k ∧ Lexical v ∧ LexicalMembers rest

end

mutual

/-- The tokens of the compact form. -/
def tokens : Json → List Token
  | .null => [.null]
  | .bool b => [.bool b]
  | .number lexeme => [.number lexeme]
  | .string raw => [.string raw]
  | .array [] => [.openArray, .closeArray]
  | .array (v :: rest) => .openArray :: tokens v ++ tokensOfElements rest
  | .object [] => [.openObject, .closeObject]
  | .object ((k, v) :: rest) =>
    .openObject :: .string k :: .colon :: tokens v ++ tokensOfMembers rest

def tokensOfElements : List Json → List Token
  | [] => [.closeArray]
  | v :: rest => .comma :: tokens v ++ tokensOfElements rest

def tokensOfMembers : List (List Symbol × Json) → List Token
  | [] => [.closeObject]
  | (k, v) :: rest => .comma :: .string k :: .colon :: tokens v ++ tokensOfMembers rest

end

namespace Token

/-- A text that cannot extend a lexeme before it. -/
def Delimited : List Symbol → Prop
  | [] => True
  | x :: _ => x = .char ',' ∨ x = .char ']' ∨ x = .char '\x7d'

/-- A text that is empty or starts with a character of no word and no number. -/
def Detached : List Symbol → Prop
  | [] => True
  | x :: _ => ∃ c, x = .char c ∧ isWordChar c = false ∧ isNumberChar c = false

private theorem Delimited.detached {rest : List Symbol} (h : Delimited rest) : Detached rest := by
  cases rest with
  | nil => trivial
  | cons x rest => rcases h with rfl | rfl | rfl <;> exact ⟨_, rfl, rfl, rfl⟩

theorem scanFrom_char (scan : Scan) (c : Char) (rest : List Symbol) :
    scanFrom scan (.char c :: rest) =
      (advance scan c).bind fun next => (scanFrom next.2 rest).map (next.1 ++ ·) := by
  simp only [scanFrom, advanceSymbol]
  cases advance scan c with
  | none => rfl
  | some next =>
      simp only [Option.bind_eq_bind, Option.bind_some]
      cases scanFrom next.2 rest <;> rfl

theorem scanFrom_gap (c : Char) (rest : List Symbol) :
    scanFrom .gap (.char c :: rest) =
      (start c).bind fun next => (scanFrom next.2 rest).map (next.1 ++ ·) :=
  scanFrom_char .gap c rest

/-- What ends a lexeme is read as if it stood alone, once the token before it is out. -/
private theorem scanFrom_detached {scan : Scan} {t : Token} {rest : List Symbol}
    (hend : finish scan = some [t])
    (hgo : ∀ c, isWordChar c = false → isNumberChar c = false →
      advance scan c = (start c).map fun next => (t :: next.1, next.2))
    (hr : Detached rest) : scanFrom scan rest = (scanFrom .gap rest).map (t :: ·) := by
  cases rest with
  | nil => exact hend
  | cons x rest =>
      obtain ⟨c, rfl, hword, hnumber⟩ := hr
      rw [scanFrom_char, scanFrom_gap, hgo c hword hnumber]
      cases start c with
      | none => rfl
      | some next =>
          simp only [Option.map_some, Option.bind_some, Option.map_map]
          rfl

private theorem scanFrom_word {read : List Char} {t : Token} {rest : List Symbol}
    (ht : ofWord read.reverse = some t) (hr : Detached rest) :
    scanFrom (.word read) rest = (scanFrom .gap rest).map (t :: ·) := by
  apply scanFrom_detached _ _ hr
  · simp [finish, ht]
  · intro c hword _
    simp only [advance, hword, Bool.false_eq_true, ↓reduceIte, ht]
    cases start c <;> rfl

private theorem scanFrom_wordChars {cs : List Char} (hcs : cs.all isWordChar = true)
    (read : List Char) (rest : List Symbol) :
    scanFrom (.word read) (cs.map .char ++ rest) = scanFrom (.word (cs.reverse ++ read)) rest := by
  induction cs generalizing read with
  | nil => rfl
  | cons c cs ih =>
      rw [List.all_cons, Bool.and_eq_true] at hcs
      have hc : advance (.word read) c = some ([], .word (c :: read)) := if_pos hcs.1
      rw [List.map_cons, List.cons_append, scanFrom_char, hc, Option.bind_some, ih hcs.2]
      simp

theorem scanFrom_literal (c : Char) (cs : List Char) {t : Token} {rest : List Symbol}
    (hc : start c = some ([], .word [c])) (hcs : cs.all isWordChar = true)
    (ht : ofWord (c :: cs) = some t) (hr : Detached rest) :
    scanFrom .gap ((c :: cs).map .char ++ rest) = (scanFrom .gap rest).map (t :: ·) := by
  rw [List.map_cons, List.cons_append, scanFrom_gap, hc, Option.bind_some,
    scanFrom_wordChars hcs, scanFrom_word (by simpa using ht) hr]
  simp [Function.comp_def]

private theorem scanFrom_number {read : List Char} {rest : List Symbol}
    (hw : Number.wellFormed read.reverse = true) (hr : Detached rest) :
    scanFrom (.number read) rest = (scanFrom .gap rest).map (.number read.reverse :: ·) := by
  have ht : ofNumber read.reverse = some (.number read.reverse) := if_pos hw
  apply scanFrom_detached _ _ hr
  · simp [finish, ht]
  · intro c _ hnumber
    simp only [advance, hnumber, Bool.false_eq_true, ↓reduceIte, ht]
    cases start c <;> rfl

private theorem scanFrom_numberChars {cs : List Char} (hcs : cs.all isNumberChar = true)
    (read : List Char) (rest : List Symbol) :
    scanFrom (.number read) (cs.map .char ++ rest) = scanFrom (.number (cs.reverse ++ read)) rest := by
  induction cs generalizing read with
  | nil => rfl
  | cons c cs ih =>
      rw [List.all_cons, Bool.and_eq_true] at hcs
      have hc : advance (.number read) c = some ([], .number (c :: read)) := if_pos hcs.1
      rw [List.map_cons, List.cons_append, scanFrom_char, hc, Option.bind_some, ih hcs.2]
      simp

private theorem start_of_wellFormed {c : Char} {cs : List Char}
    (hw : Number.wellFormed (c :: cs) = true) : start c = some ([], .number [c]) := by
  have hc : c = '-' ∨ Number.isDigit c = true := by
    by_cases hm : c = '-'
    · exact .inl hm
    · refine .inr ?_
      have hwhole : Number.whole (c :: cs) = true := by
        simpa [Number.wellFormed, hm] using hw
      by_cases hz : c = '0'
      · rw [hz]
        rfl
      · simp only [Number.whole, Bool.and_eq_true] at hwhole
        exact hwhole.1
  rcases hc with rfl | hd
  · rfl
  · have hrange : 0x30 ≤ c.toNat ∧ c.toNat ≤ 0x39 := by
      simpa [Number.isDigit, Char.le_def, UInt32.le_iff_toNat_le] using hd
    have hne : ∀ e : Char, e.toNat < 0x30 ∨ 0x39 < e.toNat → c ≠ e := by
      rintro e he rfl
      omega
    have hword : isWordChar c = false := by
      simp only [isWordChar, Bool.and_eq_false_iff, decide_eq_false_iff_not, Char.le_def,
        UInt32.le_iff_toNat_le]
      left
      change ¬ 0x61 ≤ c.toNat
      omega
    simp [start, isSpace, hd, hword, hne ' ' (by decide), hne '\t' (by decide),
      hne '\n' (by decide), hne '\r' (by decide), hne '\x7b' (by decide), hne '\x7d' (by decide),
      hne '[' (by decide), hne ']' (by decide), hne ':' (by decide), hne ',' (by decide),
      hne '"' (by decide)]

theorem scanFrom_lexeme {lexeme : List Char} {rest : List Symbol}
    (hw : Number.wellFormed lexeme = true) (hcs : lexeme.all isNumberChar = true)
    (hr : Detached rest) :
    scanFrom .gap (lexeme.map .char ++ rest) =
      (scanFrom .gap rest).map (.number lexeme :: ·) := by
  cases lexeme with
  | nil => exact absurd hw (by decide)
  | cons c cs =>
      rw [List.all_cons, Bool.and_eq_true] at hcs
      rw [List.map_cons, List.cons_append, scanFrom_gap, start_of_wellFormed hw, Option.bind_some,
        scanFrom_numberChars hcs.2, scanFrom_number (by simpa using hw) hr]
      simp [Function.comp_def]

theorem scanFrom_string {raw : List Symbol} (hraw : Unbroken raw) (rest : List Symbol) :
    scanFrom .gap (writeString raw ++ rest) = (scanFrom .gap rest).map (.string raw :: ·) := by
  have hopen : start '"' = some ([], .string []) := rfl
  have hclose : ∀ read, advance (.string read) '"' = some ([.string read.reverse], .gap) :=
    fun _ => rfl
  rw [writeString, List.cons_append, List.cons_append, scanFrom_gap, hopen, Option.bind_some,
    List.append_assoc, hraw, List.cons_append, scanFrom_char, hclose, Option.bind_some]
  simp [Function.comp_def]

theorem scanFrom_mark {c : Char} {t : Token} (hc : start c = some ([t], .gap))
    (rest : List Symbol) :
    scanFrom .gap (.char c :: rest) = (scanFrom .gap rest).map (t :: ·) := by
  rw [scanFrom_gap, hc]
  rfl

private theorem delimited_writeElements (vs : List Json) (rest : List Symbol) :
    Delimited (writeElements vs ++ rest) := by
  cases vs with
  | nil => exact .inr (.inl rfl)
  | cons v vs => exact .inl rfl

private theorem delimited_writeMembers (members : List (List Symbol × Json)) (rest : List Symbol) :
    Delimited (writeMembers members ++ rest) := by
  cases members with
  | nil => exact .inr (.inr rfl)
  | cons m members => exact .inl rfl

mutual

private theorem scanFrom_write : ∀ (j : Json) (rest : List Symbol), Lexical j → Delimited rest →
    scanFrom .gap (write j ++ rest) = (scanFrom .gap rest).map (tokens j ++ ·)
  | .null, _, _, hr => scanFrom_literal 'n' ['u', 'l', 'l'] rfl rfl rfl hr.detached
  | .bool true, _, _, hr => scanFrom_literal 't' ['r', 'u', 'e'] rfl rfl rfl hr.detached
  | .bool false, _, _, hr => scanFrom_literal 'f' ['a', 'l', 's', 'e'] rfl rfl rfl hr.detached
  | .number lexeme, rest, h, hr => scanFrom_lexeme h.1 h.2 hr.detached
  | .string raw, rest, h, _ => scanFrom_string h.1 rest
  | .array [], rest, _, _ => by
      simp only [write, List.cons_append, List.nil_append]
      rw [scanFrom_mark (t := .openArray) rfl, scanFrom_mark (t := .closeArray) rfl]
      simp [tokens, Function.comp_def]
  | .array (v :: vs), rest, h, _ => by
      simp only [write, List.cons_append, List.append_assoc]
      rw [scanFrom_mark (t := .openArray) rfl,
        scanFrom_write v _ h.1 (delimited_writeElements vs rest),
        scanFrom_writeElements vs rest h.2]
      simp [tokens, Function.comp_def]
  | .object [], rest, _, _ => by
      simp only [write, List.cons_append, List.nil_append]
      rw [scanFrom_mark (t := .openObject) rfl, scanFrom_mark (t := .closeObject) rfl]
      simp [tokens, Function.comp_def]
  | .object ((k, v) :: members), rest, h, _ => by
      simp only [write, List.cons_append, List.append_assoc]
      rw [scanFrom_mark (t := .openObject) rfl, scanFrom_string h.1.1,
        scanFrom_mark (t := .colon) rfl,
        scanFrom_write v _ h.2.1 (delimited_writeMembers members rest),
        scanFrom_writeMembers members rest h.2.2]
      simp [tokens, Function.comp_def]

private theorem scanFrom_writeElements : ∀ (vs : List Json) (rest : List Symbol),
    LexicalElements vs →
    scanFrom .gap (writeElements vs ++ rest) = (scanFrom .gap rest).map (tokensOfElements vs ++ ·)
  | [], rest, _ => scanFrom_mark rfl rest
  | v :: vs, rest, h => by
      simp only [writeElements, List.cons_append, List.append_assoc]
      rw [scanFrom_mark (t := .comma) rfl,
        scanFrom_write v _ h.1 (delimited_writeElements vs rest),
        scanFrom_writeElements vs rest h.2]
      simp [tokensOfElements, Function.comp_def]

private theorem scanFrom_writeMembers : ∀ (members : List (List Symbol × Json))
    (rest : List Symbol), LexicalMembers members →
    scanFrom .gap (writeMembers members ++ rest) =
      (scanFrom .gap rest).map (tokensOfMembers members ++ ·)
  | [], rest, _ => scanFrom_mark rfl rest
  | (k, v) :: members, rest, h => by
      simp only [writeMembers, List.cons_append, List.append_assoc]
      rw [scanFrom_mark (t := .comma) rfl, scanFrom_string h.1.1, scanFrom_mark (t := .colon) rfl,
        scanFrom_write v _ h.2.1 (delimited_writeMembers members rest),
        scanFrom_writeMembers members rest h.2.2]
      simp [tokensOfMembers, Function.comp_def]

end

theorem scan_write {j : Json} (h : Lexical j) : scan (write j) = some (tokens j) := by
  have hw := scanFrom_write j [] h trivial
  rw [List.append_nil] at hw
  rw [scan, hw]
  simp [scanFrom, finish]

end Token

namespace Reading

private theorem run_firstElement (j : Json) (stack : List Frame) (ts : List Token) :
    run (.firstElement stack) (tokens j ++ ts) = run (.value (.array [] :: stack)) (tokens j ++ ts) := by
  match j with
  | .null | .bool _ | .number _ | .string _ => rfl
  | .array [] | .array (_ :: _) | .object [] | .object (_ :: _) => simp [tokens, run, advance]

mutual

private theorem run_tokens : ∀ (j : Json) (stack : List Frame) (ts : List Token),
    run (.value stack) (tokens j ++ ts) = run (deliver j stack) ts
  | .null, _, _ => rfl
  | .bool _, _, _ => rfl
  | .number _, _, _ => rfl
  | .string _, _, _ => rfl
  | .array [], _, _ => rfl
  | .array (v :: vs), stack, ts => by
      simp only [tokens, List.cons_append, List.append_assoc, run, advance, start]
      rw [run_firstElement, run_tokens v]
      exact run_tokensOfElements vs [v] stack ts
  | .object [], _, _ => rfl
  | .object ((k, v) :: members), stack, ts => by
      simp only [tokens, List.cons_append, List.append_assoc, run, advance, start]
      rw [run_tokens v]
      exact run_tokensOfMembers members [(k, v)] stack ts

private theorem run_tokensOfElements : ∀ (vs before : List Json) (stack : List Frame)
    (ts : List Token),
    run (.afterElement before stack) (tokensOfElements vs ++ ts) =
      run (deliver (.array (before.reverse ++ vs)) stack) ts
  | [], before, stack, ts => by simp [tokensOfElements, run, advance]
  | v :: vs, before, stack, ts => by
      simp only [tokensOfElements, List.cons_append, List.append_assoc, run, advance]
      rw [run_tokens v, deliver, run_tokensOfElements vs (v :: before) stack ts]
      simp

private theorem run_tokensOfMembers : ∀ (members before : List (List Symbol × Json))
    (stack : List Frame) (ts : List Token),
    run (.afterMember before stack) (tokensOfMembers members ++ ts) =
      run (deliver (.object (before.reverse ++ members)) stack) ts
  | [], before, stack, ts => by simp [tokensOfMembers, run, advance]
  | (k, v) :: members, before, stack, ts => by
      simp only [tokensOfMembers, List.cons_append, List.append_assoc, run, advance]
      rw [run_tokens v, deliver, run_tokensOfMembers members ((k, v) :: before) stack ts]
      simp

end

end Reading

theorem ofTokens?_tokens (j : Json) : ofTokens? (tokens j) = some j := by
  have hr := Reading.run_tokens j [] []
  rw [List.append_nil] at hr
  rw [ofTokens?, hr]
  rfl

/-- A document of lexemes is what its compact form is read as. -/
theorem parse?_write {j : Json} (h : Lexical j) : parse? (write j) = some j := by
  rw [parse?, Token.scan_write h]
  exact ofTokens?_tokens j

namespace Textual

theorem append {xs ys : List Symbol} (hx : Textual xs) (hy : Textual ys) : Textual (xs ++ ys) := by
  obtain ⟨cs, rfl⟩ := hx
  obtain ⟨ds, rfl⟩ := hy
  exact ⟨cs ++ ds, List.map_append.symm⟩

theorem cons {xs : List Symbol} (c : Char) (hx : Textual xs) : Textual (.char c :: xs) :=
  append ⟨[c], rfl⟩ hx

theorem chars (cs : List Char) : Textual (cs.map .char) := ⟨cs, rfl⟩

private theorem string {raw : List Symbol} (h : Textual raw) : Textual (writeString raw) :=
  cons '"' (append h (chars ['"']))

end Textual

mutual

private theorem textual_write : ∀ j : Json, Lexical j → Textual (write j)
  | .null, _ => .chars _
  | .bool true, _ => .chars _
  | .bool false, _ => .chars _
  | .number _, _ => .chars _
  | .string _, h => h.2.string
  | .array [], _ => .chars ['[', ']']
  | .array (v :: vs), h => by
      simp only [write]
      exact ((textual_write v h.1).append (textual_writeElements vs h.2)).cons '['
  | .object [], _ => .chars ['\x7b', '\x7d']
  | .object ((k, v) :: members), h => by
      simp only [write, List.cons_append, List.append_assoc]
      have hv := (textual_write v h.2.1).append (textual_writeMembers members h.2.2)
      exact (h.1.2.string.append (hv.cons ':')).cons '\x7b'

private theorem textual_writeElements : ∀ vs : List Json, LexicalElements vs →
    Textual (writeElements vs)
  | [], _ => .chars [']']
  | v :: vs, h => by
      simp only [writeElements]
      exact ((textual_write v h.1).append (textual_writeElements vs h.2)).cons ','

private theorem textual_writeMembers : ∀ members : List (List Symbol × Json),
    LexicalMembers members → Textual (writeMembers members)
  | [], _ => .chars ['\x7d']
  | (k, v) :: members, h => by
      simp only [writeMembers, List.cons_append, List.append_assoc]
      have hv := (textual_write v h.2.1).append (textual_writeMembers members h.2.2)
      exact (h.1.2.string.append (hv.cons ':')).cons ','

end

theorem ofBytes?_toBytes {j : Json} (h : Lexical j) : ofBytes? (toBytes j) = some j := by
  obtain ⟨cs, hcs⟩ := textual_write j h
  have hbytes : toBytes j = Utf8.encodeChars cs := by
    rw [toBytes, hcs, List.flatMap_map]
    rfl
  rw [ofBytes?, hbytes, Utf8.decode_encodeChars, ← hcs]
  exact parse?_write h

end Rollout.Json
