import Rollout.Proofs.Json.Document
import Rollout.Proofs.Json.Lexeme
import Mathlib.Data.List.Chain

/-!
# Tokens laid out in a text

A layout of tokens spells each of them out, in order, with blanks before, between and after them.
The scanner finds the tokens of a layout, if no two lexemes stand side by side in it, and every
text in which it finds tokens is a layout of them.
-/

namespace Rollout.Json

namespace Token

/-- Blanks and nothing else. -/
def Blank (gap : List Symbol) : Prop := ∀ x ∈ gap, ∃ c, x = .char c ∧ isSpace c = true

def spelling : Token → List Symbol
  | .openObject => [.char '\x7b']
  | .closeObject => [.char '\x7d']
  | .openArray => [.char '[']
  | .closeArray => [.char ']']
  | .colon => [.char ':']
  | .comma => [.char ',']
  | .null => "null".toList.map .char
  | .bool true => "true".toList.map .char
  | .bool false => "false".toList.map .char
  | .number lexeme => lexeme.map .char
  | .string raw => writeString raw

/-- Whether the lexeme that a token holds may stand in a text. -/
def Valid : Token → Prop
  | .number lexeme => Number.Shape lexeme
  | .string raw => Quoted raw
  | _ => True

/-- A text in which these tokens stand in order, with blanks around them. -/
inductive Layout : List Token → List Symbol → Prop where
  | blank {gap : List Symbol} (hgap : Blank gap) : Layout [] gap
  | token {gap rest : List Symbol} {t : Token} {ts : List Token} (hgap : Blank gap)
      (ht : t.Valid) (h : Layout ts rest) : Layout (t :: ts) (gap ++ (t.spelling ++ rest))

/-- The tokens of one character, which need no blank beside them. -/
def isMark : Token → Bool
  | .openObject | .closeObject | .openArray | .closeArray | .colon | .comma => true
  | _ => false

/-- No two words, numbers or strings stand side by side. -/
abbrev Apart (ts : List Token) : Prop :=
  ts.IsChain fun t u => t.isMark = true ∨ u.isMark = true

section Scanning

variable {t : Token} {ts : List Token} {gap text rest : List Symbol}

private theorem not_lexeme_of_isSpace {c : Char} (h : isSpace c = true) :
    isWordChar c = false ∧ isNumberChar c = false := by
  simp only [isSpace, Bool.or_eq_true, beq_iff_eq] at h
  rcases h with ((rfl | rfl) | rfl) | rfl <;> exact ⟨rfl, rfl⟩

private theorem scanFrom_space {c : Char} (h : isSpace c = true) (rest : List Symbol) :
    scanFrom .gap (.char c :: rest) = scanFrom .gap rest := by
  have hc : start c = some ([], .gap) := if_pos h
  rw [scanFrom_gap, hc, Option.bind_some]
  simp

private theorem scanFrom_blank (h : Blank gap) (rest : List Symbol) :
    scanFrom .gap (gap ++ rest) = scanFrom .gap rest := by
  induction gap with
  | nil => rfl
  | cons x gap ih =>
      obtain ⟨c, rfl, hc⟩ := h x List.mem_cons_self
      rw [List.cons_append, scanFrom_space hc, ih fun y hy => h y (List.mem_cons_of_mem _ hy)]

private theorem Layout.detached (h : Layout ts text) (hmark : ∀ t ∈ ts.head?, t.isMark = true) :
    Detached text := by
  have hblank : ∀ {x gap rest}, Blank (x :: gap) → Detached (x :: rest) := by
    intro x gap rest hgap
    obtain ⟨c, rfl, hc⟩ := hgap x List.mem_cons_self
    exact ⟨c, rfl, not_lexeme_of_isSpace hc⟩
  cases h with
  | blank hgap =>
      cases text with
      | nil => trivial
      | cons x gap => exact hblank hgap
  | @token gap rest t ts hgap ht h =>
      cases gap with
      | nil =>
          have ht := hmark t rfl
          cases t <;> first | exact ⟨_, rfl, rfl, rfl⟩ | cases ht
      | cons x gap => exact hblank hgap

private theorem scanFrom_spelling (ht : t.Valid) (hrest : t.isMark = true ∨ Detached rest) :
    scanFrom .gap (t.spelling ++ rest) = (scanFrom .gap rest).map (t :: ·) := by
  have hdetached : t.isMark = false → Detached rest := fun hmark =>
    hrest.resolve_left (by simp [hmark])
  cases t with
  | openObject | closeObject | openArray | closeArray | colon | comma =>
      exact scanFrom_mark rfl rest
  | string raw => exact scanFrom_string ht.unbroken rest
  | null => exact scanFrom_literal 'n' ['u', 'l', 'l'] rfl rfl rfl (hdetached rfl)
  | bool b =>
      cases b with
      | true => exact scanFrom_literal 't' ['r', 'u', 'e'] rfl rfl rfl (hdetached rfl)
      | false => exact scanFrom_literal 'f' ['a', 'l', 's', 'e'] rfl rfl rfl (hdetached rfl)
  | number lexeme =>
      exact scanFrom_lexeme (Number.wellFormed_iff.mpr ht) (Number.Shape.isNumberChar ht)
        (hdetached rfl)

theorem scan_of_layout (h : Layout ts text) (hapart : Apart ts) : scan text = some ts := by
  rw [scan]
  induction h with
  | blank hgap =>
      have hscan := scanFrom_blank hgap []
      rwa [List.append_nil] at hscan
  | @token gap rest t ts hgap ht h ih =>
      obtain ⟨hnext, hapart⟩ := List.isChain_cons.mp hapart
      have hrest : t.isMark = true ∨ Detached rest := by
        by_cases hmark : t.isMark = true
        · exact .inl hmark
        · exact .inr (h.detached fun u hu => (hnext u hu).resolve_left hmark)
      rw [scanFrom_blank hgap, scanFrom_spelling ht hrest, ih hapart]
      rfl

private theorem Layout.space {c : Char} (hc : isSpace c = true) (h : Layout ts text) :
    Layout ts (.char c :: text) := by
  have hblank : ∀ {gap}, Blank gap → Blank (.char c :: gap) := by
    intro gap hgap x hx
    rcases List.mem_cons.mp hx with rfl | hx
    · exact ⟨c, rfl, hc⟩
    · exact hgap x hx
  cases h with
  | blank hgap => exact .blank (hblank hgap)
  | token hgap ht h => exact .token (hblank hgap) ht h

private theorem Layout.first (ht : t.Valid) (h : Layout ts rest) :
    Layout (t :: ts) (t.spelling ++ rest) := by
  have hgap : Blank [] := by simp [Blank]
  exact .token hgap ht h

private theorem of_ofWord {cs : List Char} (h : ofWord cs = some t) :
    t.Valid ∧ t.spelling = cs.map .char := by
  unfold ofWord at h
  split at h <;> cases h <;> exact ⟨trivial, rfl⟩

private theorem of_ofNumber {cs : List Char} (h : ofNumber cs = some t) :
    t.Valid ∧ t.spelling = cs.map .char := by
  rw [ofNumber, Option.ite_none_right_eq_some] at h
  obtain ⟨hw, rfl⟩ := h.imp_right Option.some.inj
  exact ⟨Number.wellFormed_iff.mp hw, rfl⟩

/-- The text goes on with the rest of a word or number, of which `read` has been seen, and then a
layout. -/
private def GoesOn (close : List Char → Option Token) (read : List Char) (text : List Symbol)
    (ts : List Token) : Prop :=
  ∃ cs rest t ts', text = cs.map .char ++ rest ∧ close (read.reverse ++ cs) = some t ∧
    ts = t :: ts' ∧ Layout ts' rest

section Lexemes

variable {close : List Char → Option Token} {read : List Char} {c : Char}

private theorem GoesOn.step (h : GoesOn close (c :: read) rest ts) :
    GoesOn close read (.char c :: rest) ts := by
  obtain ⟨cs, rest, t, ts', rfl, ht, rfl, h⟩ := h
  exact ⟨c :: cs, rest, t, ts', rfl, by simpa using ht, rfl, h⟩

private theorem GoesOn.stop (ht : close read.reverse = some t) (h : Layout ts text) :
    GoesOn close read text (t :: ts) :=
  ⟨[], text, t, ts, rfl, by rwa [List.append_nil], rfl, h⟩

private theorem GoesOn.layout
    (hclose : ∀ {cs t}, close cs = some t → t.Valid ∧ t.spelling = cs.map .char)
    (h : GoesOn close [c] rest ts) : Layout ts (.char c :: rest) := by
  obtain ⟨cs, rest, t, ts', rfl, ht, rfl, h⟩ := h
  obtain ⟨hvalid, hspelling⟩ := hclose ht
  have hlayout := h.first hvalid
  rwa [hspelling] at hlayout

end Lexemes

/-- What a string may still hold where the scanner stands inside it. -/
private def Unseen : Scan → List Symbol → Prop
  | .escape _, raw => Quoted (.char '\\' :: raw)
  | .hex left _, raw => ∃ (ds : List Char) (after : List Symbol), raw = ds.map .char ++ after ∧
      ds.length = max left 1 ∧ (∀ d ∈ ds, isHexDigit d = true) ∧ Quoted after
  | _, raw => Quoted raw

/-- The text goes on with the rest of a string, its closing quote, and then a layout. -/
private def Quotes (scan : Scan) (read text : List Symbol) (ts : List Token) : Prop :=
  ∃ raw rest ts', text = raw ++ .char '"' :: rest ∧ Unseen scan raw ∧
    ts = .string (read.reverse ++ raw) :: ts' ∧ Layout ts' rest

private theorem Quotes.step {scan scan' : Scan} {x : Symbol} {read : List Symbol}
    (h : Quotes scan (x :: read) rest ts)
    (hunseen : ∀ raw, Unseen scan raw → Unseen scan' (x :: raw)) :
    Quotes scan' read (x :: rest) ts := by
  obtain ⟨raw, rest, ts', rfl, hraw, rfl, h⟩ := h
  exact ⟨x :: raw, rest, ts', rfl, hunseen raw hraw, by simp, h⟩

/-- What the text must be where the scanner stands, if these tokens come of it. -/
private def Ends : Scan → List Symbol → List Token → Prop
  | .gap, text, ts => Layout ts text
  | .word read, text, ts => GoesOn ofWord read text ts
  | .number read, text, ts => GoesOn ofNumber read text ts
  | .string read, text, ts => Quotes (.string read) read text ts
  | .escape read, text, ts => Quotes (.escape read) read text ts
  | .hex left read, text, ts => Quotes (.hex left read) read text ts

private theorem start_cases {c : Char} {out : List Token} {scan : Scan}
    (h : start c = some (out, scan)) :
    (isSpace c = true ∧ out = [] ∧ scan = .gap) ∨
      (∃ t : Token, t.Valid ∧ t.spelling = [.char c] ∧ out = [t] ∧ scan = .gap) ∨
      (c = '"' ∧ out = [] ∧ scan = .string []) ∨ (out = [] ∧ scan = .word [c]) ∨
      (out = [] ∧ scan = .number [c]) := by
  have mark {c' : Char} (t : Token) (ht : t.Valid) (hspelling : t.spelling = [.char c'])
      (hc : (c == c') = true) :
      ∃ t' : Token, t'.Valid ∧ t'.spelling = [.char c] ∧ [t] = [t'] ∧ Scan.gap = .gap := by
    obtain rfl := beq_iff_eq.mp hc
    exact ⟨t, ht, hspelling, rfl, rfl⟩
  unfold start at h
  split_ifs at h with hspace h1 h2 h3 h4 h5 h6 hquote hword hnumber <;> cases h
  · exact .inl ⟨hspace, rfl, rfl⟩
  · exact .inr (.inl (mark .openObject trivial rfl h1))
  · exact .inr (.inl (mark .closeObject trivial rfl h2))
  · exact .inr (.inl (mark .openArray trivial rfl h3))
  · exact .inr (.inl (mark .closeArray trivial rfl h4))
  · exact .inr (.inl (mark .colon trivial rfl h5))
  · exact .inr (.inl (mark .comma trivial rfl h6))
  · exact .inr (.inr (.inl ⟨beq_iff_eq.mp hquote, rfl, rfl⟩))
  · exact .inr (.inr (.inr (.inl ⟨rfl, rfl⟩)))
  · exact .inr (.inr (.inr (.inr ⟨rfl, rfl⟩)))

/-- A text read between tokens is a layout, if the scanner is right about what stands after its
first character. -/
private theorem layout_of_gap {c : Char}
    (ih : ∀ scan ts, scanFrom scan rest = some ts → Ends scan rest ts)
    (h : scanFrom .gap (.char c :: rest) = some ts) : Layout ts (.char c :: rest) := by
  rw [scanFrom_gap, Option.bind_eq_some_iff] at h
  obtain ⟨⟨out, scan⟩, hstart, h⟩ := h
  obtain ⟨more, hmore, rfl⟩ := Option.map_eq_some_iff.mp h
  have hends := ih scan more hmore
  rcases start_cases hstart with ⟨hspace, rfl, rfl⟩ | ⟨t, ht, hspelling, rfl, rfl⟩ |
    ⟨rfl, rfl, rfl⟩ | ⟨rfl, rfl⟩ | ⟨rfl, rfl⟩
  · exact Layout.space hspace hends
  · have hlayout := Layout.first ht hends
    rwa [hspelling] at hlayout
  · obtain ⟨raw, after, ts', rfl, hraw, rfl, hlayout⟩ := hends
    have hlayout : Layout (.string raw :: ts') (writeString raw ++ after) := hlayout.first hraw
    rw [writeString, List.append_assoc] at hlayout
    exact hlayout
  · exact GoesOn.layout of_ofWord hends
  · exact GoesOn.layout of_ofNumber hends

private theorem close_start (closed : Option Token) (started : Option (List Token × Scan)) :
    (do
      let token ← closed
      let (tokens, scan) ← started
      some (token :: tokens, scan)) =
      closed.bind fun t => started.map fun next => (t :: next.1, next.2) := by
  cases closed <;> cases started <;> rfl

private theorem goesOn_of_stop {scan : Scan} {close : List Char → Option Token}
    {read : List Char} {c : Char}
    (hadvance : advance scan c = (close read.reverse).bind fun t =>
      (start c).map fun next => (t :: next.1, next.2))
    (hgap : ∀ ts, scanFrom .gap (.char c :: rest) = some ts → Layout ts (.char c :: rest))
    (h : scanFrom scan (.char c :: rest) = some ts) : GoesOn close read (.char c :: rest) ts := by
  rw [scanFrom_char, hadvance] at h
  simp only [Option.bind_eq_some_iff, Option.map_eq_some_iff] at h
  obtain ⟨_, ⟨t, ht, next, hstart, rfl⟩, more, hmore, rfl⟩ := h
  have hnext : scanFrom .gap (.char c :: rest) = some (next.1 ++ more) := by
    rw [scanFrom_gap, hstart, Option.bind_some, hmore, Option.map_some]
  exact .stop ht (hgap _ hnext)

private theorem ends_next {scan : Scan} {c : Char}
    (ih : ∀ scan ts, scanFrom scan rest = some ts → Ends scan rest ts)
    (h : scanFrom scan (.char c :: rest) = some ts) :
    ∃ next more, advance scan c = some next ∧ Ends next.2 rest more ∧ ts = next.1 ++ more := by
  rw [scanFrom_char, Option.bind_eq_some_iff] at h
  obtain ⟨next, hnext, h⟩ := h
  obtain ⟨more, hmore, rfl⟩ := Option.map_eq_some_iff.mp h
  exact ⟨next, more, hnext, ih _ more hmore, rfl⟩

private theorem quotes_of_string {read : List Symbol} {c : Char}
    (ih : ∀ scan ts, scanFrom scan rest = some ts → Ends scan rest ts)
    (h : scanFrom (.string read) (.char c :: rest) = some ts) :
    Quotes (.string read) read (.char c :: rest) ts := by
  obtain ⟨next, more, hnext, hends, rfl⟩ := ends_next ih h
  simp only [advance, beq_iff_eq] at hnext
  split_ifs at hnext with hquote hslash hcontrol <;> cases hnext
  · subst hquote
    exact ⟨[], rest, more, rfl, .nil, by simp, hends⟩
  · subst hslash
    exact Quotes.step hends fun _ hraw => hraw
  · exact Quotes.step hends fun _ hraw => .plain hquote hslash (Nat.not_lt.mp hcontrol) hraw

private theorem quotes_of_escape {read : List Symbol} {c : Char}
    (ih : ∀ scan ts, scanFrom scan rest = some ts → Ends scan rest ts)
    (h : scanFrom (.escape read) (.char c :: rest) = some ts) :
    Quotes (.escape read) read (.char c :: rest) ts := by
  obtain ⟨next, more, hnext, hends, rfl⟩ := ends_next ih h
  simp only [advance, beq_iff_eq] at hnext
  split_ifs at hnext with hshort hunit <;> cases hnext
  · exact Quotes.step hends fun _ hraw => .escape hshort hraw
  · subst hunit
    refine Quotes.step hends fun _ hraw => ?_
    obtain ⟨ds, after, rfl, hlength, hhex, hafter⟩ := hraw
    obtain ⟨a, b, c, d, rfl⟩ := List.length_eq_four.mp hlength
    simp only [List.mem_cons, List.not_mem_nil, or_false, forall_eq_or_imp, forall_eq] at hhex
    exact .unit hhex.1 hhex.2.1 hhex.2.2.1 hhex.2.2.2 hafter

private theorem quotes_of_hex {left : Nat} {read : List Symbol} {c : Char}
    (ih : ∀ scan ts, scanFrom scan rest = some ts → Ends scan rest ts)
    (h : scanFrom (.hex left read) (.char c :: rest) = some ts) :
    Quotes (.hex left read) read (.char c :: rest) ts := by
  obtain ⟨next, more, hnext, hends, rfl⟩ := ends_next ih h
  simp only [advance] at hnext
  split_ifs at hnext with hhex hlast <;> cases hnext
  · refine Quotes.step hends fun raw hraw => ⟨[c], raw, rfl, ?_, ?_, hraw⟩
    · rw [List.length_singleton, Nat.max_eq_right hlast]
    · simpa using hhex
  · refine Quotes.step hends fun _ hraw => ?_
    obtain ⟨ds, after, rfl, hlength, hds, hafter⟩ := hraw
    refine ⟨c :: ds, after, rfl, ?_, ?_, hafter⟩
    · rw [List.length_cons]
      omega
    · exact List.forall_mem_cons.mpr ⟨hhex, hds⟩

private theorem ends_of_scanFrom (scan : Scan) (h : scanFrom scan text = some ts) :
    Ends scan text ts := by
  -- On the text and for every scan at once, as each character leads to another one.
  induction text generalizing scan ts with
  | nil =>
      have hnil : Layout [] [] := .blank (by simp [Blank])
      cases scan with
      | gap =>
          cases h
          exact hnil
      | word read | number read =>
          obtain ⟨t, ht, rfl⟩ := Option.map_eq_some_iff.mp h
          exact GoesOn.stop ht hnil
      | string | escape | hex => cases h
  | cons x rest ih =>
      cases x with
      | stray b =>
          cases scan with
          | string read =>
              have hscan : scanFrom (.string (.stray b :: read)) rest = some ts := by
                simpa [scanFrom, advanceSymbol] using h
              exact Quotes.step (ih _ hscan) fun _ hraw => .stray b hraw
          | gap | word | number | escape | hex => cases h
      | char c =>
          have ih : ∀ scan ts, scanFrom scan rest = some ts → Ends scan rest ts :=
            fun scan _ h => ih scan h
          have hgap : ∀ ts, scanFrom .gap (.char c :: rest) = some ts →
              Layout ts (.char c :: rest) := fun _ h => layout_of_gap ih h
          cases scan with
          | gap => exact hgap _ h
          | word read =>
              by_cases hc : isWordChar c = true
              · have hadvance : advance (.word read) c = some ([], .word (c :: read)) := if_pos hc
                rw [scanFrom_char, hadvance, Option.bind_some] at h
                have hends := ih (.word (c :: read)) ts (by simpa using h)
                exact GoesOn.step hends
              · refine goesOn_of_stop ?_ hgap h
                exact (if_neg hc).trans (close_start _ _)
          | number read =>
              by_cases hc : isNumberChar c = true
              · have hadvance : advance (.number read) c = some ([], .number (c :: read)) :=
                  if_pos hc
                rw [scanFrom_char, hadvance, Option.bind_some] at h
                have hends := ih (.number (c :: read)) ts (by simpa using h)
                exact GoesOn.step hends
              · refine goesOn_of_stop ?_ hgap h
                exact (if_neg hc).trans (close_start _ _)
          | string read => exact quotes_of_string ih h
          | escape read => exact quotes_of_escape ih h
          | hex left read => exact quotes_of_hex ih h

theorem layout_of_scan (h : scan text = some ts) : Layout ts text := ends_of_scanFrom .gap h

end Scanning

end Token
end Rollout.Json
