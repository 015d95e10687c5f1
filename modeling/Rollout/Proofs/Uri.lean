import Rollout.Proofs.List
import Rollout.Uri.Basic

/-!
# What a URI is read from

A URI of the common scheme is its text taken apart: the scheme in either case, three marks, an
authority without the marks that end one, and the rest. In a valid authority a bracket that opens
is closed behind it. Of the rest nothing but a fragment is left out.
-/

namespace Rollout

namespace Uri

theorem afterLast?_eq_none_iff {mark : Char} {cs : List Char} :
    afterLast? mark cs = none ↔ mark ∉ cs := by
  refine ⟨fun h hmem => ?_, afterLast?_of_not_mem⟩
  induction cs with
  | nil => cases hmem
  | cons c rest ih =>
      rw [afterLast?] at h
      cases hrest : afterLast? mark rest with
      | some tail => simp [hrest] at h
      | none =>
          rw [hrest] at h
          rcases List.mem_cons.mp hmem with rfl | hmem
          · simp at h
          · exact ih hrest hmem

theorem afterLast?_eq_some_iff {mark : Char} {cs tail : List Char} :
    afterLast? mark cs = some tail ↔ (∃ before, cs = before ++ mark :: tail) ∧ mark ∉ tail := by
  constructor
  · intro h
    induction cs with
    | nil => cases h
    | cons c rest ih =>
        rw [afterLast?] at h
        cases hrest : afterLast? mark rest with
        | some tail' =>
            rw [hrest] at h
            obtain rfl := Option.some.inj h
            obtain ⟨⟨before, rfl⟩, hmem⟩ := ih hrest
            exact ⟨⟨c :: before, rfl⟩, hmem⟩
        | none =>
            rw [hrest] at h
            obtain ⟨rfl, htail⟩ := Option.ite_none_right_eq_some.mp h
            obtain rfl := Option.some.inj htail
            exact ⟨⟨[], rfl⟩, afterLast?_eq_none_iff.mp hrest⟩
  · rintro ⟨⟨before, rfl⟩, hmem⟩
    exact afterLast?_append hmem

end Uri

namespace Authority

theorem read?_eq_some_iff {cs rest : List Char} {a : Authority} :
    read? cs = some (a, rest) ↔
      cs = a.chars ++ rest ∧ (∀ c ∈ a.chars, isEnd c = false) ∧
        (∀ c ∈ rest.head?, isEnd c = true) ∧ isValid a.chars = true := by
  obtain ⟨chars⟩ := a
  have hrun : cs.takeWhile (!isEnd ·) = chars ∧ cs.drop chars.length = rest ↔
      cs = chars ++ rest ∧ (∀ c ∈ chars, isEnd c = false) ∧ ∀ c ∈ rest.head?, isEnd c = true := by
    rw [List.takeWhile_drop_iff]
    simp only [Bool.not_eq_true', Bool.not_eq_false']
  simp only [read?, Option.ite_none_right_eq_some, Option.some.injEq, Prod.mk.injEq,
    Authority.mk.injEq]
  constructor
  · rintro ⟨hvalid, rfl, hrest⟩
    obtain ⟨hcs, hends, hhead⟩ := hrun.mp ⟨rfl, hrest⟩
    exact ⟨hcs, hends, hhead, hvalid⟩
  · rintro ⟨hcs, hends, hhead, hvalid⟩
    obtain ⟨rfl, hrest⟩ := hrun.mpr ⟨hcs, hends, hhead⟩
    exact ⟨hvalid, rfl, hrest⟩

namespace Scan

theorem bracket_of_step_open {s s' : Scan} (h : s.step '[' = some s') : s'.bracket = .opened := by
  simp only [step, Char.reduceEq, if_false, if_true] at h
  split_ifs at h
  rw [← Option.some.inj h]

theorem bracket_of_step {s s' : Scan} {c : Char} (hopen : s.bracket = .opened) (hc : c ≠ ']')
    (h : s.step c = some s') : s'.bracket = .opened := by
  rw [step, hopen] at h
  simp only [hc, if_false, ne_eq, reduceCtorEq, not_false_eq_true, decide_true, Bool.or_true,
    if_true] at h
  split_ifs at h <;> obtain rfl := Option.some.inj h
  · rfl
  · rfl
  · rfl
  · exact hopen

theorem bracket_of_foldlM {cs : List Char} {s s' : Scan} (hopen : s.bracket = .opened)
    (hclose : ']' ∉ cs) (h : cs.foldlM step s = some s') : s'.bracket = .opened := by
  induction cs generalizing s with
  | nil =>
      obtain rfl := Option.some.inj h
      exact hopen
  | cons c cs ih =>
      obtain ⟨s₁, hstep, hrest⟩ := Option.bind_eq_some_iff.mp h
      obtain ⟨hc, hclose⟩ := not_or.mp (mt List.mem_cons.mpr hclose)
      exact ih (bracket_of_step hopen (Ne.symm hc) hstep) hclose hrest

end Scan

theorem closes_of_isValid {before after : List Char}
    (h : isValid (before ++ '[' :: after) = true) : ']' ∈ after := by
  by_contra hclose
  simp only [isValid, Bool.and_eq_true, Option.any_eq_true] at h
  obtain ⟨-, s, hrun, haccepts⟩ := h
  rw [List.foldlM_append] at hrun
  obtain ⟨s₁, -, hrun⟩ := Option.bind_eq_some_iff.mp hrun
  obtain ⟨s₂, hstep, hrun⟩ := Option.bind_eq_some_iff.mp hrun
  have hopen := Scan.bracket_of_foldlM (Scan.bracket_of_step_open hstep) hclose hrun
  simp [Scan.accepts, hopen] at haccepts

theorem end_unique {chars chars' rest rest' : List Char} (h : chars ++ rest = chars' ++ rest')
    (hchars : ∀ c ∈ chars, isEnd c = false) (hrest : ∀ c ∈ rest.head?, isEnd c = true)
    (hchars' : ∀ c ∈ chars', isEnd c = false) (hrest' : ∀ c ∈ rest'.head?, isEnd c = true) :
    chars = chars' ∧ rest = rest' :=
  @List.run_unique Char (!isEnd ·) _ _ _ _ h (by simpa using hchars) (by simpa using hrest)
    (by simpa using hchars') (by simpa using hrest')

end Authority

namespace Resolved

/-- The query with its mark, as it follows the path. -/
def queryText (t : Resolved) : List Char := t.query.elim [] ('?' :: ·)

theorem text_of_path_ne_nil {t : Resolved} (h : t.path ≠ []) : t.text = t.path ++ t.queryText := by
  rw [text, if_neg h, queryText]
  cases t.query <;> rfl

private theorem isOver_iff {cs : List Char} : isOver cs = true ↔ ∀ c ∈ cs.head?, c = '#' := by
  cases cs <;> simp [isOver, eq_comm]

private theorem not_mem_of_class {p : Char → Bool} {cs : List Char} (h : ∀ c ∈ cs, p c = true)
    (hmark : p '#' = false) : '#' ∉ cs :=
  fun hmem => Bool.false_ne_true (hmark.symm.trans (h '#' hmem))

theorem append_of_parse? {cs : List Char} {t : Resolved} (h : parse? cs = some t) :
    ∃ fragment, cs = t.path ++ t.queryText ++ fragment ∧ (∀ c ∈ fragment.head?, c = '#') ∧
      '#' ∉ t.path ++ t.queryText ∧ ∀ c ∈ t.path, isPathChar c = true := by
  simp only [parse?] at h
  split at h
  · next rest hrest =>
      obtain ⟨hover, ht⟩ := Option.ite_none_right_eq_some.mp h
      obtain rfl := Option.some.inj ht
      obtain ⟨hcs, hpath, -⟩ := List.takeWhile_drop_iff.mp ⟨rfl, hrest⟩
      obtain ⟨hrest, hquery, -⟩ := List.takeWhile_drop_iff.mp ⟨rfl, rfl⟩
      refine ⟨_, ?_, isOver_iff.mp hover, ?_, hpath⟩
      · rw [queryText, Option.elim_some, List.append_assoc, List.cons_append, ← hrest]
        exact hcs
      · rw [queryText, Option.elim_some, List.mem_append, List.mem_cons, not_or, not_or]
        exact ⟨not_mem_of_class hpath (by decide), by decide, not_mem_of_class hquery (by decide)⟩
  · obtain ⟨hover, ht⟩ := Option.ite_none_right_eq_some.mp h
    obtain rfl := Option.some.inj ht
    obtain ⟨hcs, hpath, -⟩ := List.takeWhile_drop_iff.mp ⟨rfl, rfl⟩
    refine ⟨_, ?_, isOver_iff.mp hover, ?_, hpath⟩
    · rw [queryText, Option.elim_none, List.append_nil]
      exact hcs
    · rw [queryText, Option.elim_none, List.append_nil]
      exact not_mem_of_class hpath (by decide)

theorem path_of_parse? {cs : List Char} {t : Resolved} (h : parse? cs = some t) :
    t.path = cs.takeWhile fun c => c ≠ '?' && c ≠ '#' := by
  obtain ⟨fragment, hcs, hover, -, hpath⟩ := append_of_parse? h
  rw [List.append_assoc] at hcs
  refine (List.takeWhile_drop_iff.mpr ⟨hcs, fun c hc => ?_, fun c hc => ?_⟩).1.symm
  · have hclass := hpath c hc
    by_contra hmark
    simp only [Bool.and_eq_true, decide_eq_true_eq, not_and_or, not_not] at hmark
    rcases hmark with rfl | rfl <;> exact absurd hclass (by decide)
  · cases hquery : t.query with
    | none =>
        rw [queryText, hquery, Option.elim_none, List.nil_append] at hc
        rw [hover c hc]
        rfl
    | some q =>
        rw [queryText, hquery, Option.elim_some, List.cons_append] at hc
        obtain rfl := Option.some.inj hc
        rfl

/-- A path that begins with a slash is written as it was read, and its query with it. -/
theorem text_of_parse? {cs : List Char} {t : Resolved} (h : parse? ('/' :: cs) = some t) :
    t.text = ('/' :: cs).takeWhile (· ≠ '#') := by
  obtain ⟨fragment, hcs, hover, hmark, -⟩ := append_of_parse? h
  have hpath : t.path ≠ [] := by
    intro hnil
    rw [hnil, List.nil_append, queryText] at hcs
    cases hquery : t.query with
    | none =>
        rw [hquery, Option.elim_none, List.nil_append] at hcs
        exact absurd (hover '/' (by rw [← hcs]; rfl)) (by decide)
    | some q =>
        rw [hquery, Option.elim_some] at hcs
        exact absurd (List.cons.inj hcs).1 (by decide)
  rw [text_of_path_ne_nil hpath, hcs, List.takeWhile_ne_append hmark hover]

end Resolved

namespace Uri

theorem eq_of_toLower {c d : Char} (hd : d.toNat < 97 ∨ 122 < d.toNat) (h : c.toLower = d) :
    c = d := by
  delta Char.toLower at h
  split at h
  · next hupper =>
      have hlow : 65 ≤ c.val.toNat := hupper.1
      have hhigh : c.val.toNat ≤ 90 := hupper.2
      have hval : d.toNat = c.val.toNat + 32 := by
        subst h
        have hlt : c.val.toNat + 32 < 4294967296 := by omega
        exact Nat.mod_eq_of_lt hlt
      omega
  · exact h

theorem eq_of_map_toLower {cs marks : List Char}
    (hmarks : ∀ c ∈ marks, c.toNat < 97 ∨ 122 < c.toNat) (h : cs.map Char.toLower = marks) :
    cs = marks := by
  subst h
  induction cs with
  | nil => rfl
  | cons c cs ih =>
      obtain ⟨hc, hcs⟩ := List.forall_mem_cons.mp hmarks
      rw [List.map_cons, ← ih hcs, ← eq_of_toLower hc rfl]

theorem dropLead?_eq_some_iff {lead cs rest : List Char} :
    dropLead? lead cs = some rest ↔ ∃ start, cs = start ++ rest ∧ start.map Char.toLower = lead := by
  simp only [dropLead?, Option.ite_none_right_eq_some, Option.some.injEq]
  constructor
  · rintro ⟨hlead, rfl⟩
    exact ⟨cs.take lead.length, (List.take_append_drop _ _).symm, hlead⟩
  · rintro ⟨start, rfl, rfl⟩
    simp

theorem lead_eq_http_iff {cs rest : List Char} :
    lead cs = .scheme "http".toList rest ↔
      ∃ scheme, cs = scheme ++ "://".toList ++ rest ∧ scheme.map Char.toLower = "http".toList := by
  rw [lead]
  constructor
  · intro h
    split at h
    · next rest' hdrop =>
        obtain rfl := (Lead.scheme.inj h).2
        obtain ⟨start, rfl, hstart⟩ := dropLead?_eq_some_iff.mp hdrop
        have hsplit : "http://".toList = "http".toList ++ "://".toList := by decide +kernel
        rw [hsplit] at hstart
        obtain ⟨scheme, marks, rfl, hscheme, hmarks⟩ := List.map_eq_append_iff.mp hstart
        obtain rfl := eq_of_map_toLower (by simp) hmarks
        exact ⟨scheme, rfl, hscheme⟩
    · split at h
      · exact absurd (Lead.scheme.inj h).1 (by decide)
      · dsimp only at h
        split at h
        · next rest' hrest =>
            split_ifs at h
            obtain ⟨hname, rfl⟩ := Lead.scheme.inj h
            obtain ⟨hcs, -, -⟩ := List.takeWhile_drop_iff.mp ⟨rfl, hrest⟩
            rw [hname] at hcs
            refine ⟨"http".toList, ?_, by decide⟩
            rw [hcs, List.append_assoc]
            rfl
        · cases h
  · rintro ⟨scheme, rfl, hscheme⟩
    have hdrop : dropLead? "http://".toList (scheme ++ "://".toList ++ rest) = some rest := by
      refine dropLead?_eq_some_iff.mpr ⟨_, rfl, ?_⟩
      rw [List.map_append, hscheme]
      decide
    rw [hdrop]

theorem scheme_unique {scheme scheme' behind behind' : List Char}
    (h : scheme ++ "://".toList ++ behind = scheme' ++ "://".toList ++ behind')
    (hscheme : scheme.map Char.toLower = "http".toList)
    (hscheme' : scheme'.map Char.toLower = "http".toList) :
    scheme = scheme' ∧ behind = behind' := by
  have hlength := congrArg List.length (hscheme.trans hscheme'.symm)
  rw [List.length_map, List.length_map] at hlength
  rw [List.append_assoc, List.append_assoc] at h
  obtain ⟨hsame, hbehind⟩ := List.append_inj h hlength
  exact ⟨hsame, List.append_cancel_left hbehind⟩

private theorem parseFull?_eq_full_iff {cs name : List Char} {a : Authority} {t : Resolved} :
    parseFull? cs = some (.full name a t) ↔ ∃ behind rest, lead cs = .scheme name behind ∧
      Authority.read? behind = some (a, rest) ∧ a.chars ≠ [] ∧ Resolved.parse? rest = some t := by
  rw [parseFull?]
  constructor
  · intro h
    split at h
    · cases h
    · split at h <;> cases h
    · next name' behind hlead =>
        split at h
        · next a' rest hread =>
            obtain ⟨hne, ht⟩ := Option.ite_none_left_eq_some.mp h
            obtain ⟨t', ht', heq⟩ := Option.map_eq_some_iff.mp ht
            cases heq
            exact ⟨behind, rest, hlead, hread, hne, ht'⟩
        · cases h
  · rintro ⟨behind, rest, hlead, hread, hne, ht⟩
    simp only [hlead, hread, hne, if_false, ht, Option.map_some]

theorem parseChars?_of_scheme {scheme rest : List Char}
    (h : scheme.map Char.toLower = "http".toList) :
    parseChars? (scheme ++ rest) = parseFull? (scheme ++ rest) := by
  obtain ⟨c, scheme, rfl, hc, -⟩ := List.map_eq_cons_iff.mp h
  rw [List.cons_append, parseChars?]
  · exact List.cons_ne_nil _ _
  · intro hstar
    obtain ⟨rfl, -⟩ := List.cons.inj hstar
    exact absurd hc (by decide)
  · intro tail hslash
    obtain ⟨rfl, -⟩ := List.cons.inj hslash
    exact absurd hc (by decide)

/-- The URIs of the common scheme, as they are written. -/
theorem parse?_eq_http_iff {text : String} {a : Authority} {t : Resolved} :
    parse? text = some (.full "http".toList a t) ↔
      text.utf8ByteSize ≤ maxLength ∧ ∃ scheme rest,
        text.toList = scheme ++ "://".toList ++ (a.chars ++ rest) ∧
          scheme.map Char.toLower = "http".toList ∧ (∀ c ∈ a.chars, Authority.isEnd c = false) ∧
          (∀ c ∈ rest.head?, Authority.isEnd c = true) ∧ Authority.isValid a.chars = true ∧
          a.chars ≠ [] ∧ Resolved.parse? rest = some t := by
  rw [parse?, Option.ite_none_right_eq_some]
  refine and_congr_right fun _ => ?_
  constructor
  · intro h
    have hfull : parseFull? text.toList = some (.full "http".toList a t) := by
      unfold parseChars? at h
      split at h
      · cases h
      · cases h
      · cases (Option.map_eq_some_iff.mp h).choose_spec.2
      · exact h
    obtain ⟨behind, rest, hlead, hread, hne, ht⟩ := parseFull?_eq_full_iff.mp hfull
    obtain ⟨scheme, htext, hscheme⟩ := lead_eq_http_iff.mp hlead
    obtain ⟨rfl, hends, hhead, hvalid⟩ := Authority.read?_eq_some_iff.mp hread
    exact ⟨scheme, rest, htext, hscheme, hends, hhead, hvalid, hne, ht⟩
  · rintro ⟨scheme, rest, htext, hscheme, hends, hhead, hvalid, hne, ht⟩
    rw [htext, List.append_assoc, parseChars?_of_scheme hscheme, ← List.append_assoc]
    exact parseFull?_eq_full_iff.mpr ⟨_, rest, lead_eq_http_iff.mpr ⟨scheme, rfl, hscheme⟩,
      Authority.read?_eq_some_iff.mpr ⟨rfl, hends, hhead, hvalid⟩, hne, ht⟩

theorem full_of_parse? {text : String} {u : Uri} {scheme behind : List Char}
    (htext : text.toList = scheme ++ "://".toList ++ behind)
    (hscheme : scheme.map Char.toLower = "http".toList) (h : parse? text = some u) :
    ∃ a t, u = .full "http".toList a t := by
  rw [parse?, Option.ite_none_right_eq_some] at h
  have hfull := h.2
  rw [htext, List.append_assoc, parseChars?_of_scheme hscheme, ← List.append_assoc, parseFull?,
    lead_eq_http_iff.mpr ⟨scheme, rfl, hscheme⟩] at hfull
  dsimp only at hfull
  split at hfull
  · next a rest _ =>
      obtain ⟨t, -, rfl⟩ := Option.map_eq_some_iff.mp (Option.ite_none_left_eq_some.mp hfull).2
      exact ⟨a, t, rfl⟩
  · cases hfull

end Uri
end Rollout
