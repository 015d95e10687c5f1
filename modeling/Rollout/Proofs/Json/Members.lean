import Rollout.Proofs.Json.Field
import Mathlib.Data.List.Forall2

/-!
# Members of an object as fields of a record

Which objects are read as a record at all, and what is then found under a name. Members in another
order, members of unknown names among them, and strings escaped in another way make no difference.
-/

namespace Rollout.Json

variable {names : List String} {members : List (List Symbol × Json)} {name : String} {v : Json}

/-- A member of this name, whatever its spelling, has this value. -/
def HasMember (members : List (List Symbol × Json)) (name : String) (v : Json) : Prop :=
  ∃ raw, (raw, v) ∈ members ∧ meaning? raw = some name

/-- How many members have this name. -/
def countNamed (members : List (List Symbol × Json)) (name : String) : Nat :=
  members.countP fun m => meaning? m.1 = some name

/-- Every name is a text, and none of the known ones occurs twice. -/
structure Legible (names : List String) (members : List (List Symbol × Json)) : Prop where
  text : ∀ m ∈ members, meaning? m.1 ≠ none
  once : ∀ name ∈ names, countNamed members name ≤ 1

/-- The members of known names, under what their names mean. -/
def known (names : List String) (members : List (List Symbol × Json)) : Fields :=
  members.filterMap fun m =>
    (meaning? m.1).bind fun name => if name ∈ names then some (name, m.2) else none

theorem mem_known : (name, v) ∈ known names members ↔ name ∈ names ∧ HasMember members name v := by
  simp only [known, List.mem_filterMap, Option.bind_eq_some_iff, Option.ite_none_right_eq_some,
    Option.some.injEq, Prod.mk.injEq, HasMember]
  constructor
  · rintro ⟨⟨raw, v⟩, hmem, name, hraw, hname, rfl, rfl⟩
    exact ⟨hname, raw, hmem, hraw⟩
  · rintro ⟨hname, raw, hmem, hraw⟩
    exact ⟨(raw, v), hmem, name, hraw, hname, rfl, rfl⟩

theorem countNamed_pos_iff : 0 < countNamed members name ↔ ∃ v, HasMember members name v := by
  rw [countNamed, List.countP_pos_iff]
  constructor
  · rintro ⟨⟨raw, v⟩, hmem, hraw⟩
    exact ⟨v, raw, hmem, of_decide_eq_true hraw⟩
  · rintro ⟨v, raw, hmem, hraw⟩
    exact ⟨(raw, v), hmem, decide_eq_true hraw⟩

section Cons

variable {raw : List Symbol}

private theorem known_cons (hraw : meaning? raw = some name) :
    known names ((raw, v) :: members) =
      if name ∈ names then (name, v) :: known names members else known names members := by
  simp only [known, List.filterMap_cons, hraw, Option.bind_some]
  split_ifs <;> rfl

private theorem countNamed_cons (hraw : meaning? raw = some name) (other : String) :
    countNamed ((raw, v) :: members) other =
      countNamed members other + if name = other then 1 else 0 := by
  simp [countNamed, List.countP_cons, hraw]

private theorem legible_cons_iff : Legible names ((raw, v) :: members) ↔
    ∃ name, meaning? raw = some name ∧ Legible names members ∧
      (name ∈ names → countNamed members name = 0) := by
  constructor
  · rintro ⟨htext, honce⟩
    obtain ⟨name, hraw⟩ := Option.ne_none_iff_exists'.mp (htext _ List.mem_cons_self)
    have hcount : ∀ other, countNamed ((raw, v) :: members) other =
        countNamed members other + if name = other then 1 else 0 := countNamed_cons hraw
    refine ⟨name, hraw, ⟨fun m hm => htext m (List.mem_cons_of_mem _ hm), ?_⟩, ?_⟩
    · intro other hother
      have h := honce other hother
      rw [hcount] at h
      omega
    · intro hname
      have h := honce name hname
      rw [hcount, if_pos rfl] at h
      omega
  · rintro ⟨name, hraw, ⟨htext, honce⟩, hfresh⟩
    refine ⟨List.forall_mem_cons.mpr ⟨by simp [hraw], htext⟩, ?_⟩
    intro other hother
    rw [countNamed_cons hraw]
    split_ifs with heq
    · subst heq
      rw [hfresh hother]
    · exact honce other hother

private theorem any_known_iff (h : name ∈ names) :
    (known names members).any (·.1 == name) = true ↔ countNamed members name ≠ 0 := by
  rw [← Nat.pos_iff_ne_zero, countNamed_pos_iff, List.any_eq_true]
  constructor
  · rintro ⟨⟨name', v⟩, hmem, hname⟩
    obtain rfl := beq_iff_eq.mp hname
    exact ⟨v, (mem_known.mp hmem).2⟩
  · rintro ⟨v, hv⟩
    exact ⟨(name, v), mem_known.mpr ⟨h, hv⟩, beq_self_eq_true name⟩

end Cons

/-- An object is read as its members of known names exactly if it is legible. -/
theorem collect_eq_some_iff {fields : Fields} :
    collect names members = some fields ↔ Legible names members ∧ fields = known names members := by
  induction members generalizing fields with
  | nil =>
      have hnil : Legible names [] := ⟨by simp, by simp [countNamed]⟩
      simp [collect, known, hnil, eq_comm]
  | cons m members ih =>
      obtain ⟨raw, v⟩ := m
      simp only [collect, Option.bind_eq_bind, Option.bind_eq_some_iff, legible_cons_iff, ih,
        List.contains_iff_mem]
      constructor
      · rintro ⟨name, hraw, rest, ⟨hrest, rfl⟩, h⟩
        rw [known_cons hraw]
        split_ifs at h ⊢ with hname hagain
        · have hfresh : countNamed members name = 0 := by
            rwa [any_known_iff hname, not_not] at hagain
          exact ⟨⟨name, hraw, hrest, fun _ => hfresh⟩, (Option.some.inj h).symm⟩
        · exact ⟨⟨name, hraw, hrest, fun h => absurd h hname⟩, (Option.some.inj h).symm⟩
      · rintro ⟨⟨name, hraw, hrest, hfresh⟩, rfl⟩
        refine ⟨name, hraw, _, ⟨hrest, rfl⟩, ?_⟩
        rw [known_cons hraw]
        split_ifs with hname hagain
        · exact absurd (hfresh hname) ((any_known_iff hname).mp hagain)
        · rfl
        · rfl

namespace Legible

theorem find?_known (h : Legible names members) (hname : name ∈ names) :
    (known names members).find? name = some v ↔ HasMember members name v := by
  induction members with
  | nil => simp [known, Fields.find?, HasMember]
  | cons m members ih =>
      obtain ⟨raw, w⟩ := m
      obtain ⟨found, hraw, hrest, hfresh⟩ := legible_cons_iff.mp h
      have hhas : HasMember ((raw, w) :: members) name v ↔
          (w = v ∧ found = name) ∨ HasMember members name v := by
        simp only [HasMember, List.mem_cons, Prod.mk.injEq]
        constructor
        · rintro ⟨raw', ⟨rfl, rfl⟩ | hmem, hmeaning⟩
          · exact .inl ⟨rfl, Option.some.inj (hraw.symm.trans hmeaning)⟩
          · exact .inr ⟨raw', hmem, hmeaning⟩
        · rintro (⟨rfl, rfl⟩ | ⟨raw', hmem, hmeaning⟩)
          · exact ⟨raw, .inl ⟨rfl, rfl⟩, hraw⟩
          · exact ⟨raw', .inr hmem, hmeaning⟩
      rw [hhas, known_cons hraw]
      by_cases hfound : found = name
      · subst hfound
        have hnone : ¬ HasMember members found v := fun hv =>
          Nat.pos_iff_ne_zero.mp (countNamed_pos_iff.mpr ⟨v, hv⟩) (hfresh hname)
        rw [if_pos hname, Fields.find?_self]
        simp [hnone]
      · have hskip : (if found ∈ names then (found, w) :: known names members
            else known names members : Fields).find? name = (known names members).find? name := by
          split_ifs
          · exact Fields.find?_skip (Ne.symm hfound)
          · rfl
        rw [hskip, ih hrest]
        simp [hfound]

theorem unique (h : Legible names members) (hname : name ∈ names) {w : Json}
    (hv : HasMember members name v) (hw : HasMember members name w) : v = w :=
  Option.some.inj (((h.find?_known hname).mpr hv).symm.trans ((h.find?_known hname).mpr hw))

theorem find?_known_eq_none_iff (h : Legible names members) (hname : name ∈ names) :
    (known names members).find? name = none ↔ countNamed members name = 0 := by
  rw [← not_iff_not]
  change _ ≠ none ↔ _ ≠ 0
  rw [← Nat.pos_iff_ne_zero, countNamed_pos_iff, Option.ne_none_iff_exists']
  exact exists_congr fun v => h.find?_known hname

theorem required_eq_some_iff (h : Legible names members) (hname : name ∈ names) {α : Type}
    {read : Json → Option α} {a : α} :
    (known names members).required name read = some a ↔
      ∃ v, HasMember members name v ∧ read v = some a := by
  simp only [Fields.required, Option.bind_eq_some_iff, h.find?_known hname]

end Legible

/-- The same value to every reader of fields: strings may be escaped in different ways. -/
inductive SameMeaning : Json → Json → Prop where
  | refl (v : Json) : SameMeaning v v
  | string {raw raw' : List Symbol} {s : String} (h : meaning? raw = some s)
      (h' : meaning? raw' = some s) : SameMeaning (.string raw) (.string raw')
  | array {vs ws : List Json} (h : List.Forall₂ SameMeaning vs ws) :
      SameMeaning (.array vs) (.array ws)

/-- A reader that looks at what strings mean, and not at how they are escaped. -/
def ReadsMeaning {α : Type} (read : Json → Option α) : Prop :=
  ∀ {v w : Json}, SameMeaning v w → read v = read w

theorem readsMeaning_text? : ReadsMeaning text? := by
  rintro v w (_ | ⟨h, h'⟩ | _)
  · rfl
  · exact h.trans h'.symm
  · rfl

theorem readsMeaning_tag? : ReadsMeaning tag? := by
  rintro v w (_ | ⟨h, h'⟩ | _)
  · rfl
  · exact h.trans h'.symm
  · rfl

theorem readsMeaning_uint64? : ReadsMeaning uint64? := by
  rintro v w (_ | _ | _) <;> rfl

theorem ReadsMeaning.listOf? {α : Type} {read : Json → Option α} (h : ReadsMeaning read) :
    ReadsMeaning (listOf? read) := by
  rintro v w (_ | _ | hvs)
  · rfl
  · rfl
  · induction hvs with
    | nil => rfl
    | cons hv _ ih =>
        simp only [Json.listOf?, List.mapM_cons, h hv] at ih ⊢
        rw [ih]

namespace Fields

variable {α : Type} {fields fields' : Fields} {name : String} {read : Json → Option α}

/-- Two records hold the same under a name. -/
inductive Agree (fields fields' : Fields) (name : String) : Prop where
  | missing (h : fields.find? name = none) (h' : fields'.find? name = none)
  | found {v w : Json} (h : fields.find? name = some v) (h' : fields'.find? name = some w)
      (hsame : SameMeaning v w)

theorem Agree.required_eq (h : Agree fields fields' name) (hread : ReadsMeaning read) :
    fields.required name read = fields'.required name read := by
  rw [required, required]
  cases h with
  | missing h h' => rw [h, h']
  | found h h' hsame =>
      rw [h, h']
      exact hread hsame

theorem Agree.nullable_eq (h : Agree fields fields' name) (hread : ReadsMeaning read) :
    fields.nullable name read = fields'.nullable name read := by
  rw [nullable, nullable]
  cases h with
  | missing h h' => rw [h, h']
  | found h h' hsame =>
      rw [h, h']
      have hread := hread hsame
      cases hsame with
      | refl v => rfl
      | string | array => exact congrArg (Option.map Option.some) hread

theorem Agree.withDefault_eq (h : Agree fields fields' name) (hread : ReadsMeaning read)
    (default : α) :
    fields.withDefault name default read = fields'.withDefault name default read := by
  rw [withDefault, withDefault]
  cases h with
  | missing h h' => rw [h, h']
  | found h h' hsame =>
      rw [h, h']
      exact hread hsame

end Fields

/-- Two members of one name and one value, whatever their strings are escaped like. -/
def SameMember (m m' : List Symbol × Json) : Prop :=
  (∃ name, meaning? m.1 = some name ∧ meaning? m'.1 = some name) ∧ SameMeaning m.2 m'.2

/-- The members of an object in any order, save those that are missing, and others among them. -/
inductive Shows (members object missing others : List (List Symbol × Json)) : Prop where
  | intro {shown kept : List (List Symbol × Json)} (hmembers : members.Perm (shown ++ others))
      (hshown : List.Forall₂ SameMember shown kept) (hobject : object.Perm (kept ++ missing))

section Shows

variable {shown kept object missing others : List (List Symbol × Json)}

theorem countNamed_eq_zero_iff :
    countNamed members name = 0 ↔ ∀ m ∈ members, meaning? m.1 ≠ some name := by
  simp [countNamed, List.countP_eq_zero]

private theorem countNamed_shown (h : List.Forall₂ SameMember shown kept) :
    countNamed shown name = countNamed kept name := by
  induction h with
  | nil => rfl
  | cons hm _ ih =>
      obtain ⟨⟨found, hfound, hfound'⟩, -⟩ := hm
      simp only [countNamed, List.countP_cons, hfound, hfound'] at ih ⊢
      rw [ih]

private theorem countNamed_shows (h : Shows members object missing others) (name : String) :
    countNamed members name + countNamed missing name =
      countNamed object name + countNamed others name := by
  obtain ⟨hmembers, hshown, hobject⟩ := h
  have hcount := @countNamed_shown name _ _ hshown
  simp only [countNamed, hmembers.countP_eq, hobject.countP_eq, List.countP_append] at hcount ⊢
  omega

private theorem exists_of_shown (h : List.Forall₂ SameMember shown kept) {m' : List Symbol × Json}
    (hm' : m' ∈ kept) : ∃ m ∈ shown, SameMember m m' := by
  induction h with
  | nil => cases hm'
  | cons hm _ ih =>
      rcases List.mem_cons.mp hm' with rfl | hm'
      · exact ⟨_, List.mem_cons_self, hm⟩
      · obtain ⟨m, hmem, hsame⟩ := ih hm'
        exact ⟨m, List.mem_cons_of_mem _ hmem, hsame⟩

private theorem text_of_shown (h : List.Forall₂ SameMember shown kept) {m : List Symbol × Json}
    (hm : m ∈ shown) : meaning? m.1 ≠ none := by
  induction h with
  | nil => cases hm
  | cons hm' _ ih =>
      rcases List.mem_cons.mp hm with rfl | hm
      · obtain ⟨⟨found, hfound, -⟩, -⟩ := hm'
        simp [hfound]
      · exact ih hm

namespace Shows

private theorem count_others
    (hothers : ∀ m ∈ others, ∃ name, meaning? m.1 = some name ∧ name ∉ names)
    (hname : name ∈ names) : countNamed others name = 0 := by
  rw [countNamed_eq_zero_iff]
  intro m hm hnamed
  obtain ⟨other, hother, hunknown⟩ := hothers m hm
  exact hunknown (Option.some.inj (hother.symm.trans hnamed) ▸ hname)

theorem legible (h : Shows members object missing others) (hobject : Legible names object)
    (hothers : ∀ m ∈ others, ∃ name, meaning? m.1 = some name ∧ name ∉ names) :
    Legible names members := by
  constructor
  · obtain ⟨hmembers, hshown, -⟩ := h
    intro m hm
    rcases List.mem_append.mp (hmembers.mem_iff.mp hm) with hm | hm
    · exact text_of_shown hshown hm
    · obtain ⟨found, hfound, -⟩ := hothers m hm
      simp [hfound]
  · intro name hname
    have hcount := countNamed_shows h name
    have hother := count_others hothers hname
    have honce := hobject.once name hname
    omega

theorem agree (h : Shows members object missing others) (hobject : Legible names object)
    (hothers : ∀ m ∈ others, ∃ name, meaning? m.1 = some name ∧ name ∉ names)
    (hname : name ∈ names) :
    Fields.Agree (known names members) (known names object) name ∨
      (∃ m ∈ missing, meaning? m.1 = some name) ∧ (known names members).find? name = none := by
  have hmembers := h.legible hobject hothers
  have hcount := countNamed_shows h name
  have hother := count_others hothers hname
  have honce := hobject.once name hname
  cases hfound : (known names object).find? name with
  | none =>
      -- Only others could add a member of this name, and they do not have it.
      have hnone := (hobject.find?_known_eq_none_iff hname).mp hfound
      have hshown := (hmembers.find?_known_eq_none_iff hname).mpr (by omega)
      exact .inl (.missing hshown hfound)
  | some w =>
      obtain ⟨raw, hmem, hraw⟩ := (hobject.find?_known hname).mp hfound
      obtain ⟨hperm, hshown, hparts⟩ := h
      rcases List.mem_append.mp (hparts.mem_iff.mp hmem) with hkept | hmissing
      · obtain ⟨m, hm, ⟨found, hfound', hname'⟩, hvalue⟩ := exists_of_shown hshown hkept
        obtain rfl := Option.some.inj (hname'.symm.trans hraw)
        have hhas : HasMember members found m.2 :=
          ⟨m.1, hperm.mem_iff.mpr (List.mem_append_left _ hm), hfound'⟩
        exact .inl (.found ((hmembers.find?_known hname).mpr hhas) hfound hvalue)
      · have hpos : countNamed missing name ≠ 0 :=
          Nat.pos_iff_ne_zero.mp (countNamed_pos_iff.mpr ⟨w, raw, hmissing, hraw⟩)
        exact .inr ⟨⟨_, hmissing, hraw⟩, (hmembers.find?_known_eq_none_iff hname).mpr (by omega)⟩

end Shows

end Shows

end Rollout.Json
