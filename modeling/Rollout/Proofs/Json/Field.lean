import Rollout.Proofs.Json.Document

/-!
# Reading the fields that were written

An object of fields with different known names is read as these fields, and each reader gives back
the value that its writer was given.
-/

namespace Rollout.Json

theorem lexical_ofText (s : String) : Lexical (ofText s) :=
  ⟨Token.unbroken_writeChars _, .chars _⟩

theorem lexical_ofNat (n : Nat) : Lexical (ofNat n) := by
  refine ⟨Number.wellFormed_spell n, List.all_eq_true.mpr fun c hc => ?_⟩
  simp [Token.isNumberChar, Number.isDigit_spell hc]

theorem lexical_ofOption_ofText (o : Option String) : Lexical (ofOption ofText o) := by
  cases o with
  | none => trivial
  | some s => exact lexical_ofText s

theorem lexical_texts (ss : List String) : Lexical (.array (ss.map ofText)) := by
  induction ss with
  | nil => trivial
  | cons s ss ih => exact ⟨lexical_ofText s, ih⟩

theorem lexical_object {members : List (List Symbol × Json)}
    (h : ∀ m ∈ members, Quotable m.1 ∧ Lexical m.2) : Lexical (.object members) := by
  induction members with
  | nil => trivial
  | cons m members ih =>
      obtain ⟨⟨hname, hvalue⟩, hmembers⟩ := List.forall_mem_cons.mp h
      exact ⟨hname, hvalue, ih hmembers⟩

theorem lexical_ofFields {fields : List (String × Json)} (h : ∀ f ∈ fields, Lexical f.2) :
    Lexical (ofFields fields) := by
  refine lexical_object fun m hm => ?_
  obtain ⟨f, hf, rfl⟩ := List.mem_map.mp hm
  exact ⟨⟨Token.unbroken_writeChars _, .chars _⟩, h f hf⟩

theorem fields?_ofFields {names : List String} {fields : Fields}
    (hknown : ∀ f ∈ fields, names.contains f.1 = true) (hnd : (fields.map (·.1)).Nodup) :
    fields? names (ofFields fields) = some fields := by
  simp only [fields?, ofFields]
  induction fields with
  | nil => rfl
  | cons f fields ih =>
      obtain ⟨name, v⟩ := f
      rw [List.map_cons, List.nodup_cons] at hnd
      have hrest := ih (fun g hg => hknown g (List.mem_cons_of_mem _ hg)) hnd.2
      have hname := hknown (name, v) List.mem_cons_self
      have hfresh : fields.any (·.1 == name) = false := by
        rw [List.any_eq_false]
        intro g hg he
        exact hnd.1 (List.mem_map.mpr ⟨g, hg, by simpa using he⟩)
      simp only [List.map_cons, collect, meaning?_writeChars, hrest, Option.bind_eq_bind,
        Option.bind_some]
      simp only [hname, hfresh, ↓reduceIte, Bool.false_eq_true]

/-- The object of all fields of a kind, each under its name, is read as these fields. -/
theorem fields?_ofFields_names {names : List String} {fields : Fields}
    (hnames : fields.map (·.1) = names) (hnd : names.Nodup) :
    fields? names (ofFields fields) = some fields := by
  subst hnames
  apply fields?_ofFields _ hnd
  intro f hf
  exact List.contains_iff_mem.mpr (List.mem_map_of_mem hf)

namespace Fields

variable {α : Type} {fields : Fields} {m n : String} {v : Json} {read : Json → Option α}

theorem find?_self : find? ((n, v) :: fields) n = some v :=
  List.lookup_cons_self

theorem find?_skip (h : m ≠ n) : find? ((n, v) :: fields) m = find? fields m := by
  have hb : (m == n) = false := beq_false_of_ne h
  rw [find?, List.lookup_cons, hb]
  rfl

@[simp] theorem required_self : required ((n, v) :: fields) n read = read v := by
  rw [required, find?_self, Option.bind_some]

@[simp] theorem required_skip (h : m ≠ n) :
    required ((n, v) :: fields) m read = required fields m read := by
  rw [required, find?_skip h, required]

@[simp] theorem nullable_skip (h : m ≠ n) :
    nullable ((n, v) :: fields) m read = nullable fields m read := by
  rw [nullable, find?_skip h, nullable]

@[simp] theorem nullable_self (o : Option String) :
    nullable ((n, ofOption ofText o) :: fields) n text? = some o := by
  rw [nullable, find?_self]
  cases o with
  | none => rfl
  | some s => exact congrArg (Option.map some) (meaning?_writeChars s)

@[simp] theorem withDefault_self {a : α} : withDefault ((n, v) :: fields) n a read = read v := by
  rw [withDefault, find?_self]

@[simp] theorem withDefault_skip {a : α} (h : m ≠ n) :
    withDefault ((n, v) :: fields) m a read = withDefault fields m a read := by
  rw [withDefault, find?_skip h, withDefault]

end Fields

@[simp] theorem text?_ofText (s : String) : text? (ofText s) = some s := meaning?_writeChars s

@[simp] theorem tag?_ofText (s : String) : tag? (ofText s) = some s := meaning?_writeChars s

private theorem below?_ofNat {n bound : Nat} (h : n < bound) : below? bound (ofNat n) = some n := by
  simp [below?, ofNat, Number.natural?_spell, h]

@[simp] theorem uint32?_ofNat (n : UInt32) : uint32? (ofNat n.toNat) = some n := by
  rw [uint32?, below?_ofNat n.toNat_lt, Option.map_some, UInt32.ofNat_toNat]

@[simp] theorem uint64?_ofNat (n : UInt64) : uint64? (ofNat n.toNat) = some n := by
  rw [uint64?, below?_ofNat n.toNat_lt, Option.map_some, UInt64.ofNat_toNat]

@[simp] theorem listOf?_texts (ss : List String) :
    listOf? text? (.array (ss.map ofText)) = some ss := by
  rw [listOf?]
  induction ss with
  | nil => rfl
  | cons s ss ih => simp [ih]

end Rollout.Json
