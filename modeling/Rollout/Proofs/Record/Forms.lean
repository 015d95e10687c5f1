import Rollout.Proofs.Record
import Rollout.Proofs.Json.Grammar
import Rollout.Proofs.Json.Members

/-!
# The forms of a stored deployment

A deployment is read from every JSON object that has the members of its encoding, in any order and
among members of other names, also where a field that holds nothing is missing. An object without
one of the other fields, or with one field twice, is no deployment, and neither is an object with
a member whose name is no text.
-/

namespace Rollout

open Json

namespace Deployment

variable {d : Deployment} {members : List (List Symbol × Json)} {name : String}

/-- The fields that may be missing. -/
def optionalNames : List String :=
  ["droplet_guid", "webish_process_guid", "stopped_process_guids"]

/-- A field that may be missing without a loss, as it holds nothing. -/
structure MayLack (d : Deployment) (name : String) : Prop where
  optional : name ∈ optionalNames
  droplet : name = "droplet_guid" → d.droplet = none
  webish : name = "webish_process_guid" → d.webish = none
  stopped : name = "stopped_process_guids" → d.stopped = []

theorem ofJson?_eq_some_iff : ofJson? (.object members) = some d ↔
    Legible fieldNames members ∧
      let fields := known fieldNames members
      fields.required "guid" text? = some d.guid ∧
      fields.required "app_guid" text? = some d.app ∧
      fields.required "state" DeploymentState.ofJson? = some d.state ∧
      fields.nullable "droplet_guid" text? = some d.droplet ∧
      fields.nullable "webish_process_guid" text? = some d.webish ∧
      fields.withDefault "stopped_process_guids" [] (listOf? text?) = some d.stopped ∧
      fields.required "created_at" uint64? = some d.createdAt ∧
      fields.required "updated_at" uint64? = some d.updatedAt := by
  simp only [ofJson?, fields?, Option.bind_eq_bind, Option.bind_eq_some_iff, collect_eq_some_iff,
    Option.pure_def, Option.some.injEq]
  constructor
  · rintro ⟨fields, ⟨hlegible, rfl⟩, guid, hguid, app, happ, state, hstate, droplet, hdroplet,
      webish, hwebish, stopped, hstopped, created, hcreated, updated, hupdated, rfl⟩
    exact ⟨hlegible, hguid, happ, hstate, hdroplet, hwebish, hstopped, hcreated, hupdated⟩
  · rintro ⟨hlegible, hguid, happ, hstate, hdroplet, hwebish, hstopped, hcreated, hupdated⟩
    exact ⟨_, ⟨hlegible, rfl⟩, _, hguid, _, happ, _, hstate, _, hdroplet, _, hwebish, _, hstopped,
      _, hcreated, _, hupdated, rfl⟩

private theorem decode?_of_isText {bytes : Bytes} (h : IsText (.object members) bytes) :
    (Record.decode? bytes : Option Deployment) = ofJson? (.object members) := by
  rw [Record.decode?, ofBytes?_eq_some_iff.mpr h, Option.bind_some]
  rfl

private theorem readsMeaning_state : ReadsMeaning DeploymentState.ofJson? := by
  intro v w h
  rw [DeploymentState.ofJson?, DeploymentState.ofJson?, readsMeaning_tag? h]

private theorem ofJson?_of_shows {object missing others : List (List Symbol × Json)}
    (hobject : ofJson? (.object object) = some d)
    (hshows : Shows members object missing others)
    (hmissing : ∀ m ∈ missing, ∃ name, meaning? m.1 = some name ∧ d.MayLack name)
    (hothers : ∀ m ∈ others, ∃ name, meaning? m.1 = some name ∧ name ∉ fieldNames) :
    ofJson? (.object members) = some d := by
  rw [ofJson?_eq_some_iff] at hobject ⊢
  obtain ⟨hlegible, hguid, happ, hstate, hdroplet, hwebish, hstopped, hcreated, hupdated⟩ := hobject
  have hagree : ∀ name ∈ fieldNames,
      Fields.Agree (known fieldNames members) (known fieldNames object) name ∨
        d.MayLack name ∧ (known fieldNames members).find? name = none := by
    intro name hname
    refine (hshows.agree hlegible hothers hname).imp_right (And.imp_left ?_)
    rintro ⟨m, hm, hnamed⟩
    obtain ⟨found, hfound, hlack⟩ := hmissing m hm
    obtain rfl := Option.some.inj (hfound.symm.trans hnamed)
    exact hlack
  have hkept : ∀ name ∈ fieldNames, name ∉ optionalNames →
      Fields.Agree (known fieldNames members) (known fieldNames object) name := by
    intro name hname hrequired
    exact (hagree name hname).resolve_right fun h => hrequired h.1.optional
  refine ⟨hshows.legible hlegible hothers, ?_, ?_, ?_, ?_, ?_, ?_, ?_, ?_⟩
  · rw [(hkept "guid" (by decide) (by decide)).required_eq readsMeaning_text?, hguid]
  · rw [(hkept "app_guid" (by decide) (by decide)).required_eq readsMeaning_text?, happ]
  · rw [(hkept "state" (by decide) (by decide)).required_eq readsMeaning_state, hstate]
  · rcases hagree "droplet_guid" (by decide) with h | ⟨hlack, hnone⟩
    · rw [h.nullable_eq readsMeaning_text?, hdroplet]
    · rw [Fields.nullable, hnone, hlack.droplet rfl]
  · rcases hagree "webish_process_guid" (by decide) with h | ⟨hlack, hnone⟩
    · rw [h.nullable_eq readsMeaning_text?, hwebish]
    · rw [Fields.nullable, hnone, hlack.webish rfl]
  · rcases hagree "stopped_process_guids" (by decide) with h | ⟨hlack, hnone⟩
    · rw [h.withDefault_eq readsMeaning_text?.listOf?, hstopped]
    · rw [Fields.withDefault, hnone, hlack.stopped rfl]
  · rw [(hkept "created_at" (by decide) (by decide)).required_eq readsMeaning_uint64?, hcreated]
  · rw [(hkept "updated_at" (by decide) (by decide)).required_eq readsMeaning_uint64?, hupdated]

private theorem exists_of_ofJson? (h : ofJson? (.object members) = some d)
    (hname : name ∈ fieldNames) (hrequired : name ∉ optionalNames) :
    ∃ v, HasMember members name v := by
  obtain ⟨hlegible, hguid, happ, hstate, -, -, -, hcreated, hupdated⟩ := ofJson?_eq_some_iff.mp h
  have hfound : ∀ {α : Type} {read : Json → Option α} {a : α},
      (known fieldNames members).required name read = some a → ∃ v, HasMember members name v := by
    intro α read a hread
    obtain ⟨v, hv, -⟩ := (hlegible.required_eq_some_iff hname).mp hread
    exact ⟨v, hv⟩
  simp only [fieldNames, optionalNames, List.mem_cons, List.not_mem_nil, or_false, not_or]
    at hname hrequired
  rcases hname with rfl | rfl | rfl | rfl | rfl | rfl | rfl | rfl
  · exact hfound hguid
  · exact hfound happ
  · exact hfound hstate
  · exact absurd rfl hrequired.1
  · exact absurd rfl hrequired.2.1
  · exact absurd rfl hrequired.2.2
  · exact hfound hcreated
  · exact hfound hupdated

private theorem mayLack_of_ofJson? (h : ofJson? (.object members) = some d)
    (hname : name ∈ optionalNames) (hmissing : countNamed members name = 0) : d.MayLack name := by
  obtain ⟨hlegible, -, -, -, hdroplet, hwebish, hstopped, -, -⟩ := ofJson?_eq_some_iff.mp h
  have hnone : name ∈ fieldNames → (known fieldNames members).find? name = none := fun hname =>
    (hlegible.find?_known_eq_none_iff hname).mpr hmissing
  refine ⟨hname, ?_, ?_, ?_⟩
  · rintro rfl
    rw [Fields.nullable, hnone (by decide)] at hdroplet
    exact (Option.some.inj hdroplet).symm
  · rintro rfl
    rw [Fields.nullable, hnone (by decide)] at hwebish
    exact (Option.some.inj hwebish).symm
  · rintro rfl
    rw [Fields.withDefault, hnone (by decide)] at hstopped
    exact (Option.some.inj hstopped).symm

/-- What is read from an object text: a deployment from all forms of its encoding, and none where
a field is missing that may not, or occurs twice, or where a name is no text. -/
theorem forms_decode {bytes : Bytes} (htext : IsText (.object members) bytes) :
    (∀ d object missing others, IsText (.object object) (Record.encode d) →
      Shows members object missing others →
      (∀ m ∈ missing, ∃ name, meaning? m.1 = some name ∧ MayLack d name) →
      (∀ m ∈ others, ∃ name, meaning? m.1 = some name ∧ name ∉ fieldNames) →
      Record.decode? bytes = some d) ∧
    (∀ name ∈ fieldNames, name ∉ optionalNames → (∀ m ∈ members, meaning? m.1 ≠ some name) →
      (Record.decode? bytes : Option Deployment) = none) ∧
    (∀ d name, Record.decode? bytes = some d → name ∈ optionalNames →
      (∀ m ∈ members, meaning? m.1 ≠ some name) → MayLack d name) ∧
    (∀ name ∈ fieldNames, 2 ≤ countNamed members name →
      (Record.decode? bytes : Option Deployment) = none) ∧
    ∀ m ∈ members, meaning? m.1 = none → (Record.decode? bytes : Option Deployment) = none := by
  have hnone : (∀ d, ofJson? (.object members) ≠ some d) →
      (Record.decode? bytes : Option Deployment) = none := by
    rw [decode?_of_isText htext]
    exact Option.eq_none_iff_forall_ne_some.mpr
  refine ⟨?_, ?_, ?_, ?_, ?_⟩
  · intro d object missing others hobject hshows hmissing hothers
    rw [decode?_of_isText htext]
    refine ofJson?_of_shows ?_ hshows hmissing hothers
    rw [← decode?_of_isText hobject, Record.decode?_encode]
  · intro name hname hrequired hmissing
    refine hnone fun d hd => ?_
    obtain ⟨v, raw, hmem, hraw⟩ := exists_of_ofJson? hd hname hrequired
    exact hmissing _ hmem hraw
  · intro d name hd hname hmissing
    rw [decode?_of_isText htext] at hd
    exact mayLack_of_ofJson? hd hname (countNamed_eq_zero_iff.mpr hmissing)
  · intro name hname htwice
    refine hnone fun d hd => ?_
    have honce := (ofJson?_eq_some_iff.mp hd).1.once name hname
    omega
  · intro m hm htext
    exact hnone fun d hd => (ofJson?_eq_some_iff.mp hd).1.text m hm htext

end Deployment

namespace Sample

def stored : Deployment := ⟨"d", "a", .deploying, none, some "w", [], 5, 6⟩

/-- The members of its encoding. -/
def storedMembers : List (List Symbol × Json) :=
  match stored.toJson with
  | .object members => members
  | _ => []

theorem isText_stored : IsText (.object storedMembers) (Record.encode stored) :=
  ofBytes?_eq_some_iff.mp (ofBytes?_toBytes (LawfulRecord.lexical_toJson stored))

/-- The sample as a later version might write it: a new field, blanks, an escape, another order,
and neither of the fields that hold nothing. -/
def form : Bytes := Utf8.encode <|
  "\x7b\"x\":[\x7b\"\\ud800\":1\x7d],\"updated_at\": 6,\"state\":\"DEPLOYING\"," ++
  "\"guid\":\"\\u0064\",\"webish_process_guid\":\"w\",\"created_at\":5,\"app_guid\":\"a\"\x7d"

def formOthers : List (List Symbol × Json) :=
  [("x".toList.map .char,
    .array [.object [("\\ud800".toList.map .char, .number ['1'])]])]

/-- The other members of the form, the identifier spelled like this. -/
def formShown (guid : String) : List (List Symbol × Json) :=
  [("updated_at".toList.map .char, .number ['6']),
   ("state".toList.map .char, .string ("DEPLOYING".toList.map .char)),
   ("guid".toList.map .char, .string (guid.toList.map .char)),
   ("webish_process_guid".toList.map .char, .string ("w".toList.map .char)),
   ("created_at".toList.map .char, .number ['5']),
   ("app_guid".toList.map .char, .string ("a".toList.map .char))]

/-- The fields of the sample that hold nothing. -/
def formMissing : List (List Symbol × Json) :=
  [("droplet_guid".toList.map .char, .null),
   ("stopped_process_guids".toList.map .char, .array [])]

set_option maxRecDepth 20000 in
theorem isText_form : IsText (.object (formOthers ++ formShown "\\u0064")) form :=
  ofBytes?_eq_some_iff.mp rfl

theorem storedMembers_perm : storedMembers.Perm (formShown "d" ++ formMissing) := by
  have horder : [2, 5, 1, 6, 3, 7, 4, 0].Perm [0, 1, 2, 3, 4, 5, 6, 7] := by decide
  exact horder.map fun i => (formShown "d" ++ formMissing)[i]?.getD ([], .null)

theorem shows_form :
    Shows (formOthers ++ formShown "\\u0064") storedMembers formMissing formOthers := by
  refine .intro List.perm_append_comm ?_ storedMembers_perm
  have hguid : SameMeaning (.string ("\\u0064".toList.map .char))
      (.string ("d".toList.map .char)) := .string rfl rfl
  exact .cons ⟨⟨_, rfl, rfl⟩, .refl _⟩ <| .cons ⟨⟨_, rfl, rfl⟩, .refl _⟩ <|
    .cons ⟨⟨_, rfl, rfl⟩, hguid⟩ <| .cons ⟨⟨_, rfl, rfl⟩, .refl _⟩ <|
    .cons ⟨⟨_, rfl, rfl⟩, .refl _⟩ <| .cons ⟨⟨_, rfl, rfl⟩, .refl _⟩ .nil

/-- A member with half of a surrogate pair for a name. -/
def nameless : List Symbol × Json := ("\\ud800".toList.map .char, .null)

theorem lexical_nameless : Lexical (.object (nameless :: storedMembers)) := by
  have hquoted : Quoted nameless.1 := .unit rfl rfl rfl rfl .nil
  exact ⟨⟨hquoted.unbroken, .chars _⟩, trivial, LawfulRecord.lexical_toJson stored⟩

theorem named_storedMembers {m : List Symbol × Json} (hm : m ∈ storedMembers) :
    ∃ name, meaning? m.1 = some name := by
  have hlegible := (Deployment.ofJson?_eq_some_iff.mp (LawfulRecord.ofJson?_toJson stored)).1
  exact Option.ne_none_iff_exists'.mp (hlegible.text m hm)

theorem shows_nameless : Shows (nameless :: storedMembers) storedMembers [] [nameless] := by
  have hshown : List.Forall₂ SameMember storedMembers storedMembers := by
    refine List.forall₂_same.mpr fun m hm => ?_
    obtain ⟨name, hname⟩ := named_storedMembers hm
    exact ⟨⟨name, hname, hname⟩, .refl _⟩
  exact .intro (List.perm_append_singleton _ _).symm hshown (.of_eq (List.append_nil _).symm)

end Sample

namespace Deployment

theorem forms_decode_sample :
    IsText (.object (Sample.formOthers ++ Sample.formShown "\\u0064")) Sample.form ∧
      Record.decode? Sample.form = some Sample.stored := by
  refine ⟨Sample.isText_form, ?_⟩
  refine (forms_decode Sample.isText_form).1 Sample.stored _ _ _ Sample.isText_stored
    Sample.shows_form ?_ ?_
  · simp only [Sample.formMissing, List.forall_mem_cons, List.not_mem_nil, false_implies,
      implies_true, and_true]
    exact ⟨⟨"droplet_guid", rfl, by decide, fun _ => rfl, by decide, fun _ => rfl⟩,
      ⟨"stopped_process_guids", rfl, by decide, fun _ => rfl, by decide, fun _ => rfl⟩⟩
  · simp only [Sample.formOthers, List.forall_mem_singleton]
    exact ⟨"x", rfl, by decide⟩

/-- An unknown member is not passed over if its name is no text. -/
theorem nameless_member_fails :
    ¬ ∀ (d : Deployment) (bytes : Bytes) (members object missing others),
      IsText (.object members) bytes → IsText (.object object) (Record.encode d) →
      Shows members object missing others →
      (∀ m ∈ missing, ∃ name, meaning? m.1 = some name ∧ MayLack d name) →
      (∀ m ∈ others, ∀ name ∈ fieldNames, meaning? m.1 ≠ some name) →
      Record.decode? bytes = some d := by
  intro h
  have hnone : meaning? Sample.nameless.1 = none := rfl
  have htext := ofBytes?_eq_some_iff.mp (ofBytes?_toBytes Sample.lexical_nameless)
  have hread := h Sample.stored _ _ _ _ _ htext Sample.isText_stored Sample.shows_nameless
    (by simp) (by simp [hnone])
  rw [decode?_of_isText htext, ofJson?_eq_some_iff] at hread
  exact hread.1.text _ List.mem_cons_self hnone

end Deployment
end Rollout
