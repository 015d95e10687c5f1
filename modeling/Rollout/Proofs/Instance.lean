import Rollout.Instance
import Rollout.Proofs.Json.Grammar
import Rollout.Proofs.Json.Members
import Rollout.Proofs.List
import Rollout.Proofs.Table
import Mathlib.Data.Set.Card

/-!
# Instances as JSON

A body tells a map of instances if it is an object whose members are named by indices in plain
digits and hold a status each. Of the members of one index the last one counts. The encoding of a
map names the indices in ascending order, and is read back as the same map.
-/

namespace Rollout

open Json

theorem Table.countP_values {κ ν : Type} [LT κ] [DecidableEq κ] [Std.Irrefl (α := κ) (· < ·)]
    (t : Table κ ν) (holds : ν → Bool) :
    t.values.countP holds = {k | ∃ v, t.find? k = some v ∧ holds v = true}.ncard := by
  have hkeys : (t.rows.map (·.1)).Nodup :=
    (List.pairwise_map.mpr t.ascending).nodup
  have hcounted : ((t.rows.filter (holds ·.2)).map (·.1)).Nodup :=
    hkeys.sublist (List.filter_sublist.map _)
  have hset : {k | ∃ v, t.find? k = some v ∧ holds v = true} =
      (((t.rows.filter (holds ·.2)).map (·.1)).toFinset : Set κ) := by
    ext k
    simp [find?_eq_some_iff]
  rw [hset, Set.ncard_coe_finset, List.toFinset_card_of_nodup hcounted, List.length_map,
    ← List.countP_eq_length_filter, values, List.countP_map]
  rfl

private theorem Utf8.eq_of_chars? {xs : List Symbol} {cs : List Char} (h : chars? xs = some cs) :
    xs = cs.map .char := by
  induction xs generalizing cs with
  | nil =>
      cases h
      rfl
  | cons x xs ih =>
      cases x with
      | char c =>
          obtain ⟨cs, hcs, rfl⟩ := Option.map_eq_some_iff.mp h
          rw [List.map_cons, ih hcs]
      | stray b => cases h

namespace Json

/-- A document is this tag: a string, or an object that has null under it and nothing else. -/
inductive IsTag : Json → String → Prop where
  | string {raw : List Symbol} {name : String} (h : meaning? raw = some name) :
      IsTag (.string raw) name
  | object {raw : List Symbol} {name : String} (h : meaning? raw = some name) :
      IsTag (.object [(raw, .null)]) name

theorem tag?_eq_some_iff {j : Json} {name : String} : tag? j = some name ↔ IsTag j name := by
  constructor
  · intro h
    rw [tag?.eq_def] at h
    split at h
    · exact .string h
    · exact .object h
    · cases h
  · rintro (h | h) <;> exact h

theorem uint64?_eq_some_iff {j : Json} {n : UInt64} :
    uint64? j = some n ↔ j = ofNat n.toNat := by
  constructor
  · intro h
    cases j with
    | number lexeme =>
        simp only [uint64?, below?, Option.bind_eq_bind, Option.map_eq_some_iff,
          Option.bind_eq_some_iff, Option.ite_none_right_eq_some, Option.some.injEq] at h
        obtain ⟨_, ⟨n, hlexeme, hlt, rfl⟩, rfl⟩ := h
        rw [Number.natural?_eq_some_iff.mp hlexeme, UInt64.toNat_ofNat_of_lt' hlt, ofNat]
    | _ => cases h
  · rintro rfl
    exact uint64?_ofNat n

end Json

/-- The state that a name stands for: its own of the five known names, and unknown otherwise. -/
inductive InstanceState.Named : String → InstanceState → Prop where
  | running : Named "RUNNING" .running
  | starting : Named "STARTING" .starting
  | crashed : Named "CRASHED" .crashed
  | down : Named "DOWN" .down
  | failing : Named "FAILING" .failing
  | unknown {name : String} (h : name ∉ ["RUNNING", "STARTING", "CRASHED", "DOWN", "FAILING"]) :
      Named name .unknown

theorem InstanceState.ofName_eq_iff {name : String} {s : InstanceState} :
    ofName name = s ↔ Named name s := by
  constructor
  · rintro rfl
    rw [ofName]
    split_ifs with h₁ h₂ h₃ h₄ h₅
    · exact h₁ ▸ .running
    · exact h₂ ▸ .starting
    · exact h₃ ▸ .crashed
    · exact h₄ ▸ .down
    · exact h₅ ▸ .failing
    · exact .unknown (by simp [h₁, h₂, h₃, h₄, h₅])
  · intro h
    cases h with
    | unknown h =>
        simp only [List.mem_cons, List.not_mem_nil, or_false, not_or] at h
        simp [ofName, h]
    | _ => rfl

namespace InstanceStatus

/-- What a document tells about an instance: an object with a state and two times, or an array of
nothing but these, in this order. -/
inductive Told : Json → InstanceStatus → Prop where
  | object {members : List (List Symbol × Json)} {status : InstanceStatus} {tag : Json}
      {name : String} (hlegible : Legible fieldNames members)
      (hstate : HasMember members "state" tag) (htag : IsTag tag name)
      (hnamed : InstanceState.Named name status.state)
      (huptime : HasMember members "uptime" (ofNat status.uptime.toNat))
      (hsince : HasMember members "since" (ofNat status.since.toNat)) :
      Told (.object members) status
  | array {status : InstanceStatus} {tag : Json} {name : String} (htag : IsTag tag name)
      (hnamed : InstanceState.Named name status.state) :
      Told (.array [tag, ofNat status.uptime.toNat, ofNat status.since.toNat]) status

private theorem state_eq_some_iff {j : Json} {s : InstanceState} :
    InstanceState.ofJson? j = some s ↔ ∃ name, IsTag j name ∧ InstanceState.Named name s := by
  simp only [InstanceState.ofJson?, Option.map_eq_some_iff, tag?_eq_some_iff,
    InstanceState.ofName_eq_iff]

private theorem ofJson?_eq_bind {j : Json} {status : InstanceStatus} :
    ofJson? j = some status ↔ ∃ fields, fields? fieldNames j = some fields ∧
      fields.required "state" InstanceState.ofJson? = some status.state ∧
      fields.required "uptime" uint64? = some status.uptime ∧
      fields.required "since" uint64? = some status.since := by
  simp only [ofJson?, Option.bind_eq_bind, Option.bind_eq_some_iff, Option.pure_def,
    Option.some.injEq]
  constructor
  · rintro ⟨fields, hfields, state, hstate, uptime, huptime, since, hsince, rfl⟩
    exact ⟨fields, hfields, hstate, huptime, hsince⟩
  · rintro ⟨fields, hfields, hstate, huptime, hsince⟩
    exact ⟨fields, hfields, _, hstate, _, huptime, _, hsince, rfl⟩

theorem ofJson?_eq_some_iff {j : Json} {status : InstanceStatus} :
    ofJson? j = some status ↔ Told j status := by
  rw [ofJson?_eq_bind]
  constructor
  · rintro ⟨fields, hfields, hstate, huptime, hsince⟩
    cases j with
    | object members =>
        obtain ⟨hlegible, rfl⟩ := collect_eq_some_iff.mp hfields
        rw [hlegible.required_eq_some_iff (by decide)] at hstate huptime hsince
        obtain ⟨tag, hmember, hstate⟩ := hstate
        obtain ⟨name, htag, hnamed⟩ := state_eq_some_iff.mp hstate
        obtain ⟨_, huptime, hread⟩ := huptime
        obtain rfl := uint64?_eq_some_iff.mp hread
        obtain ⟨_, hsince, hread⟩ := hsince
        obtain rfl := uint64?_eq_some_iff.mp hread
        exact .object hlegible hmember htag hnamed huptime hsince
    | array vs =>
        rw [fields?] at hfields
        split_ifs at hfields with hlength
        obtain ⟨tag, uptime, since, rfl⟩ := List.length_eq_three.mp hlength
        cases hfields
        obtain ⟨name, htag, hnamed⟩ := state_eq_some_iff.mp hstate
        obtain rfl := uint64?_eq_some_iff.mp huptime
        obtain rfl := uint64?_eq_some_iff.mp hsince
        exact .array htag hnamed
    | _ => cases hfields
  · intro h
    cases h with
    | object hlegible hstate htag hnamed huptime hsince =>
        refine ⟨_, collect_eq_some_iff.mpr ⟨hlegible, rfl⟩, ?_, ?_, ?_⟩
        · exact (hlegible.required_eq_some_iff (by decide)).mpr
            ⟨_, hstate, state_eq_some_iff.mpr ⟨_, htag, hnamed⟩⟩
        · exact (hlegible.required_eq_some_iff (by decide)).mpr ⟨_, huptime, uint64?_ofNat _⟩
        · exact (hlegible.required_eq_some_iff (by decide)).mpr ⟨_, hsince, uint64?_ofNat _⟩
    | array htag hnamed =>
        exact ⟨_, rfl, state_eq_some_iff.mpr ⟨_, htag, hnamed⟩, uint64?_ofNat _, uint64?_ofNat _⟩

theorem lexical_toJson (status : InstanceStatus) : Lexical status.toJson := by
  apply lexical_ofFields
  simp [lexical_ofText, lexical_ofNat, InstanceState.toJson]

@[simp] theorem ofJson?_toJson (status : InstanceStatus) :
    ofJson? status.toJson = some status := by
  have hstate : InstanceState.ofJson? status.state.toJson = some status.state := by
    cases status.state <;> simp [InstanceState.ofJson?, InstanceState.toJson] <;> rfl
  rw [ofJson?, toJson, fields?_ofFields_names]
  · simp [hstate]
  · rfl
  · decide

end InstanceStatus

namespace Instances

def indices (m : Instances) : Set UInt32 := {i | ∃ status, m.find? i = some status}

def runningIndices (m : Instances) : Set UInt32 :=
  {i | ∃ status, m.find? i = some status ∧ status.isRunning}

theorem size_eq (m : Instances) : m.size = m.indices.ncard := by
  have h := m.countP_values fun _ => true
  simp only [List.countP_true, and_true] at h
  rw [Table.size, ← List.length_map, indices]
  exact h

theorem running_eq (m : Instances) : m.running = m.runningIndices.ncard :=
  m.countP_values InstanceStatus.isRunning

variable {members : List (List Symbol × Json)} {m : Instances} {i : UInt32}
  {status : InstanceStatus} {body : Bytes}

/-- The name of the member for an index. -/
def spelled (i : UInt32) : List Symbol := (Number.spell i.toNat).map .char

theorem index?_eq_some_iff {raw : List Symbol} : index? raw = some i ↔ raw = spelled i := by
  constructor
  · intro h
    simp only [index?, Option.bind_eq_bind, Option.bind_eq_some_iff, Option.ite_none_right_eq_some,
      Option.some.injEq] at h
    obtain ⟨digits, hdigits, n, hn, hlt, rfl⟩ := h
    rw [Utf8.eq_of_chars? hdigits, Number.natural?_eq_some_iff.mp hn, spelled,
      UInt32.toNat_ofNat_of_lt' hlt]
  · rintro rfl
    simp [index?, spelled, Utf8.chars?_map, Number.natural?_spell, i.toNat_lt_size]

theorem spelled_injective : Function.Injective spelled := by
  intro i j h
  exact Option.some.inj ((index?_eq_some_iff.mpr rfl).symm.trans (index?_eq_some_iff.mpr h))

/-- What the last member of an index tells. -/
def LastTold (members : List (List Symbol × Json)) (i : UInt32) (status : InstanceStatus) : Prop :=
  ∃ v, Table.Last members (spelled i) v ∧ InstanceStatus.Told v status

/-- What the members of an object tell, if each of them tells a status under an index. -/
structure Tells (members : List (List Symbol × Json)) (m : Instances) : Prop where
  each : ∀ member ∈ members, ∃ i status, member.1 = spelled i ∧ InstanceStatus.Told member.2 status
  last : ∀ i status, m.find? i = some status ↔ LastTold members i status

private theorem row?_eq_told {member : List Symbol × Json} :
    row? member = some (i, status) ↔
      member.1 = spelled i ∧ InstanceStatus.Told member.2 status := by
  simp [row?, Option.bind_eq_some_iff, index?_eq_some_iff, InstanceStatus.ofJson?_eq_some_iff]

private theorem lastTold_iff_last {rows : List (UInt32 × InstanceStatus)}
    (h : members.map row? = rows.map some) :
    LastTold members i status ↔ Table.Last rows i status := by
  -- From the end, where a member and its row settle their index on both sides.
  induction rows using List.reverseRecOn generalizing members with
  | nil =>
      obtain rfl := List.map_eq_nil_iff.mp h
      simp [LastTold, Table.not_last_nil]
  | append_singleton rows row ih =>
      rw [List.map_append, List.map_singleton] at h
      obtain ⟨init, last, rfl, hinit, hlast⟩ := List.map_eq_append_iff.mp h
      obtain ⟨member, rfl, hrow⟩ := List.map_eq_singleton_iff.mp hlast
      obtain ⟨raw, v⟩ := member
      obtain ⟨j, told⟩ := row
      obtain ⟨rfl, htold⟩ := row?_eq_told.mp hrow
      simp only [LastTold, Table.last_concat_iff, spelled_injective.eq_iff, ne_eq, ← ih hinit]
      have hvalue : told = status ↔ InstanceStatus.Told v status := by
        rw [← InstanceStatus.ofJson?_eq_some_iff, InstanceStatus.ofJson?_eq_some_iff.mpr htold,
          Option.some.injEq]
      by_cases hkey : j = i
      · simp [hkey, hvalue]
      · simp [hkey]

private theorem ofJson?_eq_ofList : ofJson? (.object members) = some m ↔
    ∃ rows, members.map row? = rows.map some ∧ Table.ofList rows = m := by
  simp only [ofJson?, Option.map_eq_some_iff, List.mapM_eq_some_iff]

private theorem exists_rows (h : ∀ member ∈ members, ∃ i status,
      member.1 = spelled i ∧ InstanceStatus.Told member.2 status) :
    ∃ rows : List (UInt32 × InstanceStatus), members.map row? = rows.map some := by
  induction members with
  | nil => exact ⟨[], rfl⟩
  | cons member members ih =>
      obtain ⟨⟨i, status, hmember⟩, hmembers⟩ := List.forall_mem_cons.mp h
      obtain ⟨rows, hrows⟩ := ih hmembers
      refine ⟨(i, status) :: rows, ?_⟩
      rw [List.map_cons, List.map_cons, row?_eq_told.mpr hmember, hrows]

theorem ofJson?_eq_some_iff : ofJson? (.object members) = some m ↔ Tells members m := by
  rw [ofJson?_eq_ofList]
  constructor
  · rintro ⟨rows, hrows, rfl⟩
    constructor
    · intro member hmember
      have hread : row? member ∈ rows.map some := hrows ▸ List.mem_map_of_mem hmember
      obtain ⟨⟨i, status⟩, -, hrow⟩ := List.mem_map.mp hread
      exact ⟨i, status, row?_eq_told.mp hrow.symm⟩
    · intro i status
      rw [Table.find?_ofList_eq_some_iff, lastTold_iff_last hrows]
  · intro h
    obtain ⟨rows, hrows⟩ := exists_rows h.each
    refine ⟨rows, hrows, Table.ext_find? fun i => Option.ext fun status => ?_⟩
    rw [Table.find?_ofList_eq_some_iff, h.last, lastTold_iff_last hrows]

/-- A body is read as a map exactly if it is an object text whose members tell this map. -/
theorem ofBytes?_eq_some_iff :
    ofBytes? body = some m ↔ ∃ members, IsText (.object members) body ∧ Tells members m := by
  simp only [ofBytes?, Option.bind_eq_some_iff, Json.ofBytes?_eq_some_iff]
  constructor
  · rintro ⟨j, htext, hm⟩
    cases j with
    | object members => exact ⟨members, htext, ofJson?_eq_some_iff.mp hm⟩
    | _ => cases hm
  · rintro ⟨members, htext, htells⟩
    exact ⟨_, htext, ofJson?_eq_some_iff.mpr htells⟩

theorem lexical_toJson (m : Instances) : Lexical m.toJson := by
  refine lexical_object fun member hmember => ?_
  obtain ⟨⟨i, status⟩, -, rfl⟩ := List.mem_map.mp hmember
  exact ⟨⟨(quoted_digits fun _ => Number.isDigit_spell).unbroken, .chars _⟩, status.lexical_toJson⟩

theorem ofBytes?_toBytes_toJson (m : Instances) : ofBytes? m.toJson.toBytes = some m := by
  rw [ofBytes?, Json.ofBytes?_toBytes m.lexical_toJson, Option.bind_some, toJson, ofJson?_eq_ofList]
  refine ⟨m.rows, ?_, m.ofList_rows⟩
  rw [List.map_map]
  refine List.map_congr_left fun row _ => ?_
  exact row?_eq_told.mpr ⟨rfl, InstanceStatus.ofJson?_eq_some_iff.mp row.2.ofJson?_toJson⟩

/-- The encoding of a map names its indices in ascending order and is read back as the map. What is
read from a body is, for each index, what the last member for it tells, so that all and running
instances are counted by these, and writing it and reading it again changes nothing. -/
theorem coding_faithful (m : Instances) :
    (∃ rows : List (UInt32 × InstanceStatus), rows.Pairwise (·.1 < ·.1) ∧
      (∀ i status, (i, status) ∈ rows ↔ m.find? i = some status) ∧
      IsText (.object (rows.map fun row => (spelled row.1, row.2.toJson))) m.toJson.toBytes) ∧
    ofBytes? m.toJson.toBytes = some m ∧
    ∀ body, ofBytes? body = some m → ∃ members, IsText (.object members) body ∧ Tells members m ∧
      m.size = {i | ∃ status, LastTold members i status}.ncard ∧
      m.running = {i | ∃ status, LastTold members i status ∧ status.state = .running}.ncard := by
  refine ⟨⟨m.rows, m.ascending, fun i status => Table.find?_eq_some_iff.symm, ?_⟩,
    m.ofBytes?_toBytes_toJson, ?_⟩
  · exact Json.ofBytes?_eq_some_iff.mp (Json.ofBytes?_toBytes m.lexical_toJson)
  · intro body hbody
    obtain ⟨members, htext, htells⟩ := ofBytes?_eq_some_iff.mp hbody
    refine ⟨members, htext, htells, ?_, ?_⟩
    · simp only [m.size_eq, indices, htells.last]
    · simp only [m.running_eq, runningIndices, htells.last, InstanceStatus.isRunning,
        decide_eq_true_eq]

end Instances

namespace Sample

/-- The instance zero is told twice, and the other one is in a state without a name here. -/
def repeated : Bytes := Utf8.encode
  "\x7b\"1\":[\"EVACUATING\",0,9],\"0\":[\"DOWN\",1,1],\"0\":[\"RUNNING\",5,2]\x7d"

def repeatedInstances : Instances := .ofList [(0, ⟨.running, 5, 2⟩), (1, ⟨.unknown, 0, 9⟩)]

set_option maxRecDepth 20000 in
theorem ofBytes?_repeated : Instances.ofBytes? repeated = some repeatedInstances := by
  have hbody : Json.ofBytes? repeated = some (.object
      [("1".toList.map .char,
        .array [.string ("EVACUATING".toList.map .char), .number ['0'], .number ['9']]),
       ("0".toList.map .char,
        .array [.string ("DOWN".toList.map .char), .number ['1'], .number ['1']]),
       ("0".toList.map .char,
        .array [.string ("RUNNING".toList.map .char), .number ['5'], .number ['2']])]) := rfl
  rw [Instances.ofBytes?, hbody]
  rfl

end Sample

theorem Instances.coding_faithful_sample :
    ofBytes? Sample.repeated = some Sample.repeatedInstances ∧
      ∃ members, IsText (.object members) Sample.repeated ∧ LastTold members 0 ⟨.running, 5, 2⟩ ∧
        LastTold members 1 ⟨.unknown, 0, 9⟩ ∧ {i | ∃ status, LastTold members i status}.ncard = 2 ∧
        {i | ∃ status, LastTold members i status ∧ status.state = .running}.ncard = 1 := by
  obtain ⟨-, -, hread⟩ := coding_faithful Sample.repeatedInstances
  obtain ⟨members, htext, htells, hsize, hrunning⟩ := hread _ Sample.ofBytes?_repeated
  exact ⟨Sample.ofBytes?_repeated, members, htext, (htells.last 0 _).mp rfl,
    (htells.last 1 _).mp rfl, hsize.symm, hrunning.symm⟩

end Rollout
