import Rollout.Proofs.Record
import Rollout.Proofs.Table
import Rollout.Proofs.Text.Order
import Rollout.Store.Basic
import Mathlib.Data.List.Induction
import Mathlib.Logic.Function.Basic

/-!
# What the rows of a store say

A store in good order is four maps from keys to records: every row holds a record, under the key
that the record names. Reading agrees with these maps, and writing a record or dropping a row
changes them at one key.
-/

namespace Rollout

/-- Every row holds a record of this kind, under the key that the record names. -/
def KeyedRows (ρ : Type) [Record ρ] (t : Rows) : Prop :=
  ∀ key bytes, t.find? key = some bytes →
    ∃ r : ρ, Record.decode? bytes = some r ∧ Record.guid r = key

/-- Every row holds a record of this kind, whatever its key. -/
def Rows.Readable (ρ : Type) [Record ρ] (t : Rows) : Prop :=
  ∀ key bytes, t.find? key = some bytes → ∃ r : ρ, Record.decode? bytes = some r

theorem KeyedRows.readable {ρ : Type} [Record ρ] {t : Rows} (h : KeyedRows ρ t) :
    t.Readable ρ := by
  intro key bytes hb
  obtain ⟨r, hd, _⟩ := h key bytes hb
  exact ⟨r, hd⟩

/-- The record under a key, if the row holds one. -/
def Rows.record (ρ : Type) [Record ρ] (t : Rows) (key : Guid) : Option ρ :=
  (t.find? key).bind Record.decode?

/-- The records of a table, in the order of their keys. -/
def Rows.records (ρ : Type) [Record ρ] (t : Rows) : List ρ := t.values.filterMap Record.decode?

namespace KeyedRows

variable {ρ : Type} [Record ρ] {t : Rows}

theorem guid_of_record (h : KeyedRows ρ t) {key : Guid} {r : ρ} (hr : t.record ρ key = some r) :
    Record.guid r = key := by
  obtain ⟨bytes, hb, hd⟩ := Option.bind_eq_some_iff.mp hr
  obtain ⟨r', hd', hk⟩ := h key bytes hb
  rw [hd, Option.some.injEq] at hd'
  rw [hd', hk]

theorem insert [LawfulRecord ρ] (h : KeyedRows ρ t) (r : ρ) :
    KeyedRows ρ (t.insert (Record.guid r) (Record.encode r)) := by
  intro key bytes hb
  rw [Table.find?_insert] at hb
  split at hb
  · next hk =>
      cases hb
      exact ⟨r, Record.decode?_encode r, hk⟩
  · exact h key bytes hb

theorem erase (h : KeyedRows ρ t) (dropped : Guid) : KeyedRows ρ (t.erase dropped) := by
  intro key bytes hb
  rw [Table.find?_erase] at hb
  split at hb
  · cases hb
  · exact h key bytes hb

end KeyedRows

namespace Rows

variable {ρ : Type} [Record ρ] {t : Rows}

theorem record_insert [LawfulRecord ρ] (r : ρ) :
    Rows.record ρ (t.insert (Record.guid r) (Record.encode r)) =
      Function.update (Rows.record ρ t) (Record.guid r) (some r) := by
  funext key
  by_cases hk : key = Record.guid r
  · subst hk
    simp [Rows.record]
  · simp [Rows.record, Function.update_of_ne hk, Ne.symm hk]

theorem record_erase (dropped : Guid) :
    Rows.record ρ (t.erase dropped) = Function.update (Rows.record ρ t) dropped none := by
  funext key
  by_cases hk : key = dropped
  · subst hk
    simp [Rows.record]
  · simp [Rows.record, Function.update_of_ne hk, Ne.symm hk]

theorem mem_records (h : KeyedRows ρ t) {r : ρ} :
    r ∈ Rows.records ρ t ↔ Rows.record ρ t (Record.guid r) = some r := by
  constructor
  · intro hr
    obtain ⟨bytes, hb, hd⟩ := List.mem_filterMap.mp hr
    obtain ⟨⟨key, _⟩, hrow, rfl⟩ := List.mem_map.mp hb
    have hfind := Table.find?_eq_some_iff.mpr hrow
    obtain ⟨r', hd', hk⟩ := h key _ hfind
    have hrr : r = r' := Option.some.inj (hd.symm.trans hd')
    rw [Rows.record, hrr, hk, hfind, Option.bind_some, hd']
  · intro hr
    obtain ⟨bytes, hb, hd⟩ := Option.bind_eq_some_iff.mp hr
    have hrow := Table.find?_eq_some_iff.mp hb
    exact List.mem_filterMap.mpr ⟨bytes, List.mem_map.mpr ⟨_, hrow, rfl⟩, hd⟩

theorem map_guid_records (h : KeyedRows ρ t) :
    (Rows.records ρ t).map Record.guid = t.keys := by
  have hrow : ∀ row ∈ t.rows, ∃ r : ρ, Record.decode? row.2 = some r ∧ Record.guid r = row.1 :=
    fun row hrow => h _ _ (Table.find?_eq_some_iff.mpr hrow)
  rw [Rows.records, Table.values, Table.keys]
  generalize t.rows = rows at hrow
  induction rows with
  | nil => rfl
  | cons row rows ih =>
      obtain ⟨r, hd, hk⟩ := hrow row List.mem_cons_self
      have hrest := ih fun row hm => hrow row (List.mem_cons_of_mem _ hm)
      rw [List.map_cons, List.filterMap_cons_some hd, List.map_cons, hk, hrest, List.map_cons]

theorem ascending_filter_records (h : KeyedRows ρ t) (keep : ρ → Bool) :
    (((Rows.records ρ t).filter keep).map Record.guid).Pairwise (· < ·) := by
  have hall : ((Rows.records ρ t).map Record.guid).Pairwise (· < ·) := by
    rw [map_guid_records h]
    exact List.pairwise_map.mpr t.ascending
  exact hall.sublist (List.filter_sublist.map _)

variable [LawfulRecord ρ]

/-- A record, encoded and put under its own key. -/
def insertRecord (t : Rows) (r : ρ) : Rows := t.insert (Record.guid r) (Record.encode r)

theorem keyed_insertRecords (h : KeyedRows ρ t) (rs : List ρ) :
    KeyedRows ρ (rs.foldl insertRecord t) := by
  induction rs generalizing t with
  | nil => exact h
  | cons r rs ih => exact ih (h.insert r)

private theorem record_insertRecords [DecidableEq ρ] (h : KeyedRows ρ t) {write : ρ → ρ}
    (hwrite : ∀ r, Record.guid (write r) = Record.guid r) {rs : List ρ}
    (hrs : ∀ r ∈ rs, Rows.record ρ t (Record.guid r) = some r) (key : Guid) :
    Rows.record ρ ((rs.map write).foldl insertRecord t) key =
      (Rows.record ρ t key).map fun r => if r ∈ rs then write r else r := by
  -- On the last record of the list, since the fold writes that one last.
  induction rs using List.reverseRecOn with
  | nil => simp
  | append_singleton rs last ih =>
      have hlast := hrs last (by simp)
      rw [List.map_append, List.foldl_append, List.map_singleton, List.foldl_cons, List.foldl_nil,
        insertRecord, record_insert, hwrite]
      by_cases hk : key = Record.guid last
      · rw [hk, Function.update_self, hlast]
        simp
      · rw [Function.update_of_ne hk, ih fun r hr => hrs r (by simp [hr])]
        cases hr : Rows.record ρ t key with
        | none => rfl
        | some r =>
            have hne : r ≠ last := by
              rintro rfl
              exact hk (h.guid_of_record hr).symm
            simp [hne]

theorem record_rewrite [DecidableEq ρ] (h : KeyedRows ρ t) (keep : ρ → Bool) {write : ρ → ρ}
    (hwrite : ∀ r, Record.guid (write r) = Record.guid r) :
    Rows.record ρ ((((Rows.records ρ t).filter keep).map write).foldl insertRecord t) =
      fun key => (Rows.record ρ t key).map fun r => if keep r then write r else r := by
  funext key
  rw [record_insertRecords h hwrite fun r hr => (mem_records h).mp (List.mem_filter.mp hr).1]
  cases hr : Rows.record ρ t key with
  | none => rfl
  | some r =>
      have hmem : r ∈ Rows.records ρ t := by
        rw [mem_records h, h.guid_of_record hr, hr]
      simp [hmem]

end Rows

/-- The records of a map that satisfy a condition, each once, in the order of the bytes of their
keys. -/
structure Lists {ρ : Type} [Record ρ] (m : Guid → Option ρ) (keep : ρ → Prop) (rs : List ρ) :
    Prop where
  mem_iff : ∀ r, r ∈ rs ↔ ∃ key, m key = some r ∧ keep r
  ascending : (rs.map fun r => Utf8.encode (Record.guid r)).Pairwise (· < ·)

theorem KeyedRows.lists_filter_records {ρ : Type} [Record ρ] {t : Rows} (h : KeyedRows ρ t)
    (keep : ρ → Prop) [DecidablePred keep] :
    Lists (Rows.record ρ t) keep ((t.records ρ).filter fun r => keep r) where
  mem_iff r := by
    rw [List.mem_filter, Rows.mem_records h, decide_eq_true_iff]
    constructor
    · rintro ⟨hr, hkeep⟩
      exact ⟨_, hr, hkeep⟩
    · rintro ⟨key, hr, hkeep⟩
      obtain rfl := h.guid_of_record hr
      exact ⟨hr, hkeep⟩
  ascending := by
    have hkeys := Rows.ascending_filter_records h fun r => keep r
    rw [List.pairwise_map] at hkeys ⊢
    exact hkeys.imp Utf8.encode_lt

/-- The records of a store, by their keys. -/
structure Records where
  app : Guid → Option App
  process : Guid → Option AppProcess
  deployment : Guid → Option Deployment
  route : Guid → Option Route

namespace Store

/-- Every row holds a record of its table's kind, under the key that the record names. -/
structure Keyed (s : Store) : Prop where
  apps : KeyedRows App s.apps
  processes : KeyedRows AppProcess s.processes
  deployments : KeyedRows Deployment s.deployments
  routes : KeyedRows Route s.routes

def records (s : Store) : Records :=
  ⟨s.apps.record App, s.processes.record AppProcess, s.deployments.record Deployment,
    s.routes.record Route⟩

@[simp] theorem record_app (s : Store) :
    Rows.record App (Tabled.rows App s) = s.records.app := rfl

@[simp] theorem record_process (s : Store) :
    Rows.record AppProcess (Tabled.rows AppProcess s) = s.records.process := rfl

@[simp] theorem record_deployment (s : Store) :
    Rows.record Deployment (Tabled.rows Deployment s) = s.records.deployment := rfl

namespace Keyed

variable {s : Store} {key : Guid}

theorem guid_app (h : s.Keyed) {a : App} (ha : s.records.app key = some a) : a.guid = key :=
  h.apps.guid_of_record ha

theorem guid_process (h : s.Keyed) {p : AppProcess} (hp : s.records.process key = some p) :
    p.guid = key :=
  h.processes.guid_of_record hp

theorem guid_deployment (h : s.Keyed) {d : Deployment} (hd : s.records.deployment key = some d) :
    d.guid = key :=
  h.deployments.guid_of_record hd

theorem guid_route (h : s.Keyed) {r : Route} (hr : s.records.route key = some r) : r.guid = key :=
  h.routes.guid_of_record hr

end Keyed

theorem keyed_empty : empty.Keyed := by
  constructor <;>
    · intro key bytes h
      cases h

end Store

/-- A kind of record whose table is one of the four and is replaced without touching the others. -/
class LawfulTabled (ρ : Type) [Tabled ρ] : Prop extends LawfulRecord ρ where
  keyed_rows (s : Store) : s.Keyed → KeyedRows ρ (Tabled.rows ρ s)
  keyed_withRows (s : Store) (t : Rows) :
    s.Keyed → KeyedRows ρ t → (Tabled.withRows ρ s t).Keyed
  rows_withRows (s : Store) (t : Rows) : Tabled.rows ρ (Tabled.withRows ρ s t) = t
  withRows_rows (s : Store) : Tabled.withRows ρ s (Tabled.rows ρ s) = s
  withRows_withRows (s : Store) (t u : Rows) :
    Tabled.withRows ρ (Tabled.withRows ρ s t) u = Tabled.withRows ρ s u

instance : LawfulTabled App where
  keyed_rows _ h := h.apps
  keyed_withRows _ _ h ht := { h with apps := ht }
  rows_withRows _ _ := rfl
  withRows_rows _ := rfl
  withRows_withRows _ _ _ := rfl

instance : LawfulTabled AppProcess where
  keyed_rows _ h := h.processes
  keyed_withRows _ _ h ht := { h with processes := ht }
  rows_withRows _ _ := rfl
  withRows_rows _ := rfl
  withRows_withRows _ _ _ := rfl

instance : LawfulTabled Deployment where
  keyed_rows _ h := h.deployments
  keyed_withRows _ _ h ht := { h with deployments := ht }
  rows_withRows _ _ := rfl
  withRows_rows _ := rfl
  withRows_withRows _ _ _ := rfl

instance : LawfulTabled Route where
  keyed_rows _ h := h.routes
  keyed_withRows _ _ h ht := { h with routes := ht }
  rows_withRows _ _ := rfl
  withRows_rows _ := rfl
  withRows_withRows _ _ _ := rfl

namespace Store

section Walking

variable {ρ : Type} [Tabled ρ] {s : Store}

theorem all_of_readable (h : (Tabled.rows ρ s).Readable ρ) :
    s.all ρ = .ok ((Tabled.rows ρ s).records ρ) := by
  have hdec : ∀ bytes ∈ (Tabled.rows ρ s).values, ∃ r : ρ, Record.decode? bytes = some r := by
    intro bytes hb
    obtain ⟨⟨key, _⟩, hrow, rfl⟩ := List.mem_map.mp hb
    exact h key _ (Table.find?_eq_some_iff.mpr hrow)
  rw [all, Rows.records]
  generalize (Tabled.rows ρ s).values = values at hdec
  induction values with
  | nil => rfl
  | cons bytes values ih =>
      obtain ⟨r, hd⟩ := hdec bytes List.mem_cons_self
      rw [List.mapM_cons, ih fun b hb => hdec b (List.mem_cons_of_mem _ hb)]
      simp [decodeRow, hd]
      rfl

/-- One row without a record fails the walk, wherever it stands. -/
theorem all_of_not_readable (h : ¬ (Tabled.rows ρ s).Readable ρ) :
    s.all ρ = .error .notARecord := by
  have hbad : ∃ bytes ∈ (Tabled.rows ρ s).values, (Record.decode? bytes : Option ρ) = none := by
    by_contra hall
    apply h
    intro key bytes hb
    have hmem : bytes ∈ (Tabled.rows ρ s).values :=
      List.mem_map.mpr ⟨_, Table.find?_eq_some_iff.mp hb, rfl⟩
    rw [← Option.ne_none_iff_exists']
    exact fun hnone => hall ⟨bytes, hmem, hnone⟩
  rw [all]
  generalize (Tabled.rows ρ s).values = values at hbad
  induction values with
  | nil =>
      obtain ⟨bytes, hb, _⟩ := hbad
      cases hb
  | cons bytes values ih =>
      rw [List.mapM_cons]
      cases hd : (Record.decode? bytes : Option ρ) with
      | none =>
          rw [decodeRow, hd]
          rfl
      | some r =>
          have hlater : ∃ b ∈ values, (Record.decode? b : Option ρ) = none := by
            obtain ⟨b, hb, hnone⟩ := hbad
            rcases List.mem_cons.mp hb with rfl | hb
            · rw [hd] at hnone
              cases hnone
            · exact ⟨b, hb, hnone⟩
          rw [decodeRow, hd, ih hlater]
          rfl

theorem select_of_readable (h : (Tabled.rows ρ s).Readable ρ) (keep : ρ → Bool) :
    s.select keep = .ok (((Tabled.rows ρ s).records ρ).filter keep) := by
  rw [select, all_of_readable h]
  rfl

theorem select_of_not_readable (h : ¬ (Tabled.rows ρ s).Readable ρ) (keep : ρ → Bool) :
    s.select keep = .error .notARecord := by
  rw [select, all_of_not_readable h]
  rfl

end Walking

section Reading

variable {ρ : Type} [Tabled ρ] [LawfulTabled ρ] {s : Store}

theorem Keyed.put (h : s.Keyed) (r : ρ) : (s.put r).Keyed :=
  LawfulTabled.keyed_withRows s _ h ((LawfulTabled.keyed_rows s h).insert r)

theorem Keyed.drop (h : s.Keyed) (key : Guid) : (s.drop ρ key).Keyed :=
  LawfulTabled.keyed_withRows s _ h ((LawfulTabled.keyed_rows s h).erase key)

theorem get?_eq (h : s.Keyed) (key : Guid) :
    s.get? ρ key = .ok ((Tabled.rows ρ s).record ρ key) := by
  rw [get?, Rows.record]
  cases hb : (Tabled.rows ρ s).find? key with
  | none => rfl
  | some bytes =>
      obtain ⟨r, hd, _⟩ := LawfulTabled.keyed_rows s h key bytes hb
      simp [decodeRow, hd, Except.map]

theorem select_eq (h : s.Keyed) (keep : ρ → Bool) :
    s.select keep = .ok (((Tabled.rows ρ s).records ρ).filter keep) :=
  select_of_readable (LawfulTabled.keyed_rows s h).readable keep

theorem foldl_put_eq (rs : List ρ) :
    rs.foldl Store.put s =
      Tabled.withRows ρ s (rs.foldl Rows.insertRecord (Tabled.rows ρ s)) := by
  induction rs generalizing s with
  | nil => exact (LawfulTabled.withRows_rows s).symm
  | cons r rs ih =>
      rw [List.foldl_cons, ih, Store.put, LawfulTabled.withRows_withRows,
        LawfulTabled.rows_withRows, List.foldl_cons, Rows.insertRecord]

theorem Keyed.foldl_put (h : s.Keyed) (rs : List ρ) : (rs.foldl Store.put s).Keyed := by
  rw [foldl_put_eq]
  exact LawfulTabled.keyed_withRows s _ h
    (Rows.keyed_insertRecords (LawfulTabled.keyed_rows s h) rs)

end Reading

variable (s : Store)

@[simp] theorem records_put_app (a : App) : (s.put a).records =
    { s.records with app := Function.update s.records.app a.guid (some a) } :=
  congrArg (Records.mk · _ _ _) (Rows.record_insert a)

@[simp] theorem records_put_process (p : AppProcess) : (s.put p).records =
    { s.records with process := Function.update s.records.process p.guid (some p) } :=
  congrArg (Records.mk _ · _ _) (Rows.record_insert p)

@[simp] theorem records_put_deployment (d : Deployment) : (s.put d).records =
    { s.records with deployment := Function.update s.records.deployment d.guid (some d) } :=
  congrArg (Records.mk _ _ · _) (Rows.record_insert d)

@[simp] theorem records_put_route (r : Route) : (s.put r).records =
    { s.records with route := Function.update s.records.route r.guid (some r) } :=
  congrArg (Records.mk _ _ _ ·) (Rows.record_insert r)

@[simp] theorem records_drop_process (key : Guid) : (s.drop AppProcess key).records =
    { s.records with process := Function.update s.records.process key none } :=
  congrArg (Records.mk _ · _ _) (Rows.record_erase key)

variable {s}

theorem records_rewrite_processes (h : s.Keyed) (keep : AppProcess → Bool)
    (write : AppProcess → AppProcess) (hwrite : ∀ p, (write p).guid = p.guid) :
    ((((s.processes.records AppProcess).filter keep).map write).foldl Store.put s).records =
      { s.records with
        process := fun key => (s.records.process key).map fun p => if keep p then write p else p } := by
  rw [foldl_put_eq]
  exact congrArg (Records.mk _ · _ _) (Rows.record_rewrite h.processes keep hwrite)

theorem records_rewrite_routes (h : s.Keyed) (keep : Route → Bool) (write : Route → Route)
    (hwrite : ∀ r, (write r).guid = r.guid) :
    ((((s.routes.records Route).filter keep).map write).foldl Store.put s).records =
      { s.records with
        route := fun key => (s.records.route key).map fun r => if keep r then write r else r } := by
  rw [foldl_put_eq]
  exact congrArg (Records.mk _ _ _ ·) (Rows.record_rewrite h.routes keep hwrite)

end Store

/-! A store with one app, whose web process a deployment is to replace, and a route to it. -/

namespace Sample

def app : App := App.create "shop" "Shop" (some "shop-1") 0

def web (instances : UInt32) : AppProcess := AppProcess.create "shop-1" "shop" "web" instances 0

def webish (instances : UInt32) : AppProcess :=
  AppProcess.create "shop-2" "shop" "web-next" instances 0

def deployment : Deployment := Deployment.create "rollout" "shop" "shop-2" 0

def route : Route := ⟨"shop-route", "shop", "shop-1", "shop.example"⟩

def store (old new : UInt32) : Store :=
  ((((Store.empty.put app).put (web old)).put (webish new)).put deployment).put route

theorem keyed_store (old new : UInt32) : (store old new).Keyed :=
  ((((Store.keyed_empty.put _).put _).put _).put _).put _

theorem records_store (old new : UInt32) : (store old new).records = {
    app := Function.update (fun _ => none) "shop" (some app)
    process := Function.update (Function.update (fun _ => none) "shop-1" (some (web old)))
      "shop-2" (some (webish new))
    deployment := Function.update (fun _ => none) "rollout" (some deployment)
    route := Function.update (fun _ => none) "shop-route" (some route) } := by
  simp only [store, Store.records_put_app, Store.records_put_process,
    Store.records_put_deployment, Store.records_put_route]
  rfl

/-- A second deployment of the shop, to the same process. -/
def rival : Deployment := { deployment with guid := "rival" }

def worker : AppProcess := AppProcess.create "shop-3" "shop" "worker" 1 0

/-- The shop with a worker. -/
def staffed : Store := (store 1 2).put worker

theorem keyed_staffed : staffed.Keyed := (keyed_store 1 2).put worker

theorem records_staffed : staffed.records = { (store 1 2).records with
    process := Function.update (store 1 2).records.process "shop-3" (some worker) } := by
  rw [staffed, Store.records_put_process]
  rfl

end Sample
end Rollout
