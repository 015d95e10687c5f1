import Rollout.Proofs.Transaction

/-!
# Transactions in step

Of a process, leave out whether it runs and when it was updated, and of a deployment, the processes
that it has stopped and when it was updated: what remains is the core of the records. Two
transactions are in step when both fail with the same error or both succeed. On stores with one
core, reading the same key and writing records with one core keeps them in step.
-/

namespace Rollout

def AppProcess.core (p : AppProcess) : AppProcess := { p with state := .started, updatedAt := 0 }

def Deployment.core (d : Deployment) : Deployment := { d with stopped := [], updatedAt := 0 }

theorem AppProcess.core_eq_iff {p q : AppProcess} : p.core = q.core ↔
    p.guid = q.guid ∧ p.app = q.app ∧ p.kind = q.kind ∧ p.instances = q.instances ∧
      p.createdAt = q.createdAt := by
  simp [core]

theorem Deployment.core_eq_iff {d d' : Deployment} : d.core = d'.core ↔
    d.guid = d'.guid ∧ d.app = d'.app ∧ d.state = d'.state ∧ d.droplet = d'.droplet ∧
      d.webish = d'.webish ∧ d.createdAt = d'.createdAt := by
  simp [core]

def Records.core (v : Records) : Records where
  app := v.app
  process key := (v.process key).map AppProcess.core
  deployment key := (v.deployment key).map Deployment.core
  route := v.route

namespace Rows

variable {ρ γ : Type} [Record ρ] {t u : Rows} {f : ρ → γ}

private theorem map_records (t : Rows) (f : ρ → γ) :
    (Rows.records ρ t).map f = t.keys.filterMap fun key => (Rows.record ρ t key).map f := by
  rw [Rows.records, Table.values, Table.keys, List.map_filterMap, List.filterMap_map,
    List.filterMap_map]
  apply List.filterMap_congr
  intro row hrow
  have hfind : t.find? row.1 = some row.2 := Table.find?_eq_some_iff.mpr hrow
  simp only [Function.comp_apply, Rows.record, hfind, Option.bind_some]

private theorem mem_keys (h : KeyedRows ρ t) {key : Guid} :
    key ∈ t.keys ↔ ((Rows.record ρ t key).map f).isSome := by
  rw [Option.isSome_map, Rows.record, Table.keys, List.mem_map]
  constructor
  · rintro ⟨⟨key, bytes⟩, hrow, rfl⟩
    have hfind := Table.find?_eq_some_iff.mpr hrow
    obtain ⟨r, hd, _⟩ := h key bytes hfind
    rw [hfind, Option.bind_some, hd, Option.isSome_some]
  · intro hsome
    obtain ⟨r, hr⟩ := Option.isSome_iff_exists.mp hsome
    obtain ⟨bytes, hb, _⟩ := Option.bind_eq_some_iff.mp hr
    exact ⟨(key, bytes), Table.find?_eq_some_iff.mp hb, rfl⟩

theorem map_records_eq (ht : KeyedRows ρ t) (hu : KeyedRows ρ u)
    (h : ∀ key, (Rows.record ρ t key).map f = (Rows.record ρ u key).map f) :
    (Rows.records ρ t).map f = (Rows.records ρ u).map f := by
  have hasc : ∀ w : Rows, w.keys.Pairwise (· < ·) := fun w => List.pairwise_map.mpr w.ascending
  have hmem : ∀ key, key ∈ t.keys ↔ key ∈ u.keys := by
    intro key
    rw [mem_keys (f := f) ht, mem_keys (f := f) hu, h key]
  have hperm := (List.perm_ext_iff_of_nodup (hasc t).nodup (hasc u).nodup).mpr hmem
  have hkeys : t.keys = u.keys :=
    hperm.eq_of_pairwise (fun a b _ _ hab hba => absurd hba (Std.Asymm.asymm _ _ hab))
      (hasc t) (hasc u)
  rw [map_records, map_records, hkeys]
  exact List.filterMap_congr fun key _ => h key

end Rows

namespace Store

/-- Two stores in good order that differ outside the core of their records only. -/
structure Coincide (s t : Store) : Prop where
  left : s.Keyed
  right : t.Keyed
  core : s.records.core = t.records.core

namespace Coincide

variable {s t u : Store}

theorem refl (hs : s.Keyed) : Coincide s s := ⟨hs, hs, rfl⟩

theorem symm (h : Coincide s t) : Coincide t s := ⟨h.right, h.left, h.core.symm⟩

theorem trans (h : Coincide s t) (h' : Coincide t u) : Coincide s u :=
  ⟨h.left, h'.right, h.core.trans h'.core⟩

theorem app (h : Coincide s t) : s.records.app = t.records.app :=
  congrArg (fun v => v.app) h.core

theorem route (h : Coincide s t) : s.records.route = t.records.route :=
  congrArg (fun v => v.route) h.core

theorem process (h : Coincide s t) (key : Guid) :
    (s.records.process key).map AppProcess.core = (t.records.process key).map AppProcess.core :=
  congrFun (congrArg Records.process h.core) key

theorem deployment (h : Coincide s t) (key : Guid) :
    (s.records.deployment key).map Deployment.core =
      (t.records.deployment key).map Deployment.core :=
  congrFun (congrArg Records.deployment h.core) key

private theorem map_update {α β : Type} (f : α → β) (row : Guid → Option α) (key : Guid)
    (a : Option α) :
    (fun k => (Function.update row key a k).map f) =
      Function.update (fun k => (row k).map f) key (a.map f) := by
  funext k
  by_cases hk : k = key
  · simp [hk]
  · simp [hk]

private theorem core_update_process (v : Records) (key : Guid) (p : Option AppProcess) :
    Records.core { v with process := Function.update v.process key p } =
      { v.core with process := Function.update v.core.process key (p.map AppProcess.core) } :=
  congrArg (Records.mk _ · _ _) (map_update _ _ _ _)

private theorem core_update_deployment (v : Records) (key : Guid) (d : Option Deployment) :
    Records.core { v with deployment := Function.update v.deployment key d } =
      { v.core with
        deployment := Function.update v.core.deployment key (d.map Deployment.core) } :=
  congrArg (Records.mk _ _ · _) (map_update _ _ _ _)

theorem put_app (h : Coincide s t) (a : App) : Coincide (s.put a) (t.put a) := by
  refine ⟨h.left.put a, h.right.put a, ?_⟩
  rw [records_put_app, records_put_app, h.app]
  exact congrArg (fun v => { v with app := Function.update t.records.app a.guid (some a) }) h.core

theorem put_route (h : Coincide s t) (r : Route) : Coincide (s.put r) (t.put r) := by
  refine ⟨h.left.put r, h.right.put r, ?_⟩
  rw [records_put_route, records_put_route, h.route]
  exact congrArg (fun v => { v with route := Function.update t.records.route r.guid (some r) })
    h.core

theorem put_routes (h : Coincide s t) (rs : List Route) :
    Coincide (rs.foldl Store.put s) (rs.foldl Store.put t) := by
  induction rs generalizing s t with
  | nil => exact h
  | cons r rs ih => exact ih (h.put_route r)

theorem put_process (h : Coincide s t) {p q : AppProcess} (hpq : p.core = q.core) :
    Coincide (s.put p) (t.put q) := by
  have hguid : p.guid = q.guid := (AppProcess.core_eq_iff.mp hpq).1
  refine ⟨h.left.put p, h.right.put q, ?_⟩
  rw [records_put_process, records_put_process, core_update_process, core_update_process, h.core,
    hguid, Option.map_some, Option.map_some, hpq]

theorem put_deployment (h : Coincide s t) {d d' : Deployment} (hdd' : d.core = d'.core) :
    Coincide (s.put d) (t.put d') := by
  have hguid : d.guid = d'.guid := (Deployment.core_eq_iff.mp hdd').1
  refine ⟨h.left.put d, h.right.put d', ?_⟩
  rw [records_put_deployment, records_put_deployment, core_update_deployment,
    core_update_deployment, h.core, hguid, Option.map_some, Option.map_some, hdd']

theorem drop_process (h : Coincide s t) (key : Guid) :
    Coincide (s.drop AppProcess key) (t.drop AppProcess key) := by
  refine ⟨h.left.drop key, h.right.drop key, ?_⟩
  rw [records_drop_process, records_drop_process, core_update_process, core_update_process, h.core]

theorem overwrite_deployment (hs : s.Keyed) {d d' : Deployment}
    (hd : s.records.deployment d.guid = some d) (hdd' : d.core = d'.core) :
    Coincide s (s.put d') := by
  have hguid : d'.guid = d.guid := (Deployment.core_eq_iff.mp hdd').1.symm
  refine ⟨hs, hs.put d', ?_⟩
  have hrow : s.records.core.deployment d.guid = some d'.core := by
    rw [← hdd']
    exact congrArg (Option.map Deployment.core) hd
  rw [records_put_deployment, core_update_deployment, hguid, Option.map_some, ← hrow,
    Function.update_eq_self]

end Coincide
end Store

namespace Transaction

open Store

variable {α β γ δ : Type}

/-- Both fail with the same error, or both succeed with such results. -/
def InStep (q : Transaction α) (q' : Transaction β) (s t : Store)
    (post : α → β → Store → Store → Prop) : Prop :=
  (∃ a b s' t', q s = (.ok a, s') ∧ q' t = (.ok b, t') ∧ post a b s' t') ∨
    ∃ e s' t', q s = (.error e, s') ∧ q' t = (.error e, t')

namespace InStep

variable {q : Transaction α} {q' : Transaction β} {f : α → Transaction γ} {f' : β → Transaction δ}
  {s t : Store} {mid post : α → β → Store → Store → Prop} {last : γ → δ → Store → Store → Prop}

theorem bind (hq : InStep q q' s t mid)
    (hf : ∀ a b s' t', mid a b s' t' → InStep (f a) (f' b) s' t' last) :
    InStep (q >>= f) (q' >>= f') s t last := by
  rcases hq with ⟨a, b, s', t', hs, ht, hmid⟩ | ⟨e, s', t', hs, ht⟩
  · rw [InStep, bind_of_ok hs, bind_of_ok ht]
    exact hf a b s' t' hmid
  · exact .inr ⟨e, s', t', bind_of_error hs, bind_of_error ht⟩

theorem of_ok {a : α} {b : β} {s' t' : Store} (hs : q s = (.ok a, s')) (ht : q' t = (.ok b, t'))
    (h : post a b s' t') : InStep q q' s t post :=
  .inl ⟨a, b, s', t', hs, ht, h⟩

theorem coincide {a : α} {b : β} {s' t' : Store} (hs : q s = (.ok a, s'))
    (ht : q' t = (.ok b, t')) (h : Coincide s' t') :
    InStep q q' s t fun _ _ s' t' => Coincide s' t' :=
  of_ok hs ht h

theorem pure {a : α} {b : β} (h : post a b s t) :
    InStep (Pure.pure a : Transaction α) (Pure.pure b : Transaction β) s t post :=
  of_ok rfl rfl h

theorem throw (e : StoreError) :
    InStep (MonadExcept.throw e : Transaction α) (MonadExcept.throw e : Transaction β) s t post :=
  .inr ⟨e, s, t, rfl, rfl⟩

theorem expect (holds : Bool) (reason : Conflict) :
    InStep (Transaction.expect holds reason) (Transaction.expect holds reason) s t
      fun _ _ s' t' => holds = true ∧ s' = s ∧ t' = t := by
  cases holds with
  | true => exact .pure ⟨rfl, rfl, rfl⟩
  | false => exact .throw _

theorem require {ρ : Type} [Tabled ρ] [LawfulTabled ρ] (h : Coincide s t) {key : Guid}
    {view : ρ → γ}
    (hview : ((Tabled.rows ρ s).record ρ key).map view = ((Tabled.rows ρ t).record ρ key).map view) :
    InStep (Transaction.require ρ key) (Transaction.require ρ key) s t fun r r' s' t' =>
      view r = view r' ∧ (Tabled.rows ρ s).record ρ key = some r ∧
        (Tabled.rows ρ t).record ρ key = some r' ∧ s' = s ∧ t' = t := by
  cases hr : (Tabled.rows ρ s).record ρ key with
  | none =>
      rw [hr, Option.map_none, eq_comm, Option.map_eq_none_iff] at hview
      exact .inr ⟨_, s, t, (require_error h.left).mpr ⟨hr, rfl, rfl⟩,
        (require_error h.right).mpr ⟨hview, rfl, rfl⟩⟩
  | some r =>
      rw [hr, Option.map_some, eq_comm] at hview
      obtain ⟨r', hr', hsame⟩ := Option.map_eq_some_iff.mp hview
      exact of_ok ((require_ok h.left).mpr ⟨hr, rfl⟩) ((require_ok h.right).mpr ⟨hr', rfl⟩)
        ⟨hsame.symm, rfl, hr', rfl, rfl⟩

theorem put {ρ : Type} [Tabled ρ] {r r' : ρ} :
    InStep (Transaction.put r) (Transaction.put r') s t
      fun _ _ s' t' => s' = s.put r ∧ t' = t.put r' :=
  of_ok (put_ok (u := ()).mpr rfl) (put_ok (u := ()).mpr rfl) ⟨rfl, rfl⟩

theorem drop {ρ : Type} [Tabled ρ] {key : Guid} :
    InStep (Transaction.drop ρ key) (Transaction.drop ρ key) s t
      fun _ _ s' t' => s' = s.drop ρ key ∧ t' = t.drop ρ key :=
  of_ok (drop_ok (u := ()).mpr rfl) (drop_ok (u := ()).mpr rfl) ⟨rfl, rfl⟩

theorem select_routes (h : Coincide s t) (keep : Route → Bool) :
    InStep (Transaction.select keep) (Transaction.select keep) s t
      fun rs rs' s' t' => rs' = rs ∧ s' = s ∧ t' = t := by
  have hsame : s.routes.records Route = t.routes.records Route := by
    have hmap := Rows.map_records_eq (f := id) h.left.routes h.right.routes
      fun key => congrArg (Option.map id) (congrFun h.route key)
    rwa [List.map_id, List.map_id] at hmap
  refine of_ok ((select_ok h.left).mpr ⟨rfl, rfl⟩) ((select_ok h.right).mpr ⟨rfl, rfl⟩) ⟨?_, rfl, rfl⟩
  exact congrArg (List.filter keep) hsame.symm

end InStep
end Transaction
end Rollout
