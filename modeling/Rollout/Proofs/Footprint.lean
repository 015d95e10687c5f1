import Rollout.Proofs.Store
import Mathlib.Data.Set.Basic

/-!
# Which rows were written

A footprint names the rows that may be written. Outside it a store keeps its rows byte for byte,
which says more than that it keeps its records: a row may hold a record in other bytes than those
that the record would be written in.
-/

namespace Rollout

/-- Keys of rows, table by table. -/
structure Footprint where
  apps : Set Guid
  processes : Set Guid
  deployments : Set Guid
  routes : Set Guid

/-- Under all other keys the second table has the rows of the first. -/
def Rows.SameOutside (keys : Set Guid) (t u : Rows) : Prop :=
  ∀ key, key ∉ keys → u.find? key = t.find? key

namespace Rows.SameOutside

variable {keys : Set Guid} {t u : Rows} {key : Guid}

theorem refl (keys : Set Guid) (t : Rows) : SameOutside keys t t := fun _ _ => rfl

theorem insert (h : SameOutside keys t u) (hkey : key ∈ keys) (bytes : Bytes) :
    SameOutside keys t (u.insert key bytes) := by
  intro other hother
  have hne : key ≠ other := by
    rintro rfl
    exact hother hkey
  rw [Table.find?_insert, if_neg hne, h other hother]

theorem erase (h : SameOutside keys t u) (hkey : key ∈ keys) :
    SameOutside keys t (u.erase key) := by
  intro other hother
  have hne : key ≠ other := by
    rintro rfl
    exact hother hkey
  rw [Table.find?_erase, if_neg hne, h other hother]

end Rows.SameOutside

namespace Store

/-- Outside the footprint the second store has the rows of the first. -/
structure SameOutside (f : Footprint) (s s' : Store) : Prop where
  apps : s.apps.SameOutside f.apps s'.apps
  processes : s.processes.SameOutside f.processes s'.processes
  deployments : s.deployments.SameOutside f.deployments s'.deployments
  routes : s.routes.SameOutside f.routes s'.routes

namespace SameOutside

variable {f : Footprint} {s s' : Store}

theorem refl (f : Footprint) (s : Store) : SameOutside f s s :=
  ⟨.refl _ _, .refl _ _, .refl _ _, .refl _ _⟩

theorem put_app (h : SameOutside f s s') {a : App} (ha : a.guid ∈ f.apps) :
    SameOutside f s (s'.put a) :=
  { h with apps := h.apps.insert ha _ }

theorem put_process (h : SameOutside f s s') {p : AppProcess} (hp : p.guid ∈ f.processes) :
    SameOutside f s (s'.put p) :=
  { h with processes := h.processes.insert hp _ }

theorem put_deployment (h : SameOutside f s s') {d : Deployment} (hd : d.guid ∈ f.deployments) :
    SameOutside f s (s'.put d) :=
  { h with deployments := h.deployments.insert hd _ }

theorem put_route (h : SameOutside f s s') {r : Route} (hr : r.guid ∈ f.routes) :
    SameOutside f s (s'.put r) :=
  { h with routes := h.routes.insert hr _ }

theorem drop_process (h : SameOutside f s s') {key : Guid} (hkey : key ∈ f.processes) :
    SameOutside f s (s'.drop AppProcess key) :=
  { h with processes := h.processes.erase hkey }

theorem foldl_put {ρ : Type} [Tabled ρ] (h : SameOutside f s s') {rs : List ρ}
    (hput : ∀ r ∈ rs, ∀ working, SameOutside f s working → SameOutside f s (working.put r)) :
    SameOutside f s (rs.foldl Store.put s') := by
  induction rs generalizing s' with
  | nil => exact h
  | cons r rs ih =>
      exact ih (hput r List.mem_cons_self s' h)
        fun later hl => hput later (List.mem_cons_of_mem _ hl)

end SameOutside
end Store
end Rollout
