import Rollout.Table
import Rollout.Record.Encoding
import Rollout.Store.Error
/-!
# The store

Four tables, one for each kind of record, map keys to encoded records. A record is written under
its own key. Reading a row that holds no record is an error, and a walk over a table meets every
row of it, so one such row fails the walk.
-/

namespace Rollout

abbrev Rows := Table Guid Bytes

structure Store where
  apps : Rows
  processes : Rows
  deployments : Rows
  routes : Rows
  deriving DecidableEq, Inhabited

/-- A kind of record that has a table in the store. -/
class Tabled (ρ : Type) extends Record ρ where
  rows : Store → Rows
  withRows : Store → Rows → Store

instance : Tabled App := ⟨Store.apps, fun s t => { s with apps := t }⟩

instance : Tabled AppProcess := ⟨Store.processes, fun s t => { s with processes := t }⟩

instance : Tabled Deployment := ⟨Store.deployments, fun s t => { s with deployments := t }⟩

instance : Tabled Route := ⟨Store.routes, fun s t => { s with routes := t }⟩

namespace Store

def empty : Store := ⟨∅, ∅, ∅, ∅⟩

variable (ρ : Type) [Tabled ρ]

def decodeRow (bytes : Bytes) : Except StoreError ρ :=
  match Record.decode? bytes with
  | some r => .ok r
  | none => .error .notARecord

/-- The record under this key. -/
def get? (s : Store) (key : Guid) : Except StoreError (Option ρ) :=
  match (Tabled.rows ρ s).find? key with
  | none => .ok none
  | some bytes => (decodeRow ρ bytes).map some

/-- All records of a table, in the order of their keys. -/
def all (s : Store) : Except StoreError (List ρ) :=
  (Tabled.rows ρ s).values.mapM (decodeRow ρ)

variable {ρ}

/-- The records of a table that satisfy a condition, in the order of their keys. -/
def select (s : Store) (keep : ρ → Bool) : Except StoreError (List ρ) :=
  (s.all ρ).map (·.filter keep)

def put (s : Store) (r : ρ) : Store :=
  Tabled.withRows ρ s ((Tabled.rows ρ s).insert (Record.guid r) (Record.encode r))

variable (ρ)

def drop (s : Store) (key : Guid) : Store :=
  Tabled.withRows ρ s ((Tabled.rows ρ s).erase key)

/-- Drops the row of a key, and tells whether there was one. -/
def delete (s : Store) (key : Guid) : Bool × Store :=
  (((Tabled.rows ρ s).find? key).isSome, s.drop ρ key)

def deploymentsIn (s : Store) (state : DeploymentState) : Except StoreError (List Deployment) :=
  s.select fun d => d.state = state

def routesOf (s : Store) (process : Guid) : Except StoreError (List Route) :=
  s.select fun r => r.process = process

/-- Writes bytes under a key of the table with this name; another name changes nothing. -/
def writeRaw (s : Store) (table : String) (key : Guid) (bytes : Bytes) : Store :=
  if table = "apps" then { s with apps := s.apps.insert key bytes }
  else if table = "processes" then { s with processes := s.processes.insert key bytes }
  else if table = "deployments" then { s with deployments := s.deployments.insert key bytes }
  else if table = "route_mappings" then { s with routes := s.routes.insert key bytes }
  else s

end Store
end Rollout
