import Rollout.Record.Basic
import Rollout.Json.Field
/-!
# Encoded records

A record is kept as a compact JSON object with its fields in order. Reading takes any order and
passes over unknown fields; the optional fields may be left out, and so may the list of stopped
processes.
-/

namespace Rollout

open Json (ofText ofNat ofOption ofFields fields? text? uint32? uint64? listOf? tag?)

/-- A kind of record: its key, its document, and the reader of documents. -/
class Record (ρ : Type) where
  guid : ρ → Guid
  toJson : ρ → Json
  ofJson? : Json → Option ρ

namespace Record

variable {ρ : Type} [Record ρ]

def encode (r : ρ) : Bytes := (toJson r).toBytes

def decode? (bytes : Bytes) : Option ρ := (Json.ofBytes? bytes).bind ofJson?

end Record

namespace ProcessState

def name : ProcessState → String
  | .started => "STARTED"
  | .stopped => "STOPPED"

def ofName? (name : String) : Option ProcessState :=
  if name = "STARTED" then some .started
  else if name = "STOPPED" then some .stopped
  else none

def toJson (s : ProcessState) : Json := ofText s.name

def ofJson? (j : Json) : Option ProcessState := (tag? j).bind ofName?

end ProcessState

namespace DeploymentState

def ofName? (name : String) : Option DeploymentState :=
  if name = "DEPLOYING" then some .deploying
  else if name = "DEPLOYED" then some .deployed
  else if name = "CANCELED" then some .canceled
  else none

def toJson (s : DeploymentState) : Json := ofText s.name

def ofJson? (j : Json) : Option DeploymentState := (tag? j).bind ofName?

end DeploymentState

def Time.toJson (t : Time) : Json := ofNat t.toNat

namespace App

def fieldNames : List String := ["guid", "name", "web_process_guid", "created_at", "updated_at"]

def toJson (a : App) : Json :=
  ofFields
    [("guid", ofText a.guid),
     ("name", ofText a.name),
     ("web_process_guid", ofOption ofText a.web),
     ("created_at", Time.toJson a.createdAt),
     ("updated_at", Time.toJson a.updatedAt)]

def ofJson? (j : Json) : Option App := do
  let fields ← fields? fieldNames j
  return {
    guid := ← fields.required "guid" text?
    name := ← fields.required "name" text?
    web := ← fields.nullable "web_process_guid" text?
    createdAt := ← fields.required "created_at" uint64?
    updatedAt := ← fields.required "updated_at" uint64? }

instance : Record App := ⟨App.guid, toJson, ofJson?⟩

end App

namespace AppProcess

def fieldNames : List String :=
  ["guid", "app_guid", "process_type", "instances", "state", "created_at", "updated_at"]

def toJson (p : AppProcess) : Json :=
  ofFields
    [("guid", ofText p.guid),
     ("app_guid", ofText p.app),
     ("process_type", ofText p.kind),
     ("instances", ofNat p.instances.toNat),
     ("state", p.state.toJson),
     ("created_at", Time.toJson p.createdAt),
     ("updated_at", Time.toJson p.updatedAt)]

def ofJson? (j : Json) : Option AppProcess := do
  let fields ← fields? fieldNames j
  return {
    guid := ← fields.required "guid" text?
    app := ← fields.required "app_guid" text?
    kind := ← fields.required "process_type" text?
    instances := ← fields.required "instances" uint32?
    state := ← fields.required "state" ProcessState.ofJson?
    createdAt := ← fields.required "created_at" uint64?
    updatedAt := ← fields.required "updated_at" uint64? }

instance : Record AppProcess := ⟨AppProcess.guid, toJson, ofJson?⟩

end AppProcess

namespace Deployment

def fieldNames : List String :=
  ["guid", "app_guid", "state", "droplet_guid", "webish_process_guid", "stopped_process_guids",
   "created_at", "updated_at"]

def toJson (d : Deployment) : Json :=
  ofFields
    [("guid", ofText d.guid),
     ("app_guid", ofText d.app),
     ("state", d.state.toJson),
     ("droplet_guid", ofOption ofText d.droplet),
     ("webish_process_guid", ofOption ofText d.webish),
     ("stopped_process_guids", .array (d.stopped.map ofText)),
     ("created_at", Time.toJson d.createdAt),
     ("updated_at", Time.toJson d.updatedAt)]

def ofJson? (j : Json) : Option Deployment := do
  let fields ← fields? fieldNames j
  return {
    guid := ← fields.required "guid" text?
    app := ← fields.required "app_guid" text?
    state := ← fields.required "state" DeploymentState.ofJson?
    droplet := ← fields.nullable "droplet_guid" text?
    webish := ← fields.nullable "webish_process_guid" text?
    stopped := ← fields.withDefault "stopped_process_guids" [] (listOf? text?)
    createdAt := ← fields.required "created_at" uint64?
    updatedAt := ← fields.required "updated_at" uint64? }

instance : Record Deployment := ⟨Deployment.guid, toJson, ofJson?⟩

end Deployment

namespace Route

def fieldNames : List String := ["guid", "app_guid", "process_guid", "route"]

def toJson (r : Route) : Json :=
  ofFields
    [("guid", ofText r.guid),
     ("app_guid", ofText r.app),
     ("process_guid", ofText r.process),
     ("route", ofText r.url)]

def ofJson? (j : Json) : Option Route := do
  let fields ← fields? fieldNames j
  return {
    guid := ← fields.required "guid" text?
    app := ← fields.required "app_guid" text?
    process := ← fields.required "process_guid" text?
    url := ← fields.required "route" text? }

instance : Record Route := ⟨Route.guid, toJson, ofJson?⟩

end Route
end Rollout
