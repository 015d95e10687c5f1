import Rollout.Proofs.Json.Field
import Rollout.Record.Encoding

/-!
# Encoded records are read back

Decoding gives back the record that was encoded, for each of the four kinds of record.
-/

namespace Rollout

open Json

/-- A kind of record whose documents can be written and are read as the records they stand for. -/
class LawfulRecord (ρ : Type) [Record ρ] : Prop where
  lexical_toJson (r : ρ) : Lexical (Record.toJson r)
  ofJson?_toJson (r : ρ) : Record.ofJson? (Record.toJson r) = some r

@[simp] theorem Record.decode?_encode {ρ : Type} [Record ρ] [LawfulRecord ρ] (r : ρ) :
    Record.decode? (Record.encode r) = some r := by
  rw [Record.decode?, Record.encode, ofBytes?_toBytes (LawfulRecord.lexical_toJson r),
    Option.bind_some, LawfulRecord.ofJson?_toJson]

@[simp] private theorem uint64?_time (t : Time) : uint64? (Time.toJson t) = some t :=
  uint64?_ofNat t

@[simp] private theorem processState_ofJson? (s : ProcessState) :
    ProcessState.ofJson? s.toJson = some s := by
  cases s <;> simp [ProcessState.ofJson?, ProcessState.toJson, ProcessState.ofName?,
    ProcessState.name]

@[simp] private theorem deploymentState_ofJson? (s : DeploymentState) :
    DeploymentState.ofJson? s.toJson = some s := by
  cases s <;> simp [DeploymentState.ofJson?, DeploymentState.toJson, DeploymentState.ofName?,
    DeploymentState.name]

instance : LawfulRecord App where
  lexical_toJson a := by
    apply lexical_ofFields
    simp [lexical_ofText, lexical_ofNat, lexical_ofOption_ofText, Time.toJson]
  ofJson?_toJson a := by
    change App.ofJson? (App.toJson a) = some a
    rw [App.ofJson?, App.toJson, fields?_ofFields_names]
    · simp
    · rfl
    · decide

instance : LawfulRecord AppProcess where
  lexical_toJson p := by
    apply lexical_ofFields
    simp [lexical_ofText, lexical_ofNat, ProcessState.toJson, Time.toJson]
  ofJson?_toJson p := by
    change AppProcess.ofJson? (AppProcess.toJson p) = some p
    rw [AppProcess.ofJson?, AppProcess.toJson, fields?_ofFields_names]
    · simp
    · rfl
    · decide

instance : LawfulRecord Deployment where
  lexical_toJson d := by
    apply lexical_ofFields
    simp [lexical_ofText, lexical_ofNat, lexical_ofOption_ofText, lexical_texts,
      DeploymentState.toJson, Time.toJson]
  ofJson?_toJson d := by
    change Deployment.ofJson? (Deployment.toJson d) = some d
    rw [Deployment.ofJson?, Deployment.toJson, fields?_ofFields_names]
    · simp
    · rfl
    · decide

instance : LawfulRecord Route where
  lexical_toJson r := by
    apply lexical_ofFields
    simp [lexical_ofText]
  ofJson?_toJson r := by
    change Route.ofJson? (Route.toJson r) = some r
    rw [Route.ofJson?, Route.toJson, fields?_ofFields_names]
    · simp
    · rfl
    · decide

end Rollout
