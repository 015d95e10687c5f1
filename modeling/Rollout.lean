import Rollout.Backend
import Rollout.CommandLine
import Rollout.Config.Basic
import Rollout.Config.Reading
import Rollout.Cycle.Basic
import Rollout.Cycle.Fleet
import Rollout.Cycle.Outcome
import Rollout.Cycle.Report
import Rollout.Cycle.Scheduler
import Rollout.Cycle.Turn
import Rollout.Daemon
import Rollout.Duration
import Rollout.Edit
import Rollout.Edit.Transaction
import Rollout.File
import Rollout.Http.Body
import Rollout.Http.Head
import Rollout.Http.Status
import Rollout.Instance
import Rollout.Json.Basic
import Rollout.Json.Field
import Rollout.Json.Number
import Rollout.Json.Printer
import Rollout.Json.Text
import Rollout.Json.Token
import Rollout.Lock.Client
import Rollout.Lock.Error
import Rollout.Lock.Message
import Rollout.Lock.Service
import Rollout.Lock.Settings
import Rollout.Log
import Rollout.Main
import Rollout.Proofs.Atomicity
import Rollout.Proofs.Backend.Address
import Rollout.Proofs.Backend.Target
import Rollout.Proofs.Companions
import Rollout.Proofs.Config.Usable
import Rollout.Proofs.Config.Written
import Rollout.Proofs.Convergence
import Rollout.Proofs.Course
import Rollout.Proofs.Decision
import Rollout.Proofs.Edit
import Rollout.Proofs.Edit.Count
import Rollout.Proofs.Edit.CutOver
import Rollout.Proofs.Edit.DeploymentRow
import Rollout.Proofs.Edit.Effect
import Rollout.Proofs.Edit.Exact
import Rollout.Proofs.Edit.Footprint
import Rollout.Proofs.Edit.Frame
import Rollout.Proofs.Edit.Refusal
import Rollout.Proofs.Edit.Retirement
import Rollout.Proofs.Edit.Step
import Rollout.Proofs.Fleet
import Rollout.Proofs.Footprint
import Rollout.Proofs.Gate
import Rollout.Proofs.Independence
import Rollout.Proofs.Instance
import Rollout.Proofs.Integrity
import Rollout.Proofs.Isolation
import Rollout.Proofs.Json.Document
import Rollout.Proofs.Json.Field
import Rollout.Proofs.Json.Grammar
import Rollout.Proofs.Json.Layout
import Rollout.Proofs.Json.Leaf
import Rollout.Proofs.Json.Lexeme
import Rollout.Proofs.Json.Members
import Rollout.Proofs.Json.Utf8
import Rollout.Proofs.List
import Rollout.Proofs.Lockstep
import Rollout.Proofs.LostRace
import Rollout.Proofs.Maps
import Rollout.Proofs.Ownership
import Rollout.Proofs.Ownership.Apps
import Rollout.Proofs.Ownership.Edit
import Rollout.Proofs.Ownership.Transaction
import Rollout.Proofs.Ownership.Turn
import Rollout.Proofs.Progress
import Rollout.Proofs.Readiness
import Rollout.Proofs.Record
import Rollout.Proofs.Record.Forms
import Rollout.Proofs.Report
import Rollout.Proofs.Scheduler
import Rollout.Proofs.StopOption
import Rollout.Proofs.Store
import Rollout.Proofs.Table
import Rollout.Proofs.Tenure
import Rollout.Proofs.Tenure.Deed
import Rollout.Proofs.Tenure.Renewal
import Rollout.Proofs.Tenure.Step
import Rollout.Proofs.Text.Order
import Rollout.Proofs.Text.Spelling
import Rollout.Proofs.Toml
import Rollout.Proofs.Transaction
import Rollout.Proofs.Turn
import Rollout.Proofs.Uri
import Rollout.Proofs.Wire.Field
import Rollout.Proofs.Wire.Message
import Rollout.Proofs.Wire.Varint
import Rollout.Readiness
import Rollout.Record.Basic
import Rollout.Record.Encoding
import Rollout.Rehearsal.Cycle
import Rollout.Rehearsal.Run
import Rollout.Rehearsal.Script
import Rollout.Rehearsal.World
import Rollout.Store.Basic
import Rollout.Store.Error
import Rollout.Table
import Rollout.Text.Graphic
import Rollout.Text.Quoted
import Rollout.Text.Utf8
import Rollout.Tls.Pem
import Rollout.Tls.ServerName
import Rollout.Toml.Basic
import Rollout.Toml.Document
import Rollout.Toml.Scalar
import Rollout.Toml.Text
import Rollout.Uri.Authority
import Rollout.Uri.Basic
import Rollout.Wire.Field
import Rollout.Wire.Message
import Rollout.Wire.Varint
