import Rollout.Config.Basic
import Rollout.Toml.Document
import Rollout.File
/-!
# Reading a configuration

The document has a data directory and up to three sections. A section is a table, or an array that
lists its fields in order; keys that no section knows are passed over. The owner of the lock is the
configured one, else the name of the host, else one made from the number of the daemon.
-/

namespace Rollout

/-- What the daemon knows of where it runs. -/
structure Environment where
  hostname : Option String
  processId : String
  deriving DecidableEq, Repr

def Environment.owner (e : Environment) : String := e.hostname.getD ("deployd-" ++ e.processId)

/-- The fields of a section, under names or in order. -/
inductive Section where
  | named (entries : Toml.Entries)
  | listed (elements : List Toml)

namespace Section

/-- A time is taken for a section without any known field. -/
def ofToml? : Toml → Option Section
  | .table _ es | .inline es => some (.named es)
  | .array vs => some (.listed vs)
  | .tables ts => some (.listed (ts.map (.table .header)))
  | .datetime => some (.named [])
  | _ => none

def find? (s : Section) (index : Nat) (name : String) : Option Toml :=
  match s with
  | .named es => es.lookup name
  | .listed vs => vs[index]?

def required {α : Type} (s : Section) (index : Nat) (name : String) (read : Toml → Option α) :
    Option α :=
  (s.find? index name).bind read

def withDefault {α : Type} (s : Section) (index : Nat) (name : String) (default : α)
    (read : Toml → Option α) : Option α :=
  match s.find? index name with
  | none => some default
  | some v => read v

end Section

namespace Toml

def text? : Toml → Option String
  | .string s => some s
  | _ => none

def truth? : Toml → Option Bool
  | .boolean b => some b
  | _ => none

def natural? : Toml → Option UInt64
  | .integer n => if 0 ≤ n then some (UInt64.ofNat n.toNat) else none
  | _ => none

def port? : Toml → Option UInt16
  | .integer n => if 0 ≤ n ∧ n < 65536 then some (UInt16.ofNat n.toNat) else none
  | _ => none

end Toml

namespace UpdaterConfig

def ofToml? (owner : String) (v : Toml) : Option UpdaterConfig := do
  let s ← Section.ofToml? v
  let base := ofOwner owner
  return {
    frequency := ← s.withDefault 0 "update_frequency_in_seconds" base.frequency Toml.natural?
    owner := ← s.withDefault 1 "lock_owner" base.owner Toml.text?
    key := ← s.withDefault 2 "lock_key" base.key Toml.text?
    ttl := ← s.withDefault 3 "lock_ttl_in_seconds" base.ttl Toml.natural?
    retry := ← s.withDefault 4 "lock_retry_interval_in_seconds" base.retry Toml.natural?
    stopOthers := ← s.withDefault 5 "stop_non_web_processes" base.stopOthers Toml.truth? }

end UpdaterConfig

namespace Locket

def ofToml? (v : Toml) : Option Locket := do
  let s ← Section.ofToml? v
  return {
    host := ← s.required 0 "host" Toml.text?
    port := ← s.required 1 "port" Toml.port?
    caFile := ← s.required 2 "ca_file" Toml.text?
    certFile := ← s.required 3 "cert_file" Toml.text?
    keyFile := ← s.required 4 "key_file" Toml.text? }

end Locket

namespace ReporterConfig

def ofToml? (v : Toml) : Option ReporterConfig := do
  let s ← Section.ofToml? v
  return {
    url := ← s.required 0 "url" Toml.text?
    timeout := ← s.withDefault 1 "timeout_in_seconds" defaultTimeout Toml.natural? }

end ReporterConfig

inductive ConfigError where
  | malformed
  | invalid (v : Violation)
  deriving DecidableEq, Repr

namespace Config

/-- The sections that the entries of a document spell. -/
def ofEntries? (env : Environment) (es : Toml.Entries) : Option Config := do
  let s := Section.named es
  return {
    dataDir := ← s.required 0 "data_dir" Toml.text?
    updater := ← s.withDefault 1 "deployment_updater" (.ofOwner env.owner)
      (UpdaterConfig.ofToml? env.owner)
    locket := ← s.withDefault 2 "locket" none fun v => (Locket.ofToml? v).map some
    reporter := ← s.required 3 "instances_reporter" ReporterConfig.ofToml? }

def decode? (env : Environment) (text : String) : Option Config :=
  (Toml.parse? text).bind (ofEntries? env)

def parse (env : Environment) (text : String) : Except ConfigError Config :=
  match decode? env text with
  | none => .error .malformed
  | some c =>
    match c.violation? with
    | some v => .error (.invalid v)
    | none => .ok c

end Config

/-- Why a file gives no configuration: it cannot be read as text, or the text is at fault. -/
inductive ConfigFileError where
  | unreadable (path : String)
  | rejected (path : String) (e : ConfigError)
  deriving DecidableEq, Repr

def ConfigFileError.message : ConfigFileError → String
  | .unreadable path => "reading config " ++ path
  | .rejected path _ => "invalid config " ++ path

def Config.ofFile (env : Environment) (path : String) (file : FileState) :
    Except ConfigFileError Config :=
  match file.text? with
  | none => .error (.unreadable path)
  | some text =>
    match Config.parse env text with
    | .ok c => .ok c
    | .error e => .error (.rejected path e)

end Rollout
