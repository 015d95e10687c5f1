import Rollout.Lock.Settings
import Rollout.Text.Graphic
/-!
# Configuration

The settings of a daemon. They are usable when no interval is zero, a grant of the lock outlasts
the interval between its renewals, and the owner of the lock has a name.
-/

namespace Rollout

structure UpdaterConfig where
  frequency : UInt64
  owner : String
  key : String
  ttl : UInt64
  retry : UInt64
  stopOthers : Bool
  deriving DecidableEq, Repr

structure ReporterConfig where
  url : String
  timeout : UInt64
  deriving DecidableEq, Repr

structure Config where
  dataDir : String
  updater : UpdaterConfig
  locket : Option Locket
  reporter : ReporterConfig
  deriving DecidableEq, Repr

/-- The first condition that a configuration does not meet. -/
inductive Violation where
  | frequencyZero
  | retryZero
  | ttlTooShort (ttl retry : UInt64)
  | ttlTooLong (ttl : UInt64)
  | ownerBlank
  | timeoutZero
  deriving DecidableEq, Repr

def Violation.message : Violation → String
  | .frequencyZero =>
    "deployment_updater.update_frequency_in_seconds must be greater than 0"
  | .retryZero =>
    "deployment_updater.lock_retry_interval_in_seconds must be greater than 0"
  | .ttlTooShort ttl retry =>
    s!"deployment_updater.lock_ttl_in_seconds ({ttl.toNat}) must be greater than " ++
      s!"lock_retry_interval_in_seconds ({retry.toNat})"
  | .ttlTooLong ttl =>
    s!"deployment_updater.lock_ttl_in_seconds ({ttl.toNat}) is out of range"
  | .ownerBlank => "deployment_updater.lock_owner must not be empty"
  | .timeoutZero => "instances_reporter.timeout_in_seconds must be greater than 0"

namespace UpdaterConfig

/-- The settings of an updater about which nothing is written. -/
def ofOwner (owner : String) : UpdaterConfig :=
  let lock := LockSettings.ofOwner owner
  ⟨5, owner, lock.key, lock.ttl.secs, lock.retry.secs, true⟩

end UpdaterConfig

namespace ReporterConfig

/-- The timeout in seconds of a reporter about which none is written. -/
def defaultTimeout : UInt64 := 5

end ReporterConfig

namespace Config

def violation? (c : Config) : Option Violation :=
  if c.updater.frequency = 0 then some .frequencyZero
  else if c.updater.retry = 0 then some .retryZero
  else if c.updater.ttl ≤ c.updater.retry then some (.ttlTooShort c.updater.ttl c.updater.retry)
  else if Int64.maxValue.toNatClampNeg < c.updater.ttl.toNat then some (.ttlTooLong c.updater.ttl)
  else if Text.isBlank c.updater.owner then some .ownerBlank
  else if c.reporter.timeout = 0 then some .timeoutZero
  else none

/-- The path of a file in a directory. -/
def join (dir file : String) : String :=
  if dir = "" then file else if dir.toList.getLast? = some '/' then dir ++ file
  else dir ++ "/" ++ file

def storePath (c : Config) : String := join c.dataDir "deployd.redb"

def updateInterval (c : Config) : Duration := .ofSecs c.updater.frequency

def reporterTimeout (c : Config) : Duration := .ofSecs c.reporter.timeout

def lockSettings (c : Config) : LockSettings :=
  ⟨c.updater.key, c.updater.owner, .ofSecs c.updater.ttl, .ofSecs c.updater.retry⟩

end Config
end Rollout
