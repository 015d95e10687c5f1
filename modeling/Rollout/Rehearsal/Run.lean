import Rollout.Rehearsal.Cycle
/-!
# Runs in virtual time

Three tasks share the world: the script, the renewal loop of the lock client and the scheduler.
Each runs until it has to wait; then the clock moves to the first alarm that is due. Of alarms due
at one time the script's comes first, then the one that was set first. A stop waits for the task
that it stops: an attempt or a cycle that is under way is brought to its end.
-/

namespace Rollout.Rehearsal

/-- When a waiting task goes on, and the place of the alarm in the order of settings. -/
structure Alarm where
  due : Nat
  ticket : Nat

/-- What a cycle that the script waits for is told as. -/
inductive Purpose where
  | update (get : List Guid)
  | runOnce

inductive ScriptTask where
  | idle (reply : Reply)
  | resting (alarm : Alarm)
  | cycling (c : Waiting) (purpose : Purpose) (alarm : Alarm)
  | attempting (grant : Grant) (alarm : Alarm)
  | releasing (grant : Grant) (alarm : Alarm)
  | joiningRenewal
  | joiningScheduler

inductive RenewalTask where
  | absent
  | attempting (grant : Grant) (stopping : Bool) (alarm : Alarm)
  | resting (alarm : Alarm)

structure SchedulerSettings where
  interval : Nat
  gated : Bool
  stopOthers : Bool

inductive SchedulerTask where
  | absent
  | cycling (settings : SchedulerSettings) (c : Waiting) (stopping : Bool) (alarm : Alarm)
  | resting (settings : SchedulerSettings) (alarm : Alarm)

/-- What is seen of one step of the script. -/
structure Seen where
  reply : Reply
  time : Nat
  queries : List Query
  calls : List TimedCall
  log : List Event

end Rehearsal

structure Rehearsal where
  world : Rehearsal.World
  tickets : Nat
  script : Rehearsal.ScriptTask
  renewal : Rehearsal.RenewalTask
  scheduler : Rehearsal.SchedulerTask

namespace Rehearsal

def ofWorld (w : World) : Rehearsal := ⟨w, 0, .idle .done, .absent, .absent⟩

variable (r : Rehearsal)

def note (events : List Event) : Rehearsal := { r with world := r.world.note events }

def reply (answer : Reply) : Rehearsal := { r with script := .idle answer }

/-- Sets an alarm. -/
def alarm (delay : Nat) : Alarm × Rehearsal :=
  (⟨r.world.clock + delay, r.tickets⟩, { r with tickets := r.tickets + 1 })

/-- The script has stopped the renewal loop, which is gone: the lock is given back. -/
def giveBack : Rehearsal :=
  match r.world.lock with
  | none => r.reply .done
  | some c =>
    let w := { r.world with lock := some c.stopped }
    match c.release? with
    | none => { r with world := w.note [.lockStopped] }.reply .done
    | some request =>
      let (grant, w) := w.request (.release request)
      let r := { r with world := w }
      if grant.delay = 0 then
        (r.note [LockClient.releaseEvent grant.value, .lockStopped]).reply .done
      else
        let (alarm, r) := r.alarm grant.delay
        { r with script := .releasing grant.value alarm }

/-- The renewal loop has ended. -/
def endRenewal : Rehearsal :=
  let r := { r with renewal := .absent }.note [.renewalStopping]
  match r.script with
  | .joiningRenewal => r.giveBack
  | _ => r

/-- An attempt of the renewal loop has been answered: it rests, or ends if it was stopped. -/
def renewed (grant : Grant) (stopping : Bool) : Rehearsal :=
  let r := { r with world := r.world.attempted grant }
  if stopping then r.endRenewal
  else
    match r.world.lock with
    | none => { r with renewal := .absent }
    | some c =>
      let (alarm, r) := r.alarm c.settings.retry.millis
      { r with renewal := .resting alarm }

/-- The renewal loop makes an attempt. -/
def renew : Rehearsal :=
  match r.world.lock with
  | none => { r with renewal := .absent }
  | some c =>
    let (grant, w) := r.world.request (.lock c.settings.lockRequest)
    let r := { r with world := w }
    if grant.delay = 0 then r.renewed grant.value false
    else
      let (alarm, r) := r.alarm grant.delay
      { r with renewal := .attempting grant.value false alarm }

/-- The scheduler has ended. -/
def endScheduler : Rehearsal :=
  let r := { r with scheduler := .absent }.note [.schedulerStopping]
  match r.script with
  | .joiningScheduler => r.reply (.flag true)
  | _ => r

/-- A cycle of the scheduler goes on, or the scheduler rests, or it ends if it was stopped. -/
def scheduled (settings : SchedulerSettings) (stopping : Bool) : Option Progress → Rehearsal
  | some (.waiting c delay) =>
    let (alarm, r) := r.alarm delay
    { r with scheduler := .cycling settings c stopping alarm }
  | _ =>
    if stopping then r.endScheduler
    else
      let (alarm, r) := r.alarm settings.interval
      { r with scheduler := .resting settings alarm }

/-- The scheduler begins a cycle. -/
def schedule (settings : SchedulerSettings) : Rehearsal :=
  let (progress, w) := r.world.beginGuarded settings.gated settings.stopOthers
  { r with world := w }.scheduled settings false progress

/-- A cycle that the script waits for goes on or is told. -/
def told (purpose : Purpose) : Progress → Rehearsal
  | .waiting c delay =>
    let (alarm, r) := r.alarm delay
    { r with script := .cycling c purpose alarm }
  | .ended report =>
    match purpose with
    | .update get => r.reply (.report (some report) get)
    | .runOnce => r.reply (.report (some report) [])

/-- An attempt that the script made has been answered. -/
def acquired (grant : Grant) : Rehearsal :=
  { r with world := r.world.attempted grant }.reply (.flag (LockClient.isGranted grant))

/-- Whose alarm it is. -/
inductive Owner where
  | script
  | renewal
  | scheduler

def scriptAlarm? : Option Alarm :=
  match r.script with
  | .resting alarm | .cycling _ _ alarm | .attempting _ alarm | .releasing _ alarm => some alarm
  | _ => none

def renewalAlarm? : Option Alarm :=
  match r.renewal with
  | .attempting _ _ alarm | .resting alarm => some alarm
  | .absent => none

def schedulerAlarm? : Option Alarm :=
  match r.scheduler with
  | .cycling _ _ _ alarm | .resting _ alarm => some alarm
  | .absent => none

/-- The earlier of two alarms; of two due at one time the one with the smaller ticket. -/
def earlier : Option (Owner × Alarm) → Option (Owner × Alarm) → Option (Owner × Alarm)
  | none, b => b
  | a, none => a
  | some a, some b =>
    if a.2.due < b.2.due || (a.2.due = b.2.due && a.2.ticket ≤ b.2.ticket) then some a else some b

def nextAlarm? : Option (Owner × Alarm) :=
  let tasks := earlier (r.renewalAlarm?.map (Owner.renewal, ·))
    (r.schedulerAlarm?.map (Owner.scheduler, ·))
  earlier (r.scriptAlarm?.map fun a => (Owner.script, { a with ticket := 0 })) tasks

/-- The task whose alarm is due goes on. -/
def goOn : Owner → Rehearsal
  | .script =>
    match r.script with
    | .resting _ => r.reply .done
    | .cycling c purpose _ =>
      let (progress, w) := r.world.resume c
      { r with world := w }.told purpose progress
    | .attempting grant _ => r.acquired grant
    | .releasing grant _ =>
      (r.note [LockClient.releaseEvent grant, .lockStopped]).reply .done
    | _ => r
  | .renewal =>
    match r.renewal with
    | .attempting grant stopping _ => r.renewed grant stopping
    | .resting _ => r.renew
    | .absent => r
  | .scheduler =>
    match r.scheduler with
    | .cycling settings c stopping _ =>
      let (progress, w) := r.world.resume c
      { r with world := w }.scheduled settings stopping (some progress)
    | .resting settings _ => r.schedule settings
    | .absent => r

/-- Whether the script has its reply. -/
def isIdle : Bool :=
  match r.script with
  | .idle _ => true
  | _ => false

/-- Lets time pass until the script has its reply and nothing more is due. -/
def settle : Nat → Rehearsal → Rehearsal
  | 0, r => r
  | patience + 1, r =>
    match r.nextAlarm? with
    | none => r
    | some (owner, alarm) =>
      if r.isIdle && r.world.clock < alarm.due then r
      else
        let w := { r.world with clock := max r.world.clock alarm.due }
        settle patience ({ r with world := w }.goOn owner)

def startLock : Rehearsal :=
  match r.world.lock with
  | none => r.reply .done
  | some c =>
    let r := { r with world := { r.world with lock := some c.started }.note [c.startEvent] }
    if c.running then r.reply .done else (r.reply .done).renew

def stopLock : Rehearsal :=
  match r.renewal with
  | .absent => r.reply .done
  | .attempting grant _ alarm =>
    { r with renewal := .attempting grant true alarm, script := .joiningRenewal }
  | .resting _ => { r with script := .joiningRenewal }.endRenewal

def tryAcquire : Rehearsal :=
  match r.world.lock with
  | none => r.reply (.flag false)
  | some c =>
    let (grant, w) := r.world.request (.lock c.settings.lockRequest)
    let r := { r with world := w }
    if grant.delay = 0 then r.acquired grant.value
    else
      let (alarm, r) := r.alarm grant.delay
      { r with script := .attempting grant.value alarm }

def stopScheduler : Rehearsal :=
  match r.scheduler with
  | .absent => r.reply (.flag true)
  | .cycling settings c _ alarm =>
    { r with scheduler := .cycling settings c true alarm, script := .joiningScheduler }
  | .resting _ _ => { r with script := .joiningScheduler }.endScheduler

/-- A new lock client takes the place of the old one, whose loop ends with it. -/
def newLock (settings : LockSettings) : Rehearsal :=
  let r :=
    match r.renewal with
    | .absent => r
    | _ => r.endRenewal
  { r with world := { r.world with lock := some (.ofSettings settings) } }.reply
    (.settings settings)

def reopen : Rehearsal :=
  let w := r.world
  let w := if w.onDisk then w else { w with store := .empty }
  { r with world := w.note [w.openEvent] }.reply .done

def secondOpen : Rehearsal :=
  if r.world.onDisk then r.reply (.failed (.unopened "already open"))
  else (r.note [r.world.openEvent]).reply .done

/-- Begins a step of the script. -/
def start : Step → Rehearsal
  | .store s =>
    let (answer, events, store) := s.run r.world.wallTime r.world.store
    { r with world := { r.world with store := store }.note events }.reply answer
  | .reopen => r.reopen
  | .secondOpen => r.secondOpen
  | .options stopOthers =>
    { r with world := { r.world with stopOthers := stopOthers } }.reply (.flag stopOthers)
  | .reporter process answer =>
    { r with world := { r.world with spoken := r.world.spoken.insert process answer } }.reply .done
  | .race process steps =>
    { r with world := { r.world with races := r.world.races ++ [(process, steps)] } }.reply .done
  | .update get =>
    match r.world.beginCycle r.world.stopOthers with
    | (.ok progress, w) => { r with world := w }.told (.update get) progress
    | (.error e, w) => { r with world := w }.reply (.updateFailed e)
  | .runOnce gated =>
    match r.world.beginGuarded gated r.world.stopOthers with
    | (some progress, w) => { r with world := w }.told .runOnce progress
    | (none, w) => { r with world := w }.reply (.report none [])
  | .startScheduler interval gated =>
    ((r.reply .done).note [.schedulerStarted]).schedule ⟨interval, gated, r.world.stopOthers⟩
  | .stopScheduler => r.stopScheduler
  | .advance millis =>
    let (alarm, r) := r.alarm millis
    { r with script := .resting alarm }
  | .newLock settings => r.newLock settings
  | .scriptLock grants releases =>
    { r with world :=
        { r.world with
          grants := r.world.grants.extend grants
          releases := r.world.releases.extend releases } }.reply .done
  | .lockAcquired => r.reply (.flag (r.world.lock.any (·.acquired)))
  | .tryAcquire => r.tryAcquire
  | .withLock => r.reply (.body (r.world.lock.any (·.admits)))
  | .startLock => r.startLock
  | .stopLock => r.stopLock

/-- How many alarms one step may see; a script that needs more hangs. -/
def patience : Nat := 1000000

/-- A step of the script, with all that is due by its end. -/
def step (s : Step) : Seen × Rehearsal :=
  let r := settle patience (r.start s)
  let answer :=
    match r.script with
    | .idle answer => answer
    | _ => .done
  let w := r.world
  (⟨answer, w.clock, w.queries, w.calls, w.log⟩,
    { r with world := { w with queries := [], calls := [], log := [] } })

def steps : Rehearsal → List Step → List Seen
  | _, [] => []
  | r, s :: rest =>
    let (seen, r) := r.step s
    seen :: steps r rest

/-- Opens the store and follows the script; nothing is done if the store cannot be opened. -/
def perform (now : Time) (file : Option StoreFile) (script : List Step) :
    Except StoreError (Event × List Seen) := do
  let store ← (file.getD .absent).openStore
  let world := World.initial now file.isSome store
  return (world.openEvent, steps (ofWorld world) script)

end Rehearsal
end Rollout
