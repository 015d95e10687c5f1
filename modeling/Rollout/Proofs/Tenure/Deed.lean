import Rollout.Rehearsal.Run
import Mathlib.Data.List.Basic
import Mathlib.Data.List.Induction

/-!
# The deeds of a lock client

A client is started, stopped and asked for attempts, and its renewal loop makes attempts of its own.
Each of these deeds is over before the next one begins, but for an attempt of the loop, which may
still wait for its answer. Whether the client has the flag, whether its loop runs and what a deed is
to send and to log can be told from the deeds before it and from the answers that came with them.
-/

namespace Rollout
namespace Rehearsal

inductive Deed.Kind where
  | start
  | stop
  | tryAcquire
  /-- The loop, if it runs, makes its next attempt or hears of the one that it has made. -/
  | renewal
  deriving DecidableEq, Repr

/-- What is done with a lock client, and what the service answers should it be asked. -/
structure Deed where
  kind : Deed.Kind
  answer : Delayed Grant

section Acts

variable (r : Rehearsal)

/-- From now on the service answers this to every request. -/
def serve (answer : Delayed Grant) : Rehearsal :=
  { r with world := { r.world with grants := ⟨[], answer⟩, releases := ⟨[], answer⟩ } }

/-- The alarm of a task, if it has one, is waited for, and the task goes on. -/
def wake (owner : Owner) : Option Alarm → Rehearsal
  | none => r
  | some alarm =>
    { r with world := { r.world with clock := max r.world.clock alarm.due } }.goOn owner

def launch : Deed.Kind → Rehearsal
  | .start => r.start .startLock
  | .stop => r.start .stopLock
  | .tryAcquire => r.start .tryAcquire
  | .renewal => r.wake .renewal r.renewalAlarm?

/-- A stop that waits for the loop sees it end. -/
def join : Rehearsal :=
  match r.script with
  | .joiningRenewal => r.wake .renewal r.renewalAlarm?
  | _ => r

/-- A call that waits for the service hears its answer. -/
def hear : Rehearsal := r.wake .script r.scriptAlarm?

/-- A deed from its beginning to its end. -/
def act (deed : Deed) : Rehearsal := ((r.serve deed.answer).launch deed.kind).join.hear

end Acts

/-- A rehearsal with a new client, after these deeds. -/
def afterDeeds (settings : LockSettings) (w : World) (deeds : List Deed) : Rehearsal :=
  deeds.foldl act ((ofWorld w).step (.newLock settings)).2

/-- Where the renewal loop stands between two deeds. -/
inductive Loop where
  | absent
  | resting
  | asking (grant : Grant)

/-- What a deed means for the flag: an attempt is answered, or a stop has joined the loop. -/
inductive Mark where
  | attempted (grant : Grant)
  | joined

namespace Loop

/-- The loop has made an attempt, and is told the outcome at once or waits for it. -/
def ofAnswer (answer : Delayed Grant) : Loop :=
  if answer.delay = 0 then .resting else .asking answer.value

def next (loop : Loop) (deed : Deed) : Loop :=
  match deed.kind, loop with
  | .start, .absent | .renewal, .resting => .ofAnswer deed.answer
  | .renewal, .asking _ => .resting
  | .stop, _ => .absent
  | _, loop => loop

/-- The task of the loop, seen from here. -/
def Is : Loop → RenewalTask → Prop
  | .absent, task => task = .absent
  | .resting, task => ∃ alarm, task = .resting alarm
  | .asking grant, task => ∃ alarm, task = .attempting grant false alarm

end Loop

namespace Deed

def Kind.isSwitch : Kind → Bool
  | .start | .stop => true
  | .tryAcquire | .renewal => false

/-- Whether the loop runs after these deeds: the latest start or stop is a start. -/
def runs (deeds : List Deed) : Bool :=
  match deeds.reverse.find? (·.kind.isSwitch) with
  | some deed => deed.kind = .start
  | none => false

def loop (deeds : List Deed) : Loop := deeds.foldl Loop.next .absent

/-- Whether the deed asks for the lock. -/
def asks (before : List Deed) (deed : Deed) : Bool :=
  match deed.kind, loop before with
  | .tryAcquire, _ | .start, .absent | .renewal, .resting => true
  | _, _ => false

/-- The outcome of the attempt that is answered before the deed is over, if there is one. -/
def outcome (before : List Deed) (deed : Deed) : Option Grant :=
  match deed.kind, loop before with
  | .tryAcquire, _ => some deed.answer.value
  | .start, .absent | .renewal, .resting =>
    if deed.answer.delay = 0 then some deed.answer.value else none
  | .renewal, .asking grant | .stop, .asking grant => some grant
  | _, _ => none

/-- Whether the deed is a stop that joins the loop. -/
def joins (before : List Deed) (deed : Deed) : Bool := deed.kind = .stop && runs before

def marks (deeds : List Deed) : List Mark :=
  deeds.zipIdx.flatMap fun (deed, i) =>
    (outcome (deeds.take i) deed).toList.map Mark.attempted ++
      if joins (deeds.take i) deed then [.joined] else []

/-- Whether the latest attempt that was answered was granted, and no stop has joined the loop
since. -/
def held (deeds : List Deed) : Bool :=
  match (marks deeds).getLast? with
  | some (.attempted grant) => LockClient.isGranted grant
  | _ => false

/-- Whether the flag is set when the attempt that the deed waits for has been answered. -/
def heldThen (before : List Deed) (deed : Deed) : Bool :=
  ((outcome before deed).map LockClient.isGranted).getD (held before)

variable (deeds : List Deed) (deed : Deed)

theorem runs_concat : runs (deeds ++ [deed]) =
    match deed.kind with
    | .start => true
    | .stop => false
    | _ => runs deeds := by
  rw [runs, List.reverse_append, List.reverse_singleton, List.singleton_append, List.find?_cons]
  cases hkind : deed.kind with
  | start | stop => simp [Kind.isSwitch, hkind]
  | tryAcquire | renewal => rfl

theorem loop_concat : loop (deeds ++ [deed]) = (loop deeds).next deed := by
  rw [loop, List.foldl_append]
  rfl

theorem runs_iff_loop : runs deeds = true ↔ loop deeds ≠ .absent := by
  induction deeds using List.reverseRecOn with
  | nil => simp [runs, loop]
  | append_singleton deeds deed ih =>
      have hasks : ∀ answer, Loop.ofAnswer answer ≠ .absent := by
        intro answer
        rw [Loop.ofAnswer]
        split <;> simp
      rw [runs_concat, loop_concat]
      obtain ⟨kind, answer⟩ := deed
      cases kind <;> cases hloop : loop deeds <;> simp [Loop.next, hloop, ih, hasks]

theorem start_of_runs {before : List Deed} (hruns : runs before = true) (answer : Delayed Grant) :
    asks before ⟨.start, answer⟩ = false ∧ outcome before ⟨.start, answer⟩ = none ∧
      (loop before).next ⟨.start, answer⟩ = loop before := by
  have hne := (runs_iff_loop before).mp hruns
  cases hloop : loop before with
  | absent => exact absurd hloop hne
  | resting | asking => simp [asks, outcome, hloop, Loop.next]

theorem loop_of_not_runs {before : List Deed} (hruns : runs before = false) :
    loop before = .absent := by
  by_contra hne
  rw [(runs_iff_loop before).mpr hne] at hruns
  cases hruns

theorem marks_concat : marks (deeds ++ [deed]) = marks deeds ++
    ((outcome deeds deed).toList.map Mark.attempted ++
      if joins deeds deed then [.joined] else []) := by
  rw [marks, List.zipIdx_append, List.flatMap_append]
  congr 1
  · apply List.flatMap_congr
    rintro ⟨earlier, i⟩ hmem
    have hi : i < deeds.length := by
      have := List.snd_lt_of_mem_zipIdx hmem
      omega
    simp only [List.take_append_of_le_length (Nat.le_of_lt hi)]
  · simp

theorem held_concat :
    held (deeds ++ [deed]) = (heldThen deeds deed && !joins deeds deed) := by
  rw [held, marks_concat, heldThen]
  cases hjoins : joins deeds deed with
  | true => simp [List.getLast?_append]
  | false => cases houtcome : outcome deeds deed <;> simp [held]

/-- What the client is after these deeds. -/
def client (settings : LockSettings) (deeds : List Deed) : LockClient :=
  ⟨settings, held deeds, runs deeds⟩

/-- What a deed sends after those before it. -/
def sent (settings : LockSettings) (before : List Deed) (deed : Deed) : List LockCall :=
  (if asks before deed then [.lock settings.lockRequest] else []) ++
    if joins before deed && heldThen before deed then [.release settings.releaseRequest] else []

/-- A start says whether it starts the loop. -/
def begun (before : List Deed) (deed : Deed) : List Event :=
  if deed.kind = .start then [if runs before then .lockAlreadyRunning else .lockStarted] else []

/-- A stop that joins the loop says so, and what has become of the lock. -/
def ended (before : List Deed) (deed : Deed) : List Event :=
  if joins before deed then
    .renewalStopping ::
      ((if heldThen before deed then [LockClient.releaseEvent deed.answer.value] else []) ++
        [.lockStopped])
  else []

/-- What a deed logs after those before it. -/
def logged (settings : LockSettings) (before : List Deed) (deed : Deed) : List Event :=
  begun before deed ++
    (((outcome before deed).map (client settings before).attemptEvents).getD [] ++
      ended before deed)

section Counts

variable (settings : LockSettings) (before : List Deed) (deed : Deed)

theorem count_begun :
    (begun before deed).count .lockAcquired = 0 ∧ (begun before deed).count .lockLost = 0 ∧
      (begun before deed).count .lockStarted = (deed.kind = .start && !runs before).toNat ∧
      (begun before deed).count .renewalStopping = 0 := by
  by_cases hkind : deed.kind = .start <;> cases hruns : runs before <;> simp [begun, hkind, hruns]

theorem count_attemptEvents (c : LockClient) (grant : Grant) :
    (c.attemptEvents grant).count .lockAcquired =
        (!c.acquired && LockClient.isGranted grant).toNat ∧
      (c.attemptEvents grant).count .lockLost =
        (c.acquired && !LockClient.isGranted grant).toNat ∧
      (c.attemptEvents grant).count .lockStarted = 0 ∧
      (c.attemptEvents grant).count .renewalStopping = 0 := by
  cases grant with
  | ok =>
      cases hacquired : c.acquired <;>
        simp [LockClient.attemptEvents, LockClient.isGranted, hacquired]
  | error e =>
      cases hacquired : c.acquired <;> cases e <;>
        simp [LockClient.attemptEvents, LockClient.isGranted, hacquired]

theorem count_ended :
    (ended before deed).count .lockAcquired = 0 ∧ (ended before deed).count .lockLost = 0 ∧
      (ended before deed).count .lockStarted = 0 ∧
      (ended before deed).count .renewalStopping = (joins before deed).toNat := by
  rw [ended]
  cases joins before deed with
  | false => exact ⟨rfl, rfl, rfl, rfl⟩
  | true =>
      cases heldThen before deed with
      | false => simp
      | true => cases deed.answer.value <;> simp [LockClient.releaseEvent]

/-- The log tells of the flag at the attempts that turn it, and of the loop where it starts and
where it ends. -/
theorem count_logged :
    let events := logged settings before deed
    events.count .lockAcquired =
        ((outcome before deed).any fun g => !held before && LockClient.isGranted g).toNat ∧
      events.count .lockLost =
        ((outcome before deed).any fun g => held before && !LockClient.isGranted g).toNat ∧
      events.count .lockStarted = (deed.kind = .start && !runs before).toNat ∧
      events.count .renewalStopping = (joins before deed).toNat := by
  intro events
  have hbegun := count_begun before deed
  have hended := count_ended before deed
  simp only [events, logged, List.count_append, hbegun, hended, Nat.zero_add, Nat.add_zero]
  cases outcome before deed with
  | none => simp
  | some grant =>
      simp only [Option.map_some, Option.getD_some, count_attemptEvents]
      simp [client]

end Counts
end Deed
end Rehearsal
end Rollout
