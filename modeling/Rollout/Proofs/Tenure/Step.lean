import Rollout.Proofs.Tenure.Deed

/-!
# What one deed makes of a rehearsal

Whether the service answers at once or the deed has to wait for it comes to the same. A client that
was what the deeds before have made of it is, after one more deed, what that deed makes of it.
-/

namespace Rollout
namespace Rehearsal

section Steps

variable {r : Rehearsal} {c : LockClient} {answer : Delayed Grant} {grant : Grant} {reply : Reply}

/-- The request is among those that were seen. -/
def asked (r : Rehearsal) (call : LockCall) : Rehearsal :=
  { r with world := { r.world with calls := r.world.calls ++ [⟨call, r.world.clock⟩] } }

theorem request_lock (h : r.world.grants = ⟨[], answer⟩) (q : LockRequest) :
    r.world.request (.lock q) = (answer, (r.asked (.lock q)).world) := by
  simp [World.request, Answers.next, asked, h]

theorem request_release (h : r.world.releases = ⟨[], answer⟩) (q : ReleaseRequest) :
    r.world.request (.release q) = (answer, (r.asked (.release q)).world) := by
  simp [World.request, Answers.next, asked, h]

theorem join_of_idle (hscript : r.script = .idle reply) : r.join = r := by
  rw [join, hscript]

theorem hear_of_idle (hscript : r.script = .idle reply) : r.hear = r := by
  rw [hear, scriptAlarm?, hscript]
  rfl

theorem act_of_idle {deed : Deed} {r₀ : Rehearsal}
    (hlaunch : (r.serve deed.answer).launch deed.kind = r₀) (hscript : r₀.script = .idle reply) :
    r.act deed = r₀ := by
  rw [act, hlaunch, join_of_idle hscript, hear_of_idle hscript]

/-- The client has heard the outcome of an attempt, if there is one, and the log tells of it. -/
structure Hears (c : LockClient) (outcome : Option Grant) (r r' : Rehearsal) : Prop where
  lock : r'.world.lock = some ((outcome.map c.answered).getD c)
  calls : r'.world.calls = r.world.calls
  log : r'.world.log = r.world.log ++ (outcome.map c.attemptEvents).getD []

theorem renewed_eq (hlock : r.world.lock = some c) (grant : Grant) : r.renewed grant false =
    { r with
      world := r.world.attempted grant
      tickets := r.tickets + 1
      renewal := .resting ⟨r.world.clock + c.settings.retry.millis, r.tickets⟩ } := by
  simp [renewed, World.attempted, hlock, World.note, alarm, LockClient.answered]

theorem renew_eq (hlock : r.world.lock = some c) (hgrants : r.world.grants = ⟨[], answer⟩)
    (hdelay : answer.delay = 0) :
    r.renew = (r.asked (.lock c.settings.lockRequest)).renewed answer.value false := by
  simp only [renew, hlock, request_lock hgrants, hdelay, if_true]
  rfl

theorem hears_renewed (hlock : r.world.lock = some c) (grant : Grant) :
    Hears c (some grant) r (r.renewed grant false) ∧
      Loop.resting.Is (r.renewed grant false).renewal ∧
      (r.renewed grant false).script = r.script := by
  rw [renewed_eq hlock, World.attempted, hlock]
  exact ⟨⟨rfl, rfl, rfl⟩, ⟨_, rfl⟩, rfl⟩

theorem hears_renew (hlock : r.world.lock = some c) (hgrants : r.world.grants = ⟨[], answer⟩) :
    Hears c (if answer.delay = 0 then some answer.value else none)
        (r.asked (.lock c.settings.lockRequest)) r.renew ∧
      (Loop.ofAnswer answer).Is r.renew.renewal ∧ r.renew.script = r.script := by
  rw [Loop.ofAnswer]
  by_cases hdelay : answer.delay = 0
  · rw [if_pos hdelay, if_pos hdelay, renew_eq hlock hgrants hdelay]
    exact hears_renewed (r := r.asked (.lock c.settings.lockRequest)) hlock answer.value
  · simp only [renew, hlock, request_lock hgrants, hdelay, if_false]
    exact ⟨⟨hlock, rfl, (List.append_nil _).symm⟩, ⟨_, rfl⟩, rfl⟩

theorem hears_acquired (hlock : r.world.lock = some c) (grant : Grant) :
    Hears c (some grant) r (r.acquired grant) ∧ (r.acquired grant).renewal = r.renewal ∧
      (r.acquired grant).script = .idle (.flag (LockClient.isGranted grant)) := by
  rw [acquired, World.attempted, hlock]
  exact ⟨⟨rfl, rfl, rfl⟩, rfl, rfl⟩

theorem hears_tryAcquire (hlock : r.world.lock = some c)
    (hgrants : r.world.grants = ⟨[], answer⟩) :
    let r' := r.tryAcquire.join.hear
    Hears c (some answer.value) (r.asked (.lock c.settings.lockRequest)) r' ∧
      r'.renewal = r.renewal ∧ ∃ reply, r'.script = .idle reply := by
  let r₁ := r.asked (.lock c.settings.lockRequest)
  have hrequest := request_lock hgrants c.settings.lockRequest
  by_cases hdelay : answer.delay = 0
  · have htry : r.tryAcquire = r₁.acquired answer.value := by
      simp only [tryAcquire, hlock, hrequest, hdelay, if_true]
      rfl
    obtain ⟨hhears, hsame, hidle⟩ := hears_acquired (r := r₁) hlock answer.value
    rw [htry, join_of_idle hidle, hear_of_idle hidle]
    exact ⟨hhears, hsame, _, hidle⟩
  · let due := r.world.clock + answer.delay
    let r₂ := { r₁ with
      world := { r₁.world with clock := max r₁.world.clock due }
      tickets := r.tickets + 1
      script := .attempting answer.value ⟨due, r.tickets⟩ }
    have htry : r.tryAcquire.join.hear = r₂.acquired answer.value := by
      simp only [tryAcquire, hlock, hrequest, hdelay, if_false]
      rfl
    obtain ⟨hhears, hsame, hidle⟩ := hears_acquired (r := r₂) hlock answer.value
    rw [htry]
    exact ⟨⟨hhears.lock, hhears.calls, hhears.log⟩, hsame, _, hidle⟩

/-- The lock has been given back, if the client held it, and the client has stopped. -/
structure GivenBack (c : LockClient) (grant : Grant) (r r' : Rehearsal) : Prop where
  lock : r'.world.lock = some c.stopped
  loop : r'.renewal = r.renewal
  calls : r'.world.calls = r.world.calls ++
    if c.acquired then [⟨.release c.settings.releaseRequest, r.world.clock⟩] else []
  log : r'.world.log = r.world.log ++
    ((if c.acquired then [LockClient.releaseEvent grant] else []) ++ [.lockStopped])
  idle : ∃ reply, r'.script = .idle reply

theorem givenBack_giveBack (hlock : r.world.lock = some c)
    (hreleases : r.world.releases = ⟨[], answer⟩) :
    GivenBack c answer.value r r.giveBack.hear ∧ r.giveBack.join = r.giveBack := by
  let r₁ := { r with world := { r.world with lock := some c.stopped } }
  by_cases hacquired : c.acquired = true
  · let r₂ := r₁.asked (.release c.settings.releaseRequest)
    let events := [LockClient.releaseEvent answer.value, .lockStopped]
    have hrequest := request_release (r := r₁) hreleases c.settings.releaseRequest
    by_cases hdelay : answer.delay = 0
    · have hgiven : r.giveBack = (r₂.note events).reply .done := by
        simp only [giveBack, hlock, LockClient.release?, hacquired, if_true]
        rw [hrequest]
        simp only [hdelay, if_true]
        rfl
      rw [hgiven]
      exact ⟨⟨rfl, rfl, by rw [hacquired]; rfl, by rw [hacquired]; rfl, _, rfl⟩, rfl⟩
    · let due := r.world.clock + answer.delay
      have hgiven : r.giveBack = { r₂ with
          tickets := r.tickets + 1, script := .releasing answer.value ⟨due, r.tickets⟩ } := by
        simp only [giveBack, hlock, LockClient.release?, hacquired, if_true]
        rw [hrequest]
        simp only [hdelay, if_false]
        rfl
      rw [hgiven]
      exact ⟨⟨rfl, rfl, by rw [hacquired]; rfl, by rw [hacquired]; rfl, _, rfl⟩, rfl⟩
  · have hgiven : r.giveBack = (r₁.note [.lockStopped]).reply .done := by
      simp only [giveBack, hlock, LockClient.release?, hacquired]
      rfl
    rw [Bool.not_eq_true] at hacquired
    rw [hgiven]
    exact ⟨⟨rfl, rfl, by simp [hacquired]; rfl, by simp [hacquired]; rfl, _, rfl⟩, rfl⟩

end Steps

/-- What these deeds have made of a rehearsal. -/
structure Tells (settings : LockSettings) (deeds : List Deed) (r : Rehearsal) : Prop where
  lock : r.world.lock = some (Deed.client settings deeds)
  task : (Deed.loop deeds).Is r.renewal
  idle : ∃ reply, r.script = .idle reply

/-- What one more deed makes of a rehearsal. -/
structure Tells.Next (settings : LockSettings) (before : List Deed) (deed : Deed)
    (r r' : Rehearsal) : Prop extends Tells settings (before ++ [deed]) r' where
  calls : ∃ time, r'.world.calls =
    r.world.calls ++ (Deed.sent settings before deed).map (TimedCall.mk · time) ∧
      (deed.kind = .start → time = r.world.clock)
  log : r'.world.log = r.world.log ++ Deed.logged settings before deed

theorem Loop.Is.absent_iff {loop : Loop} {task : RenewalTask} (h : loop.Is task) :
    loop = .absent ↔ task = .absent := by
  cases loop with
  | absent => simpa [Is] using h
  | resting | asking =>
      obtain ⟨alarm, rfl⟩ := h
      simp

namespace Tells

open Deed

variable {settings : LockSettings} {before : List Deed} {deed : Deed} {r r₁ r' : Rehearsal}

theorem runs_iff (h : Tells settings before r) : runs before = true ↔ r.renewal ≠ .absent :=
  (runs_iff_loop before).trans (not_congr h.task.absent_iff)

theorem Next.of_hears {running : Bool} (time : Nat) (hjoins : joins before deed = false)
    (hruns : runs (before ++ [deed]) = running)
    (h : Hears ⟨settings, held before, running⟩ (outcome before deed) r₁ r')
    (hcalls : r₁.world.calls = r.world.calls ++
      if asks before deed then [⟨.lock settings.lockRequest, time⟩] else [])
    (htime : deed.kind = .start → time = r.world.clock)
    (hlog : r₁.world.log = r.world.log ++ begun before deed)
    (hloop : ((loop before).next deed).Is r'.renewal) (hidle : ∃ reply, r'.script = .idle reply) :
    Next settings before deed r r' where
  lock := by
    rw [h.lock, client, held_concat, hjoins, hruns, heldThen]
    cases outcome before deed <;> simp [LockClient.answered]
  task := loop_concat before deed ▸ hloop
  idle := hidle
  calls := by
    refine ⟨time, ?_, htime⟩
    rw [h.calls, hcalls, sent, hjoins]
    cases asks before deed <;> rfl
  log := by
    rw [h.log, hlog, List.append_assoc, logged, ended, hjoins]
    cases outcome before deed <;> simp [client, LockClient.attemptEvents]

theorem Next.of_idle (h : Tells settings before r) (hjoins : joins before deed = false)
    (hasks : asks before deed = false) (hnone : outcome before deed = none)
    (hnext : (loop before).next deed = loop before)
    (hruns : runs (before ++ [deed]) = runs before) (hlock : r'.world.lock = r.world.lock)
    (htask : r'.renewal = r.renewal) (hidle : ∃ reply, r'.script = .idle reply)
    (hcalls : r'.world.calls = r.world.calls)
    (hlog : r'.world.log = r.world.log ++ begun before deed) :
    Next settings before deed r r' := by
  have hhears : Hears (client settings before) (outcome before deed) r' r' := by
    rw [hnone]
    exact ⟨hlock.trans h.lock, rfl, (List.append_nil _).symm⟩
  have hsent : r'.world.calls = r.world.calls ++
      if asks before deed then [⟨.lock settings.lockRequest, r.world.clock⟩] else [] := by
    rw [hcalls, hasks]
    exact (List.append_nil _).symm
  refine .of_hears r.world.clock hjoins hruns hhears hsent (fun _ => rfl) hlog ?_ hidle
  rw [hnext, htask]
  exact h.task

theorem Next.of_givenBack {c : LockClient} (hjoins : joins before deed = true)
    (hkind : deed.kind = .stop) (hacquired : c.acquired = heldThen before deed)
    (hsettings : c.settings = settings) (h : GivenBack c deed.answer.value r₁ r')
    (habsent : r₁.renewal = .absent) (hcalls : r₁.world.calls = r.world.calls)
    (hlog : r₁.world.log = r.world.log ++
      ((outcome before deed).map (client settings before).attemptEvents).getD [] ++
        [.renewalStopping]) : Next settings before deed r r' where
  lock := by
    have hruns : runs (before ++ [deed]) = false := by rw [runs_concat, hkind]
    rw [h.lock, client, held_concat, hjoins, hruns, ← hsettings, Bool.not_true, Bool.and_false]
    rfl
  task := by
    have hloop : (loop before).next deed = .absent := by simp [Loop.next, hkind]
    rw [loop_concat, hloop, h.loop]
    exact habsent
  idle := h.idle
  calls := by
    have hasks : asks before deed = false := by simp [asks, hkind]
    refine ⟨r₁.world.clock, ?_, by simp [hkind]⟩
    rw [h.calls, hcalls, sent, hjoins, hasks, hacquired, hsettings]
    cases heldThen before deed <;> rfl
  log := by
    rw [h.log, hlog, logged, begun, ended, hjoins, hkind, hacquired]
    simp

theorem act_start_again (h : Tells settings before r) (hruns : runs before = true)
    (answer : Delayed Grant) : r.act ⟨.start, answer⟩ =
      ((r.serve answer).note [.lockAlreadyRunning]).reply .done := by
  have hlaunch : (r.serve answer).launch .start =
      ((r.serve answer).note [.lockAlreadyRunning]).reply .done := by
    have hlock : (r.serve answer).world.lock = some ⟨settings, held before, true⟩ := by
      rw [← hruns]
      exact h.lock
    simp only [launch, start, startLock, hlock, LockClient.started, LockClient.startEvent, if_true]
    rw [← hlock]
    rfl
  exact act_of_idle hlaunch rfl

theorem next_start (h : Tells settings before r) (answer : Delayed Grant) :
    Next settings before ⟨.start, answer⟩ r (r.act ⟨.start, answer⟩) := by
  have hruns : runs (before ++ [⟨.start, answer⟩]) = true := runs_concat before _
  cases hbefore : runs before with
  | true =>
      obtain ⟨hasks, hnone, hnext⟩ := start_of_runs hbefore answer
      rw [h.act_start_again hbefore]
      refine .of_idle h (by simp [joins]) hasks hnone hnext (hruns.trans hbefore.symm) rfl rfl
        ⟨_, rfl⟩ rfl ?_
      simp [begun, hbefore, note, World.note, serve, reply]
  | false =>
      have hloop := loop_of_not_runs hbefore
      let c : LockClient := ⟨settings, held before, true⟩
      let r₀ := { r.serve answer with
        world := { (r.serve answer).world with
          lock := some c, log := r.world.log ++ [Event.lockStarted] }
        script := .idle .done }
      have hlaunch : (r.serve answer).launch .start = r₀.renew := by
        have hlock : (r.serve answer).world.lock = some ⟨settings, held before, false⟩ := by
          rw [← hbefore]
          exact h.lock
        simp only [launch, start, startLock, hlock]
        rfl
      obtain ⟨hhears, hasking, hidle⟩ := hears_renew (r := r₀) (c := c) rfl rfl
      have hact : r.act ⟨.start, answer⟩ = r₀.renew := act_of_idle hlaunch hidle
      have houtcome : outcome before ⟨.start, answer⟩ =
          if answer.delay = 0 then some answer.value else none := by
        simp [outcome, hloop]
      rw [← houtcome] at hhears
      rw [hact]
      refine .of_hears r.world.clock (by simp [joins]) hruns hhears ?_ (fun _ => rfl) ?_ ?_
        ⟨_, hidle⟩
      · simp only [asks, hloop]
        rfl
      · simp [begun, hbefore, asked, r₀]
      · simpa [Loop.next, hloop] using hasking

theorem next_tryAcquire (h : Tells settings before r) (answer : Delayed Grant) :
    Next settings before ⟨.tryAcquire, answer⟩ r (r.act ⟨.tryAcquire, answer⟩) := by
  have hruns : runs (before ++ [⟨.tryAcquire, answer⟩]) = runs before := runs_concat before _
  have hnext : (loop before).next ⟨.tryAcquire, answer⟩ = loop before := by
    cases loop before <;> rfl
  obtain ⟨hhears, hrenewal, hidle⟩ := hears_tryAcquire (r := r.serve answer) h.lock rfl
  refine .of_hears r.world.clock (by simp [joins]) hruns hhears rfl (by simp)
    (List.append_nil _).symm ?_ hidle
  have hsame : (r.act ⟨.tryAcquire, answer⟩).renewal = r.renewal := hrenewal
  rw [hnext, hsame]
  exact h.task

theorem next_renewal_of_absent (h : Tells settings before r) (hloop : loop before = .absent)
    (answer : Delayed Grant) :
    Next settings before ⟨.renewal, answer⟩ r (r.act ⟨.renewal, answer⟩) := by
  have hruns : runs (before ++ [⟨.renewal, answer⟩]) = runs before := runs_concat before _
  obtain ⟨reply, hscript⟩ := h.idle
  have htask := h.task
  rw [hloop] at htask
  have hact : r.act ⟨.renewal, answer⟩ = r.serve answer := by
    have habsent : (r.serve answer).renewal = .absent := htask
    have hlaunch : (r.serve answer).launch .renewal = r.serve answer := by
      simp only [launch, renewalAlarm?, habsent, wake]
    exact act_of_idle hlaunch hscript
  rw [hact]
  refine .of_idle h ?_ ?_ ?_ ?_ hruns rfl rfl ⟨_, hscript⟩ rfl (List.append_nil _).symm
  · simp [joins]
  · simp [asks, hloop]
  · simp [outcome, hloop]
  · rw [hloop]
    rfl

theorem next_renewal_of_resting (h : Tells settings before r) (hloop : loop before = .resting)
    (answer : Delayed Grant) :
    Next settings before ⟨.renewal, answer⟩ r (r.act ⟨.renewal, answer⟩) := by
  have hruns : runs (before ++ [⟨.renewal, answer⟩]) = runs before := runs_concat before _
  obtain ⟨reply, hscript⟩ := h.idle
  have htask := h.task
  rw [hloop] at htask
  obtain ⟨alarm, hresting⟩ := htask
  let r₀ := { r.serve answer with
    world := { (r.serve answer).world with clock := max r.world.clock alarm.due } }
  have hlaunch : (r.serve answer).launch .renewal = r₀.renew := by
    have hrests : (r.serve answer).renewal = .resting alarm := hresting
    simp only [launch, renewalAlarm?, hrests, wake, goOn]
    rfl
  obtain ⟨hhears, hasking, hsame⟩ := hears_renew (r := r₀) h.lock rfl
  have hidle := hsame.trans hscript
  have houtcome : outcome before ⟨.renewal, answer⟩ =
      if answer.delay = 0 then some answer.value else none := by
    simp [outcome, hloop]
  rw [← houtcome] at hhears
  rw [act_of_idle hlaunch hidle]
  refine .of_hears r₀.world.clock ?_ hruns hhears ?_ (by simp) (List.append_nil _).symm ?_
    ⟨_, hidle⟩
  · simp [joins]
  · simp only [asks, hloop]
    rfl
  · simpa [Loop.next, hloop] using hasking

/-- The loop hears of the attempt that it has made. -/
theorem next_renewal_of_asking (h : Tells settings before r) {grant : Grant}
    (hloop : loop before = .asking grant) (answer : Delayed Grant) :
    Next settings before ⟨.renewal, answer⟩ r (r.act ⟨.renewal, answer⟩) := by
  have hruns : runs (before ++ [⟨.renewal, answer⟩]) = runs before := runs_concat before _
  obtain ⟨reply, hscript⟩ := h.idle
  have htask := h.task
  rw [hloop] at htask
  obtain ⟨alarm, hasking⟩ := htask
  let r₀ := { r.serve answer with
    world := { (r.serve answer).world with clock := max r.world.clock alarm.due } }
  have hlaunch : (r.serve answer).launch .renewal = r₀.renewed grant false := by
    have hasks : (r.serve answer).renewal = .attempting grant false alarm := hasking
    simp only [launch, renewalAlarm?, hasks, wake, goOn]
    rfl
  obtain ⟨hhears, hresting, hsame⟩ := hears_renewed (r := r₀) h.lock grant
  have hidle := hsame.trans hscript
  have houtcome : outcome before ⟨.renewal, answer⟩ = some grant := by simp [outcome, hloop]
  rw [← houtcome] at hhears
  rw [act_of_idle hlaunch hidle]
  refine .of_hears r₀.world.clock ?_ hruns hhears ?_ (by simp) (List.append_nil _).symm ?_
    ⟨_, hidle⟩
  · simp [joins]
  · simp only [asks, hloop]
    exact (List.append_nil _).symm
  · simpa [Loop.next, hloop] using hresting

theorem next_stop_of_absent (h : Tells settings before r) (hloop : loop before = .absent)
    (answer : Delayed Grant) :
    Next settings before ⟨.stop, answer⟩ r (r.act ⟨.stop, answer⟩) := by
  have hbefore : runs before = false := by
    by_contra hne
    exact (runs_iff_loop before).mp (Bool.of_not_eq_false hne) hloop
  have hruns : runs (before ++ [⟨.stop, answer⟩]) = runs before :=
    (runs_concat before _).trans hbefore.symm
  have htask := h.task
  rw [hloop] at htask
  have hact : r.act ⟨.stop, answer⟩ = (r.serve answer).reply .done := by
    have habsent : (r.serve answer).renewal = .absent := htask
    have hlaunch : (r.serve answer).launch .stop = (r.serve answer).reply .done := by
      simp only [launch, start, stopLock, habsent]
    exact act_of_idle hlaunch rfl
  rw [hact]
  refine .of_idle h ?_ ?_ ?_ ?_ hruns rfl rfl ⟨_, rfl⟩ rfl (List.append_nil _).symm
  · simp [joins, hbefore]
  · simp [asks]
  · simp [outcome, hloop]
  · rw [hloop]
    rfl

theorem next_stop_of_resting (h : Tells settings before r) (hloop : loop before = .resting)
    (answer : Delayed Grant) :
    Next settings before ⟨.stop, answer⟩ r (r.act ⟨.stop, answer⟩) := by
  have hbefore : runs before = true := (runs_iff_loop before).mpr (by simp [hloop])
  have htask := h.task
  rw [hloop] at htask
  obtain ⟨alarm, hresting⟩ := htask
  let r₀ := { r.serve answer with
    world := { (r.serve answer).world with log := r.world.log ++ [Event.renewalStopping] }
    script := .joiningRenewal
    renewal := .absent }
  have hlaunch : (r.serve answer).launch .stop = r₀.giveBack := by
    have halarm : (r.serve answer).renewal = .resting alarm := hresting
    simp only [launch, start, stopLock, halarm]
    rfl
  obtain ⟨hgiven, hjoined⟩ := givenBack_giveBack (r := r₀) h.lock rfl
  have hnone : outcome before ⟨.stop, answer⟩ = none := by simp [outcome, hloop]
  rw [act, hlaunch, hjoined]
  refine .of_givenBack ?_ rfl ?_ rfl hgiven rfl rfl ?_
  · simp [joins, hbefore]
  · rw [heldThen, hnone]
    rfl
  · rw [hnone]
    simp [r₀]

/-- A loop that waits for an answer hears it before it ends. -/
theorem next_stop_of_asking (h : Tells settings before r) {grant : Grant}
    (hloop : loop before = .asking grant) (answer : Delayed Grant) :
    Next settings before ⟨.stop, answer⟩ r (r.act ⟨.stop, answer⟩) := by
  have hbefore : runs before = true := (runs_iff_loop before).mpr (by simp [hloop])
  have htask := h.task
  rw [hloop] at htask
  obtain ⟨alarm, hasking⟩ := htask
  let c := (client settings before).answered grant
  let r₀ := { r.serve answer with
    world := { (r.serve answer).world with
      clock := max r.world.clock alarm.due
      lock := some c
      log := r.world.log ++ (client settings before).attemptEvents grant ++
        [Event.renewalStopping] }
    script := .joiningRenewal
    renewal := .absent }
  have hlaunch : ((r.serve answer).launch .stop).join = r₀.giveBack := by
    have halarm : (r.serve answer).renewal = .attempting grant false alarm := hasking
    have hlock : (r.serve answer).world.lock = some (client settings before) := h.lock
    simp only [launch, start, stopLock, halarm, join, renewalAlarm?, wake, goOn, renewed,
      World.attempted, hlock, if_true]
    rfl
  obtain ⟨hgiven, -⟩ := givenBack_giveBack (r := r₀) (c := c) rfl rfl
  have houtcome : outcome before ⟨.stop, answer⟩ = some grant := by simp [outcome, hloop]
  rw [act, hlaunch]
  refine .of_givenBack ?_ rfl ?_ rfl hgiven rfl rfl ?_
  · simp [joins, hbefore]
  · rw [heldThen, houtcome]
    rfl
  · rw [houtcome]
    rfl

theorem next (h : Tells settings before r) (deed : Deed) :
    Next settings before deed r (r.act deed) := by
  obtain ⟨kind, answer⟩ := deed
  cases kind with
  | start => exact h.next_start answer
  | stop =>
      cases hloop : loop before with
      | absent => exact h.next_stop_of_absent hloop answer
      | resting => exact h.next_stop_of_resting hloop answer
      | asking grant => exact h.next_stop_of_asking hloop answer
  | tryAcquire => exact h.next_tryAcquire answer
  | renewal =>
      cases hloop : loop before with
      | absent => exact h.next_renewal_of_absent hloop answer
      | resting => exact h.next_renewal_of_resting hloop answer
      | asking grant => exact h.next_renewal_of_asking hloop answer

end Tells
end Rehearsal
end Rollout
