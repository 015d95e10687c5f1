import Rollout.Lock.Service
import Rollout.Proofs.Config.Usable
import Rollout.Proofs.Tenure

/-!
# Renewals and the time to live

A loop hears one answer after another, each a retry interval and a delay after the one before, and
until it hears the next its client believes the last. A request may take as long as the service
allows. Whether a renewal is over before the grant that it is to prolong has run out is a matter of
the interval, that deadline and the time to live together; a configuration is accepted on the
interval and the time to live alone.
-/

namespace Rollout
namespace Rehearsal

namespace Deed

/-- The first attempt of a loop, up to its answer. -/
def opening (answer : Delayed Grant) : List Deed :=
  ⟨.start, answer⟩ :: if answer.delay = 0 then [] else [⟨.renewal, answer⟩]

/-- One more attempt of a loop that rests, up to its answer. -/
def round (answer : Delayed Grant) : List Deed :=
  ⟨.renewal, answer⟩ :: if answer.delay = 0 then [] else [⟨.renewal, answer⟩]

/-- A loop is started and makes an attempt for each answer. -/
def attempts : List (Delayed Grant) → List Deed
  | [] => []
  | answer :: rest => opening answer ++ rest.flatMap round

theorem attempts_concat (before : List (Delayed Grant)) (last answer : Delayed Grant) :
    attempts (before ++ [last] ++ [answer]) = attempts (before ++ [last]) ++ round answer := by
  cases before <;> simp [attempts]

end Deed

/-- The loop has just heard the outcome of an attempt, and rests. -/
structure Heard (settings : LockSettings) (grant : Grant) (r : Rehearsal) : Prop where
  lock : r.world.lock = some ⟨settings, LockClient.isGranted grant, true⟩
  task : ∃ ticket, r.renewal = .resting ⟨r.world.clock + settings.retry.millis, ticket⟩
  idle : ∃ reply, r.script = .idle reply

/-- The loop has just asked, and its flag is still the one of the attempt before. -/
structure Asking (settings : LockSettings) (flag : Bool) (answer : Delayed Grant) (r : Rehearsal) :
    Prop where
  lock : r.world.lock = some ⟨settings, flag, true⟩
  task : ∃ ticket, r.renewal =
    .attempting answer.value false ⟨r.world.clock + answer.delay, ticket⟩
  idle : ∃ reply, r.script = .idle reply

section Attempts

variable {settings : LockSettings} {flag : Bool} {grant : Grant} {answer : Delayed Grant}
  {r : Rehearsal}

theorem heard_renewed (hlock : r.world.lock = some ⟨settings, flag, true⟩)
    (hidle : ∃ reply, r.script = .idle reply) (grant : Grant) :
    Heard settings grant (r.renewed grant false) ∧
      (r.renewed grant false).world.clock = r.world.clock := by
  have hattempted : (r.world.attempted grant).clock = r.world.clock := by
    rw [World.attempted, hlock]
    rfl
  have hanswered : (r.world.attempted grant).lock =
      some ⟨settings, LockClient.isGranted grant, true⟩ := by
    rw [World.attempted, hlock]
    rfl
  rw [renewed_eq hlock]
  exact ⟨⟨hanswered, ⟨_, by rw [hattempted]⟩, hidle⟩, hattempted⟩

theorem heard_renew (hlock : r.world.lock = some ⟨settings, flag, true⟩)
    (hgrants : r.world.grants = ⟨[], answer⟩) (hidle : ∃ reply, r.script = .idle reply)
    (hdelay : answer.delay = 0) :
    Heard settings answer.value r.renew ∧ r.renew.world.clock = r.world.clock := by
  rw [renew_eq hlock hgrants hdelay]
  exact heard_renewed (r := r.asked (.lock settings.lockRequest)) hlock hidle answer.value

theorem asking_renew (hlock : r.world.lock = some ⟨settings, flag, true⟩)
    (hgrants : r.world.grants = ⟨[], answer⟩) (hidle : ∃ reply, r.script = .idle reply)
    (hdelay : answer.delay ≠ 0) :
    Asking settings flag answer r.renew ∧ r.renew.world.clock = r.world.clock := by
  simp only [renew, hlock, request_lock hgrants, hdelay, if_false]
  exact ⟨⟨hlock, ⟨_, rfl⟩, hidle⟩, rfl⟩

/-- The service answers this from now on, and an alarm is waited for. -/
def waited (r : Rehearsal) (answer : Delayed Grant) (delay : Nat) : Rehearsal :=
  { r.serve answer with
    world := { (r.serve answer).world with clock := max r.world.clock (r.world.clock + delay) } }

theorem clock_waited (r : Rehearsal) (answer : Delayed Grant) (delay : Nat) :
    (r.waited answer delay).world.clock = r.world.clock + delay :=
  Nat.max_eq_right (Nat.le_add_right _ _)

theorem Heard.act_eq (h : Heard settings grant r) (answer : Delayed Grant)
    (hidle : ∃ reply, (r.waited answer settings.retry.millis).renew.script = .idle reply) :
    r.act ⟨.renewal, answer⟩ = (r.waited answer settings.retry.millis).renew := by
  obtain ⟨reply, hidle⟩ := hidle
  obtain ⟨ticket, htask⟩ := h.task
  have hresting : (r.serve answer).renewal =
      .resting ⟨r.world.clock + settings.retry.millis, ticket⟩ := htask
  have hlaunch : (r.serve answer).launch .renewal =
      (r.waited answer settings.retry.millis).renew := by
    simp only [launch, renewalAlarm?, hresting, wake, goOn]
    rw [← hresting]
    rfl
  exact act_of_idle hlaunch hidle

theorem Heard.act_heard (h : Heard settings grant r) (hdelay : answer.delay = 0) :
    Heard settings answer.value (r.act ⟨.renewal, answer⟩) ∧
      (r.act ⟨.renewal, answer⟩).world.clock = r.world.clock + settings.retry.millis := by
  obtain ⟨hheard, hclock⟩ :=
    heard_renew (r := r.waited answer settings.retry.millis) h.lock rfl h.idle hdelay
  rw [h.act_eq answer hheard.idle]
  exact ⟨hheard, hclock.trans (clock_waited r answer _)⟩

theorem Heard.act_asking (h : Heard settings grant r) (hdelay : answer.delay ≠ 0) :
    Asking settings (LockClient.isGranted grant) answer (r.act ⟨.renewal, answer⟩) ∧
      (r.act ⟨.renewal, answer⟩).world.clock = r.world.clock + settings.retry.millis := by
  obtain ⟨hasking, hclock⟩ :=
    asking_renew (r := r.waited answer settings.retry.millis) h.lock rfl h.idle hdelay
  rw [h.act_eq answer hasking.idle]
  exact ⟨hasking, hclock.trans (clock_waited r answer _)⟩

theorem Asking.act (h : Asking settings flag answer r) (later : Delayed Grant) :
    Heard settings answer.value (r.act ⟨.renewal, later⟩) ∧
      (r.act ⟨.renewal, later⟩).world.clock = r.world.clock + answer.delay := by
  obtain ⟨ticket, htask⟩ := h.task
  obtain ⟨hheard, hclock⟩ :=
    heard_renewed (r := r.waited later answer.delay) h.lock h.idle answer.value
  have hasks : (r.serve later).renewal =
      .attempting answer.value false ⟨r.world.clock + answer.delay, ticket⟩ := htask
  have hlaunch : (r.serve later).launch .renewal =
      (r.waited later answer.delay).renewed answer.value false := by
    simp only [launch, renewalAlarm?, hasks, wake, goOn]
    rw [← hasks]
    rfl
  obtain ⟨reply, hidle⟩ := hheard.idle
  rw [act_of_idle hlaunch hidle]
  exact ⟨hheard, hclock.trans (clock_waited r later _)⟩

/-- A round ends a retry interval and a delay after the one before. -/
theorem Heard.round (h : Heard settings grant r) (answer : Delayed Grant) :
    Heard settings answer.value ((Deed.round answer).foldl Rehearsal.act r) ∧
      ((Deed.round answer).foldl Rehearsal.act r).world.clock =
        r.world.clock + settings.retry.millis + answer.delay := by
  rw [Deed.round]
  by_cases hdelay : answer.delay = 0
  · rw [if_pos hdelay, hdelay]
    exact h.act_heard hdelay
  · rw [if_neg hdelay]
    obtain ⟨hasking, hasked⟩ := h.act_asking hdelay
    obtain ⟨hheard, hclock⟩ := hasking.act answer
    exact ⟨hheard, by rw [← hasked]; exact hclock⟩

theorem heard_opening (settings : LockSettings) (w : World) (answer : Delayed Grant) :
    Heard settings answer.value (afterDeeds settings w (Deed.opening answer)) := by
  let fresh := ((ofWorld w).step (.newLock settings)).2
  let r := { fresh.serve answer with
    world := { (fresh.serve answer).world with
      lock := some ⟨settings, false, true⟩, log := fresh.world.log ++ [Event.lockStarted] }
    script := .idle .done }
  have hlock : (fresh.serve answer).world.lock = some (.ofSettings settings) := by
    simp only [fresh, step_newLock]
    rfl
  have hlaunch : (fresh.serve answer).launch .start = r.renew := by
    simp only [launch, start, startLock, hlock]
    rfl
  rw [afterDeeds, Deed.opening, List.foldl_cons]
  by_cases hdelay : answer.delay = 0
  · obtain ⟨hheard, -⟩ := heard_renew (r := r) rfl rfl ⟨_, rfl⟩ hdelay
    obtain ⟨reply, hidle⟩ := hheard.idle
    rw [if_pos hdelay, act_of_idle hlaunch hidle]
    exact hheard
  · obtain ⟨hasking, -⟩ := asking_renew (r := r) rfl rfl ⟨_, rfl⟩ hdelay
    obtain ⟨reply, hidle⟩ := hasking.idle
    rw [if_neg hdelay, act_of_idle hlaunch hidle]
    exact (hasking.act answer).1

/-- After any attempts the loop has heard the last of them. -/
theorem heard_attempts (settings : LockSettings) (w : World) (before : List (Delayed Grant))
    (last : Delayed Grant) :
    Heard settings last.value (afterDeeds settings w (Deed.attempts (before ++ [last]))) := by
  induction before using List.reverseRecOn generalizing last with
  | nil =>
    rw [List.nil_append, Deed.attempts, List.flatMap_nil, List.append_nil]
    exact heard_opening settings w last
  | append_singleton before earlier ih =>
    rw [Deed.attempts_concat, afterDeeds, List.foldl_append]
    exact ((ih earlier).round last).1

/-- The time at which the last attempt is heard. -/
def heardAt (settings : LockSettings) (w : World) (answers : List (Delayed Grant)) : Nat :=
  (afterDeeds settings w (Deed.attempts answers)).world.clock

theorem heardAt_concat (settings : LockSettings) (w : World) (before : List (Delayed Grant))
    (last answer : Delayed Grant) :
    heardAt settings w (before ++ [last] ++ [answer]) =
      heardAt settings w (before ++ [last]) + settings.retry.millis + answer.delay := by
  rw [heardAt, Deed.attempts_concat, afterDeeds, List.foldl_append]
  exact ((heard_attempts settings w before last).round answer).2

end Attempts

open LockService

/-- A client whose configuration was accepted renews in time, whatever answers the service has
given before and whenever within its deadline it gives the next, exactly if the time to live is
longer than the interval and the deadline together. An accepted configuration ensures only that it
is longer than the interval. The flag stays until the next answer is heard, and where the time to
live is not long enough that may be after the grant, counted from when it was heard of, has run
out. -/
theorem renews_in_time_iff {env : Environment} {text : String} {c : Config}
    (hc : Config.parse env text = .ok c) :
    let s := c.lockSettings
    s.retry.millis < s.ttl.millis ∧
    (s.ttl.millis : Int) = 1000 * s.lockRequest.ttlInSeconds.toInt ∧
    (∀ w before delay (next : Delayed Grant),
      let granted := before ++ [⟨.ok (), delay⟩]
      heardAt s w (granted ++ [next]) = heardAt s w granted + s.retry.millis + next.delay ∧
        (next.delay ≠ 0 →
          (afterDeeds s w (Deed.attempts granted ++ [⟨.renewal, next⟩])).world.lock =
            some ⟨s, true, true⟩)) ∧
    ((∀ w before delay (next : Delayed Grant), next.delay ≤ requestTimeout.millis →
        let granted := before ++ [⟨.ok (), delay⟩]
        heardAt s w (granted ++ [next]) < heardAt s w granted + s.ttl.millis) ↔
      s.retry.secs.toNat + requestTimeout.secs.toNat < s.ttl.secs.toNat) := by
  intro s
  obtain ⟨-, -, -, hmeets⟩ := Config.parse_eq_ok_iff.mp hc
  have houtlasting : c.updater.retry.toNat < c.updater.ttl.toNat := hmeets .outlasting
  have hretry : s.retry.millis = 1000 * s.retry.secs.toNat := Duration.millis_ofSecs _
  have httl : s.ttl.millis = 1000 * s.ttl.secs.toNat := Duration.millis_ofSecs _
  have hdeadline : requestTimeout.millis = 1000 * requestTimeout.secs.toNat :=
    Duration.millis_ofSecs _
  have hheard (w : World) (before : List (Delayed Grant)) (delay : Nat) (next : Delayed Grant) :=
    heardAt_concat s w before ⟨.ok (), delay⟩ next
  refine ⟨?_, ?_, fun w before delay next => ⟨hheard w before delay next, fun hnext => ?_⟩, ?_⟩
  · rw [hretry, httl]
    exact Nat.mul_lt_mul_of_pos_left houtlasting (by decide)
  · rw [httl, Config.ttl_lockRequest (hmeets .range), Int.natCast_mul]
    rfl
  · rw [afterDeeds, List.foldl_append]
    exact ((heard_attempts s w before ⟨.ok (), delay⟩).act_asking hnext).1.lock
  · constructor
    · intro hall
      let slowest : Delayed Grant := ⟨.ok (), requestTimeout.millis⟩
      have hlate := hall (.initial 0 false .empty) [] 0 slowest (Nat.le_refl _)
      simp only [hheard, hretry, httl, slowest, hdeadline] at hlate
      omega
    · intro hlong w before delay next hnext
      simp only [hheard, hretry, httl]
      omega

/-- A time to live of two seconds is accepted beside the default interval of one. The service takes
a second to say that another replica has the lock, and the client keeps its flag until then, when
the grant has run out. -/
theorem renews_in_time_iff_late :
    let text := "data_dir = \"/d\"\nlocket = [\"h\", 1, \"a\", \"b\", \"c\"]\n" ++
      "deployment_updater.lock_ttl_in_seconds = 2\ninstances_reporter.url = \"http://h\"\n"
    let w := World.initial 0 false .empty
    let granted : List (Delayed Grant) := [⟨.ok (), 0⟩]
    let next : Delayed Grant := ⟨.error (.alreadyHeld "lock-collision"), 1000⟩
    ∃ c, Config.parse ⟨some "replica-0", "7"⟩ text = .ok c ∧ c.locket ≠ none ∧
      let s := c.lockSettings
      ¬ s.retry.secs.toNat + requestTimeout.secs.toNat < s.ttl.secs.toNat ∧
        next.delay ≤ requestTimeout.millis ∧
        heardAt s w granted + s.ttl.millis ≤ heardAt s w (granted ++ [next]) ∧
        (afterDeeds s w (Deed.attempts granted ++ [⟨.renewal, next⟩])).world.lock =
          some ⟨s, true, true⟩ := by
  intro text w granted next
  let c : Config :=
    ⟨"/d", ⟨5, "replica-0", "cc-deployment-updater", 2, 1, true⟩, some ⟨"h", 1, "a", "b", "c"⟩,
      ⟨"http://h", 5⟩⟩
  have hc : Config.parse ⟨some "replica-0", "7"⟩ text = .ok c :=
    Config.parse_eq_ok_iff_decode?.mpr ⟨by decide +kernel, by decide⟩
  obtain ⟨-, -, hround, -⟩ := renews_in_time_iff hc
  obtain ⟨hheard, hflag⟩ := hround w [] 0 next
  have hexpiry : c.lockSettings.ttl.millis = c.lockSettings.retry.millis + next.delay := by decide
  refine ⟨c, hc, by decide, by decide, by decide, ?_, hflag (by decide)⟩
  rw [hexpiry, ← Nat.add_assoc]
  exact Nat.le_of_eq hheard.symm

end Rehearsal
end Rollout
