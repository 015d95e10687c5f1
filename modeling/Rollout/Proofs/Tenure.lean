import Rollout.Proofs.Tenure.Step

/-!
# A lock client over whole runs

Whatever the service answers, the flag of a client, its loop, its requests and its log are those
that its deeds call for.
-/

namespace Rollout
namespace Rehearsal

section Run

open Deed

variable {settings : LockSettings} {w : World} {deeds before : List Deed} {deed : Deed}

theorem afterDeeds_concat (settings : LockSettings) (w : World) (deeds : List Deed) (deed : Deed) :
    afterDeeds settings w (deeds ++ [deed]) = (afterDeeds settings w deeds).act deed := by
  rw [afterDeeds, List.foldl_append]
  rfl

theorem settle_of_nextAlarm?_eq_none {r : Rehearsal} (h : r.nextAlarm? = none) (n : Nat) :
    settle n r = r := by
  cases n with
  | zero => rfl
  | succ n => simp only [settle, h]

theorem step_newLock (settings : LockSettings) (w : World) :
    ((ofWorld w).step (.newLock settings)).2 =
      { (ofWorld w) with
        world :=
          { w with lock := some (.ofSettings settings), queries := [], calls := [], log := [] }
        script := .idle (.settings settings) } := by
  have hsettle : settle patience ((ofWorld w).start (.newLock settings)) =
      (ofWorld w).start (.newLock settings) := settle_of_nextAlarm?_eq_none rfl patience
  simp only [step, hsettle]
  rfl

theorem tells_afterDeeds (settings : LockSettings) (w : World) (deeds : List Deed) :
    Tells settings deeds (afterDeeds settings w deeds) := by
  induction deeds using List.reverseRecOn with
  | nil =>
      rw [afterDeeds, List.foldl_nil, step_newLock]
      exact ⟨rfl, rfl, _, rfl⟩
  | append_singleton deeds deed ih =>
      rw [afterDeeds_concat]
      exact (ih.next deed).toTells

theorem next_afterDeeds (settings : LockSettings) (w : World) (before : List Deed) (deed : Deed) :
    Tells.Next settings before deed (afterDeeds settings w before)
      (afterDeeds settings w (before ++ [deed])) := by
  rw [afterDeeds_concat]
  exact (tells_afterDeeds settings w before).next deed

theorem lockRequest_of_mem_calls {call : TimedCall} {q : LockRequest}
    (hmem : call ∈ (afterDeeds settings w deeds).world.calls) (hcall : call.call = .lock q) :
    q = settings.lockRequest := by
  induction deeds using List.reverseRecOn with
  | nil =>
      rw [afterDeeds, List.foldl_nil, step_newLock] at hmem
      cases hmem
  | append_singleton deeds deed ih =>
      obtain ⟨time, hcalls, -⟩ := (next_afterDeeds settings w deeds deed).calls
      rw [hcalls, List.mem_append] at hmem
      rcases hmem with hmem | hmem
      · exact ih hmem
      · obtain ⟨sentCall, hsent, rfl⟩ := List.mem_map.mp hmem
        obtain rfl : sentCall = .lock q := hcall
        rw [sent, List.mem_append] at hsent
        rcases hsent with hsent | hsent
        · split at hsent
          · exact LockCall.lock.inj (List.mem_singleton.mp hsent)
          · cases hsent
        · split at hsent
          · cases List.mem_singleton.mp hsent
          · cases hsent

theorem calls_of_not_runs (hruns : runs before = false) {later : List Deed}
    (hlater : ∀ deed ∈ later, deed.kind ≠ .start ∧ deed.kind ≠ .tryAcquire) :
    runs (before ++ later) = false ∧
      (afterDeeds settings w (before ++ later)).world.calls =
        (afterDeeds settings w before).world.calls := by
  induction later using List.reverseRecOn with
  | nil =>
      rw [List.append_nil]
      exact ⟨hruns, rfl⟩
  | append_singleton later deed ih =>
      obtain ⟨hidle, hcalls⟩ := ih fun d hd => hlater d (List.mem_append_left [deed] hd)
      obtain ⟨hstart, htry⟩ := hlater deed (List.mem_append_right later List.mem_cons_self)
      have hloop := loop_of_not_runs hidle
      have hsent : sent settings (before ++ later) deed = [] := by
        cases hkind : deed.kind with
        | start => exact absurd hkind hstart
        | tryAcquire => exact absurd hkind htry
        | stop | renewal => simp [sent, asks, joins, hkind, hidle, hloop]
      have hruns' : runs (before ++ later ++ [deed]) = false := by
        rw [runs_concat]
        cases hkind : deed.kind with
        | start => exact absurd hkind hstart
        | tryAcquire => exact absurd hkind htry
        | stop => rfl
        | renewal => exact hidle
      obtain ⟨time, hnext, -⟩ := (next_afterDeeds settings w (before ++ later) deed).calls
      rw [hsent, List.map_nil, List.append_nil, hcalls] at hnext
      rw [← List.append_assoc]
      exact ⟨hruns', hnext⟩

theorem count_lockStarted (settings : LockSettings) (w : World) (deeds : List Deed) :
    (afterDeeds settings w deeds).world.log.count .lockStarted =
      (afterDeeds settings w deeds).world.log.count .renewalStopping + (runs deeds).toNat := by
  induction deeds using List.reverseRecOn with
  | nil =>
      rw [afterDeeds, List.foldl_nil, step_newLock]
      rfl
  | append_singleton deeds deed ih =>
      obtain ⟨-, -, hstarted, hstopping⟩ := count_logged settings deeds deed
      rw [(next_afterDeeds settings w deeds deed).log, List.count_append, List.count_append,
        hstarted, hstopping, ih, joins, runs_concat]
      cases deed.kind <;> cases runs deeds <;> simp

/-- The client follows its deeds, whatever the service answers. Its flag is the outcome of the
latest attempt, unless a stop has joined the loop since. At most one loop runs: a start while one
runs only says so, and any other start asks for the lock at once. A stop that joins the loop gives
back, once, a lock that is held when the loop has ended, whatever comes of it, and nothing is sent
until the next start or attempt. The lock is asked for with the request of the settings only. The
log tells of it at the attempts that turn the flag, and nowhere else. -/
theorem client_follows_deeds (settings : LockSettings) (w : World) (before : List Deed)
    (deed : Deed) :
    let r := afterDeeds settings w before
    let r' := afterDeeds settings w (before ++ [deed])
    (r.world.lock = some ⟨settings, held before, runs before⟩ ∧
      (runs before = true ↔ r.renewal ≠ .absent) ∧
      r.world.log.count .lockStarted =
        r.world.log.count .renewalStopping + (runs before).toNat) ∧
    (deed.kind = .start → runs before = true →
      r' = ((r.serve deed.answer).note [.lockAlreadyRunning]).reply .done) ∧
    (deed.kind = .start → runs before = false →
      r'.renewal ≠ .absent ∧
        r'.world.calls = r.world.calls ++ [⟨.lock settings.lockRequest, r.world.clock⟩]) ∧
    (deed.kind = .stop → runs before = true →
      r'.world.lock = some ⟨settings, false, false⟩ ∧
        ∃ time, r'.world.calls = r.world.calls ++
          if heldThen before deed then [⟨.release settings.releaseRequest, time⟩] else []) ∧
    (deed.kind = .stop → runs before = false → r'.world.calls = r.world.calls) ∧
    (deed.kind = .stop → ∀ later : List Deed,
      (∀ d ∈ later, d.kind ≠ .start ∧ d.kind ≠ .tryAcquire) →
        (afterDeeds settings w (before ++ [deed] ++ later)).world.calls = r'.world.calls) ∧
    settings.releaseRequest.resource = settings.lockRequest.resource ∧
    (∀ call ∈ r.world.calls, ∀ q, call.call = .lock q → q = settings.lockRequest) ∧
    ∃ events, r'.world.log = r.world.log ++ events ∧
      events.count .lockAcquired =
        ((outcome before deed).any fun g => !held before && LockClient.isGranted g).toNat ∧
      events.count .lockLost =
        ((outcome before deed).any fun g => held before && !LockClient.isGranted g).toNat := by
  intro r r'
  have htells : Tells settings before r := tells_afterDeeds settings w before
  have hnext : Tells.Next settings before deed r r' := next_afterDeeds settings w before deed
  obtain ⟨hacquired, hlost, -, -⟩ := count_logged settings before deed
  obtain ⟨kind, answer⟩ := deed
  refine ⟨⟨htells.lock, htells.runs_iff, count_lockStarted settings w before⟩, ?_, ?_, ?_, ?_, ?_,
    rfl, fun _ hmem _ => lockRequest_of_mem_calls hmem, _, hnext.log, hacquired, hlost⟩
  · rintro rfl hruns
    exact (afterDeeds_concat settings w before _).trans (htells.act_start_again hruns answer)
  · rintro rfl hruns
    obtain ⟨time, hcalls, htime⟩ := hnext.calls
    have hruns' : runs (before ++ [⟨.start, answer⟩]) = true := runs_concat before _
    refine ⟨hnext.runs_iff.mp hruns', ?_⟩
    rw [hcalls, htime rfl]
    simp [sent, asks, joins, loop_of_not_runs hruns]
  · rintro rfl hruns
    obtain ⟨time, hcalls, -⟩ := hnext.calls
    have hjoins : joins before ⟨.stop, answer⟩ = true := by simp [joins, hruns]
    have hruns' : runs (before ++ [⟨.stop, answer⟩]) = false := runs_concat before _
    constructor
    · rw [hnext.lock, client, hruns', held_concat, hjoins, Bool.not_true, Bool.and_false]
    · refine ⟨time, ?_⟩
      rw [hcalls, sent, hjoins]
      cases heldThen before ⟨.stop, answer⟩ <;> simp [asks]
  · rintro rfl hruns
    obtain ⟨time, hcalls, -⟩ := hnext.calls
    rw [hcalls]
    simp [sent, asks, joins, hruns]
  · rintro rfl later hlater
    exact (calls_of_not_runs (runs_concat before _) hlater).2

end Run

/-- A loop is started and has the lock; it asks again, and while it waits a stop comes. The refusal
is heard before the loop has ended, so that nothing is given back. -/
theorem client_follows_deeds_sample :
    let settings := LockSettings.ofOwner "replica"
    let w := World.initial 0 false .empty
    let before : List Deed := [⟨.start, ⟨.ok (), 0⟩⟩, ⟨.renewal, ⟨.error (.transport "gone"), 3⟩⟩]
    let stop : Deed := ⟨.stop, ⟨.ok (), 0⟩⟩
    Deed.held before = true ∧ Deed.runs before = true ∧ stop.kind = .stop ∧
      (afterDeeds settings w (before ++ [stop])).world.lock = some ⟨settings, false, false⟩ ∧
      (afterDeeds settings w (before ++ [stop])).world.calls =
        (afterDeeds settings w before).world.calls := by
  intro settings w before stop
  have hruns : Deed.runs before = true := by decide
  have hrefused : Deed.heldThen before stop = false := by decide
  obtain ⟨-, -, -, hstop, -⟩ := client_follows_deeds settings w before stop
  obtain ⟨hlock, time, hcalls⟩ := hstop rfl hruns
  rw [hrefused] at hcalls
  exact ⟨by decide, hruns, rfl, hlock, hcalls.trans (List.append_nil _)⟩

end Rehearsal
end Rollout
