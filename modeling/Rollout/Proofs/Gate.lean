import Rollout.Daemon
import Rollout.Proofs.Scheduler

/-!
# The gate of the scheduler

Whether a call for a cycle is admitted depends on the moments before it only: on the latest attempt
for the lock, and on whether a stop has joined the renewal loop since. A run leaves what the
admitted cycles leave, one after another, wherever else attempts and stops come in between.
-/

namespace Rollout
namespace Scheduler

/-- Whether it writes the flag of the lock. -/
def Moment.writesFlag : Moment → Bool
  | .attempted _ | .joined => true
  | _ => false

def Moment.isSleep : Moment → Bool
  | .slept => true
  | _ => false

/-- Whether the latest attempt was granted, and no stop has joined the loop after it. -/
def held (ms : List Moment) : Bool :=
  match ms.reverse.find? Moment.writesFlag with
  | some (.attempted grant) => LockClient.isGranted grant
  | _ => false

/-- The calls for cycles, each with whether the lock was held when it came. -/
def calls (ms : List Moment) : List (Pass × Bool) :=
  ms.zipIdx.filterMap fun (m, i) =>
    match m with
    | .called p => some (p, held (ms.take i))
    | _ => none

/-- The cycles that these calls are to make. -/
def admitted (gated : Bool) (cs : List (Pass × Bool)) : List Pass :=
  (if gated then cs.filter Prod.snd else cs).map Prod.fst

/-- What these calls are to come to. -/
def outcomes (gated : Bool) : List (Pass × Bool) → Store → List (Option Report)
  | [], _ => []
  | (p, held) :: rest, s =>
    if !gated || held then (p.run s).1.toOption :: outcomes gated rest (p.run s).2
    else none :: outcomes gated rest s

theorem held_concat (ms : List Moment) (m : Moment) : held (ms ++ [m]) =
    match m with
    | .attempted grant => LockClient.isGranted grant
    | .joined => false
    | _ => held ms := by
  rw [held, List.reverse_append, List.reverse_singleton, List.singleton_append, List.find?_cons]
  cases m <;> rfl

theorem calls_concat (ms : List Moment) (m : Moment) : calls (ms ++ [m]) = calls ms ++
    match m with
    | .called p => [(p, held ms)]
    | _ => [] := by
  rw [calls, List.zipIdx_append, List.filterMap_append]
  congr 1
  · apply List.filterMap_congr
    rintro ⟨m', i⟩ hmem
    have hi : i < ms.length := by
      have := List.snd_lt_of_mem_zipIdx hmem
      omega
    cases m' with
    | called p => simp [List.take_append_of_le_length (Nat.le_of_lt hi)]
    | _ => rfl
  · cases m <;> simp

theorem admitted_concat (gated : Bool) (cs : List (Pass × Bool)) (p : Pass) (b : Bool) :
    admitted gated (cs ++ [(p, b)]) =
      admitted gated cs ++ if !gated || b then [p] else [] := by
  cases gated <;> cases b <;> simp [admitted]

theorem outcomes_concat (gated : Bool) (cs : List (Pass × Bool)) (p : Pass) (b : Bool) (s : Store) :
    outcomes gated (cs ++ [(p, b)]) s = outcomes gated cs s ++
      [if !gated || b then (p.run (Pass.after (admitted gated cs) s)).1.toOption else none] := by
  induction cs generalizing s with
  | nil =>
    cases gated <;> cases b <;> rfl
  | cons c cs ih =>
      obtain ⟨q, b'⟩ := c
      cases gated <;> cases b' <;> simp [outcomes, ih, admitted, Pass.after]

theorem asked_append (rs later : List (Option Report)) :
    asked (rs ++ later) = asked rs ++ asked later :=
  List.flatMap_append

/-- How many calls the scheduler has made beyond the sleeps that it has completed. -/
def Task.beyond : Task → Nat
  | .due => 0
  | _ => 1

theorem lock_advance {σ τ : Scheduler} (h : σ.advance = some τ) : τ.lock = σ.lock := by
  have hsame : σ.advance = σ.advance.map ({ · with lock := σ.lock }) := advance_withLock σ σ.lock
  rw [h, Option.map_some, Option.some.injEq] at hsame
  have hlock := congrArg Scheduler.lock hsame
  exact hlock

theorem beyond_advance {σ τ : Scheduler} (h : σ.advance = some τ) :
    σ.task.beyond = 1 ∧ τ.task.beyond = 1 := by
  have htakeUp : ∀ p before ds, (σ.takeUp p before ds).task.beyond = 1 := by
    intro p before ds
    cases ds <;> rfl
  rw [advance] at h
  split at h
  · next p htask =>
      rw [htask]
      split at h
      · cases h
        exact ⟨rfl, rfl⟩
      · cases h
        exact ⟨rfl, htakeUp _ _ _⟩
  · next htask =>
      cases h
      exact ⟨by rw [htask]; rfl, htakeUp _ _ _⟩
  · next htask =>
      cases h
      exact ⟨by rw [htask]; rfl, rfl⟩
  · cases h

/-- What holds of a scheduler after these moments. Its cycle, left to itself, would come to what the
calls so far are to come to. -/
structure Kept (gated : Bool) (s : Store) (ms : List Moment) (σ : Scheduler) : Prop where
  flag : σ.lock.map LockClient.acquired = if gated then some (held ms) else none
  drained : ∃ τ, Drains σ τ ∧ τ.advance = none ∧
    τ.store = Pass.after (admitted gated (calls ms)) s ∧
    τ.results = outcomes gated (calls ms) s ∧ τ.questions = asked τ.results
  idle : admitted gated (calls ms) = [] → σ.advance = none
  count : (calls ms).length = ms.countP Moment.isSleep + σ.task.beyond

namespace Kept

variable {gated : Bool} {s : Store} {ms : List Moment} {σ τ : Scheduler}

theorem start (gated : Bool) (settings : LockSettings) (s : Store) :
    Kept gated s [] (.start (if gated then some (.ofSettings settings) else none) s) where
  flag := by cases gated <;> rfl
  drained := ⟨_, .refl _, rfl, by cases gated <;> rfl, rfl, rfl⟩
  idle _ := rfl
  count := rfl

theorem admits (h : Kept gated s ms σ) : σ.admits = (!gated || held ms) := by
  have hflag := h.flag
  rw [Scheduler.admits]
  cases gated with
  | false =>
      rw [Option.map_eq_none_iff.mp hflag]
      rfl
  | true =>
      obtain ⟨c, hc, hacquired⟩ := Option.map_eq_some_iff.mp hflag
      rw [hc]
      exact hacquired

/-- Between two cycles the calls so far have come to what they are to come to. -/
theorem settled (h : Kept gated s ms σ) (hidle : σ.advance = none) :
    σ.store = Pass.after (admitted gated (calls ms)) s ∧
      σ.results = outcomes gated (calls ms) s ∧ σ.questions = asked σ.results := by
  obtain ⟨τ, hdrains, _, hstore, hresults, hquestions⟩ := h.drained
  obtain rfl := hdrains.eq_of_idle hidle
  exact ⟨hstore, hresults, hquestions⟩

theorem relock (h : Kept gated s ms σ) {m : Moment} (hcalls : calls (ms ++ [m]) = calls ms)
    (hsleep : m.isSleep = false) {lock : Option LockClient}
    (hflag : lock.map LockClient.acquired = if gated then some (held (ms ++ [m])) else none) :
    Kept gated s (ms ++ [m]) { σ with lock } where
  flag := hflag
  drained := by
    obtain ⟨τ, hdrains, hidle, hstore, hresults, hquestions⟩ := h.drained
    rw [hcalls]
    refine ⟨{ τ with lock }, hdrains.withLock lock, ?_, hstore, hresults, hquestions⟩
    rw [advance_withLock, hidle, Option.map_none]
  idle hnone := by
    rw [hcalls] at hnone
    rw [advance_withLock, h.idle hnone, Option.map_none]
  count := by
    rw [hcalls, h.count, List.countP_append]
    simp [hsleep]

theorem repose (h : Kept gated s ms σ) (hwaiting : σ.task = .waiting) {m : Moment}
    (hcalls : calls (ms ++ [m]) = calls ms) (hheld : held (ms ++ [m]) = held ms) {task : Task}
    (hidle : { σ with task }.advance = none)
    (hcount : [m].countP Moment.isSleep + task.beyond = 1) :
    Kept gated s (ms ++ [m]) { σ with task } where
  flag := by
    rw [hheld]
    exact h.flag
  drained := by
    have hwait : σ.advance = none := by simp [advance, hwaiting]
    obtain ⟨hstore, hresults, hquestions⟩ := h.settled hwait
    rw [hcalls]
    exact ⟨_, .refl _, hidle, hstore, hresults, hquestions⟩
  idle _ := hidle
  count := by
    rw [hcalls, h.count, List.countP_append, Nat.add_assoc, hcount, hwaiting]
    rfl

theorem called (h : Kept gated s ms σ) (hdue : σ.task = .due) (p : Pass) :
    Kept gated s (ms ++ [.called p])
      (if σ.admits then { σ with task := .listing p } else σ.finish none) := by
  have hidle : σ.advance = none := by simp [advance, hdue]
  obtain ⟨hstore, hresults, hquestions⟩ := h.settled hidle
  have hcalls : calls (ms ++ [.called p]) = calls ms ++ [(p, held ms)] := calls_concat ms _
  have hcount : (calls (ms ++ [.called p])).length =
      (ms ++ [Moment.called p]).countP Moment.isSleep + 1 := by
    simp [hcalls, h.count, hdue, Task.beyond, Moment.isSleep]
  have hflag : σ.lock.map LockClient.acquired =
      if gated then some (held (ms ++ [.called p])) else none := by
    rw [held_concat]
    exact h.flag
  have hadmitted := admitted_concat gated (calls ms) p (held ms)
  have houtcomes := outcomes_concat gated (calls ms) p (held ms) s
  rw [← hcalls] at hadmitted houtcomes
  rw [← hresults, ← hstore] at houtcomes
  rw [h.admits]
  cases hadmits : !gated || held ms with
  | true =>
      rw [hadmits, if_pos rfl] at hadmitted houtcomes
      refine ⟨hflag, ⟨_, drains_pass σ p, rfl, ?_, houtcomes.symm, ?_⟩, ?_, hcount⟩
      · rw [hadmitted, Pass.after_append, ← hstore]
        rfl
      · simp only [passed, hquestions, asked_append]
      · simp [hadmitted]
  | false =>
      rw [hadmits, if_neg (by simp)] at hadmitted houtcomes
      rw [List.append_nil] at hadmitted
      refine ⟨hflag, ⟨_, .refl _, rfl, ?_, houtcomes.symm, ?_⟩, fun _ => rfl, hcount⟩
      · rw [hadmitted]
        exact hstore
      · simp only [Bool.false_eq_true, if_false, finish, hquestions, asked_append]
        simp [asked]

theorem advanced (h : Kept gated s ms σ) (hstep : σ.advance = some τ) :
    Kept gated s (ms ++ [.advanced]) τ := by
  have hcalls : calls (ms ++ [.advanced]) = calls ms := by simp [calls_concat]
  refine ⟨?_, ?_, ?_, ?_⟩
  · rw [lock_advance hstep, held_concat]
    exact h.flag
  · obtain ⟨υ, hdrains, hidle, hleft⟩ := h.drained
    rw [hcalls]
    exact ⟨υ, hdrains.tail hidle hstep, hidle, hleft⟩
  · intro hnone
    rw [hcalls] at hnone
    rw [h.idle hnone] at hstep
    cases hstep
  · obtain ⟨hbefore, hafter⟩ := beyond_advance hstep
    rw [hcalls, h.count, hbefore, hafter, List.countP_append]
    rfl

private theorem flag_map (h : Kept gated s ms σ) {f : LockClient → LockClient} {b : Bool}
    (hf : ∀ c, (f c).acquired = b) :
    (σ.lock.map f).map LockClient.acquired = if gated then some b else none := by
  have hflag := h.flag
  cases gated with
  | false =>
      rw [Option.map_eq_none_iff.mp hflag]
      rfl
  | true =>
      obtain ⟨c, hc, _⟩ := Option.map_eq_some_iff.mp hflag
      rw [hc]
      exact congrArg some (hf c)

theorem step (h : Kept gated s ms σ) {m : Moment} (hstep : σ.step m = some τ) :
    Kept gated s (ms ++ [m]) τ := by
  cases m with
  | attempted grant =>
      obtain rfl := Option.some.inj hstep
      refine h.relock (by simp [calls_concat]) rfl ?_
      rw [held_concat]
      exact h.flag_map fun _ => rfl
  | joined =>
      obtain rfl := Option.some.inj hstep
      refine h.relock (by simp [calls_concat]) rfl ?_
      rw [held_concat]
      exact h.flag_map fun _ => rfl
  | called p =>
      rw [Scheduler.step] at hstep
      split at hstep
      · next hdue =>
          obtain rfl := Option.some.inj hstep
          exact h.called hdue p
      · cases hstep
  | advanced => exact h.advanced hstep
  | slept =>
      rw [Scheduler.step] at hstep
      split at hstep
      · next hwaiting =>
          obtain rfl := Option.some.inj hstep
          exact h.repose hwaiting (by simp [calls_concat]) (held_concat ms _) rfl rfl
      · cases hstep
  | shutDown =>
      rw [Scheduler.step] at hstep
      split at hstep
      · next hwaiting =>
          obtain rfl := Option.some.inj hstep
          exact h.repose hwaiting (by simp [calls_concat]) (held_concat ms _) rfl rfl
      · cases hstep

theorem run (h : Kept gated s ms σ) {later : List Moment} (hrun : σ.run later = some τ) :
    Kept gated s (ms ++ later) τ := by
  induction later generalizing ms σ with
  | nil =>
      obtain rfl := Option.some.inj hrun
      rwa [List.append_nil]
  | cons m later ih =>
      rw [run_cons] at hrun
      obtain ⟨ρ, hstep, hrun⟩ := Option.bind_eq_some_iff.mp hrun
      rw [← List.singleton_append, ← List.append_assoc]
      exact ih (h.step hstep) hrun

end Kept

section Refused

variable {ms : List Moment}

private theorem held_of_refused
    (h : ∀ grant, Moment.attempted grant ∈ ms → LockClient.isGranted grant = false) :
    held ms = false := by
  rw [held]
  split
  · next grant hfind => exact h grant (List.mem_reverse.mp (List.mem_of_find?_eq_some hfind))
  · rfl

private theorem calls_of_refused
    (h : ∀ grant, Moment.attempted grant ∈ ms → LockClient.isGranted grant = false) :
    ∀ c ∈ calls ms, c.2 = false := by
  intro c hc
  obtain ⟨⟨m, i⟩, _, hm⟩ := List.mem_filterMap.mp hc
  cases m with
  | called p =>
      cases hm
      exact held_of_refused fun grant hgrant => h grant (List.mem_of_mem_take hgrant)
  | _ => cases hm

private theorem outcomes_of_refused {cs : List (Pass × Bool)} (h : ∀ c ∈ cs, c.2 = false)
    (s : Store) : outcomes true cs s = cs.map fun _ => none := by
  induction cs with
  | nil => rfl
  | cons c cs ih =>
      obtain ⟨p, b⟩ := c
      obtain rfl : b = false := h _ List.mem_cons_self
      rw [outcomes, ih fun c hc => h c (List.mem_cons_of_mem _ hc)]
      rfl

end Refused

private theorem writesFlag_of_over {σ τ : Scheduler} (hover : σ.task = .over) {ms : List Moment}
    (h : σ.run ms = some τ) : ∀ m ∈ ms, m.writesFlag = true := by
  induction ms generalizing σ with
  | nil => simp
  | cons m ms ih =>
      rw [run_cons] at h
      obtain ⟨ρ, hstep, h⟩ := Option.bind_eq_some_iff.mp h
      cases m with
      | attempted | joined =>
          obtain rfl := Option.some.inj hstep
          have hrest : ∀ m ∈ ms, m.writesFlag = true := by
            apply ih _ h
            exact hover
          simpa [Moment.writesFlag] using hrest
      | _ => simp [Scheduler.step, advance, hover] at hstep

/-- The gate admits exactly the cycles that it should. A call makes a cycle unless there is a gate
and the lock is not held; then it does nothing. Between two cycles the store is what the admitted
ones have left, and a replica that is never granted its lock leaves it as it was. There is one call
before each wait and none after the shutdown. -/
theorem cycles_of_run (gated : Bool) (settings : LockSettings) (s : Store) {ms : List Moment}
    {σ : Scheduler}
    (h : (start (if gated then some (.ofSettings settings) else none) s).run ms = some σ) :
    (σ.task = .due → ∀ p : Pass,
      if gated = true ∧ held ms = false then
        σ.step (.called p) = some { σ with task := .waiting, results := σ.results ++ [none] }
      else ∃ k, σ.run (.called p :: List.replicate k .advanced) = some (σ.passed p)) ∧
    (σ.advance = none →
      σ.store = Pass.after (admitted gated (calls ms)) s ∧
        σ.results = outcomes gated (calls ms) s ∧ σ.questions = asked σ.results) ∧
    (gated = true →
      (∀ grant, Moment.attempted grant ∈ ms → LockClient.isGranted grant = false) →
      σ.store = s ∧ σ.questions = [] ∧ ∀ r ∈ σ.results, r = none) ∧
    (σ.task = .waiting ∨ σ.task = .over →
      (calls ms).length = 1 + ms.countP Moment.isSleep) ∧
    ∀ before after, ms = before ++ .shutDown :: after → ∀ m ∈ after, m.writesFlag = true := by
  have hkept : Kept gated s ms σ := (Kept.start gated settings s).run h
  refine ⟨?_, hkept.settled, ?_, ?_, ?_⟩
  · intro hdue p
    have hadmits := hkept.admits
    split
    · next hshut =>
        rw [hshut.1, hshut.2] at hadmits
        rw [Scheduler.step, hdue, hadmits]
        rfl
    · next hopen =>
        have hgate : (!gated || held ms) = true := by
          cases gated <;> cases hheld : held ms <;> simp_all
        obtain ⟨k, hk⟩ := σ.run_call hdue p
        rw [hadmits, hgate, if_pos rfl] at hk
        exact ⟨k, hk⟩
  · rintro rfl hrefused
    have hcalls := calls_of_refused hrefused
    have hadmitted : admitted true (calls ms) = [] := by
      simpa [admitted] using hcalls
    obtain ⟨hstore, hresults, hquestions⟩ := hkept.settled (hkept.idle hadmitted)
    rw [hadmitted] at hstore
    rw [outcomes_of_refused hcalls] at hresults
    rw [hquestions, hresults]
    refine ⟨hstore, ?_, ?_⟩
    · simp [asked]
    · simp
  · intro hrest
    have hcount := hkept.count
    rcases hrest with htask | htask
    · rw [hcount, htask, Nat.add_comm]
      rfl
    · rw [hcount, htask, Nat.add_comm]
      rfl
  · rintro before after rfl
    rw [run_append] at h
    obtain ⟨ρ, _, h⟩ := Option.bind_eq_some_iff.mp h
    rw [run_cons] at h
    obtain ⟨τ, hstep, h⟩ := Option.bind_eq_some_iff.mp h
    refine writesFlag_of_over ?_ h
    rw [Scheduler.step] at hstep
    split at hstep
    · rw [← Option.some.inj hstep]
    · cases hstep

theorem cycles_of_run_sample :
    let p : Pass := ⟨true, fun _ => 5, fun _ _ => .ok ∅⟩
    let s := Sample.store 2 1
    let ms : List Moment := [.called p, .slept, .attempted (.ok ()), .called p] ++
      List.replicate 3 .advanced ++ [.joined] ++ List.replicate 4 .advanced ++
      [.slept, .called p, .shutDown, .attempted (.ok ())]
    ∃ σ, (start (some (.ofSettings (.ofOwner "cell-1"))) s).run ms = some σ ∧
      σ.store = Pass.after [p] s ∧ (calls ms).length = 1 + 2 := by
  intro p s ms
  obtain ⟨σ, hrun⟩ : ∃ σ, (start (some (.ofSettings (.ofOwner "cell-1"))) s).run ms = some σ := by
    apply Option.isSome_iff_exists.mp
    decide +kernel
  have hover : ((start (some (.ofSettings (.ofOwner "cell-1"))) s).run ms).all
      (fun σ => σ.advance.isNone) = true := by
    decide +kernel
  rw [hrun] at hover
  obtain ⟨_, hsettled, _⟩ := cycles_of_run true (.ofOwner "cell-1") s hrun
  obtain ⟨hstore, _⟩ := hsettled (Option.isNone_iff_eq_none.mp hover)
  exact ⟨σ, hrun, hstore, rfl⟩

end Scheduler

/-- The cycle of a daemon is the call of a scheduler with its lock and its store. -/
theorem Daemon.run_cycle (d : Daemon) (now : Time) (detail : String)
    (connections : Guid → Connection) :
    let reporter : Reporter := fun _ p => d.backend.answer p.guid detail (connections p.guid)
    let p : Pass := ⟨d.config.updater.stopOthers, fun _ => now, reporter⟩
    ∃ k σ, (Scheduler.start d.lock d.store).run (.called p :: List.replicate k .advanced) = some σ ∧
      σ.task = .waiting ∧ σ.store = (d.cycle now detail connections).2.store := by
  intro reporter p
  obtain ⟨k, hk⟩ := (Scheduler.start d.lock d.store).run_call rfl p
  have hadmits : (Scheduler.start d.lock d.store).admits = d.admits := by
    rw [Scheduler.admits, Daemon.admits]
    cases d.lock <;> rfl
  refine ⟨k, _, hk, ?_⟩
  rw [hadmits, cycle]
  cases d.admits <;> exact ⟨rfl, rfl⟩

end Rollout
