import Rollout.Proofs.Turn

/-!
# Atomicity

An edit that fails leaves the store as it was, byte for byte, even if rows are no records. So the
report of a cycle tells what happened to the store: nothing in the turn of a deployment that was
skipped or failed, and in the turn of one that moved the one edit that it reports.
-/

namespace Rollout

namespace Transaction

variable {α β : Type}

/-- Whatever store it runs on, the transaction returns only such results. -/
def Returns (q : Transaction α) (post : α → Prop) : Prop := ∀ s a s', q s = (.ok a, s') → post a

namespace Returns

variable {q : Transaction α} {f : α → Transaction β} {mid : α → Prop} {post : β → Prop}

theorem bind (hq : Returns q mid) (hf : ∀ a, mid a → Returns (f a) post) :
    Returns (q >>= f) post := by
  intro s b s' h
  obtain ⟨a, working, ha, hb⟩ := bind_ok.mp h
  exact hf a (hq s a working ha) working b s' hb

theorem next (hf : ∀ a, Returns (f a) post) : Returns (q >>= f) post := by
  have hq : Returns q fun _ => True := fun _ _ _ _ => trivial
  exact bind hq fun a _ => hf a

theorem pure {b : β} (h : post b) : Returns (Pure.pure b : Transaction β) post := by
  intro s b' s' hb
  obtain ⟨rfl, _⟩ := pure_ok.mp hb
  exact h

theorem throw (e : StoreError) : Returns (MonadExcept.throw e : Transaction β) post :=
  fun _ _ _ h => absurd h throw_ok

theorem expect (holds : Bool) (reason : Conflict) :
    Returns (Transaction.expect holds reason) fun _ => holds = true :=
  fun _ _ _ h => (expect_ok.mp h).1

end Returns
end Transaction

open Transaction

/-- The change that an edit reports is one of its own kind. -/
inductive Edit.Makes : Edit → Change → Prop where
  | step {old new : UInt32} (some_left : old ≠ 0) :
      Makes (.step old new) (.stepped (old - 1) (new + 1))
  | retire {stopOthers : Bool} {stopped : UInt32} : Makes (.retire stopOthers) (.retired stopped)
  | cutOver {moved restarted : UInt32} : Makes .cutOver (.cutOver moved restarted)

namespace Edit

variable {plan : Plan} {now : Time} {s s' : Store} {change : Change}

private theorem returns_step (plan : Plan) (expectedOld expectedNew : UInt32) (now : Time) :
    Returns (plan.step expectedOld expectedNew now) (Makes (.step expectedOld expectedNew)) := by
  refine Returns.next ?_
  intro _
  refine Returns.bind (Returns.expect _ _) ?_
  intro _ hleft
  refine Returns.next ?_
  intro d
  refine Returns.next ?_
  intro old
  refine Returns.next ?_
  intro new
  refine Returns.bind (Returns.expect _ _) ?_
  intro _ hold
  refine Returns.bind (Returns.expect _ _) ?_
  intro _ hnew
  split
  · refine Returns.next ?_
    intro _
    refine Returns.next ?_
    intro _
    rw [of_decide_eq_true hold, of_decide_eq_true hnew]
    exact .pure (.step (of_decide_eq_true hleft))
  · exact .throw _

private theorem returns_retire (plan : Plan) (stopOthers : Bool) (now : Time) :
    Returns (plan.retire stopOthers now) (Makes (.retire stopOthers)) := by
  refine Returns.next ?_
  intro _
  refine Returns.next ?_
  intro d
  refine Returns.next ?_
  intro old
  refine Returns.next ?_
  intro _
  refine Returns.next ?_
  intro _
  split
  · refine Returns.next ?_
    intro siblings
    refine Returns.next ?_
    intro _
    refine Returns.next ?_
    intro _
    exact .pure .retire
  · exact .pure .retire

private theorem returns_cutOver (plan : Plan) (now : Time) :
    Returns (plan.cutOver now) (Makes .cutOver) := by
  repeat refine Returns.next fun _ => ?_
  exact .pure .cutOver

theorem makes_of_apply {e : Edit} (h : e.apply plan now s = (.ok change, s')) :
    e.Makes change := by
  have hrun := Store.commit_ok.mp h
  cases e with
  | step expectedOld expectedNew => exact returns_step plan expectedOld expectedNew now _ _ _ hrun
  | retire stopOthers => exact returns_retire plan stopOthers now _ _ _ hrun
  | cutOver => exact returns_cutOver plan now _ _ _ hrun

end Edit

/-- What the turn with this entry made of a store: nothing at all, or the one call that the entry
reports, and then everything that its transaction wrote. -/
inductive Entry.Accounts (entry : Entry) (s : Store) : List Call → Store → Prop where
  | kept (not_moved : ∀ change, entry.result ≠ .ok (.moved change)) : Accounts entry s [] s
  | moved {call : Call} {change : Change} {t : Store} (moved : entry.result = .ok (.moved change))
      (deployment : call.plan.deployment = entry.deployment) (makes : call.edit.Makes change)
      (transaction : call.edit.transaction call.plan call.now s = (.ok change, t))
      (run : call.run s = (.ok change, t)) : Accounts entry s [call] t

theorem Entry.Accounts.after {entry : Entry} {s t : Store} {calls : List Call}
    (h : entry.Accounts s calls t) : t = Call.after calls s := by
  cases h with
  | kept => rfl
  | moved _ _ _ _ run => rw [Call.after, List.foldl_cons, List.foldl_nil, run]

theorem Entry.Accounts.length_calls {entry : Entry} {s t : Store} {calls : List Call}
    (h : entry.Accounts s calls t) :
    calls.length = if Report.isProgress entry.result then 1 else 0 := by
  cases h with
  | kept not_moved =>
      rcases hresult : entry.result with e | (change | reason)
      · rfl
      · exact absurd hresult (not_moved change)
      · rfl
  | moved moved => simp [moved, Report.isProgress, Outcome.progressed]

namespace Cycle

variable {stopOthers : Bool} {clock : Clock} {reporter : Reporter}

theorem turn_accounts (stopOthers : Bool) (now : Time) (reporter : AppProcess → Answer)
    (d : Deployment) (s : Store) :
    let after := turn stopOthers now reporter d s
    after.1.deployment = d.guid ∧ ∃ calls, after.1.Accounts s calls after.2 := by
  rcases turn_commit stopOthers now reporter d s with
    ⟨asked, r, h, hkept⟩ | ⟨pair, change, s', _, h, happly⟩
  · rw [h]
    exact ⟨rfl, [], .kept hkept⟩
  · let call : Call := ⟨pair.edit stopOthers, pair.plan d, now⟩
    have hrun : call.run s = (.ok change, s') := happly
    have htransaction : call.edit.transaction call.plan call.now s = (.ok change, s') :=
      Store.commit_ok.mp happly
    rw [h]
    exact ⟨rfl, [call], .moved rfl rfl (Edit.makes_of_apply happly) htransaction hrun⟩

/-- The turns of these deployments, the first of which has this number, with what each of them made
of the store. -/
inductive Accounts (stopOthers : Bool) (clock : Clock) (reporter : Reporter) :
    Nat → List Deployment → Store → Report → List Call → Store → Prop where
  | nil {n : Nat} {s : Store} : Accounts stopOthers clock reporter n [] s [] [] s
  | cons {n : Nat} {d : Deployment} {ds : List Deployment} {s t u : Store} {entry : Entry}
      {report : Report} {own calls : List Call}
      (turn : turn stopOthers (clock n) (reporter n) d s = (entry, t))
      (deployment : entry.deployment = d.guid) (accounts : entry.Accounts s own t)
      (rest : Accounts stopOthers clock reporter (n + 1) ds t report calls u) :
      Accounts stopOthers clock reporter n (d :: ds) s (entry :: report) (own ++ calls) u

theorem Accounts.after {n : Nat} {ds : List Deployment} {s t : Store} {report : Report}
    {calls : List Call} (h : Accounts stopOthers clock reporter n ds s report calls t) :
    t = Call.after calls s := by
  induction h with
  | nil => rfl
  | cons turn deployment accounts rest ih =>
      rw [ih, accounts.after, Call.after, Call.after, Call.after, List.foldl_append]

theorem Accounts.length_calls {n : Nat} {ds : List Deployment} {s t : Store} {report : Report}
    {calls : List Call} (h : Accounts stopOthers clock reporter n ds s report calls t) :
    calls.length = report.progressed := by
  induction h with
  | nil => rfl
  | cons turn deployment accounts rest ih =>
      rw [List.length_append, accounts.length_calls, ih, Report.progressed, Report.progressed,
        List.countP_cons, Nat.add_comm]

theorem turns_accounts (stopOthers : Bool) (clock : Clock) (reporter : Reporter) (n : Nat)
    (ds : List Deployment) (s : Store) :
    let after := turns stopOthers clock reporter n ds s
    ∃ calls, Accounts stopOthers clock reporter n ds s after.1 calls after.2 := by
  induction ds generalizing n s with
  | nil => exact ⟨[], .nil⟩
  | cons d ds ih =>
      obtain ⟨hguid, own, hown⟩ := turn_accounts stopOthers (clock n) (reporter n) d s
      obtain ⟨calls, hrest⟩ := ih (n + 1) (turn stopOthers (clock n) (reporter n) d s).2
      exact ⟨own ++ calls, .cons rfl hguid hown hrest⟩

/-- No failure leaves a trace in the store, and a cycle leaves the edits that its report tells of.
An edit that fails leaves the store as it was, and so does a cycle whose deployments cannot be
listed. In any other cycle each turn leaves the store as it was or makes the one edit that it
reports, and all these edits in the order of the report are what the cycle made of the store. -/
theorem update_accounts (s : Store) (stopOthers : Bool) (clock : Clock) (reporter : Reporter) :
    (∀ (e : Edit) (plan : Plan) (now : Time),
      (∃ change, (e.apply plan now s).1 = .ok change) ∨ (e.apply plan now s).2 = s) ∧
    ((∃ e, agenda s = .error e ∧ update stopOthers clock reporter s = (.error (.store e), s)) ∨
      ∃ ds report calls t, agenda s = .ok ds ∧
        update stopOthers clock reporter s = (.ok report, t) ∧
        Accounts stopOthers clock reporter 0 ds s report calls t ∧ t = Call.after calls s) := by
  constructor
  · intro e plan now
    rcases h : e.apply plan now s with ⟨reason | change, t⟩
    · exact .inr (Edit.store_of_apply_error h).symm
    · exact .inl ⟨change, rfl⟩
  · rw [update]
    cases hds : agenda s with
    | error e => exact .inl ⟨e, rfl, rfl⟩
    | ok ds =>
        obtain ⟨calls, hcalls⟩ := turns_accounts stopOthers clock reporter 0 ds s
        exact .inr ⟨ds, _, calls, _, rfl, rfl, hcalls, hcalls.after⟩

end Cycle

namespace Sample

/-- A deployment of an app that is not there. -/
def stray : Deployment := { deployment with guid := "stray", app := "gone" }

end Sample

/-- One deployment is skipped, one moves and one fails, and the cycle has made one call. -/
theorem Cycle.update_accounts_sample :
    let s := ((Sample.store 2 1).put Sample.rival).put Sample.stray
    let reporter : Reporter := fun n _ => if n = 0 then .error (.unavailable "") else .ok ∅
    ∃ ds report calls t, update true (fun _ => 9) reporter s = (.ok report, t) ∧
      report.map Entry.result = [.ok (.skipped (.unavailable "")), .ok (.moved (.stepped 1 2)),
        .error (.missingApp "gone")] ∧
      Accounts true (fun _ => 9) reporter 0 ds s report calls t ∧ calls.length = 1 ∧
      t = Call.after calls s := by
  intro s reporter
  have hresults : (update true (fun _ => 9) reporter s).1.toOption.map (List.map Entry.result) =
      some [.ok (.skipped (.unavailable "")), .ok (.moved (.stepped 1 2)),
        .error (.missingApp "gone")] := by
    decide +kernel
  rcases (update_accounts s true (fun _ => 9) reporter).2 with
    ⟨e, -, hupdate⟩ | ⟨ds, report, calls, t, -, hupdate, haccounts, hafter⟩
  · rw [hupdate] at hresults
    cases hresults
  · rw [hupdate] at hresults
    have hreport := Option.some.inj hresults
    refine ⟨ds, report, calls, t, hupdate, hreport, haccounts, ?_, hafter⟩
    have hprogressed : report.progressed =
        (report.map Entry.result).countP Report.isProgress := by
      rw [Report.progressed, List.countP_map]
      rfl
    rw [haccounts.length_calls, hprogressed, hreport]
    rfl

end Rollout
