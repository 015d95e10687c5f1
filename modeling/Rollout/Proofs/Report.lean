import Rollout.Proofs.Atomicity
import Rollout.Proofs.Edit.DeploymentRow
import Rollout.Rehearsal.Cycle

/-!
# The report accounts for a cycle

A cycle has a report unless a row of the deployments cannot be read, and then it does nothing. The
report has one entry for each deployment that was under way when the cycle began, in the order of
the bytes of their keys, whatever became of them; all other deployments keep their rows byte for
byte.
-/

namespace Rollout

namespace Report

variable {report : Report} {key : Guid}

theorem get?_eq_none : report.get? key = none ↔ key ∉ report.map Entry.deployment := by
  rw [get?, Option.map_eq_none_iff, List.find?_eq_none, List.mem_map]
  constructor
  · rintro h ⟨entry, hentry, hkey⟩
    exact h entry hentry (decide_eq_true hkey)
  · intro h entry hentry hkey
    exact h ⟨entry, hentry, of_decide_eq_true hkey⟩

theorem get?_of_mem (hnodup : (report.map Entry.deployment).Nodup) {entry : Entry}
    (h : entry ∈ report) : report.get? entry.deployment = some entry.result := by
  induction report with
  | nil => cases h
  | cons first rest ih =>
      rw [List.map_cons, List.nodup_cons] at hnodup
      rw [get?, List.find?_cons]
      rcases List.mem_cons.mp h with rfl | hrest
      · simp
      · have hne : first.deployment ≠ entry.deployment := by
          intro heq
          exact hnodup.1 (List.mem_map.mpr ⟨entry, hrest, heq.symm⟩)
        rw [decide_eq_false hne]
        exact ih hnodup.2 hrest

theorem counts (report : Report) :
    report.progressed + report.skipped + report.failed = report.length := by
  induction report with
  | nil => rfl
  | cons entry report ih =>
      rw [progressed, skipped, failed] at ih
      rw [progressed, skipped, failed, List.countP_cons, List.countP_cons, List.countP_cons,
        List.length_cons, ← ih]
      rcases hresult : entry.result with e | (change | reason)
      · simp [isProgress, isSkip, isFailure]
        omega
      · simp [isProgress, isSkip, isFailure, Outcome.progressed]
        omega
      · simp [isProgress, isSkip, isFailure, Outcome.progressed]
        omega

end Report

namespace Cycle

variable {s : Store} {stopOthers : Bool} {clock : Clock} {reporter : Reporter}

theorem agenda_of_readable (h : s.deployments.Readable Deployment) :
    agenda s = .ok ((s.deployments.records Deployment).filter fun d => d.state = .deploying) :=
  Store.select_of_readable h _

theorem agenda_of_not_readable (h : ¬ s.deployments.Readable Deployment) :
    agenda s = .error .notARecord :=
  Store.select_of_not_readable h _

theorem map_deployment_turns (stopOthers : Bool) (clock : Clock) (reporter : Reporter) (n : Nat)
    (ds : List Deployment) (s : Store) :
    (turns stopOthers clock reporter n ds s).1.map Entry.deployment = ds.map Deployment.guid := by
  induction ds generalizing n s with
  | nil => rfl
  | cons d ds ih =>
      have hfirst := (turn_accounts stopOthers (clock n) (reporter n) d s).1
      rw [List.map_cons, ← ih (n + 1) (turn stopOthers (clock n) (reporter n) d s).2, ← hfirst]
      rfl

theorem writesDeployment_turn (hs : KeyedRows Deployment s.deployments) (stopOthers : Bool)
    (now : Time) (reporter : AppProcess → Answer) (d : Deployment) :
    (turn stopOthers now reporter d s).2.WritesDeployment d.guid s.deployments := by
  rcases turn_commit stopOthers now reporter d s with ⟨_, _, h, _⟩ | ⟨_, _, _, _, h, happly⟩
  · rw [h]
    exact .refl hs d.guid
  · rw [h]
    exact Edit.writesDeployment_apply hs happly

theorem find?_turns (hs : KeyedRows Deployment s.deployments) (stopOthers : Bool) (clock : Clock)
    (reporter : Reporter) (n : Nat) {ds : List Deployment} {key : Guid}
    (hkey : key ∉ ds.map Deployment.guid) :
    (turns stopOthers clock reporter n ds s).2.deployments.find? key = s.deployments.find? key := by
  induction ds generalizing n s with
  | nil => rfl
  | cons d ds ih =>
      rw [List.map_cons, List.mem_cons, not_or] at hkey
      have hfirst := writesDeployment_turn hs stopOthers (clock n) (reporter n) d
      rw [← hfirst.others key hkey.1]
      exact ih hfirst.keyed (n + 1) hkey.2

section Entries

variable {ds : List Deployment} {report : Report}

theorem mem_entries (hs : KeyedRows Deployment s.deployments)
    (hds : Lists s.records.deployment (fun d => d.state = .deploying) ds)
    (hreport : report.map Entry.deployment = ds.map Deployment.guid) (key : Guid) :
    key ∈ report.map Entry.deployment ↔
      ∃ d, s.records.deployment key = some d ∧ d.state = .deploying := by
  rw [hreport, List.mem_map]
  constructor
  · rintro ⟨d, hd, rfl⟩
    obtain ⟨key, hrecord, hdeploying⟩ := (hds.mem_iff d).mp hd
    obtain rfl : d.guid = key := hs.guid_of_record hrecord
    exact ⟨d, hrecord, hdeploying⟩
  · rintro ⟨d, hrecord, hdeploying⟩
    exact ⟨d, (hds.mem_iff d).mpr ⟨key, hrecord, hdeploying⟩, hs.guid_of_record hrecord⟩

theorem ascending_entries
    (hds : Lists s.records.deployment (fun d => d.state = .deploying) ds)
    (hreport : report.map Entry.deployment = ds.map Deployment.guid) :
    (report.map fun entry => Utf8.encode entry.deployment).Pairwise (· < ·) := by
  have hkeys := congrArg (List.map Utf8.encode) hreport
  rw [List.map_map, List.map_map] at hkeys
  exact hkeys ▸ hds.ascending

theorem entries_eq_nil (hs : KeyedRows Deployment s.deployments)
    (hds : Lists s.records.deployment (fun d => d.state = .deploying) ds)
    (hreport : report.map Entry.deployment = ds.map Deployment.guid) :
    report = [] ↔ ∀ key d, s.records.deployment key = some d → d.state ≠ .deploying := by
  rw [← List.map_eq_nil_iff (f := Entry.deployment), List.eq_nil_iff_forall_not_mem]
  simp only [mem_entries hs hds hreport, not_exists, not_and, ne_eq]

end Entries

/-- The report is a complete account of a cycle. There is one unless a deployment cannot be read,
and then nothing is written and nobody is asked. It has one entry for each deployment under way,
found under its key and counted once, and a deployment that is over is neither reported nor
written. -/
theorem report_complete (s : Store) (stopOthers : Bool) (clock : Clock) (reporter : Reporter) :
    ((∃ e, (update stopOthers clock reporter s).1 = .error e) ↔
        ¬ s.deployments.Readable Deployment) ∧
      (¬ s.deployments.Readable Deployment → (update stopOthers clock reporter s).2 = s ∧
        ∀ w : Rehearsal.World, w.store = s →
          (w.beginCycle stopOthers).2.store = s ∧ (w.beginCycle stopOthers).2.queries = w.queries) ∧
      (KeyedRows Deployment s.deployments → ∃ report s',
        update stopOthers clock reporter s = (.ok report, s') ∧
        (∀ key, key ∈ report.map Entry.deployment ↔
          ∃ d, s.records.deployment key = some d ∧ d.state = .deploying) ∧
        (report.map fun entry => Utf8.encode entry.deployment).Pairwise (· < ·) ∧
        (∀ entry ∈ report, report.get? entry.deployment = some entry.result) ∧
        (∀ key, report.get? key = none ↔ key ∉ report.map Entry.deployment) ∧
        report.progressed + report.skipped + report.failed = report.length ∧
        (report = [] ↔ ∀ key d, s.records.deployment key = some d → d.state ≠ .deploying) ∧
        (report = [] → s' = s) ∧
        ∀ key d, s.records.deployment key = some d → d.state ≠ .deploying →
          key ∉ report.map Entry.deployment ∧
            s'.deployments.find? key = s.deployments.find? key) := by
  refine ⟨?_, ?_, ?_⟩
  · rw [update]
    by_cases h : s.deployments.Readable Deployment
    · rw [agenda_of_readable h]
      simp [h]
    · rw [agenda_of_not_readable h]
      simp [h]
  · intro h
    refine ⟨by rw [update, agenda_of_not_readable h], ?_⟩
    rintro w rfl
    have hagenda : agenda (w.note [.cycleStarted]).store = .error .notARecord :=
      agenda_of_not_readable h
    rw [Rehearsal.World.beginCycle, hagenda]
    exact ⟨rfl, rfl⟩
  · intro hs
    let ds := (s.deployments.records Deployment).filter fun d => d.state = .deploying
    let after := turns stopOthers clock reporter 0 ds s
    have hds : Lists s.records.deployment (fun d => d.state = .deploying) ds :=
      hs.lists_filter_records _
    have hreport : after.1.map Entry.deployment = ds.map Deployment.guid :=
      map_deployment_turns stopOthers clock reporter 0 ds s
    have hmem := mem_entries hs hds hreport
    have hnodup : (after.1.map Entry.deployment).Nodup := by
      rw [hreport]
      exact (Rows.ascending_filter_records hs _).nodup
    refine ⟨after.1, after.2, ?_, hmem, ascending_entries hds hreport,
      fun _ => Report.get?_of_mem hnodup, fun _ => Report.get?_eq_none, Report.counts _,
      entries_eq_nil hs hds hreport, ?_, ?_⟩
    · rw [update, agenda_of_readable hs.readable]
    · intro hempty
      have hnone : ds = [] := by
        rw [hempty, List.map_nil] at hreport
        exact List.map_eq_nil_iff.mp hreport.symm
      change (turns stopOthers clock reporter 0 ds s).2 = s
      rw [hnone]
      rfl
    · intro key d hrecord hover
      have hkey : key ∉ after.1.map Entry.deployment := by
        rw [hmem]
        rintro ⟨d', hrecord', hdeploying⟩
        obtain rfl := Option.some.inj (hrecord.symm.trans hrecord')
        exact hover hdeploying
      exact ⟨hkey, find?_turns hs stopOthers clock reporter 0 (hreport ▸ hkey)⟩

end Cycle

namespace Sample

/-- A deployment of the shop that is over. -/
def past : Deployment := { deployment with guid := "past", state := .deployed, webish := none }

/-- The store with a row of processes that holds no record. -/
def scarred (s : Store) : Store := { s with processes := s.processes.insert "scrap" [] }

theorem deployments_scarred (s : Store) : (scarred s).deployments = s.deployments := rfl

theorem deployment_scarred (s : Store) :
    (scarred s).records.deployment = s.records.deployment := rfl

end Sample

/-- The processes of this store cannot be walked over. -/
theorem Cycle.report_complete_sample :
    let s := Sample.scarred ((Sample.store 2 1).put Sample.past)
    KeyedRows Deployment s.deployments ∧ ∃ report s',
      update true (fun _ => 9) (fun _ _ => .ok ∅) s = (.ok report, s') ∧
      "rollout" ∈ report.map Entry.deployment ∧ "past" ∉ report.map Entry.deployment ∧
      s'.deployments.find? "past" = s.deployments.find? "past" := by
  intro s
  have hkeyed : KeyedRows Deployment s.deployments := by
    rw [Sample.deployments_scarred]
    exact ((Sample.keyed_store 2 1).put Sample.past).deployments
  have hdeployments : s.records.deployment = Function.update
      (Function.update (fun _ => none) "rollout" (some Sample.deployment)) "past"
      (some Sample.past) := by
    rw [Sample.deployment_scarred, Store.records_put_deployment, Sample.records_store]
    rfl
  have hrollout : s.records.deployment "rollout" = some Sample.deployment := by
    simp [hdeployments]
  have hpast : s.records.deployment "past" = some Sample.past := by
    simp [hdeployments]
  obtain ⟨-, -, hreport⟩ := report_complete s true (fun _ => 9) fun _ _ => .ok ∅
  obtain ⟨report, s', hupdate, hmem, -, -, -, -, -, -, hover⟩ := hreport hkeyed
  obtain ⟨hnone, hrow⟩ := hover "past" Sample.past hpast (by decide)
  exact ⟨hkeyed, report, s', hupdate, (hmem _).mpr ⟨_, hrollout, rfl⟩, hnone, hrow⟩

end Rollout
